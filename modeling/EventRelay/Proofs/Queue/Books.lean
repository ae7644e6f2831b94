import EventRelay.Proofs.Queue.Course
import EventRelay.Proofs.Queue.Steps

/-!
# What an action does to the events

A queue holds permits, flushes and runners as well as events.  `books` is what remains of a course
when all of those are left out: the stored events, the batches in flight, the counts and the journal.

Permits, flushes and runners change without a trace in the books (`books_release`,
`books_start` and so on).  So, whoever acts, the books make one of nine moves
(`Books.Move`, `Course.move_act`), and whatever the moves preserve holds after every run
(`Course.run_books`).

What an action that happens has done to the course is said once for each action that has several ways
to go (`Course.act?_push`, `Course.act?_finish` and so on), and for all those together that leave
batches, permits and flushes alone (`Course.act?_aside`).
-/

namespace EventRelay.Queue

/-- Everything about the events of a queue. -/
structure Books where
  /-- How the queue works. -/
  settings : Settings
  /-- The stored events. -/
  events : List Event
  /-- The ids in flight. -/
  processing : List EventId
  /-- The batches in flight. -/
  flights : List Flight
  /-- The outcomes of settled batches. -/
  outcomes : List (Nat × Outcome)
  /-- The number of batches dispatched. -/
  tickets : Nat
  /-- The number of events delivered. -/
  delivered : Nat
  /-- The number of batches that failed. -/
  failedBatches : Nat
  /-- What has happened. -/
  journal : List Note

/-- The books of a queue with a journal. -/
def books (q : Queue) (journal : List Note) : Books :=
  { settings := q.settings, events := q.store.events, processing := q.processing,
    flights := q.flights, outcomes := q.outcomes, tickets := q.tickets, delivered := q.delivered,
    failedBatches := q.failedBatches, journal }

/-- The books of a course. -/
def Course.books (c : Course) : Books :=
  c.queue.books c.journal

/-! ## The moves -/

namespace Books

/-- The end of the call for a batch, if it has ended. -/
def ending? (b : Books) (ticket : Nat) : Option Ending :=
  b.journal.findSome? (·.ending? ticket)

/-- What can be claimed. -/
def claimable (b : Books) (exclude : List EventId) : List Event :=
  Store.select (some b.settings.batchSize)
    (fun e => !b.processing.contains e.id && !exclude.contains e.id) b.events

/-- Everything that an action can do to the books. -/
inductive Move (b : Books) : Action → Books → Prop
  /-- Nothing. -/
  | quiet {a : Action} : Move b a b
  /-- Events are accepted. -/
  | accept {a : Action} (events : List Event) (ha : a.offers? = some events) :
      Move b a { b with
        events := b.events ++ events
        journal := b.journal ++ [.accepted events] }
  /-- Events are removed directly. -/
  | delete (ids : List EventId) :
      Move b (.delete ids) { b with
        events := Store.without ids b.events
        journal := b.journal ++ [.deleted ids] }
  /-- All events are removed directly. -/
  | clear :
      Move b .clear { b with
        events := []
        journal := b.journal ++ [.cleared] }
  /-- A batch is claimed. -/
  | claim {a : Action} (exclude : List EventId) (batch : Batch) (ha : a.mayClaim = true)
      (hb : batch.events = b.claimable exclude) :
      Move b a { b with
        processing := b.processing ++ batch.ids.eraseDups
        flights := b.flights ++ [⟨b.tickets, batch⟩]
        tickets := b.tickets + 1
        journal := b.journal ++ [.claimed ⟨b.tickets, batch⟩] }
  /-- A batch was delivered, and its events are removed. -/
  | deliver (flight : Flight) (ending : Ending) (hf : flight ∈ b.flights)
      (hn : b.ending? flight.ticket = none) (hd : ending.delivers = true) :
      Move b (.finish flight.ticket ending) { b with
        events := Store.without flight.batch.ids b.events
        delivered := b.delivered + flight.batch.size
        journal := b.journal ++ [.handled flight ending none] }
  /-- A batch was delivered, and its events cannot be removed. -/
  | retain (flight : Flight) (ending : Ending) (failure : StorageError)
      (hf : flight ∈ b.flights) (hn : b.ending? flight.ticket = none)
      (hd : ending.delivers = true) :
      Move b (.finish flight.ticket ending) { b with
        delivered := b.delivered + flight.batch.size
        journal := b.journal ++ [.handled flight ending (some failure)] }
  /-- A batch was not delivered. -/
  | fail (flight : Flight) (ending : Ending) (hf : flight ∈ b.flights)
      (hn : b.ending? flight.ticket = none) (hd : ending.delivers = false) :
      Move b (.finish flight.ticket ending) { b with
        failedBatches := b.failedBatches + 1
        journal := b.journal ++ [.handled flight ending none] }
  /-- A batch is taken out of flight. -/
  | land (flight : Flight) (ending : Ending) (hf : flight ∈ b.flights)
      (he : b.ending? flight.ticket = some ending) :
      Move b (.land flight.ticket) { b with
        processing := b.processing.filter fun id => !flight.batch.ids.contains id
        flights := b.flights.filter fun f => f.ticket != flight.ticket
        outcomes := (flight.ticket, ending.outcome) :: b.outcomes
        journal := b.journal ++ [.landed flight] }

end Books

/-- A move only adds to the journal. -/
theorem journal_extends {b b' : Books} {a : Action} (h : Books.Move b a b') :
    b.journal <+: b'.journal := by
  cases h with
  | quiet => exact List.prefix_refl _
  | _ => exact List.prefix_append _ _

/-! ## What leaves the books alone -/

theorem books_store (q : Queue) (store : Store) (j : List Note) :
    ({ q with store } : Queue).books j = { q.books j with events := store.events } := rfl

@[simp] theorem books_modifyFlush (q : Queue) (id : Nat) (f : Flush → Flush) (j : List Note) :
    (q.modifyFlush id f).books j = q.books j := rfl

@[simp] theorem books_release (q : Queue) (j : List Note) : q.release.books j = q.books j := by
  obtain ⟨_, _, _, hq⟩ := q.release_frame
  rw [hq]
  rfl

@[simp] theorem books_start (q : Queue) (tasks : Bool) (j : List Note) :
    (q.start tasks).2.books j = q.books j := by
  obtain ⟨_, _, _, _, _, hq⟩ := q.start_frame tasks
  rw [hq]
  rfl

@[simp] theorem books_stop (q : Queue) (j : List Note) : q.stop.2.books j = q.books j := by
  obtain ⟨_, _, _, _, hq⟩ := q.stop_frame
  rw [hq]
  rfl

/-! ## Claims -/

/-- What a queue can claim is what its books say. -/
theorem claimable_ok {q : Queue} {exclude : List EventId} {events : List Event} (j : List Note)
    (h : q.claimable exclude = .ok events) : events = (q.books j).claimable exclude :=
  Store.read_ok h

theorem move_quiet (q : Queue) (a : Action) (j : List Note) :
    (q.books j).Move a (q.books (j ++ [])) := by
  rw [List.append_nil]
  exact Books.Move.quiet

/-- The moves of actions that can claim a batch. -/
theorem move_claim {a : Action} (ha : a.mayClaim = true) (q : Queue) (exclude : List EventId)
    (j : List Note) :
    (q.books j).Move a ((q.claim exclude).2.books (j ++ (q.claim exclude).1.notes)) := by
  rcases q.claim_cases exclude with ⟨e, -, hq⟩ | ⟨-, hq⟩ | ⟨batch, hb, hq⟩
  · rw [hq, books_release]
    exact move_quiet q a j
  · rw [hq, books_release]
    exact move_quiet q a j
  · rw [hq]
    exact Books.Move.claim exclude batch ha (claimable_ok j hb)

theorem move_dispatch {a : Action} (ha : a.mayClaim = true) (q : Queue) (usable : Bool)
    (j : List Note) :
    (q.books j).Move a ((q.dispatch usable).2.books (j ++ (q.dispatch usable).1.notes)) := by
  rcases q.dispatch_cases usable with ⟨-, hq⟩ | ⟨-, -, hq⟩ | ⟨free, -, -, hq⟩
  · rw [hq]
    exact move_quiet q a j
  · rw [hq]
    exact move_quiet q a j
  · rw [hq]
    exact move_claim ha { q with free } [] j

theorem move_flush {q q₀ : Queue} {id : Nat} {f : Flush} {p : Progress} {g : Flush → Flush}
    (j : List Note) (h : FlushMove q id f p q₀ g) :
    (q.books j).Move (.flushStep id) (q₀.books (j ++ p.notes)) := by
  have hquiet := move_quiet q (.flushStep id) j
  cases h with
  | claim batch hs hc => exact Books.Move.claim f.attempted batch rfl (claimable_ok j hc)
  | exhaust hs hc =>
    rw [books_release]
    exact hquiet
  | giveUp e hs hc =>
    rw [books_release]
    exact hquiet
  | _ => exact hquiet

/-! ## Deliveries -/

theorem move_account (q : Queue) (flight : Flight) (ending : Ending) (j : List Note)
    (hf : flight ∈ q.flights) (hn : (q.books j).ending? flight.ticket = none) :
    (q.books j).Move (.finish flight.ticket ending)
      ((q.account flight.batch ending.outcome).2.books
        (j ++ [.handled flight ending (q.account flight.batch ending.outcome).1])) := by
  unfold account
  split
  · rename_i ho
    have hd : ending.delivers = true := by rw [Ending.delivers, ho]
    dsimp only
    split
    · rename_i store hs
      have hev := Store.events_delete hs
      have hmove := Books.Move.deliver (b := q.books j) flight ending hf hn hd
      simpa only [books, hev] using hmove
    · rename_i e he
      exact Books.Move.retain flight ending e hf hn hd
  · rename_i e ho
    have hd : ending.delivers = false := by rw [Ending.delivers, ho]
    exact Books.Move.fail flight ending hf hn hd

theorem books_land (q : Queue) (flight : Flight) (outcome : Outcome) (j : List Note) :
    (q.land flight outcome).books j =
      { q.books j with
        processing := q.processing.filter fun id => !flight.batch.ids.contains id
        flights := q.flights.filter fun f => f.ticket != flight.ticket
        outcomes := (flight.ticket, outcome) :: q.outcomes } := by
  obtain ⟨_, _, _, hq⟩ := q.land_frame flight outcome
  rw [hq]
  rfl

theorem move_land (q : Queue) (flight : Flight) (ending : Ending) (j : List Note)
    (hf : flight ∈ q.flights) (he : (q.books j).ending? flight.ticket = some ending) :
    (q.books j).Move (.land flight.ticket)
      ((q.land flight ending.outcome).books (j ++ [.landed flight])) := by
  rw [books_land]
  exact Books.Move.land flight ending hf he

/-! ## Every action -/

namespace Course

theorem flight?_mem {c : Course} {ticket : Nat} {flight : Flight}
    (h : c.flight? ticket = some flight) : flight ∈ c.queue.flights :=
  List.mem_of_find?_eq_some h

theorem flight?_ticket {c : Course} {ticket : Nat} {flight : Flight}
    (h : c.flight? ticket = some flight) : flight.ticket = ticket := by
  have hp := List.find?_some h
  simpa using hp

theorem flight?_of_mem {c : Course} {flight : Flight} (h : flight ∈ c.queue.flights) :
    ∃ flight', c.flight? flight.ticket = some flight' :=
  Option.isSome_iff_exists.1 (List.find?_isSome.2 ⟨flight, h, by simp⟩)

theorem act?_push {c c' : Course} {events : List Event} {tasks : Bool}
    (h : c.act? (.push events tasks) = some c') :
    (∃ e, c.queue.store.write events = .error e ∧ c' = c) ∨
    ∃ store, c.queue.store.write events = .ok store ∧
      (c.queue.wantsRunner = true ∧
          c' = c.next (({ c.queue with store } : Queue).start tasks).2 [.accepted events] ∨
        c.queue.wantsRunner = false ∧ c' = c.next { c.queue with store } [.accepted events]) := by
  simp only [act?, Queue.push] at h
  cases hw : c.queue.store.write events with
  | error e =>
    rw [hw] at h
    exact Or.inl ⟨e, rfl, (Option.some.inj h).symm⟩
  | ok store =>
    rw [hw] at h
    have hnext := Option.some.inj h
    split at hnext
    · rename_i hwants
      exact Or.inr ⟨store, rfl, Or.inl ⟨hwants, hnext.symm⟩⟩
    · rename_i hwants
      exact Or.inr ⟨store, rfl, Or.inr ⟨Bool.eq_false_iff.2 hwants, hnext.symm⟩⟩

theorem act?_write {c c' : Course} {events : List Event} (h : c.act? (.write events) = some c') :
    (∃ e, c.queue.store.write events = .error e ∧ c' = c) ∨
    ∃ store, c.queue.store.write events = .ok store ∧
      c' = c.next { c.queue with store } [.accepted events] := by
  simp only [act?] at h
  split at h
  · rename_i e hw
    exact Or.inl ⟨e, hw, (Option.some.inj h).symm⟩
  · rename_i store hw
    exact Or.inr ⟨store, hw, (Option.some.inj h).symm⟩

theorem act?_delete {c c' : Course} {ids : List EventId} (h : c.act? (.delete ids) = some c') :
    (∃ e, c.queue.store.delete ids = .error e ∧ c' = c) ∨
    ∃ store, c.queue.store.delete ids = .ok store ∧
      c' = c.next { c.queue with store } [.deleted ids] := by
  simp only [act?] at h
  split at h
  · rename_i e hd
    exact Or.inl ⟨e, hd, (Option.some.inj h).symm⟩
  · rename_i store hd
    exact Or.inr ⟨store, hd, (Option.some.inj h).symm⟩

/-- A tick is a dispatch by a runner that lives. -/
theorem act?_tick {c c' : Course} {runner now : Nat} (h : c.act? (.tick runner now) = some c') :
    (∃ r ∈ c.queue.runners, r.id = runner) ∧
      c' = c.next (c.queue.tick runner now c.usable).2 (c.queue.dispatch c.usable).1.notes := by
  simp only [act?] at h
  split at h
  · rename_i hlives
    obtain ⟨r, hr, hid⟩ := List.any_eq_true.1 hlives
    exact ⟨⟨r, hr, beq_iff_eq.1 hid⟩, (Option.some.inj h).symm⟩
  · cases h

theorem act?_flushStep {c c' : Course} {id : Nat} (h : c.act? (.flushStep id) = some c') :
    ∃ f p q₀ g, c.queue.flushes[id]? = some f ∧ FlushMove c.queue id f p q₀ g ∧
      c' = c.next (q₀.modifyFlush id g) p.notes := by
  obtain ⟨⟨p, q'⟩, hs, rfl⟩ := Option.map_eq_some_iff.1 h
  obtain ⟨f, q₀, g, hf, hmove, rfl⟩ := flushMove_of_flushStep hs
  exact ⟨f, p, q₀, g, hf, hmove, rfl⟩

theorem act?_finish {c c' : Course} {ticket : Nat} {ending : Ending}
    (h : c.act? (.finish ticket ending) = some c') :
    ∃ flight, flight.ticket = ticket ∧ flight ∈ c.queue.flights ∧ c.ending? ticket = none ∧
      c' = c.next (c.queue.account flight.batch ending.outcome).2
        [.handled flight ending (c.queue.account flight.batch ending.outcome).1] := by
  simp only [act?] at h
  split at h
  · rename_i flight hf hn
    exact ⟨flight, flight?_ticket hf, flight?_mem hf, hn, (Option.some.inj h).symm⟩
  · cases h

theorem act?_land {c c' : Course} {ticket : Nat} (h : c.act? (.land ticket) = some c') :
    ∃ flight ending, flight.ticket = ticket ∧ flight ∈ c.queue.flights ∧
      c.ending? ticket = some ending ∧
      c' = c.next (c.queue.land flight ending.outcome) [.landed flight] := by
  simp only [act?] at h
  split at h
  · rename_i flight ending hf he
    exact ⟨flight, ending, flight?_ticket hf, flight?_mem hf, he, (Option.some.inj h).symm⟩
  · cases h

/-- **An action aside** touches the store and what is known of runners, and nothing else. -/
theorem act?_aside {c c' : Course} {a : Action} (ha : a.isAside = true) (h : c.act? a = some c') :
    ∃ store running stopped current runners started,
      c'.queue = { c.queue with store, running, stopped, current, runners, started } := by
  cases a with
  | push events tasks =>
    obtain ⟨-, -, rfl⟩ | ⟨store, -, ⟨-, rfl⟩ | ⟨-, rfl⟩⟩ := act?_push h
    · exact ⟨_, _, _, _, _, _, rfl⟩
    · obtain ⟨_, _, _, _, _, hq⟩ := ({ c.queue with store } : Queue).start_frame tasks
      exact ⟨_, _, _, _, _, _, hq⟩
    · exact ⟨_, _, _, _, _, _, rfl⟩
  | write events =>
    obtain ⟨-, -, rfl⟩ | ⟨store, -, rfl⟩ := act?_write h <;> exact ⟨_, _, _, _, _, _, rfl⟩
  | delete ids =>
    obtain ⟨-, -, rfl⟩ | ⟨store, -, rfl⟩ := act?_delete h <;> exact ⟨_, _, _, _, _, _, rfl⟩
  | start tasks =>
    cases h
    obtain ⟨_, _, _, _, _, hq⟩ := c.queue.start_frame tasks
    exact ⟨_, _, _, _, _, _, hq⟩
  | stop =>
    cases h
    obtain ⟨_, _, _, _, hq⟩ := c.queue.stop_frame
    exact ⟨_, _, _, _, _, _, hq⟩
  | clear | faults _ | usability _ =>
    cases h
    exact ⟨_, _, _, _, _, _, rfl⟩
  | _ => cases ha

theorem books_next (c : Course) (queue : Queue) (notes : List Note) :
    (c.next queue notes).books = queue.books (c.journal ++ notes) := rfl

/-- Events that the store takes are accepted. -/
theorem move_accept {a : Action} {events : List Event} (ha : a.offers? = some events) (c : Course)
    {store : Store} (hw : c.queue.store.write events = .ok store) :
    c.books.Move a (c.next { c.queue with store } [.accepted events]).books := by
  rw [books_next, books_store, Store.events_write hw]
  exact Books.Move.accept events ha

/-- An action that happens makes one of the moves. -/
theorem move_act? {c c' : Course} {a : Action} (h : c.act? a = some c') :
    c.books.Move a c'.books := by
  have hquiet := move_quiet c.queue a c.journal
  cases a with
  | push events tasks =>
    obtain ⟨-, -, rfl⟩ | ⟨store, hw, hcases⟩ := act?_push h
    · exact Books.Move.quiet
    · have hmove := move_accept (a := .push events tasks) rfl c hw
      obtain ⟨-, rfl⟩ | ⟨-, rfl⟩ := hcases
      · rw [books_next, books_start]
        exact hmove
      · exact hmove
  | write events =>
    obtain ⟨-, -, rfl⟩ | ⟨store, hw, rfl⟩ := act?_write h
    · exact Books.Move.quiet
    · exact move_accept rfl c hw
  | delete ids =>
    obtain ⟨-, -, rfl⟩ | ⟨store, hd, rfl⟩ := act?_delete h
    · exact Books.Move.quiet
    · rw [books_next, books_store, Store.events_delete hd]
      exact Books.Move.delete ids
  | clear =>
    cases h
    exact Books.Move.clear
  | faults faults =>
    cases h
    exact hquiet
  | usability usable =>
    cases h
    exact Books.Move.quiet
  | start tasks =>
    cases h
    rw [books_next, books_start]
    exact hquiet
  | stop =>
    cases h
    rw [books_next, books_stop]
    exact hquiet
  | tick runner now =>
    obtain ⟨-, rfl⟩ := act?_tick h
    exact move_dispatch rfl _ _ _
  | dispatch =>
    cases h
    exact move_dispatch rfl _ _ _
  | callFlush =>
    cases h
    exact hquiet
  | flushStep id =>
    obtain ⟨f, p, q₀, g, -, hmove, rfl⟩ := act?_flushStep h
    rw [books_next, books_modifyFlush]
    exact move_flush c.journal hmove
  | finish ticket ending =>
    obtain ⟨flight, rfl, hm, hn, rfl⟩ := act?_finish h
    exact move_account _ flight ending _ hm hn
  | land ticket =>
    obtain ⟨flight, ending, rfl, hm, he, rfl⟩ := act?_land h
    exact move_land _ flight ending _ hm he

/-- **Whoever acts, the books make one of the moves.** -/
theorem move_act (c : Course) (a : Action) : c.books.Move a (c.act a).books := by
  rcases c.act_cases a with h | h
  · exact move_act? h
  · rw [h]
    exact Books.Move.quiet

/-- **What the moves preserve holds after every run.** -/
theorem run_books {P : Books → Prop} (hstep : ∀ {b a b'}, Books.Move b a b' → P b → P b') {c : Course}
    (hc : P c.books) (actions : List Action) : P (c.run actions).books :=
  run_induction (P := fun c => P c.books) hc (fun actions a => hstep ((c.run actions).move_act a))
    actions

end Course

/-- No action changes how the queue works. -/
theorem settings_run (settings : Settings) (store : Store) (actions : List Action) :
    ((Course.begin settings store).run actions).queue.settings = settings.normalized :=
  Course.run_books (P := fun b => b.settings = settings.normalized)
    (fun h hb => by cases h <;> exact hb) rfl actions

/-! ## Settling in two actions -/

/-- The end of a call and the landing of its batch, one right after the other: what is done to the
queue is what `settle` does. -/
theorem act_finish_land (c : Course) {ticket : Nat} {flight : Flight} (ending : Ending)
    (hf : c.flight? ticket = some flight) (hn : c.ending? ticket = none) :
    (c.act (.finish ticket ending)).act (.land ticket) =
      c.next (c.queue.settle ticket ending.outcome).2
        [.handled flight ending (c.queue.account flight.batch ending.outcome).1, .landed flight] := by
  have h₁ : c.act (.finish ticket ending) = c.next (c.queue.account flight.batch ending.outcome).2
      [.handled flight ending (c.queue.account flight.batch ending.outcome).1] :=
    Course.act_of_act? (by simp only [Course.act?, hf, hn])
  have hfl : (c.act (.finish ticket ending)).flight? ticket = some flight := by
    obtain ⟨_, _, _, -, hq⟩ := c.queue.account_frame flight.batch ending.outcome
    rw [h₁, Course.flight?, Course.next, hq]
    exact hf
  have hend : (c.act (.finish ticket ending)).ending? ticket = some ending := by
    rw [Course.ending?] at hn
    rw [h₁, Course.ending?, Course.next, List.findSome?_append, hn]
    simp [Note.ending?, Course.flight?_ticket hf]
  have h₂ : (c.act (.finish ticket ending)).act (.land ticket) =
      (c.act (.finish ticket ending)).next
        ((c.act (.finish ticket ending)).queue.land flight ending.outcome) [.landed flight] :=
    Course.act_of_act? (by simp only [Course.act?, hfl, hend])
  rw [Course.flight?] at hf
  rw [h₂, h₁, settle, hf]
  simp only [Course.next, List.append_assoc, List.cons_append, List.nil_append]

end EventRelay.Queue
