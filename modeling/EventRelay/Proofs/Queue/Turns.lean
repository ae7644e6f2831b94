import EventRelay.Proofs.Queue.Order
import Mathlib.Data.List.Induction

/-!
# The order of delivery

With one batch at a time and no flush, failures do not disturb the order: a batch is claimed with
nothing in flight, so that it takes the front of the store, and only what was claimed last can be
delivered next.

* `Books.InTurn` — the delivered events are the oldest ones, and what is in flight comes next.
* `inTurn_move`, `inTurn_run` — one move keeps this, and so does a run.
* `insertion_order` — **events go out in the order of acceptance**, with any number of batches in
  flight as long as nothing fails, and one batch at a time whatever fails.
-/

namespace EventRelay.Queue

/-! ## One batch at a time -/

/-- Batches are delivered in turn. -/
structure Books.InTurn (b : Books) : Prop where
  /-- What was delivered are the oldest events. -/
  delivered : deliveredEvents b.journal <+: accepted b.journal
  /-- A batch whose call has not ended is the front of the store. -/
  front : ∀ f ∈ b.flights, b.ending? f.ticket = none → f.batch.events <+: b.events
  /-- Every batch was claimed from the oldest events that were not delivered then. -/
  claimed : ∀ before flight after, b.journal = before ++ .claimed flight :: after →
    flight.batch.events <+: undelivered before

/-- When what was delivered are the oldest events, the others come after them. -/
theorem undelivered_eq_drop {journal : List Note} (hu : Untouched journal)
    (hpre : deliveredEvents journal <+: accepted journal) :
    undelivered journal = (accepted journal).drop (deliveredEvents journal).length := by
  have hdrop : (accepted journal).filter (fun e =>
        !(((accepted journal).take (deliveredEvents journal).length).map Event.id).contains e.id) =
      (accepted journal).drop (deliveredEvents journal).length :=
    filter_not_take hu.1.2 (deliveredEvents journal).length
  rw [← List.prefix_iff_eq_take.1 hpre, map_id_deliveredEvents] at hdrop
  exact hdrop

theorem deliveredEvents_concat_quiet {note : Note} (h : note.delivered? = none)
    (journal : List Note) : deliveredEvents (journal ++ [note]) = deliveredEvents journal := by
  simp [deliveredEvents, deliveries, h]

theorem deliveredEvents_concat {flight : Flight} {ending : Ending} (hd : ending.delivers = true)
    (failure : Option StorageError) (journal : List Note) :
    deliveredEvents (journal ++ [.handled flight ending failure]) =
      deliveredEvents journal ++ flight.batch.events := by
  simp [deliveredEvents, deliveries, Note.delivered?, hd]

/-- A claim in a journal with one more note is that note, or was there before. -/
theorem claim_of_concat {journal before after : List Note} {note : Note} {flight : Flight}
    (h : journal ++ [note] = before ++ .claimed flight :: after) :
    (journal = before ∧ note = .claimed flight) ∨
    ∃ after', journal = before ++ .claimed flight :: after' := by
  rcases List.eq_nil_or_concat after with rfl | ⟨after', last, rfl⟩
  · obtain ⟨hj, hn⟩ := List.append_inj' h rfl
    exact Or.inl ⟨hj, List.singleton_inj.1 hn⟩
  · rw [List.concat_eq_append, ← List.cons_append, ← List.append_assoc] at h
    exact Or.inr ⟨after', (List.append_inj' h rfl).1⟩

namespace Books.InTurn

variable {b : Books}

/-- A note that neither claims nor delivers, while the store loses nothing and no batch is new. -/
theorem concat_quiet (h : b.InTurn) {b' : Books} {note : Note}
    (hj : b'.journal = b.journal ++ [note]) (hc : note.claims? = none)
    (hd : note.delivered? = none) (he : b.events <+: b'.events)
    (hf : ∀ f ∈ b'.flights, f ∈ b.flights) : b'.InTurn := by
  refine ⟨?_, ?_, ?_⟩
  · rw [hj, deliveredEvents_concat_quiet hd]
    exact h.delivered.trans (accepted_extends _ _)
  · intro f hm hn
    rw [b.ending?_concat b' hj, Option.or_eq_none_iff] at hn
    exact (h.front f (hf f hm) hn.1).trans he
  · intro before flight after hsplit
    rw [hj] at hsplit
    rcases claim_of_concat hsplit with ⟨-, rfl⟩ | ⟨after', hbefore⟩
    · cases hc
    · exact h.claimed before flight after' hbefore

theorem claim (h : b.InTurn) (hevents : b.events = undelivered b.journal) {b' : Books}
    {flight : Flight} (hj : b'.journal = b.journal ++ [.claimed flight])
    (he : b'.events = b.events) (hf : b'.flights = b.flights ++ [flight])
    (hfront : flight.batch.events <+: b.events) : b'.InTurn := by
  refine ⟨?_, ?_, ?_⟩
  · rw [hj, deliveredEvents_concat_quiet rfl]
    exact h.delivered.trans (accepted_extends _ _)
  · intro f hm hn
    rw [b.ending?_concat_quiet b' hj rfl] at hn
    rw [he]
    rw [hf, List.mem_append, List.mem_singleton] at hm
    rcases hm with hm | rfl
    · exact h.front f hm hn
    · exact hfront
  · intro before flight' after hsplit
    rw [hj] at hsplit
    rcases claim_of_concat hsplit with ⟨rfl, hnote⟩ | ⟨after', hbefore⟩
    · cases hnote
      rw [← hevents]
      exact hfront
    · exact h.claimed before flight' after' hbefore

/-- The batch that is delivered is the front of the store, so that it continues what was delivered
before; and no other call is out. -/
theorem deliver (h : b.InTurn) (hevents : b.events = undelivered b.journal)
    (hu : Untouched b.journal) (hsingle : ∀ f ∈ b.flights, ∀ g ∈ b.flights, f = g)
    {flight : Flight} {ending : Ending} (hm : flight ∈ b.flights)
    (hn : b.ending? flight.ticket = none) (hd : ending.delivers = true) {b' : Books}
    (hj : b'.journal = b.journal ++ [.handled flight ending none])
    (hf : b'.flights = b.flights) : b'.InTurn := by
  refine ⟨?_, ?_, ?_⟩
  · obtain ⟨rest, hrest⟩ := h.front flight hm hn
    rw [hevents, undelivered_eq_drop hu h.delivered] at hrest
    have hall : deliveredEvents b.journal ++ flight.batch.events ++ rest = accepted b.journal := by
      rw [List.append_assoc, hrest]
      nth_rewrite 1 [List.prefix_iff_eq_take.1 h.delivered]
      exact List.take_append_drop _ _
    rw [hj, deliveredEvents_concat hd]
    exact List.IsPrefix.trans ⟨rest, hall⟩ (accepted_extends _ _)
  · intro f hfm hfn
    rw [hf] at hfm
    rw [b.ending?_concat b' hj, hsingle f hfm flight hm] at hfn
    simp [Note.ending?] at hfn
  · intro before flight' after hsplit
    rw [hj] at hsplit
    rcases claim_of_concat hsplit with ⟨-, hnote⟩ | ⟨after', hbefore⟩
    · cases hnote
    · exact h.claimed before flight' after' hbefore

end Books.InTurn

/-- **Every move keeps deliveries in turn**, if one batch is in flight at a time, and a claim takes
the front of the store. -/
theorem inTurn_move {b b' : Books} {a : Action} (h : Books.Move b a b')
    (hevents : b.events = undelivered b.journal) (hu : Untouched b'.journal)
    (hsingle : ∀ f ∈ b.flights, ∀ g ∈ b.flights, f = g)
    (hfront : ∀ flight, b'.journal = b.journal ++ [.claimed flight] →
      flight.batch.events <+: b.events) (hb : b.InTurn) : b'.InTurn := by
  cases h with
  | quiet => exact hb
  | accept events ha =>
    exact hb.concat_quiet rfl rfl rfl (List.prefix_append _ _) (fun f hf => hf)
  | delete ids =>
    have hdirect := hu.2 _ (List.mem_append_right _ (List.mem_singleton_self _))
    cases hdirect
  | clear =>
    have hdirect := hu.2 _ (List.mem_append_right _ (List.mem_singleton_self _))
    cases hdirect
  | claim exclude batch ha hbatch => exact hb.claim hevents rfl rfl rfl (hfront _ rfl)
  | deliver flight ending hf hn hd =>
    exact hb.deliver hevents hu.of_append hsingle hf hn hd rfl rfl
  | retain flight ending failure hf hn hd =>
    have hfail := hu.1.1 _ (List.mem_append_right _ (List.mem_singleton_self _))
    cases hfail
  | fail flight ending hf hn hd =>
    exact hb.concat_quiet rfl rfl (by simp [Note.delivered?, hd]) (List.prefix_refl _)
      (fun f hf => hf)
  | land flight ending hf he =>
    exact hb.concat_quiet rfl rfl rfl (List.prefix_refl _) (fun f hf => List.mem_of_mem_filter hf)

/-- Without a call there is no flush. -/
theorem flushes_eq_nil (settings : Settings) (store : Store) {actions : List Action}
    (ha : ∀ a ∈ actions, a ≠ .callFlush) :
    ((Course.begin settings store).run actions).queue.flushes = [] := by
  induction actions using List.reverseRecOn with
  | nil => rfl
  | append_singleton actions a ih =>
    have hnone := ih fun a' ha' => ha a' (List.mem_append_left _ ha')
    have hl := (supplied_run settings store actions).lined
    rw [Course.run_concat]
    generalize (Course.begin settings store).run actions = c at hnone hl ⊢
    rcases c.act_cases a with hact | hact
    · refine List.eq_nil_iff_forall_not_mem.2 fun f hf => ?_
      obtain ⟨i, hi⟩ := List.mem_iff_getElem?.1 hf
      rcases flushChange_act? hl hact hi with ⟨f', hf', -⟩ | ⟨hcall, -, -⟩
      · rw [hnone] at hf'
        cases hf'
      · exact ha a (List.mem_append_right _ (List.mem_singleton_self _)) hcall
    · rw [hact, hnone]

/-- With one permit there is at most one batch in flight. -/
theorem Supplied.single {q : Queue} (h : q.Supplied) (hone : q.settings.concurrency = 1) :
    ∀ f ∈ q.flights, ∀ g ∈ q.flights, f = g := by
  have htotal := h.total
  rw [permits, hone] at htotal
  intro f hf g hg
  cases hflights : q.flights with
  | nil =>
    rw [hflights] at hf
    cases hf
  | cons first rest =>
    cases rest with
    | nil =>
      rw [hflights, List.mem_singleton] at hf hg
      rw [hf, hg]
    | cons second rest =>
      rw [hflights] at htotal
      simp at htotal
      omega

/-- With one permit and no flush a claim takes the front of the store: with a free permit nothing is
in flight. -/
theorem Course.Reached.front_of_claimed {c : Course} (h : c.Reached)
    (hone : c.queue.settings.concurrency = 1) (hflush : c.queue.flushes = []) {a : Action}
    {flight : Flight} (hj : (c.act a).journal = c.journal ++ [.claimed flight]) :
    flight.batch.events <+: c.queue.store.events := by
  rcases Course.claimed_by hj with ⟨-, hfree, hb⟩ | ⟨_, f, -, hf, -⟩
  · have htotal := h.supplied.total
    rw [permits, hone] at htotal
    have hflights : c.queue.flights = [] := by
      refine List.eq_nil_iff_length_eq_zero.2 ?_
      omega
    have hprocessing : c.queue.processing = [] := by
      refine List.eq_nil_iff_forall_not_mem.2 fun id hid => ?_
      obtain ⟨g, hg, -⟩ := (h.exclusive.processing id).1 hid
      rw [show c.books.flights = [] from hflights] at hg
      cases hg
    have hall : c.queue.store.events.filter
        (fun e => !c.queue.processing.contains e.id && !([] : List EventId).contains e.id) =
        c.queue.store.events := by
      refine List.filter_eq_self.2 fun e _ => ?_
      simp [hprocessing]
    rw [hb, Books.claimable, Store.select]
    rw [show c.books.events = c.queue.store.events from rfl,
      show c.books.processing = c.queue.processing from rfl, hall]
    exact List.take_prefix _ _
  · rw [hflush] at hf
    cases hf

theorem inTurn_run (settings : Settings) (store : Store) {actions : List Action}
    (hone : settings.normalized.concurrency = 1) (ha : ∀ a ∈ actions, a ≠ .callFlush)
    (hu : Untouched ((Course.begin settings store).run actions).journal) :
    ((Course.begin settings store).run actions).books.InTurn := by
  induction actions using List.reverseRecOn with
  | nil =>
    refine ⟨List.nil_prefix, nofun, ?_⟩
    intro before flight after hsplit
    have hfirst : ([] : List Note) ++ [.accepted store.events] = before ++ .claimed flight :: after :=
      hsplit
    rcases claim_of_concat hfirst with ⟨-, hnote⟩ | ⟨after', hbefore⟩
    · cases hnote
    · simp at hbefore
  | append_singleton actions a ih =>
    have ha₀ : ∀ a' ∈ actions, a' ≠ .callFlush := fun a' hm => ha a' (List.mem_append_left _ hm)
    have hr : ((Course.begin settings store).run actions).Reached := ⟨settings, store, actions, rfl⟩
    have hset := settings_run settings store actions
    have hflush := flushes_eq_nil settings store ha₀
    rw [Course.run_concat] at hu ⊢
    generalize (Course.begin settings store).run actions = c at ih hu hr hset hflush ⊢
    rw [← hset] at hone
    obtain ⟨later, hlater⟩ := c.journal_act a
    have hu₀ : Untouched c.journal := by
      rw [hlater] at hu
      exact hu.of_append
    exact inTurn_move (c.move_act a) (hr.events_eq_undelivered hu₀) hu (hr.supplied.single hone)
      (fun flight hj => hr.front_of_claimed hone hflush hj) (ih ha₀ hu₀)

/-! ## Whole runs -/

/-- **Events go out in the order of acceptance.**  Take a run in which nothing is removed directly,
delivered batches are always removed from the store, and no id is accepted twice; what the store
holds at the start was accepted first.

* As long as no call has failed, the dispatched batches, one after the other, are the first events
  that were accepted, whoever dispatched them and however many are in flight.
* With one batch at a time and no flush, whatever fails and however often: every batch starts at the
  oldest event that was not delivered when it was claimed, and goes on from there; and the delivered
  batches, one after the other, are at every moment the first events that were accepted. -/
theorem insertion_order (settings : Settings) (store : Store) (actions : List Action)
    (hdirect : ∀ note ∈ ((Course.begin settings store).run actions).journal,
      note.isDirectRemoval = false)
    (hstore : ∀ note ∈ ((Course.begin settings store).run actions).journal, note.failure? = none)
    (hids : ((accepted ((Course.begin settings store).run actions).journal).map Event.id).Nodup) :
    let c := (Course.begin settings store).run actions
    ((∀ note ∈ c.journal, note.fails = false) →
      (claims c.journal).flatMap (fun f => f.batch.events) <+: accepted c.journal) ∧
    (settings.normalized.concurrency = 1 → (∀ a ∈ actions, a ≠ .callFlush) →
      (∀ before flight after, c.journal = before ++ .claimed flight :: after →
        flight.batch.events.head? = (undelivered before).head? ∧
        flight.batch.events <+: undelivered before) ∧
      (deliveries c.journal).flatMap Batch.events <+: accepted c.journal) := by
  intro c
  have hu : Untouched c.journal := ⟨⟨hstore, hids⟩, hdirect⟩
  refine ⟨fun hok => dispatched_prefix_run settings store actions hu hok, fun hone ha => ?_⟩
  have hturn : c.books.InTurn := inTurn_run settings store hone ha hu
  refine ⟨fun before flight after hsplit => ?_, hturn.delivered⟩
  obtain ⟨rest, hrest⟩ := hturn.claimed before flight after hsplit
  refine ⟨?_, rest, hrest⟩
  rw [← hrest, List.head?_append_of_ne_nil _ flight.batch.nonempty]

/-- Three events, two to a batch and one batch at a time; a fourth event is pushed on the way.  The
first batch crashes and is tried again. -/
def crashedTurns : List Action :=
  [.start true, .tick 0 0, .finish 0 .crashed, .land 0, .tick 0 1000,
    .push [sampleEvent 4] true, .finish 1 (.returned (.ok ())), .dispatch, .land 1, .dispatch,
    .finish 2 (.returned (.ok ()))]

/-- The same events with two batches at a time, dispatched by the runner and by a flush; the second
batch ends first. -/
def overlappingTurns : List Action :=
  [.start true, .tick 0 0, .push [sampleEvent 4] true, .callFlush, .flushStep 0, .flushStep 0,
    .finish 1 (.returned (.ok ())), .land 1, .finish 0 (.returned (.ok ()))]

/-- In the first run the events are delivered in the order 1, 2, 3, 4 after a crash, and the batch
that crashed starts at event 1, as does the next one; in the second run the batches follow each
other although they overlap. -/
theorem insertion_order_turns :
    let store : Store := { events := [sampleEvent 1, sampleEvent 2, sampleEvent 3] }
    let c := (Course.begin { batchSize := 2, concurrency := 1 } store).run crashedTurns
    let d := (Course.begin { batchSize := 2, concurrency := 2 } store).run overlappingTurns
    ((deliveries c.journal).flatMap Batch.events).map Event.id =
      [.ofNat 1, .ofNat 2, .ofNat 3, .ofNat 4] ∧
    (deliveries c.journal).flatMap Batch.events <+: accepted c.journal ∧
    (claims c.journal).map (fun f => f.batch.ids) =
      [[.ofNat 1, .ofNat 2], [.ofNat 1, .ofNat 2], [.ofNat 3, .ofNat 4]] ∧
    (claims d.journal).map (fun f => f.batch.ids) =
      [[.ofNat 1, .ofNat 2], [.ofNat 3, .ofNat 4]] ∧
    (claims d.journal).flatMap (fun f => f.batch.events) <+: accepted d.journal := by
  intro store c d
  have hc := insertion_order { batchSize := 2, concurrency := 1 } store crashedTurns (by decide)
    (by decide) (by decide)
  have hd := insertion_order { batchSize := 2, concurrency := 2 } store overlappingTurns (by decide)
    (by decide) (by decide)
  have hnoFlush : ∀ a ∈ crashedTurns, a ≠ .callFlush := by
    simp [crashedTurns]
  exact ⟨by decide, (hc.2 rfl hnoFlush).2, by decide, by decide, hd.1 (by decide)⟩

end EventRelay.Queue
