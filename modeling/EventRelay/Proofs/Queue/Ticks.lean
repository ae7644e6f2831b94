import EventRelay.Proofs.Queue.Solo
import Mathlib.Data.List.Induction

/-!
# Ticks, and what holds them up

A runner ticks on a queue with nothing in flight, and whatever a tick dispatches has settled before
the next tick; `fate` says how the call for a batch ends, the same way whenever the batch is tried.
Nothing else happens.

* `Course.settleAll`, `Course.round` — a tick and what follows it.
* `Course.Ready.round` — **a round takes the front of the store**: a delivered batch leaves the
  store, and one that failed is the front of the store again at the next tick.
* `firstFailing` — the number of the first chunk of the store that is not delivered.
* `failing_batch_blocks` — so the ticks get as far as that chunk and no further: they dispatch it
  again and again, and nothing behind it is ever dispatched.
-/

namespace EventRelay.Queue

/-! ## Rounds -/

namespace Course

/-- Every batch in flight settles, each as its fate is. -/
def settleAll (fate : List Event → Ending) (c : Course) : Course :=
  c.queue.flights.foldl
    (fun c f => (c.act (.finish f.ticket (fate f.batch.events))).act (.land f.ticket)) c

/-- A tick of a runner, and what it dispatched settles before the next one. -/
def round (runner : Nat) (fate : List Event → Ending) (c : Course) (now : Nat) : Course :=
  (c.act (.tick runner now)).settleAll fate

/-- Does a runner of this number live? -/
def hasRunner (c : Course) (runner : Nat) : Bool :=
  c.queue.runners.any (·.id == runner)

end Course

/-! ## What stays -/

/-- A flush that has returned makes no further step. -/
theorem FlushMove.stage_ne_returned {q q₀ : Queue} {id : Nat} {f : Flush} {p : Progress}
    {g : Flush → Flush} (hm : FlushMove q id f p q₀ g) : f.stage ≠ .returned := by
  intro hreturned
  cases hm <;> simp_all

/-- Flushes that have returned stay so, and without a call there are no others. -/
theorem returned_act {c : Course} (hl : c.queue.Lined)
    (hret : ∀ f ∈ c.queue.flushes, f.stage = .returned) {a : Action} (ha : a ≠ .callFlush) :
    ∀ f ∈ (c.act a).queue.flushes, f.stage = .returned := by
  intro f' hf'
  rcases c.act_cases a with hact | hact
  · obtain ⟨i, hi⟩ := List.mem_iff_getElem?.1 hf'
    rcases flushChange_act? hl hact hi with ⟨f, hf, hch⟩ | ⟨hcall, -, -⟩
    · have hstage := hret f (List.mem_of_getElem? hf)
      cases hch with
      | stay _ => exact hstage
      | permit _ hs => simp [hstage] at hs
      | wake _ hs => simp [hstage] at hs
      | move hm => exact absurd hstage hm.stage_ne_returned
    · exact absurd hcall ha
  · rw [hact] at hf'
    exact hret f' hf'

theorem returned_run {c : Course} (hr : c.Reached)
    (hret : ∀ f ∈ c.queue.flushes, f.stage = .returned) {actions : List Action}
    (ha : ∀ a ∈ actions, a ≠ .callFlush) :
    (c.run actions).Reached ∧ ∀ f ∈ (c.run actions).queue.flushes, f.stage = .returned := by
  induction actions generalizing c with
  | nil => exact ⟨hr, hret⟩
  | cons a actions ih =>
    obtain ⟨hfirst, hrest⟩ := List.forall_mem_cons.1 ha
    exact ih (hr.act a) (returned_act hr.supplied.lined hret hfirst) hrest

/-- A tick moves the alarm of its runner and leaves the runners alone otherwise. -/
theorem any_runners_tick (q : Queue) (runner id now : Nat) (usable : Bool) :
    (q.tick id now usable).2.runners.any (·.id == runner) = q.runners.any (·.id == runner) := by
  have hsame : (q.dispatch usable).2.runners = q.runners := by
    obtain ⟨_, _, _, _, _, _, hq⟩ := q.dispatch_frame usable
    rw [hq]
  have hmap : (q.tick id now usable).2.runners = q.runners.map fun r =>
      if r.id = id then { r with due := some (now + (q.dispatch usable).2.interval) } else r := by
    rw [← hsame]
    rfl
  rw [hmap, List.any_map]
  congr 1
  funext r
  by_cases hr : r.id = id <;> simp [hr]

/-! ## A tick -/

namespace Course.Ready

variable {c : Course}

theorem processing_eq_nil (hc : c.Ready) : c.queue.processing = [] := by
  refine List.eq_nil_iff_forall_not_mem.2 fun id hid => ?_
  obtain ⟨g, hg, -⟩ := (hc.reached.exclusive.processing id).1 hid
  rw [show c.books.flights = [] from hc.settled] at hg
  cases hg

theorem free_pos (hc : c.Ready) : 1 ≤ c.queue.free := by
  have hs := hc.reached.supplied
  have hholders : ∀ f ∈ c.queue.flushes, f.stage ≠ .holding := by
    intro f hf
    simp [hc.returned f hf]
  rw [(hs.idle hc.settled hholders).1]
  exact hs.positive

/-- With nothing in flight the front of the store can be claimed. -/
theorem claimable_front (hc : c.Ready) :
    c.queue.claimable [] = .ok (c.queue.store.events.take c.queue.settings.batchSize) := by
  have hall : c.queue.store.events.filter
      (fun e => !c.queue.processing.contains e.id && !([] : List EventId).contains e.id) =
      c.queue.store.events := by
    refine List.filter_eq_self.2 fun e _ => ?_
    simp [hc.processing_eq_nil]
  rw [claimable, Store.read, hc.readable, if_neg Bool.false_ne_true, Store.select, hall]

end Course.Ready

/-- What a tick comes to on a queue with nothing in flight: these batches are in flight, and nothing
else is new. -/
structure Ticked (c : Course) (sent : List Flight) (c' : Course) : Prop where
  /-- The store is as before. -/
  store : c'.queue.store = c.queue.store
  /-- The queue works as before. -/
  settings : c'.queue.settings = c.queue.settings
  /-- The transport is as usable as before. -/
  usable : c'.usable = c.usable
  /-- The batches are in flight. -/
  flights : c'.queue.flights = sent
  /-- They were claimed. -/
  journal : c'.journal = c.journal ++ sent.map Note.claimed

theorem Course.act_tick {c : Course} {runner : Nat} (halive : c.hasRunner runner = true)
    (now : Nat) : c.act (.tick runner now) = c.next (c.queue.tick runner now c.usable).2
      (c.queue.tick runner now c.usable).1.notes := by
  refine act_of_act? ?_
  rw [hasRunner] at halive
  simp only [act?, halive, if_true]

theorem Course.Ready.tick {c : Course} (hc : c.Ready) {runner : Nat}
    (halive : c.hasRunner runner = true) (now : Nat) :
    (c.queue.store.events = [] ∧ Ticked c [] (c.act (.tick runner now))) ∨
    ∃ batch : Batch, batch.events = c.queue.store.events.take c.queue.settings.batchSize ∧
      Ticked c [⟨c.queue.tickets, batch⟩] (c.act (.tick runner now)) := by
  obtain ⟨free, hfree⟩ := Nat.exists_eq_add_of_le' hc.free_pos
  have hdispatch : c.queue.dispatch c.usable = { c.queue with free }.claim [] := by
    simp only [dispatch, hc.usable, hfree, Bool.not_true, if_neg Bool.false_ne_true]
  have hfront : { c.queue with free }.claimable [] =
      .ok (c.queue.store.events.take c.queue.settings.batchSize) := hc.claimable_front
  rw [Course.act_tick halive, Queue.tick, hdispatch]
  rcases { c.queue with free }.claim_cases [] with ⟨e, he, -⟩ | ⟨hnil, hq⟩ | ⟨batch, hb, hq⟩
  · rw [hfront] at he
    cases he
  · rw [hfront] at hnil
    have hempty : c.queue.store.events = [] := by
      have hsize := hc.reached.supplied.size
      rcases List.take_eq_nil_iff.1 (Except.ok.inj hnil) with hzero | hnone
      · omega
      · exact hnone
    obtain ⟨_, _, _, hrel⟩ := { c.queue with free }.release_frame
    refine Or.inl ⟨hempty, ?_⟩
    rw [hq, hrel]
    exact ⟨rfl, rfl, rfl, hc.settled, rfl⟩
  · rw [hfront] at hb
    refine Or.inr ⟨batch, (Except.ok.inj hb).symm, ?_⟩
    rw [hq]
    refine ⟨rfl, rfl, rfl, ?_, rfl⟩
    exact congrArg (· ++ [⟨c.queue.tickets, batch⟩]) hc.settled

/-! ## A batch settles -/

/-- What the end of the only call comes to: its batch has left the store if it was delivered, and
nothing is in flight. -/
structure Settled (c : Course) (flight : Flight) (ending : Ending) (c' : Course) : Prop where
  /-- The store keeps what was not delivered. -/
  events : c'.queue.store.events = if ending.delivers
    then Store.without flight.batch.ids c.queue.store.events else c.queue.store.events
  /-- The same calls of the store fail. -/
  faults : c'.queue.store.faults = c.queue.store.faults
  /-- The queue works as before. -/
  settings : c'.queue.settings = c.queue.settings
  /-- The transport is as usable as before. -/
  usable : c'.usable = c.usable
  /-- The runners are the same. -/
  runners : c'.queue.runners = c.queue.runners
  /-- Nothing is in flight. -/
  flights : c'.queue.flights = []
  /-- The call has ended and the batch has landed. -/
  journal : c'.journal = c.journal ++ [.handled flight ending none, .landed flight]

/-- The store after a delivery has ended, when removing is not made to fail. -/
theorem events_account {q : Queue} (hq : q.store.faults.delete = false) (batch : Batch)
    (ending : Ending) :
    (q.account batch ending.outcome).2.store.events =
      if ending.delivers then Store.without batch.ids q.store.events else q.store.events := by
  unfold account Ending.delivers
  cases ending.outcome with
  | error e => rfl
  | ok u =>
    cases hd : q.store.delete batch.ids with
    | error e => exact absurd hd (Store.delete_ne_error hq _ e)
    | ok store =>
      rw [if_pos rfl]
      dsimp only
      rw [hd]
      exact Store.events_delete hd

theorem settled_of_flight {c : Course} {flight : Flight} (hflights : c.queue.flights = [flight])
    (hcall : c.ending? flight.ticket = none) (herase : c.queue.store.faults.delete = false)
    (ending : Ending) :
    Settled c flight ending
      ((c.act (.finish flight.ticket ending)).act (.land flight.ticket)) := by
  have hflight : c.flight? flight.ticket = some flight := by
    rw [Course.flight?, hflights, List.find?_cons_of_pos (by simp)]
  obtain ⟨store, delivered, failedBatches, hfaults, hq⟩ :=
    c.queue.account_frame flight.batch ending.outcome
  have hevents := events_account herase flight.batch ending
  rw [hq] at hevents
  -- the call ends
  have hfinish : c.act (.finish flight.ticket ending) =
      c.next { c.queue with store, delivered, failedBatches } [.handled flight ending none] := by
    refine Course.act_of_act? ?_
    simp only [Course.act?, hflight, hcall, hq, account_failure herase]
  have hended : (c.act (.finish flight.ticket ending)).ending? flight.ticket = some ending := by
    rw [Course.ending?] at hcall
    rw [hfinish, Course.ending?, Course.next, List.findSome?_append, hcall]
    simp [Note.ending?]
  -- and the batch lands
  have hland : (c.act (.finish flight.ticket ending)).act (.land flight.ticket) =
      (c.act (.finish flight.ticket ending)).next
        ((c.act (.finish flight.ticket ending)).queue.land flight ending.outcome)
        [.landed flight] := by
    refine Course.act_of_act? ?_
    have hstill : (c.act (.finish flight.ticket ending)).flight? flight.ticket = some flight := by
      rw [hfinish]
      exact hflight
    simp only [Course.act?, hstill, hended]
  rw [hland, hfinish]
  obtain ⟨_, _, _, hq'⟩ := land_frame
    (c.next { c.queue with store, delivered, failedBatches } [.handled flight ending none]).queue
    flight ending.outcome
  rw [hq']
  refine ⟨hevents, hfaults, rfl, rfl, rfl, ?_, ?_⟩
  · simp [withoutFlight, Course.next, hflights]
  · simp [Course.next]

/-! ## A round -/

/-- The batches dispatched so far, in the order of dispatch. -/
def Course.batches (c : Course) : List (List Event) :=
  (claims c.journal).map fun f => f.batch.events

namespace Course

/-- The front of the store: what a batch holds that is claimed with nothing in flight. -/
def front (c : Course) : List Event :=
  c.queue.store.events.take c.queue.settings.batchSize

/-- What a round comes to on a queue with nothing in flight. -/
structure Rounded (c : Course) (runner : Nat) (fate : List Event → Ending) (c' : Course) :
    Prop where
  /-- Nothing stands in the way of the next round. -/
  ready : c'.Ready
  /-- The runner lives. -/
  alive : c'.hasRunner runner = true
  /-- The queue works as before. -/
  settings : c'.queue.settings = c.queue.settings
  /-- The front of the store has left it if it was delivered. -/
  events : c'.queue.store.events = if (fate c.front).delivers
    then c.queue.store.events.drop c.queue.settings.batchSize else c.queue.store.events
  /-- The front of the store was dispatched, unless the store was empty. -/
  batches : c'.batches = c.batches ++ [c.front].filter (!·.isEmpty)

/-- Nothing stands in the way afterwards if nothing is in flight and no flush was called. -/
theorem Ready.kept {c : Course} (hc : c.Ready) {actions : List Action}
    (ha : ∀ a ∈ actions, a ≠ .callFlush) (husable : (c.run actions).usable = c.usable)
    (hfaults : (c.run actions).queue.store.faults = c.queue.store.faults)
    (hflights : (c.run actions).queue.flights = [])
    (hevents : (c.run actions).queue.store.events.Sublist c.queue.store.events) :
    (c.run actions).Ready := by
  obtain ⟨hreached, hreturned⟩ := returned_run hc.reached hc.returned ha
  refine ⟨hreached, ?_, ?_, ?_, hflights, hreturned, ?_⟩
  · rw [husable, hc.usable]
  · rw [hfaults, hc.readable]
  · rw [hfaults, hc.erasable]
  · exact (hevents.map Event.id).nodup hc.distinct

theorem hasRunner_tick {c : Course} {runner : Nat} (halive : c.hasRunner runner = true) (now : Nat) :
    (c.act (.tick runner now)).hasRunner runner = true := by
  rw [act_tick halive, hasRunner, next, any_runners_tick]
  exact halive

/-- A round on an empty store: nothing is dispatched, and nothing settles. -/
theorem Ready.round_nothing {c : Course} (hc : c.Ready) {runner : Nat}
    (halive : c.hasRunner runner = true) (fate : List Event → Ending) {now : Nat}
    (hempty : c.queue.store.events = []) (ht : Ticked c [] (c.act (.tick runner now))) :
    c.Rounded runner fate (c.round runner fate now) := by
  have hround : c.round runner fate now = c.act (.tick runner now) := by
    rw [Course.round, settleAll, ht.flights, List.foldl_nil]
  have hready : (c.run [.tick runner now]).Ready := by
    have hstore : (c.run [.tick runner now]).queue.store = c.queue.store := ht.store
    refine hc.kept (by simp) ht.usable ?_ ht.flights ?_
    · rw [hstore]
    · rw [hstore]
  rw [hround]
  refine ⟨hready, hasRunner_tick halive now, ht.settings, ?_, ?_⟩
  · rw [ht.store, hempty, List.drop_nil, ite_self]
  · rw [Course.batches, ht.journal, front, hempty]
    simp [Course.batches]

/-- A round that dispatches the front of the store: it settles, and leaves the store if it was
delivered. -/
theorem Ready.round_batch {c : Course} (hc : c.Ready) {runner : Nat}
    (halive : c.hasRunner runner = true) (fate : List Event → Ending) {now : Nat} {batch : Batch}
    (hbatch : batch.events = c.front)
    (ht : Ticked c [⟨c.queue.tickets, batch⟩] (c.act (.tick runner now))) :
    c.Rounded runner fate (c.round runner fate now) := by
  have hcall : (c.act (.tick runner now)).ending? c.queue.tickets = none := by
    have hbefore : c.journal.findSome? (·.ending? c.queue.tickets) = none :=
      hc.reached.tracked.ending?_next
    rw [Course.ending?, ht.journal, List.findSome?_append, hbefore]
    rfl
  have hround : c.round runner fate now = c.run [.tick runner now,
      .finish c.queue.tickets (fate batch.events), .land c.queue.tickets] := by
    rw [Course.round, settleAll, ht.flights]
    rfl
  have hs : Settled (c.act (.tick runner now)) ⟨c.queue.tickets, batch⟩ (fate batch.events)
      (c.run [.tick runner now, .finish c.queue.tickets (fate batch.events),
        .land c.queue.tickets]) :=
    settled_of_flight ht.flights hcall (by rw [ht.store, hc.erasable]) (fate batch.events)
  rw [← hround] at hs
  have hevents : (c.round runner fate now).queue.store.events = if (fate c.front).delivers
      then c.queue.store.events.drop c.queue.settings.batchSize else c.queue.store.events := by
    rw [hs.events, ht.store, Store.without, Batch.ids, hbatch, front]
    rw [filter_not_take hc.distinct]
  have hsub : (c.round runner fate now).queue.store.events.Sublist c.queue.store.events := by
    rw [hevents]
    split
    · exact List.drop_sublist _ _
    · exact List.Sublist.refl _
  refine ⟨?_, ?_, ?_, hevents, ?_⟩
  · rw [hround] at hs hsub ⊢
    refine hc.kept (by simp) ?_ ?_ hs.flights hsub
    · rw [hs.usable, ht.usable]
    · rw [hs.faults, ht.store]
  · rw [hasRunner, hs.runners]
    exact hasRunner_tick halive now
  · rw [hs.settings, ht.settings]
  · have hne : c.front ≠ [] := by
      rw [← hbatch]
      exact batch.nonempty
    rw [Course.batches, hs.journal, ht.journal]
    simp [Course.batches, claims, Note.claims?, hbatch, hne]

/-- **A round takes the front of the store.** -/
theorem Ready.round {c : Course} (hc : c.Ready) {runner : Nat}
    (halive : c.hasRunner runner = true) (fate : List Event → Ending) (now : Nat) :
    c.Rounded runner fate (c.round runner fate now) := by
  rcases hc.tick halive now with ⟨hempty, ht⟩ | ⟨batch, hbatch, ht⟩
  · exact hc.round_nothing halive fate hempty ht
  · exact hc.round_batch halive fate hbatch ht

end Course

/-! ## The first chunk that fails -/

section FirstFailing

variable (fate : List Event → Ending) (size : Nat) (events : List Event)

/-- The number of the first chunk that is not delivered, or the number of chunks. -/
def firstFailing : Nat :=
  (List.range (chunkCount size events.length)).findIdx
    fun i => !(fate (chunk size events i)).delivers

/-- The chunks before it are delivered. -/
theorem delivers_of_lt_firstFailing {i : Nat} (hi : i < firstFailing fate size events) :
    (fate (chunk size events i)).delivers = true := by
  have hfirst := List.not_of_lt_findIdx hi
  simpa using hfirst

/-- It is not delivered itself. -/
theorem not_delivers_firstFailing
    (hlt : firstFailing fate size events < chunkCount size events.length) :
    (fate (chunk size events (firstFailing fate size events))).delivers = false := by
  have hlen : (List.range (chunkCount size events.length)).findIdx
      (fun i => !(fate (chunk size events i)).delivers) <
      (List.range (chunkCount size events.length)).length := by
    rw [List.length_range]
    exact hlt
  have hfirst := List.findIdx_getElem (w := hlen)
  simpa [firstFailing] using hfirst

/-- It is none of the first `n` chunks exactly if they are all delivered. -/
theorem le_firstFailing_iff {n : Nat} (hn : n ≤ chunkCount size events.length) :
    n ≤ firstFailing fate size events ↔ ∀ i < n, (fate (chunk size events i)).delivers = true := by
  constructor
  · intro hle i hi
    exact delivers_of_lt_firstFailing fate size events (Nat.lt_of_lt_of_le hi hle)
  · intro hall
    by_contra hlt
    have hfails := not_delivers_firstFailing fate size events (by omega)
    rw [hall _ (by omega)] at hfails
    cases hfails

end FirstFailing

/-! ## Round after round -/

/-- Where `n` rounds have got to, from the queue `c`: `c'` is the queue after them. -/
structure Course.Blocked (c : Course) (runner : Nat) (fate : List Event → Ending) (n : Nat)
    (c' : Course) : Prop where
  /-- Nothing stands in the way of the next round. -/
  ready : c'.Ready
  /-- The runner lives. -/
  alive : c'.hasRunner runner = true
  /-- The queue works as before. -/
  settings : c'.queue.settings = c.queue.settings
  /-- The chunks before the first that fails have left the store, one in a round. -/
  events : c'.queue.store.events = c.queue.store.events.drop
    (min n (firstFailing fate c.queue.settings.batchSize c.queue.store.events) *
      c.queue.settings.batchSize)
  /-- They were dispatched, and then the one that fails, again and again. -/
  batches : c'.batches = c.batches ++ ((List.range n).map fun i => c.chunkAt
    (min i (firstFailing fate c.queue.settings.batchSize c.queue.store.events))).filter (!·.isEmpty)

/-- One more round: the front of the store is the next chunk, or the one that fails. -/
theorem Course.Blocked.round {c c' : Course} {runner : Nat} {fate : List Event → Ending} {n : Nat}
    (h : c.Blocked runner fate n c') (now : Nat) :
    c.Blocked runner fate (n + 1) (c'.round runner fate now) := by
  have hr := h.ready.round h.alive fate now
  set size := c.queue.settings.batchSize with hsize
  set stop := firstFailing fate size c.queue.store.events with hstop
  have hfront : c'.front = c.chunkAt (min n stop) := by
    rw [front, h.events, h.settings]
    rfl
  refine ⟨hr.ready, hr.alive, hr.settings.trans h.settings, ?_, ?_⟩
  · rw [hr.events, hfront, h.events, h.settings]
    rcases Nat.lt_or_ge n stop with hlt | hge
    · -- the chunk is delivered
      have hd : (fate (c.chunkAt (min n stop))).delivers = true := by
        rw [Nat.min_eq_left (Nat.le_of_lt hlt)]
        exact delivers_of_lt_firstFailing fate size _ hlt
      rw [if_pos hd, List.drop_drop, Nat.min_eq_left (Nat.le_of_lt hlt), Nat.min_eq_left hlt,
        Nat.succ_mul]
    · rw [Nat.min_eq_right hge, Nat.min_eq_right (Nat.le_succ_of_le hge)]
      rcases Nat.lt_or_ge stop c.chunkTotal with hfails | hdone
      · -- the chunk fails once more
        have hd : (fate (c.chunkAt stop)).delivers = false :=
          not_delivers_firstFailing fate size _ hfails
        rw [hd, if_neg Bool.false_ne_true]
      · -- nothing is left
        have hnil : c.queue.store.events.drop (stop * size) = [] := by
          have hpos : 1 ≤ size := by
            rw [hsize, ← h.settings]
            exact h.ready.reached.supplied.size
          exact List.drop_eq_nil_iff.2 ((chunkCount_le hpos _ _).1 hdone)
        rw [hnil, List.drop_nil, ite_self]
  · rw [hr.batches, h.batches, hfront, List.range_succ, List.map_append, List.filter_append,
      List.append_assoc]
    rfl

theorem Course.Ready.blocked {c : Course} (hc : c.Ready) {runner : Nat}
    (halive : c.hasRunner runner = true) (fate : List Event → Ending) (times : List Nat) :
    c.Blocked runner fate times.length (times.foldl (Course.round runner fate) c) := by
  induction times using List.reverseRecOn with
  | nil => exact ⟨hc, halive, rfl, by simp, by simp⟩
  | append_singleton times now ih =>
    rw [List.foldl_append, List.length_append, List.length_singleton]
    exact ih.round now

theorem chunk_ne_nil {size : Nat} (hsize : 1 ≤ size) {events : List Event} {i : Nat}
    (hi : i < chunkCount size events.length) : chunk size events i ≠ [] := by
  intro hnil
  have hle := (chunk_eq_nil hsize events i).1 hnil
  omega

/-- The chunks of a list come one after the other exactly if none is waited for but the last. -/
theorem chunks_of_blocked {size : Nat} (hsize : 1 ≤ size) {events : List Event}
    (hids : (events.map Event.id).Nodup) (stop : Nat) :
    ((List.range (chunkCount size events.length)).map fun i =>
        chunk size events (min i stop)).filter (!·.isEmpty) = chunks size events ↔
      chunkCount size events.length - 1 ≤ stop := by
  have hfull : ∀ l ∈ (List.range (chunkCount size events.length)).map (fun i =>
      chunk size events (min i stop)), (!l.isEmpty) = true := by
    intro l hl
    obtain ⟨i, hi, rfl⟩ := List.mem_map.1 hl
    have hmin : min i stop < chunkCount size events.length :=
      Nat.lt_of_le_of_lt (Nat.min_le_left i stop) (List.mem_range.1 hi)
    simpa using chunk_ne_nil hsize hmin
  rw [List.filter_eq_self.2 hfull]
  constructor
  · intro heq
    by_contra hlt
    -- the chunk after `stop` would be the one at `stop` again
    have hsame : chunk size events stop = chunk size events (stop + 1) := by
      have hat := congrArg (·[stop + 1]?) heq
      have hmin : min (stop + 1) stop = stop := by omega
      have hnext : stop + 1 < chunkCount size events.length := by omega
      simpa [chunks, List.getElem?_range hnext, hmin] using hat
    have hstop : stop < chunkCount size events.length := by omega
    obtain ⟨e, he⟩ := List.exists_mem_of_ne_nil _ (chunk_ne_nil hsize hstop)
    have hclash : stop = stop + 1 := chunk_unique hids he (hsame ▸ he) rfl
    omega
  · intro hle
    refine List.map_congr_left fun i hi => ?_
    have hi := List.mem_range.1 hi
    rw [Nat.min_eq_left (by omega)]

/-- **A batch that keeps failing holds up everything behind it.**  A runner ticks at some `times` on
a queue with nothing in flight, and each batch has settled before the next tick.  Then the chunks of
the store go out one by one up to the first that fails, which goes out again at every further tick;
only the chunks before it leave the store.  As many ticks as there are chunks dispatch the chunks one
by one exactly if no chunk but the last fails. -/
theorem failing_batch_blocks (c : Course) (hc : c.Ready) (runner : Nat)
    (halive : c.hasRunner runner = true) (fate : List Event → Ending) (times : List Nat) :
    let size := c.queue.settings.batchSize
    let events := c.queue.store.events
    let count := chunkCount size events.length
    let stop := firstFailing fate size events
    let c' := times.foldl (Course.round runner fate) c
    c'.queue.processing = [] ∧
    c'.queue.store.events = events.drop (min times.length stop * size) ∧
    c'.batches = c.batches ++
      ((List.range times.length).map fun i => chunk size events (min i stop)).filter (!·.isEmpty) ∧
    (times.length = count →
      (c'.batches = c.batches ++ chunks size events ↔
        ∀ i, i + 1 < count → (fate (chunk size events i)).delivers = true)) := by
  intro size events count stop c'
  have h := hc.blocked halive fate times
  refine ⟨h.ready.processing_eq_nil, h.events, h.batches, fun hlen => ?_⟩
  have hbatches : c'.batches = c.batches ++
      ((List.range count).map fun i => chunk size events (min i stop)).filter (!·.isEmpty) := by
    rw [← hlen]
    exact h.batches
  rw [hbatches, List.append_cancel_left_eq,
    chunks_of_blocked hc.reached.supplied.size hc.distinct,
    le_firstFailing_iff fate size events (Nat.sub_le _ _)]
  constructor
  · intro hall i hi
    exact hall i (by omega)
  · intro hall i hi
    exact hall i (by omega)

/-- A queue of events with the numbers from 1 to `n`, two to a batch and two batches at a time; its
runner has been started. -/
def startedQueue (n : Nat) : Course :=
  (Course.begin { batchSize := 2, concurrency := 2 }
    { events := (List.range n).map fun i => sampleEvent (i + 1) }).run [.start true]

/-- Batches with the event of one number fail, the others are delivered. -/
def failsOn (n : Nat) (events : List Event) : Ending :=
  if events.any (·.id == .ofNat n) then .returned (.error (.sendFailed "down"))
  else .returned (.ok ())

/-- Three ticks for five events: the first chunk leaves, the second is tried twice, and the third is
not tried at all. -/
theorem failing_batch_blocks_second :
    let c' := [0, 1000, 2000].foldl (Course.round 0 (failsOn 3)) (startedQueue 5)
    c'.queue.processing = [] ∧
    c'.queue.store.events.map Event.id = [.ofNat 3, .ofNat 4, .ofNat 5] ∧
    c'.batches.map (·.map Event.id) =
      [[.ofNat 1, .ofNat 2], [.ofNat 3, .ofNat 4], [.ofNat 3, .ofNat 4]] ∧
    c'.batches ≠ (startedQueue 5).batches ++ chunks 2 (startedQueue 5).queue.store.events := by
  have hready : (startedQueue 5).Ready := ⟨⟨_, _, _, rfl⟩, rfl, rfl, rfl, rfl, nofun, by decide⟩
  obtain ⟨hprocessing, hstore, hbatches, hall⟩ :=
    failing_batch_blocks (startedQueue 5) hready 0 (by decide) (failsOn 3) [0, 1000, 2000]
  refine ⟨hprocessing, by rw [hstore]; decide, by rw [hbatches]; decide, fun heq => ?_⟩
  have hdelivers := (hall (by decide)).1 heq 1 (by decide)
  exact absurd hdelivers (by decide)

/-- **The event behind a failing batch is not dispatched.**  Of three events the first two go out in
one batch, which fails; the second tick dispatches them again, and the third event is neither
dispatched nor removed. -/
theorem third_event_held_up :
    let c' := [0, 1000].foldl (Course.round 0 (failsOn 1)) (startedQueue 3)
    (chunks 2 (startedQueue 3).queue.store.events).map (·.map Event.id) =
      [[.ofNat 1, .ofNat 2], [.ofNat 3]] ∧
    c'.batches.map (·.map Event.id) = [[.ofNat 1, .ofNat 2], [.ofNat 1, .ofNat 2]] ∧
    c'.queue.store.events.map Event.id = [.ofNat 1, .ofNat 2, .ofNat 3] := by
  decide

end EventRelay.Queue
