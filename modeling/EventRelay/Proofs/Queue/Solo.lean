import EventRelay.Proofs.Queue.Chunks
import EventRelay.Proofs.Queue.Exclusion
import EventRelay.Proofs.Queue.Flushes
import EventRelay.Proofs.Queue.Retention

/-!
# A flush on its own

A flush is called on a queue with nothing in flight, and until it returns nothing happens but its own
steps and the deliveries of its batches.  How the deliveries end is free, and so is the order in
which they end and land.

* `Course.Ready`, `Course.Solitary` — the queue at the call, and what may happen after it.
* `Solo` — the invariant: the batches claimed so far are the first chunks of the store as it was at
  the call.
* `Solo.claimable` — **the next claim is the next chunk**.  What has left the store and what is in
  flight was attempted by this flush, so that neither matters to it.
* `Solo.flights_eq_nil` — when the flush has counted its batches, nothing is in flight.
-/

namespace EventRelay.Queue

namespace Course

/-- Nothing stands in the way of a flush. -/
structure Ready (c : Course) : Prop where
  /-- The queue has got here by some run. -/
  reached : c.Reached
  /-- The transport is usable. -/
  usable : c.usable = true
  /-- The store can be read. -/
  readable : c.queue.store.faults.read = false
  /-- Events can be removed from the store. -/
  erasable : c.queue.store.faults.delete = false
  /-- Nothing is in flight. -/
  settled : c.queue.flights = []
  /-- All flushes called before have returned. -/
  returned : ∀ f ∈ c.queue.flushes, f.stage = .returned
  /-- The stored events have distinct ids. -/
  distinct : (c.queue.store.events.map Event.id).Nodup

/-- What may happen while the flush called at `c` is on its own.  How the calls for its batches end
is given by the numbers of the batches, counted from zero. -/
inductive Solitary (c : Course) (verdict : Nat → Ending) : Action → Prop
  /-- The flush makes a step. -/
  | step : Solitary c verdict (.flushStep c.queue.flushes.length)
  /-- The call for a batch ends. -/
  | finish (i : Nat) : Solitary c verdict (.finish (c.queue.tickets + i) (verdict i))
  /-- A batch lands. -/
  | land (ticket : Nat) : Solitary c verdict (.land ticket)

/-- The chunk of a number of the stored events. -/
def chunkAt (c : Course) (i : Nat) : List Event :=
  chunk c.queue.settings.batchSize c.queue.store.events i

/-- The number of chunks of the stored events. -/
def chunkTotal (c : Course) : Nat :=
  chunkCount c.queue.settings.batchSize c.queue.store.events.length

/-- The events of the chunks that are delivered, among the first `n`. -/
def deliveredPart (c : Course) (verdict : Nat → Ending) (n : Nat) : List Event :=
  portion c.queue.settings.batchSize c.queue.store.events (fun i => (verdict i).delivers) n

/-- The events of the chunks that are not delivered, among the first `n`. -/
def failedPart (c : Course) (verdict : Nat → Ending) (n : Nat) : List Event :=
  portion c.queue.settings.batchSize c.queue.store.events (fun i => !(verdict i).delivers) n

/-- What a report on the first `n` chunks says. -/
def summary (c : Course) (verdict : Nat → Ending) (n : Nat) : Report :=
  { batches := n
    delivered := (c.deliveredPart verdict n).length
    failed := (c.failedPart verdict n).length }

end Course

/-! ## The invariant -/

/-- Does the flush still dispatch batches? -/
def Flush.dispatches (f : Flush) : Bool :=
  match f.stage with
  | .asking => true
  | .inLine => true
  | .holding => true
  | _ => false

/-- The notes that a flush on its own leaves: batches are claimed and land, and the calls for these
batches end as they have to, with the delivered events removed. -/
def Note.Fits (start : Course) (verdict : Nat → Ending) (batches : List Flight) : Note → Prop
  | .claimed _ => True
  | .handled g ending failure =>
    g ∈ batches ∧ ending = verdict (g.ticket - start.queue.tickets) ∧ failure = none
  | .landed _ => True
  | _ => False

theorem Note.Fits.mono {start : Course} {verdict : Nat → Ending} {as bs : List Flight} {note : Note}
    (h : note.Fits start verdict as) (hsub : ∀ g ∈ as, g ∈ bs) : note.Fits start verdict bs := by
  cases note with
  | handled g ending failure => exact ⟨hsub g h.1, h.2⟩
  | _ => exact h

theorem Note.Fits.accepts {start : Course} {verdict : Nat → Ending} {batches : List Flight}
    {note : Note} (h : note.Fits start verdict batches) : note.accepts = [] := by
  cases note with
  | accepted events => exact h.elim
  | _ => rfl

/-- The flush `f`, called at `start`, has been on its own up to `c`; `tail` is what the journal has
to tell since. -/
structure Solo (start : Course) (verdict : Nat → Ending) (f : Flush) (tail : List Note)
    (c : Course) : Prop where
  /-- Nothing stood in the way at the call. -/
  ready : start.Ready
  /-- A run has led here. -/
  reached : c.Reached
  /-- The queue works as before. -/
  settings : c.queue.settings = start.queue.settings
  /-- The same calls of the store fail. -/
  faults : c.queue.store.faults = start.queue.store.faults
  /-- The journal goes on. -/
  journal : c.journal = start.journal ++ tail
  /-- The flush is the last that was called. -/
  flushes : c.queue.flushes = start.queue.flushes ++ [f]
  /-- The batches claimed since are the first chunks, with the next tickets. -/
  claimed : (claims tail).map (fun g => (g.ticket, g.batch.events)) =
    (List.range f.sent.length).map fun i => (start.queue.tickets + i, start.chunkAt i)
  /-- The flush knows its batches. -/
  sent : f.sent = (claims tail).map fun g => ⟨g.ticket, g.batch.ids⟩
  /-- Nothing else has happened, and calls have ended as they had to. -/
  notes : ∀ note ∈ tail, note.Fits start verdict (claims tail)
  /-- There are no more batches than chunks. -/
  within : f.sent.length ≤ start.chunkTotal
  /-- The flush goes on to wait when there are as many. -/
  exhausted : f.dispatches = false → f.sent.length = start.chunkTotal
  /-- The flush never has to wait for batches of others. -/
  awake : f.stage ≠ .parked

namespace Solo

variable {start c : Course} {verdict : Nat → Ending} {f : Flush} {tail : List Note}

/-! ## What it says -/

theorem length_claims (h : Solo start verdict f tail c) : (claims tail).length = f.sent.length := by
  rw [h.sent, List.length_map]

/-- A batch claimed since is a chunk. -/
theorem chunk_of_mem (h : Solo start verdict f tail c) {g : Flight} (hg : g ∈ claims tail) :
    ∃ i < f.sent.length, g.ticket = start.queue.tickets + i ∧ g.batch.events = start.chunkAt i := by
  have hm : (g.ticket, g.batch.events) ∈
      (claims tail).map (fun g => (g.ticket, g.batch.events)) := List.mem_map_of_mem hg
  rw [h.claimed] at hm
  obtain ⟨i, hi, heq⟩ := List.mem_map.1 hm
  obtain ⟨ht, he⟩ := Prod.mk.inj heq
  exact ⟨i, List.mem_range.1 hi, ht.symm, he.symm⟩

/-- The batches claimed since, in order. -/
theorem batches (h : Solo start verdict f tail c) :
    (claims tail).map (fun g => g.batch.events) =
      (List.range f.sent.length).map start.chunkAt := by
  have hmap := congrArg (List.map Prod.snd) h.claimed
  rwa [List.map_map, List.map_map] at hmap

/-- The next ticket. -/
theorem tickets (h : Solo start verdict f tail c) :
    c.queue.tickets = start.queue.tickets + f.sent.length := by
  have hnow : (claims c.journal).length = c.queue.tickets := by
    have hlen := congrArg List.length h.reached.tracked.tickets
    rwa [List.length_map, List.length_range] at hlen
  have hthen : (claims start.journal).length = start.queue.tickets := by
    have hlen := congrArg List.length h.ready.reached.tracked.tickets
    rwa [List.length_map, List.length_range] at hlen
  rw [h.journal, claims_append, List.length_append, hthen, h.length_claims] at hnow
  exact hnow.symm

/-- Everything that was claimed before the call has landed before the call. -/
theorem landed_before (h : Solo start verdict f tail c) {g : Flight}
    (hg : g ∈ claims start.journal) : hasLanded start.journal g.ticket = true := by
  by_contra hnot
  have hm : g ∈ start.queue.flights :=
    h.ready.reached.tracked.mem_flights.2 ⟨hg, Bool.eq_false_iff.2 hnot⟩
  rw [h.ready.settled] at hm
  cases hm

/-- What is in flight was claimed since the call. -/
theorem claimed_since (h : Solo start verdict f tail c) {g : Flight} (hg : g ∈ c.queue.flights) :
    g ∈ claims tail := by
  obtain ⟨hclaim, hnot⟩ := h.reached.tracked.mem_flights.1 hg
  rw [show c.books.journal = start.journal ++ tail from h.journal] at hclaim hnot
  rw [claims_append, List.mem_append] at hclaim
  rcases hclaim with hold | hnew
  · rw [hasLanded_append, h.landed_before hold] at hnot
    cases hnot
  · exact hnew

/-- The call for the batch of a number ends as it has to. -/
theorem ended (h : Solo start verdict f tail c) {i : Nat} {ending : Ending}
    (he : c.ending? (start.queue.tickets + i) = some ending) :
    ending = verdict i ∧ ∃ g, .handled g ending none ∈ tail ∧ g.batch.events = start.chunkAt i := by
  obtain ⟨note, hn, he⟩ := List.exists_of_findSome?_eq_some he
  cases note with
  | handled g ending' failure =>
    simp only [Note.ending?] at he
    split at he
    · rename_i ht
      cases he
      rw [h.journal, List.mem_append] at hn
      rcases hn with hold | hnew
      · -- the tickets of older batches are smaller
        have hlt : g.ticket < start.queue.tickets :=
          h.ready.reached.tracked.claimed_ticket_lt (h.ready.reached.tracked.handled _ _ _ hold).1
        omega
      · obtain ⟨hg, hv, rfl⟩ := h.notes _ hnew
        obtain ⟨j, -, htj, hj⟩ := h.chunk_of_mem hg
        have hij : j = i := by omega
        subst hij
        exact ⟨by rw [hv, ht, Nat.add_sub_cancel_left], g, hnew, hj⟩
    · cases he
  | _ => cases he

/-! ## The next claim -/

/-- What the flush has attempted are the events of the first chunks. -/
theorem attempted (h : Solo start verdict f tail c) :
    f.attempted = (start.queue.store.events.take
      (f.sent.length * start.queue.settings.batchSize)).map Event.id := by
  calc f.attempted
      = ((claims tail).map fun g => (⟨g.ticket, g.batch.ids⟩ : Sent)).flatMap Sent.ids := by
        rw [Flush.attempted, ← h.sent]
    _ = ((claims tail).map fun g => g.batch.events).flatMap fun events => events.map Event.id := by
        rw [List.flatMap_map, List.flatMap_map]
        rfl
    _ = ((List.range f.sent.length).flatMap start.chunkAt).map Event.id := by
        rw [h.batches, List.flatMap_map, List.map_flatMap]
    _ = (start.queue.store.events.take
          (f.sent.length * start.queue.settings.batchSize)).map Event.id := by
        rw [← flatMap_chunk]
        rfl

theorem attempted_of_claimed (h : Solo start verdict f tail c) {g : Flight} (hg : g ∈ claims tail)
    {id : EventId} (hid : id ∈ g.batch.ids) : id ∈ f.attempted := by
  refine List.mem_flatMap.2 ⟨⟨g.ticket, g.batch.ids⟩, ?_, hid⟩
  rw [h.sent]
  exact List.mem_map.2 ⟨g, hg, rfl⟩

/-- What was removed since was delivered by this flush. -/
theorem delivered_of_removed (h : Solo start verdict f tail c) {id : EventId}
    (hr : tail.any (·.removes id) = true) :
    ∃ g ∈ claims tail, id ∈ g.batch.ids ∧
      (verdict (g.ticket - start.queue.tickets)).delivers = true := by
  obtain ⟨note, hn, hr⟩ := List.any_eq_true.1 hr
  rcases removes_eq_true hr with ⟨g, ending, rfl, ho, hid⟩ | ⟨ids, rfl, -⟩ | rfl
  · obtain ⟨hg, hv, -⟩ := h.notes _ hn
    exact ⟨g, hg, hid, by rw [← hv, Ending.delivers, ho]⟩
  · exact (h.notes _ hn).elim
  · exact (h.notes _ hn).elim

/-- What is in flight was attempted by this flush. -/
theorem attempted_of_processing (h : Solo start verdict f tail c) {id : EventId}
    (hid : id ∈ c.queue.processing) : id ∈ f.attempted := by
  obtain ⟨g, hg, hid⟩ := (h.reached.exclusive.processing id).1 hid
  exact h.attempted_of_claimed (h.claimed_since hg) hid

/-- The store holds what it held at the call, less what was removed since. -/
theorem events (h : Solo start verdict f tail c) :
    c.queue.store.events =
      start.queue.store.events.filter fun e => !tail.any (·.removes e.id) := by
  have hnil : pending tail = [] := pending_eq_nil fun note hn => (h.notes note hn).accepts
  rw [h.reached.stored, h.journal, pending_append, hnil, List.append_nil, h.ready.reached.stored]

/-- **The next claim is the next chunk.**  Batches that were delivered have left the store, others
are in flight or back in the store, and the flush has attempted all of them. -/
theorem claimable (h : Solo start verdict f tail c) :
    c.queue.claimable f.attempted = .ok (start.chunkAt f.sent.length) := by
  have hread : c.queue.store.faults.read = false := by rw [h.faults, h.ready.readable]
  have hkeep : c.queue.store.events.filter
        (fun e => !c.queue.processing.contains e.id && !f.attempted.contains e.id) =
      start.queue.store.events.filter fun e => !f.attempted.contains e.id := by
    rw [h.events, List.filter_filter]
    refine List.filter_congr fun e _ => ?_
    by_cases ha : e.id ∈ f.attempted
    · simp [ha]
    · have hp : e.id ∉ c.queue.processing := fun hp => ha (h.attempted_of_processing hp)
      have hr : tail.any (·.removes e.id) = false := by
        refine Bool.eq_false_iff.2 fun hr => ha ?_
        obtain ⟨g, hg, hid, -⟩ := h.delivered_of_removed hr
        exact h.attempted_of_claimed hg hid
      simp [ha, hp, hr]
  rw [Queue.claimable, Store.read, hread, if_neg Bool.false_ne_true, Store.select, hkeep,
    h.attempted, filter_not_take h.ready.distinct, h.settings]
  rfl

/-! ## When everything is counted -/

theorem getElem?_flush (h : Solo start verdict f tail c) :
    c.queue.flushes[start.queue.flushes.length]? = some f := by
  rw [h.flushes, List.getElem?_concat_length]

/-- A flush with no batch left has counted all of them. -/
theorem reckoned (h : Solo start verdict f tail c) (hu : f.uncounted = []) :
    Reckoned c.queue.outcome? f.sent f.report := by
  obtain ⟨counted, hsent, hr⟩ := h.reached.accounted (List.mem_of_getElem? h.getElem?_flush)
  rw [hu, List.append_nil] at hsent
  rwa [hsent]

/-- When the flush has counted all its batches, nothing is in flight. -/
theorem flights_eq_nil (h : Solo start verdict f tail c) (hu : f.uncounted = []) :
    c.queue.flights = [] := by
  refine List.eq_nil_iff_forall_not_mem.2 fun g hg => ?_
  have hsent : (⟨g.ticket, g.batch.ids⟩ : Sent) ∈ f.sent := by
    rw [h.sent]
    exact List.mem_map.2 ⟨g, h.claimed_since hg, rfl⟩
  have hl : hasLanded c.books.journal g.ticket = true := by
    rw [← h.reached.tracked.isSome_outcome]
    exact (h.reckoned hu).settled hsent
  rw [(h.reached.tracked.mem_flights.1 hg).2] at hl
  cases hl

theorem processing_eq_nil (h : Solo start verdict f tail c) (hu : f.uncounted = []) :
    c.queue.processing = [] := by
  refine List.eq_nil_iff_forall_not_mem.2 fun id hid => ?_
  obtain ⟨g, hg, -⟩ := (h.reached.exclusive.processing id).1 hid
  rw [show c.books.flights = [] from h.flights_eq_nil hu] at hg
  cases hg

end Solo

end EventRelay.Queue
