import EventRelay.Proofs.Queue.Progress
import EventRelay.Proofs.Queue.SingleDelivery
import EventRelay.Proofs.Run.Schedule
import Mathlib.Data.List.Flatten

/-!
# What a flush accounts for

A flush on its own whose calls end one by one, each batch landing at once.  Nothing has to be said
beforehand about how the calls end; when the flush has returned, its report and the store both follow
from the batches that were delivered.

* `Solo.foresee`, `Solo.settle`, `Solo.flushStep` — the steps of such a flush, with endings that are
  found on the way.
* `flights_flushStep`, `store_settle` — what a step does to the batches in flight and to the store.
* `Account` — a report and what is left, by the batches that were accepted; `Solo.account` — **a flush
  that has returned gives a true account**.
-/

namespace EventRelay.Queue

/-! ## Endings that are found on the way -/

/-- A flush returns by a step of its own, and by nothing else. -/
theorem not_returned_act {c : Course} (hl : c.queue.Lined) {id : Nat} {f f' : Flush} {a : Action}
    (ha : a ≠ .flushStep id) (hf : c.queue.flushes[id]? = some f)
    (hf' : (c.act a).queue.flushes[id]? = some f') (hnot : f.stage ≠ .returned) :
    f'.stage ≠ .returned := by
  obtain ⟨f₁, hf₁, hchange⟩ := exists_flushChange hl hf a
  rw [hf'] at hf₁
  cases hf₁
  rcases hchange with rfl | hchange
  · exact hnot
  · cases hchange with
    | stay _ => exact hnot
    | permit _ _ => exact Stage.noConfusion
    | wake _ _ => exact Stage.noConfusion
    | move hm => exact absurd rfl ha

namespace Solo

variable {start c c' : Course} {verdict verdict' : Nat → Ending} {f f' : Flush}
  {tail tail' notes : List Note}

/-- As long as the call for a batch has not ended, nothing is said about its end. -/
theorem foresee (h : Solo start verdict f tail c) {i : Nat}
    (hn : c.ending? (start.queue.tickets + i) = none) (ending : Ending) :
    Solo start (Function.update verdict i ending) f tail c := by
  refine { h with notes := fun note hnote => ?_ }
  have hfits := h.notes note hnote
  cases note with
  | handled g ending' failure =>
    obtain ⟨hg, hv, hfailure⟩ := hfits
    refine ⟨hg, ?_, hfailure⟩
    obtain ⟨j, -, hj, -⟩ := h.chunk_of_mem hg
    have hji : j ≠ i := by
      rintro rfl
      rw [Course.ending?, List.findSome?_eq_none_iff] at hn
      have hnone := hn _ (by rw [h.journal]; exact List.mem_append_right _ hnote)
      simp [Note.ending?, hj] at hnone
    rw [hv, hj, Nat.add_sub_cancel_left, Function.update_of_ne hji]
  | _ => exact hfits

/-- What the journal has to tell since the call goes on with it. -/
theorem tail_eq (h : Solo start verdict f tail c) (h' : Solo start verdict' f' tail' c')
    (hj : c'.journal = c.journal ++ notes) : tail' = tail ++ notes := by
  rw [h'.journal, h.journal, List.append_assoc] at hj
  exact List.append_cancel_left hj

/-- The flight with a ticket. -/
theorem flight?_eq (h : Solo start verdict f tail c) {g : Flight} (hg : g ∈ c.queue.flights) :
    c.flight? g.ticket = some g := by
  obtain ⟨g', hg'⟩ := Course.flight?_of_mem hg
  have hsame : g' = g := List.inj_on_of_nodup_map h.reached.tracked.flights_tickets_nodup
    (Course.flight?_mem hg') hg (Course.flight?_ticket hg')
  rw [hg', hsame]

/-- A call ends, and its batch lands at once. -/
theorem settle (h : Solo start verdict f tail c) (ho : c.Open) {g : Flight}
    (hg : g ∈ c.queue.flights) (ending : Ending)
    (hc' : c' = c.next (c.queue.settle g.ticket ending.outcome).2
      [.handled g ending none, .landed g]) :
    c'.Open ∧ ∃ verdict' f', Solo start verdict' f' (tail ++ [.handled g ending none, .landed g]) c' ∧
      workLeft start.chunkTotal f' c' < workLeft start.chunkTotal f c ∧
      (f.stage ≠ .returned → f'.stage ≠ .returned) := by
  obtain ⟨i, -, hi, -⟩ := h.chunk_of_mem (h.claimed_since hg)
  have hflight := h.flight?_eq hg
  have hn := ho g hg
  have hboth := act_finish_land c ending hflight hn
  have herase : c.queue.store.faults.delete = false := by rw [h.faults, h.ready.erasable]
  rw [account_failure herase, ← hc'] at hboth
  have hopen : c'.Open := hboth ▸ ho.settle ending hflight
  have hfinish : (c.act? (.finish g.ticket ending)).isSome = true := by
    simp [Course.act?, hflight, hn]
  obtain ⟨c₁, hc₁⟩ := Option.isSome_iff_exists.1 hfinish
  rw [Course.act_of_act? hc₁] at hboth
  have hforeseen := h.foresee (hi ▸ hn) ending
  have hv : Function.update verdict i ending i = ending := Function.update_self i ending verdict
  obtain ⟨f₁, tail₁, h₁, hless₁⟩ := hforeseen.finish (i := i) (by rw [hv, ← hi]; exact hc₁)
  have hlast : ∃ f₂ tail₂, Solo start (Function.update verdict i ending) f₂ tail₂
      (c₁.act (.land g.ticket)) ∧
        workLeft start.chunkTotal f₂ (c₁.act (.land g.ticket)) < workLeft start.chunkTotal f c := by
    rcases c₁.act_cases (.land g.ticket) with hland | hstay
    · obtain ⟨f₂, tail₂, h₂, hless₂⟩ := h₁.land hland
      exact ⟨f₂, tail₂, h₂, Nat.lt_trans hless₂ hless₁⟩
    · rw [hstay]
      exact ⟨f₁, tail₁, h₁, hless₁⟩
  obtain ⟨f₂, tail₂, h₂, hless₂⟩ := hlast
  have hgoes : f.stage ≠ .returned → f₂.stage ≠ .returned := by
    intro hnot
    have hnot₁ : f₁.stage ≠ .returned := by
      refine not_returned_act h.reached.supplied.lined (a := .finish g.ticket ending)
        Action.noConfusion h.getElem?_flush ?_ hnot
      rw [Course.act_of_act? hc₁]
      exact h₁.getElem?_flush
    exact not_returned_act h₁.reached.supplied.lined Action.noConfusion h₁.getElem?_flush
      h₂.getElem?_flush hnot₁
  rw [hboth] at h₂ hless₂
  have htail : tail₂ = tail ++ [.handled g ending none, .landed g] :=
    h.tail_eq h₂ (by rw [hc']; rfl)
  rw [htail] at h₂
  exact ⟨hopen, _, f₂, h₂, hless₂, hgoes⟩

/-- A step of the flush, with what it has to tell. -/
theorem flushStep (h : Solo start verdict f tail c) {progress : Progress} {q : Queue}
    (hstep : c.queue.flushStep start.queue.flushes.length = some (progress, q)) :
    ∃ f', Solo start verdict f' (tail ++ progress.notes) (c.next q progress.notes) ∧
      workLeft start.chunkTotal f' (c.next q progress.notes) < workLeft start.chunkTotal f c := by
  have hact : c.act? (.flushStep start.queue.flushes.length) = some (c.next q progress.notes) := by
    rw [Course.act?, hstep]
    rfl
  obtain ⟨f', tail', h', hless⟩ := h.step hact
  have htail : tail' = tail ++ progress.notes := h.tail_eq h' rfl
  rw [htail] at h'
  exact ⟨f', h', hless⟩

end Solo

/-- A step of a flush leaves the store alone, and claims the batch that it sends. -/
theorem flights_flushStep {q q' : Queue} {id : Nat} {progress : Progress}
    (h : q.flushStep id = some (progress, q')) :
    q'.store = q.store ∧
      ((∃ flight, progress = .sent flight ∧ q'.flights = q.flights ++ [flight]) ∨
        (∀ flight, progress ≠ .sent flight) ∧ q'.flights = q.flights) := by
  obtain ⟨f, q₀, g, -, hm, rfl⟩ := flushMove_of_flushStep h
  obtain ⟨_, _, _, hr⟩ := q.release_frame
  refine ⟨hm.store, ?_⟩
  cases hm with
  | claim batch hs hc => exact Or.inl ⟨_, rfl, rfl⟩
  | exhaust hs hc =>
    refine Or.inr ⟨nofun, ?_⟩
    rw [hr]
    rfl
  | giveUp e hs hc =>
    refine Or.inr ⟨nofun, ?_⟩
    rw [hr]
    rfl
  | _ => exact Or.inr ⟨nofun, rfl⟩

/-- When a batch settles, events are deleted from the store, or none are. -/
theorem store_settle (q : Queue) (ticket : Nat) (outcome : Outcome) :
    (q.settle ticket outcome).2.store = q.store ∨
      ∃ ids, q.store.delete ids = .ok (q.settle ticket outcome).2.store := by
  cases hf : q.flights.find? fun f => f.ticket == ticket with
  | none =>
    left
    simp only [settle, hf]
  | some flight =>
    rw [store_settle_of_flight outcome hf, account.eq_def]
    split
    · dsimp only
      split
      · rename_i store hdelete
        exact Or.inr ⟨_, hdelete⟩
      · exact Or.inl rfl
    · exact Or.inl rfl

/-- Without one of the batches in flight the others are left. -/
theorem perm_filter_ticket {flights others : List Flight} {g : Flight}
    (hp : (g :: others).Perm flights) (hnd : (flights.map Flight.ticket).Nodup) :
    others.Perm (flights.filter fun f => f.ticket != g.ticket) := by
  have hnd' : ((g :: others).map Flight.ticket).Nodup := (hp.map Flight.ticket).nodup_iff.2 hnd
  rw [List.map_cons, List.nodup_cons] at hnd'
  have hself : (g :: others).filter (fun f => f.ticket != g.ticket) = others := by
    rw [List.filter_cons_of_neg (by simp)]
    refine List.filter_eq_self.2 fun f hf => ?_
    simp only [bne_iff_ne]
    exact fun heq => hnd'.1 (List.mem_map.2 ⟨f, hf, heq⟩)
  have hfilter := hp.filter fun f => f.ticket != g.ticket
  rwa [hself] at hfilter

theorem deliveries_append (as bs : List Note) :
    deliveries (as ++ bs) = deliveries as ++ deliveries bs :=
  List.filterMap_append

theorem mem_deliveries {journal : List Note} {b : Batch} :
    b ∈ deliveries journal ↔
      ∃ g ending failure, .handled g ending failure ∈ journal ∧ ending.delivers = true ∧
        g.batch = b := by
  constructor
  · intro hb
    obtain ⟨note, hn, hd⟩ := List.mem_filterMap.1 hb
    cases note with
    | handled g ending failure =>
      simp only [Note.delivered?] at hd
      split at hd
      · rename_i hdelivers
        exact ⟨g, ending, failure, hn, hdelivers, Option.some.inj hd⟩
      · cases hd
    | _ => cases hd
  · rintro ⟨g, ending, failure, hn, hd, rfl⟩
    exact List.mem_filterMap.2 ⟨_, hn, if_pos hd⟩

/-! ## The account -/

/-- The events of the chunks that are not among the accepted batches, in order. -/
def unaccepted (size : Nat) (events : List Event) (accepted : List Batch) : List Event :=
  ((chunks size events).filter fun chunk =>
    !(accepted.map Batch.ids).contains (chunk.map Event.id)).flatten

/-- A flush of some events in batches of one size, of which these were accepted: what it reports,
and what is left. -/
structure Account (size : Nat) (events : List Event) (accepted : List Batch) (report : Report)
    (left : List Event) : Prop where
  /-- Only batches of the queue were accepted. -/
  batched : ∀ b ∈ accepted, b.events ∈ chunks size events
  /-- All batches are counted. -/
  batches : report.batches = (chunks size events).length
  /-- Every event was delivered or has failed. -/
  total : report.delivered + report.failed = events.length
  /-- What has failed is left. -/
  failed : report.failed = left.length
  /-- The events of the other batches are left, in their order. -/
  left : left = unaccepted size events accepted

/-- Nothing is left that was not there. -/
theorem Account.sublist {size : Nat} {events : List Event} {accepted : List Batch} {report : Report}
    {left : List Event} (h : Account size events accepted report left) : left.Sublist events := by
  have hparts : (unaccepted size events accepted).Sublist (chunks size events).flatten :=
    List.filter_sublist.flatten
  have hwhole : (chunks size events).flatten.Sublist events := by
    rw [chunks, ← List.flatMap_def, flatMap_chunk]
    exact List.take_sublist _ events
  rw [h.left]
  exact hparts.trans hwhole

namespace Solo

variable {start c : Course} {verdict : Nat → Ending} {f : Flush} {tail : List Note}

/-- A chunk was delivered if a batch with its ids was. -/
theorem contains_deliveries (h : Solo start verdict f tail c) (hu : f.uncounted = [])
    (hall : f.sent.length = start.chunkTotal) {i : Nat} (hi : i < start.chunkTotal) :
    ((deliveries tail).map Batch.ids).contains ((start.chunkAt i).map Event.id) =
      (verdict i).delivers := by
  rw [Bool.eq_iff_iff, List.contains_iff_mem, List.mem_map]
  constructor
  · rintro ⟨b, hb, hids⟩
    obtain ⟨g, ending, failure, hn, hd, rfl⟩ := mem_deliveries.1 hb
    obtain ⟨hg, hv, -⟩ := h.notes _ hn
    obtain ⟨j, -, hj, hevents⟩ := h.chunk_of_mem hg
    -- the chunk is not empty, and an id of it is in no other
    have hne : start.chunkAt i ≠ [] := by
      intro hnil
      have hle := (chunk_eq_nil h.ready.reached.supplied.size _ i).1 hnil
      exact absurd hi (Nat.not_lt.2 hle)
    obtain ⟨e, he⟩ := List.exists_mem_of_ne_nil _ hne
    have hid : e.id ∈ (start.chunkAt j).map Event.id := by
      rw [← hevents, show g.batch.events.map Event.id = _ from hids]
      exact List.mem_map_of_mem he
    obtain ⟨e', he', hsame⟩ := List.mem_map.1 hid
    have hji : j = i := chunk_unique h.ready.distinct he' he hsame
    rw [hv, hj, Nat.add_sub_cancel_left, hji] at hd
    exact hd
  · intro hd
    obtain ⟨-, g, hn, hevents⟩ := h.outcome hu (hall ▸ hi)
    refine ⟨g.batch, mem_deliveries.2 ⟨g, _, _, hn, hd, rfl⟩, ?_⟩
    rw [Batch.ids, hevents]

/-- **A flush that has returned gives a true account.** -/
theorem account (h : Solo start verdict f tail c) (hst : f.stage = .returned) :
    Account start.queue.settings.batchSize start.queue.store.events (deliveries tail) f.report
      c.queue.store.events := by
  have hu : f.uncounted = [] := by rw [Flush.uncounted, hst]
  have hall : f.sent.length = start.chunkTotal := h.exhausted (by rw [Flush.dispatches, hst])
  have hreport : f.report = start.summary verdict start.chunkTotal := by rw [h.report hu, hall]
  have hleft := h.events_left hu hall
  refine ⟨?_, ?_, ?_, ?_, ?_⟩
  · intro b hb
    obtain ⟨g, ending, failure, hn, -, rfl⟩ := mem_deliveries.1 hb
    obtain ⟨i, hi, -, hevents⟩ := h.chunk_of_mem (h.notes _ hn).1
    rw [hevents]
    have hlt : i < start.chunkTotal := hall ▸ hi
    exact List.mem_map.2 ⟨i, List.mem_range.2 hlt, rfl⟩
  · rw [hreport, chunks, List.length_map, List.length_range]
    rfl
  · have hsum := length_portion_add start.queue.settings.batchSize start.queue.store.events
      (fun i => (verdict i).delivers) start.chunkTotal
    rw [show start.queue.store.events.take
        (start.chunkTotal * start.queue.settings.batchSize) = start.queue.store.events from
      take_chunkCount h.ready.reached.supplied.size _] at hsum
    rw [hreport]
    exact hsum
  · rw [hreport, hleft]
    rfl
  · rw [hleft, unaccepted, chunks, List.filter_map, ← List.flatMap_def]
    refine congrArg (List.flatMap start.chunkAt) (List.filter_congr fun i hi => ?_)
    rw [Function.comp_apply]
    exact congrArg (! ·) (h.contains_deliveries hu hall (List.mem_range.1 hi)).symm

end Solo

end EventRelay.Queue
