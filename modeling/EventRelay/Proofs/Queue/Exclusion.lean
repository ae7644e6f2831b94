import EventRelay.Proofs.Queue.Flights
import Mathlib.Data.List.Pairwise

/-!
# No event is in two flights

A claim passes over the ids in flight, and a batch that lands releases its ids.  So the ids in flight
are those of the batches in flight, and no two of these share one: the ids that a landing batch
releases are never those of another batch.

The store may hold several events with one id.  They can be in one batch, and never in two.

* `exclusive_move` — every move keeps the batches apart and the set of ids exact.
* `flights_exclusive` — the statement for whole runs, for the batches that the journal says are in
  flight, and for the next claim, whoever makes it.
-/

namespace EventRelay.Queue

/-- A list without its repetitions has none. -/
theorem nodup_eraseDups : ∀ ids : List EventId, ids.eraseDups.Nodup
  | [] => List.nodup_nil
  | id :: ids => by
    rw [List.eraseDups_cons, List.nodup_cons, List.mem_eraseDups]
    exact ⟨by simp, nodup_eraseDups _⟩
termination_by ids => ids.length
decreasing_by
  have hle := List.length_filter_le (fun b => !b == id) ids
  simp only [List.length_cons]
  omega

instance : Std.Symm fun f g : Flight => f.batch.ids.Disjoint g.batch.ids :=
  ⟨fun _ _ h _ hf hg => h hg hf⟩

/-! ## The invariant -/

/-- Batches in flight share no id, and their ids are the ids in flight. -/
structure Books.Exclusive (b : Books) : Prop where
  /-- No two batches in flight share an id. -/
  apart : b.flights.Pairwise fun f g => f.batch.ids.Disjoint g.batch.ids
  /-- Each id in flight is on record once. -/
  nodup : b.processing.Nodup
  /-- The ids in flight are those of the batches in flight. -/
  processing : ∀ id, id ∈ b.processing ↔ ∃ f ∈ b.flights, id ∈ f.batch.ids

/-- What can be claimed is stored, and neither in flight nor excluded. -/
theorem mem_claimable {b : Books} {exclude : List EventId} {e : Event}
    (h : e ∈ b.claimable exclude) : e ∈ b.events ∧ e.id ∉ b.processing ∧ e.id ∉ exclude := by
  have hmem := List.mem_filter.1 (List.mem_of_mem_take h)
  simpa using hmem

theorem not_processing_of_claimable {b : Books} {exclude : List EventId} {batch : Batch}
    (h : batch.events = b.claimable exclude) : ∀ id ∈ batch.ids, id ∉ b.processing := by
  intro id hid
  obtain ⟨e, he, rfl⟩ := List.mem_map.1 hid
  rw [h] at he
  exact (mem_claimable he).2.1

/-! ## Preservation -/

namespace Books.Exclusive

variable {b : Books}

theorem claim (h : b.Exclusive) {exclude : List EventId} {batch : Batch}
    (hb : batch.events = b.claimable exclude) {b' : Books}
    (hp : b'.processing = b.processing ++ batch.ids.eraseDups)
    (hf : b'.flights = b.flights ++ [⟨b.tickets, batch⟩]) : b'.Exclusive := by
  have hfree := not_processing_of_claimable hb
  refine ⟨?_, ?_, ?_⟩
  · rw [hf, List.pairwise_append]
    refine ⟨h.apart, List.pairwise_singleton _ _, ?_⟩
    intro f hfm g hg
    cases List.mem_singleton.1 hg
    exact fun id hidf hidg => hfree id hidg ((h.processing id).2 ⟨f, hfm, hidf⟩)
  · rw [hp, List.nodup_append]
    refine ⟨h.nodup, nodup_eraseDups _, ?_⟩
    rintro id hid _ hid' rfl
    exact hfree id (List.mem_eraseDups.1 hid') hid
  · intro id
    rw [hp, hf, List.mem_append, List.mem_eraseDups, h.processing id]
    simp only [List.mem_append, List.mem_singleton, or_and_right, exists_or, exists_eq_left]

theorem land (h : b.Exclusive) (ht : b.Tracked) {flight : Flight} (hm : flight ∈ b.flights)
    {b' : Books} (hp : b'.processing = b.processing.filter fun id => !flight.batch.ids.contains id)
    (hf : b'.flights = b.flights.filter fun f => f.ticket != flight.ticket) : b'.Exclusive := by
  refine ⟨by rw [hf]; exact h.apart.filter _, by rw [hp]; exact h.nodup.filter _, ?_⟩
  intro id
  rw [hp, hf, List.mem_filter, h.processing id]
  constructor
  · rintro ⟨⟨f, hfm, hid⟩, hnot⟩
    refine ⟨f, List.mem_filter.2 ⟨hfm, ?_⟩, hid⟩
    -- a batch with the ticket of the landing one is that one, and its ids are released
    by_contra hsame
    have heq : f = flight := ht.eq_of_ticket (ht.claimed_of_mem hfm) (ht.claimed_of_mem hm)
      (by simpa using hsame)
    rw [heq] at hid
    simp [hid] at hnot
  · rintro ⟨f, hfm, hid⟩
    obtain ⟨hfm, hne⟩ := List.mem_filter.1 hfm
    have hff : f ≠ flight := by
      rintro rfl
      simp at hne
    have hdis := h.apart.forall hfm hm hff
    exact ⟨⟨f, hfm, hid⟩, by simpa using fun hid' => hdis hid hid'⟩

end Books.Exclusive

/-- **Every move keeps the batches in flight apart.** -/
theorem exclusive_move {b b' : Books} {a : Action} (h : Books.Move b a b') (ht : b.Tracked)
    (hb : b.Exclusive) : b'.Exclusive := by
  cases h with
  | quiet => exact hb
  | accept events ha => exact ⟨hb.apart, hb.nodup, hb.processing⟩
  | delete ids => exact ⟨hb.apart, hb.nodup, hb.processing⟩
  | clear => exact ⟨hb.apart, hb.nodup, hb.processing⟩
  | claim exclude batch ha hbatch => exact hb.claim hbatch rfl rfl
  | deliver flight ending hf hn hd => exact ⟨hb.apart, hb.nodup, hb.processing⟩
  | retain flight ending failure hf hn hd => exact ⟨hb.apart, hb.nodup, hb.processing⟩
  | fail flight ending hf hn hd => exact ⟨hb.apart, hb.nodup, hb.processing⟩
  | land flight ending hf he => exact hb.land ht hf rfl rfl

theorem exclusive_run (settings : Settings) (store : Store) (actions : List Action) :
    ((Course.begin settings store).run actions).books.Exclusive := by
  refine Course.run_induction (P := fun c => c.books.Exclusive) ?_ ?_ actions
  · exact ⟨List.Pairwise.nil, List.nodup_nil, fun id => by
      simp [Course.books, Course.begin, Queue.books, ofStore]⟩
  · intro before a hx
    exact exclusive_move (Course.move_act _ a) (tracked_run settings store before) hx

theorem Course.Reached.exclusive {c : Course} (h : c.Reached) : c.books.Exclusive := by
  obtain ⟨settings, store, actions, rfl⟩ := h
  exact exclusive_run settings store actions

/-- A move whose note is a claim takes nothing that is in flight. -/
theorem not_processing_of_claimed {b b' : Books} {a : Action} {flight : Flight}
    (h : Books.Move b a b') (hj : b'.journal = b.journal ++ [.claimed flight]) :
    ∀ id ∈ flight.batch.ids, id ∉ b.processing := by
  cases h with
  | quiet =>
    have hlen := congrArg List.length hj
    simp at hlen
  | claim exclude batch ha hb =>
    have hnote := List.append_cancel_left hj
    cases hnote
    exact not_processing_of_claimable hb
  | _ =>
    have hnote := List.append_cancel_left hj
    cases hnote

/-- **In-flight exclusion.**  After every run, in flight are the batches that were claimed and have
not landed; no two of them share an id; the ids in flight are exactly theirs, each once; and a batch
that any further action claims holds none of these ids. -/
theorem flights_exclusive (settings : Settings) (store : Store) (actions : List Action) :
    let c := (Course.begin settings store).run actions
    c.queue.flights = aloft c.journal ∧
    c.queue.flights.Pairwise (fun f g => f.batch.ids.Disjoint g.batch.ids) ∧
    c.queue.processing.Nodup ∧
    (∀ id, id ∈ c.queue.processing ↔ ∃ f ∈ c.queue.flights, id ∈ f.batch.ids) ∧
    (∀ a flight, (c.act a).journal = c.journal ++ [.claimed flight] →
      ∀ id ∈ flight.batch.ids, id ∉ c.queue.processing) := by
  intro c
  have ht : c.books.Tracked := tracked_run settings store actions
  have hx : c.books.Exclusive := exclusive_run settings store actions
  exact ⟨ht.flights, hx.apart, hx.nodup, hx.processing,
    fun a flight hj => not_processing_of_claimed (c.move_act a) hj⟩

end EventRelay.Queue
