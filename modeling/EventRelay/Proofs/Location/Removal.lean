import EventRelay.Proofs.Location.Forest
import Mathlib.Logic.Function.Iterate

/-!
# What unmounting a node takes away

A node is unmounted together with everything below it.  What is below it is not looked up: round after
round, the entries whose parent has gone are dropped, until a round drops nothing.

* `settle_eq_iterate` — **the rounds come to an end**, after at most as many as there are entries.
* `mem_settle_of_closed` — entries whose parents stay among them are never dropped.
* `mem_remove` — **what is left are the entries that are not within the node**.
* `remove_exact` — all of it, of every tree that operations can lead to.
-/

namespace EventRelay.Location.Tree

variable {t : Tree} {node : Node} {e : Entry}

/-! ## The rounds -/

/-- **The rounds come to an end**: after at most as many as there are entries, one more drops nothing. -/
theorem settle_eq_iterate {fuel : Nat} {es : List Entry} (h : es.length < fuel) :
    ∃ rounds ≤ es.length, settle fuel es = dropOrphans^[rounds] es := by
  induction fuel generalizing es with
  | zero => exact absurd h (Nat.not_lt_zero _)
  | succ fuel ih =>
    rw [settle]
    split
    · exact ⟨0, Nat.zero_le _, rfl⟩
    · rename_i hlen
      -- the round has dropped an entry, so the rounds that follow have fewer to go through
      have hlt : (dropOrphans es).length < es.length :=
        Nat.lt_of_le_of_ne (List.length_filter_le _ _) hlen
      have hfuel : (dropOrphans es).length < fuel := by omega
      obtain ⟨rounds, hle, heq⟩ := ih hfuel
      exact ⟨rounds + 1, by omega, heq⟩

/-- **Entries whose parents stay among them are never dropped.** -/
theorem mem_settle_of_closed (keep : Entry → Prop)
    (hclosed : ∀ e, keep e → ∀ p, e.parent = some p → ∃ f, keep f ∧ f.node.location = p)
    (fuel : Nat) {es : List Entry} (h : ∀ e, keep e → e ∈ es) : ∀ e, keep e → e ∈ settle fuel es := by
  induction fuel generalizing es with
  | zero => exact h
  | succ fuel ih =>
    rw [settle]
    split
    · exact h
    · refine ih fun e he => mem_dropOrphans.2 ⟨h e he, fun p hp => ?_⟩
      obtain ⟨f, hf, hloc⟩ := hclosed e he p hp
      exact ⟨f, h f hf, hloc⟩

/-! ## What is left -/

/-- Nothing within the node is left: its parents would be left as well, and the node is not. -/
theorem not_within_of_mem_remove (hw : t.WellFormed) (he : e ∈ (t.remove node).2.entries) :
    ¬t.Within node.location e.node.location := by
  intro hwithin
  generalize hl : e.node.location = l at hwithin
  induction hwithin generalizing e with
  | self =>
    have hrest := (settle_sublist _ _).subset he
    simp [hl] at hrest
  | @step f p hf hp _ ih =>
    obtain rfl := hw.eq_of_location ((t.remove_sublist node).subset he) hf hl
    obtain ⟨g, hg, hloc⟩ := parent_of_mem_remove he hp
    exact ih hg hloc

/-- **What is left are the entries that are not within the node.** -/
theorem mem_remove (hw : t.WellFormed) :
    e ∈ (t.remove node).2.entries ↔
      e ∈ t.entries ∧ ¬t.Within node.location e.node.location := by
  constructor
  · exact fun he => ⟨(t.remove_sublist node).subset he, not_within_of_mem_remove hw he⟩
  · -- the parent of an entry that is not within the node is not within it either
    refine fun he => mem_settle_of_closed
      (fun e => e ∈ t.entries ∧ ¬t.Within node.location e.node.location) ?_ _ ?_ e he
    · rintro f ⟨hf, hout⟩ p hp
      obtain ⟨g, hg, rfl⟩ := contains_iff.1 (hw.parents f hf p hp)
      exact ⟨g, ⟨hg, fun hin => hout (.step hf hp hin)⟩, rfl⟩
    · rintro f ⟨hf, hout⟩
      refine List.mem_filter.2 ⟨hf, bne_iff_ne.2 fun hloc => hout ?_⟩
      rw [hloc]
      exact .self

open Classical in
/-- They are left in their order. -/
theorem entries_remove (hw : t.WellFormed) (node : Node) :
    (t.remove node).2.entries =
      t.entries.filter fun e => ¬t.Within node.location e.node.location := by
  have hsub := t.remove_sublist node
  have hnodup : t.entries.Nodup := List.Nodup.of_map _ hw.nodes_nodup
  have hperm : (t.remove node).2.entries.Perm
      (t.entries.filter fun e => ¬t.Within node.location e.node.location) := by
    refine (List.perm_ext_iff_of_nodup (hsub.nodup hnodup) (hnodup.filter _)).2 fun e => ?_
    rw [mem_remove hw, List.mem_filter, decide_eq_true_eq]
  have hall : (t.remove node).2.entries.filter (fun e => ¬t.Within node.location e.node.location) =
      (t.remove node).2.entries :=
    List.filter_eq_self.2 fun e he => decide_eq_true (mem_remove hw |>.1 he).2
  refine List.Sublist.eq_of_length ?_ hperm.length_eq
  rw [← hall]
  exact hsub.filter _

open Classical in
/-- The number that is told is that of the entries within the node. -/
theorem count_remove (hw : t.WellFormed) (node : Node) :
    (t.remove node).1 = t.entries.countP fun e => t.Within node.location e.node.location := by
  have hsplit : t.entries.length =
      t.entries.countP (fun e => t.Within node.location e.node.location) +
        t.entries.countP (fun e => ¬t.Within node.location e.node.location) := by
    simpa using List.length_eq_countP_add_countP (l := t.entries)
      (fun e => decide (t.Within node.location e.node.location))
  have hleft : (t.remove node).2.entries.length =
      t.entries.countP fun e => ¬t.Within node.location e.node.location := by
    rw [entries_remove hw, List.countP_eq_length_filter]
  have htold : (t.remove node).1 = t.entries.length - (t.remove node).2.entries.length := rfl
  omega

open Classical in
/-- **Unmounting takes away exactly what is within the node.**  Of every tree that operations can lead
to, loops among the parents included, and of every node, mounted or not:

* The rounds end: after at most as many as there are entries, one more would drop nothing.
* What is left are the entries from which no chain of parents, of whatever length, leads to the node,
  unchanged and in their order; what is told is the number of the others.
* Every parent of what is left is mounted, and the cache of reported paths is as before. -/
theorem remove_exact (ops : List Operation) (node : Node) :
    let t := run {} ops
    let left := (t.remove node).2
    (∃ rounds ≤ t.size, left.entries =
        dropOrphans^[rounds] (t.entries.filter fun e => e.node.location != node.location) ∧
      dropOrphans left.entries = left.entries) ∧
    left.entries = t.entries.filter (fun e => ¬t.Within node.location e.node.location) ∧
    (t.remove node).1 = t.entries.countP (fun e => t.Within node.location e.node.location) ∧
    (∀ e ∈ left.entries, ∀ p, e.parent = some p → left.contains p = true) ∧
    left.reported = t.reported := by
  intro t left
  have hw : t.WellFormed := wellFormed_run ops
  obtain ⟨rounds, hle, hrounds⟩ := settle_eq_iterate (Nat.lt_succ_self
    (t.entries.filter fun e => e.node.location != node.location).length)
  have hsize : rounds ≤ t.size := Nat.le_trans hle (List.length_filter_le _ _)
  exact ⟨⟨rounds, hsize, hrounds, dropOrphans_settle (Nat.lt_succ_self _)⟩, entries_remove hw node,
    count_remove hw node, (hw.remove node).parents, rfl⟩

/-- Two sections that have been moved into each other, with a link in one of them: with the link only
the link goes, with a section all three do. -/
example :
    let first := sampleNode "1" "Section" "first"
    let second := sampleNode "2" "Section" "second"
    let link := sampleNode "3" "Link" "more"
    let t := run {} [.add first none, .add second (some first), .add link (some second),
      .add first (some second)]
    (t.remove link).1 = 1 ∧ (t.remove first).1 = 3 ∧ (t.remove (sampleNode "4" "Link" "no")).1 = 0 := by
  decide

end EventRelay.Location.Tree
