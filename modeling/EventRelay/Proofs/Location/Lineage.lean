import EventRelay.Proofs.Location.Operations
import Mathlib.Data.List.Perm.Subperm

/-!
# Lineages

The lineage of a mounted node are the nodes above it, from a root down to its parent.  A node whose
parents go in a circle has none.

* `Tree.Lineage` — the lineage of an entry, and `Tree.Rooted`: it has one.
* `Lineage.unique`, `Lineage.locations_nodup`, `Lineage.length_lt` — an entry has at most one lineage,
  no location id comes twice in it, and it is shorter than the tree is large.
* `Tree.Reachable`, `rooted_iff_reachable` — the nodes that have a lineage are those that are reached
  from the roots through children.
* `Lineage.of_remove`, `Lineage.remove` — unmounting a node keeps the lineages of what is left.
-/

namespace EventRelay.Location.Tree

/-! ## The nodes above a node -/

/-- The parents of the entry lead to a root: the nodes on the way, the root first. -/
inductive Lineage (t : Tree) : Entry → List Node → Prop
  /-- A root has nothing above it. -/
  | root {e : Entry} (he : e ∈ t.entries) (hp : e.parent = none) : Lineage t e []
  /-- Above any other node are its parent and what is above that. -/
  | under {e p : Entry} {above : List Node} (h : Lineage t p above) (he : e ∈ t.entries)
      (hp : e.parent = some p.node.location) : Lineage t e (above ++ [p.node])

/-- The parents of the entry lead to a root. -/
def Rooted (t : Tree) (e : Entry) : Prop :=
  ∃ above, t.Lineage e above

namespace Lineage

variable {t : Tree} {e f : Entry} {above above' : List Node}

theorem mem (h : t.Lineage e above) : e ∈ t.entries := by
  cases h with
  | root he _ => exact he
  | under _ he _ => exact he

/-- **An entry has at most one lineage.** -/
theorem unique (hw : t.WellFormed) (h : t.Lineage e above) (h' : t.Lineage e above') :
    above = above' := by
  induction h generalizing above' with
  | root he hp =>
    cases h' with
    | root => rfl
    | under _ _ hp' => rw [hp] at hp'; cases hp'
  | @under e p above hl he hp ih =>
    cases h' with
    | root _ hp' => rw [hp] at hp'; cases hp'
    | @under _ p' above' hl' _ hp' =>
      have hloc : p.node.location = p'.node.location := by
        rw [hp] at hp'
        exact Option.some.inj hp'
      obtain rfl := hw.eq_of_location hl.mem hl'.mem hloc
      rw [ih hl']

/-- A node of the lineage has a shorter lineage itself. -/
theorem exists_of_mem (h : t.Lineage e above) {n : Node} (hn : n ∈ above) :
    ∃ f above', f.node = n ∧ t.Lineage f above' ∧ above'.length < above.length := by
  induction h with
  | root => cases hn
  | @under e p above hl he hp ih =>
    rw [List.length_append, List.length_singleton]
    rcases List.mem_append.1 hn with hn | hn
    · obtain ⟨f, above', hf, hl', hlt⟩ := ih hn
      exact ⟨f, above', hf, hl', by omega⟩
    · exact ⟨p, above, (List.mem_singleton.1 hn).symm, hl, Nat.lt_succ_self _⟩

/-- An entry is not above itself. -/
theorem location_not_mem (hw : t.WellFormed) (h : t.Lineage e above) :
    e.node.location ∉ above.map Node.location := by
  intro hmem
  obtain ⟨n, hn, hloc⟩ := List.mem_map.1 hmem
  obtain ⟨f, above', rfl, hl, hlt⟩ := h.exists_of_mem hn
  obtain rfl := hw.eq_of_location hl.mem h.mem hloc
  rw [hl.unique hw h] at hlt
  exact Nat.lt_irrefl _ hlt

/-- No location id comes twice on the way to a node. -/
theorem locations_nodup (hw : t.WellFormed) (h : t.Lineage e above) :
    ((above ++ [e.node]).map Node.location).Nodup := by
  have hnext : ∀ {e above}, t.Lineage e above → (above.map Node.location).Nodup →
      ((above ++ [e.node]).map Node.location).Nodup := by
    intro e above hl hnd
    rw [List.map_append, List.map_singleton, ← List.concat_eq_append]
    exact hnd.concat (hl.location_not_mem hw)
  refine hnext h ?_
  induction h with
  | root => exact List.nodup_nil
  | under hl he hp ih => exact hnext hl ih

/-- **A lineage is shorter than the tree is large.** -/
theorem length_lt (hw : t.WellFormed) (h : t.Lineage e above) : above.length < t.size := by
  have hsub : (above ++ [e.node]).map Node.location ⊆ t.entries.map (·.node.location) := by
    intro l hl
    obtain ⟨n, hn, rfl⟩ := List.mem_map.1 hl
    rcases List.mem_append.1 hn with hn | hn
    · obtain ⟨f, _, rfl, hlf, -⟩ := h.exists_of_mem hn
      exact List.mem_map_of_mem hlf.mem
    · rw [List.mem_singleton.1 hn]
      exact List.mem_map_of_mem h.mem
  have hle := ((h.locations_nodup hw).subperm hsub).length_le
  simp only [List.length_map, List.length_append, List.length_singleton] at hle
  exact hle

/-- There is a root at the top. -/
theorem roots_ne_nil (h : t.Lineage e above) : t.roots ≠ [] := by
  induction h with
  | @root e he hp =>
    have hmem : e.node ∈ t.roots :=
      List.mem_map_of_mem (List.mem_filter.2 ⟨he, by rw [hp]; rfl⟩)
    exact List.ne_nil_of_mem hmem
  | under _ _ _ ih => exact ih

end Lineage

/-! ## Reaching nodes from the roots -/

variable {t : Tree} {e : Entry} {n m : Node}

theorem mem_roots : n ∈ t.roots ↔ ∃ e ∈ t.entries, e.parent = none ∧ e.node = n := by
  simp [roots, and_assoc]

theorem mem_children :
    n ∈ t.children m ↔ ∃ e ∈ t.entries, e.parent = some m.location ∧ e.node = n := by
  simp [children, childrenOf, and_assoc]

/-- The node is reached from the roots through children. -/
inductive Reachable (t : Tree) : Node → Prop
  /-- A root is. -/
  | root {n : Node} (hn : n ∈ t.roots) : Reachable t n
  /-- A child of a node that is reached is. -/
  | child {m n : Node} (h : Reachable t m) (hn : n ∈ t.children m) : Reachable t n

theorem Lineage.reachable {above : List Node} (h : t.Lineage e above) : t.Reachable e.node := by
  induction h with
  | @root e he hp => exact .root (mem_roots.2 ⟨e, he, hp, rfl⟩)
  | @under e p above hl he hp ih => exact .child ih (mem_children.2 ⟨e, he, hp, rfl⟩)

theorem Reachable.exists_rooted (h : t.Reachable n) : ∃ e, e.node = n ∧ t.Rooted e := by
  induction h with
  | root hn =>
    obtain ⟨e, he, hp, rfl⟩ := mem_roots.1 hn
    exact ⟨e, rfl, [], .root he hp⟩
  | child _ hn ih =>
    obtain ⟨p, rfl, above, hl⟩ := ih
    obtain ⟨e, he, hp, rfl⟩ := mem_children.1 hn
    exact ⟨e, rfl, _, .under hl he hp⟩

/-- **The nodes that have a lineage are those that are reached from the roots.** -/
theorem rooted_iff_reachable (hw : t.WellFormed) (he : e ∈ t.entries) :
    t.Rooted e ↔ t.Reachable e.node := by
  constructor
  · rintro ⟨above, hl⟩
    exact hl.reachable
  · intro h
    obtain ⟨f, hf, above, hl⟩ := h.exists_rooted
    obtain rfl := hw.eq_of_location hl.mem he (by rw [hf])
    exact ⟨above, hl⟩

/-! ## How operations change lineages -/

/-- Lineages are a matter of the entries. -/
theorem Lineage.of_entries {t' : Tree} {above : List Node} (h : t.Lineage e above)
    (heq : t'.entries = t.entries) : t'.Lineage e above := by
  induction h with
  | root he hp => exact .root (heq ▸ he) hp
  | under _ he hp ih => exact .under ih (heq ▸ he) hp

/-- What is left when a node was unmounted had its lineage before. -/
theorem Lineage.of_remove {node : Node} {above : List Node}
    (h : (t.remove node).2.Lineage e above) : t.Lineage e above := by
  have hsub := (t.remove_sublist node).subset
  induction h with
  | root he hp => exact .root (hsub he) hp
  | under _ he hp ih => exact .under ih (hsub he) hp

/-- **What is left when a node was unmounted keeps its lineage.** -/
theorem Lineage.remove {above : List Node} (hw : t.WellFormed) (h : t.Lineage e above) {node : Node}
    (he : e ∈ (t.remove node).2.entries) : (t.remove node).2.Lineage e above := by
  induction h with
  | root _ hp => exact .root he hp
  | @under e p above hl _ hp ih =>
    -- the parent is left as well, and it is the same entry
    obtain ⟨f, hf, hloc⟩ := parent_of_mem_remove he hp
    obtain rfl := hw.eq_of_location ((t.remove_sublist node).subset hf) hl.mem hloc
    exact .under (ih hf) he hp

end EventRelay.Location.Tree
