import EventRelay.Proofs.Location.Lineage
import EventRelay.Proofs.Weaving

/-!
# What mounting a node changes

Entries are told apart by location ids alone.  To mount a node is to put it into the entry that has its
location id, or into a new one at the end; all other entries stay as they are and where they are, also
those below the node.  What is asked of the tree goes through all entries, which gives right answers
because no location id comes twice and every parent is mounted.

* `place_of_mem`, `place_of_not_mem` — **a node replaces the entry of its location id, or comes last**.
* `filter_place` — the other entries stay in their order.
* `perm_roots_children` — **the roots and the children of all nodes are all nodes**, each once.
* `representation_kept` — all of it, of every tree that operations can lead to.
-/

namespace EventRelay.Location.Tree

variable {t : Tree} {node : Node} {parent : Option String} {es : List Entry}

/-! ## One entry -/

/-- **A node replaces the entry of its location id**, in its position. -/
theorem place_of_mem (h : ∃ e ∈ es, e.node.location = node.location) :
    ∃ i e, es[i]? = some e ∧ e.node.location = node.location ∧
      place node parent es = es.set i ⟨node, parent⟩ := by
  induction es with
  | nil =>
    obtain ⟨e, he, -⟩ := h
    cases he
  | cons f es ih =>
    by_cases hf : f.node.location = node.location
    · exact ⟨0, f, rfl, hf, by rw [place, if_pos hf]; rfl⟩
    · obtain ⟨e, he, hloc⟩ := h
      rcases List.mem_cons.1 he with rfl | he
      · exact absurd hloc hf
      · obtain ⟨i, e, hi, hloc, hset⟩ := ih ⟨e, he, hloc⟩
        exact ⟨i + 1, e, hi, hloc, by rw [place, if_neg hf, hset]; rfl⟩

/-- **A node of a new location id comes last.** -/
theorem place_of_not_mem (h : ∀ e ∈ es, e.node.location ≠ node.location) :
    place node parent es = es ++ [⟨node, parent⟩] := by
  induction es with
  | nil => rfl
  | cons f es ih =>
    obtain ⟨hf, hes⟩ := List.forall_mem_cons.1 h
    rw [place, if_neg hf, ih hes, List.cons_append]

/-- The entries of other location ids stay in their order. -/
theorem filter_place (node : Node) (parent : Option String) (es : List Entry) :
    (place node parent es).filter (fun e => e.node.location != node.location) =
      es.filter fun e => e.node.location != node.location := by
  induction es with
  | nil => simp [place]
  | cons f es ih =>
    rw [place]
    split
    · rename_i hf
      simp [hf]
    · rw [List.filter_cons, List.filter_cons, ih]

/-- So do the nodes below a location id. -/
theorem filter_childrenOf_placed (t : Tree) (node : Node) (parent : Option Node) (l : String) :
    ((t.placed node parent).childrenOf l).filter (fun n => n.location != node.location) =
      (t.childrenOf l).filter fun n => n.location != node.location := by
  have hchildren : ∀ u : Tree, (u.childrenOf l).filter (fun n => n.location != node.location) =
      ((u.entries.filter fun e => e.node.location != node.location).filter
        fun e => e.parent == some l).map Entry.node := by
    intro u
    rw [childrenOf, List.filter_map, List.filter_filter, List.filter_filter]
    simp only [Function.comp_def, Bool.and_comm]
  rw [hchildren, hchildren]
  exact congrArg (fun es => (es.filter fun e => e.parent == some l).map Entry.node)
    (filter_place node _ t.entries)

/-! ## All entries -/

/-- **The roots and the children of all nodes are all nodes**, each as often as it is mounted. -/
theorem perm_roots_children (hw : t.WellFormed) :
    (t.roots ++ (t.entries.map Entry.node).flatMap t.children).Perm (t.entries.map Entry.node) := by
  -- the entries sorted by their parents: none, or one of the mounted location ids
  let parents := none :: t.entries.map fun e => some e.node.location
  have hnodup : parents.Nodup := by
    refine List.nodup_cons.2 ⟨by simp, ?_⟩
    have hsome := hw.locations.map fun _ _ => Option.some.inj
    rwa [List.map_map] at hsome
  have hcover : ∀ e ∈ t.entries, e.parent ∈ parents := by
    intro e he
    cases hp : e.parent with
    | none => exact List.mem_cons_self
    | some p =>
      obtain ⟨f, hf, rfl⟩ := contains_iff.1 (hw.parents e he p hp)
      exact List.mem_cons_of_mem _ (List.mem_map.2 ⟨f, hf, rfl⟩)
  have hperm := (perm_flatMap_filter Entry.parent hnodup hcover).map Entry.node
  rw [List.flatMap_cons, List.map_append, List.flatMap_map, List.map_flatMap] at hperm
  rw [List.flatMap_map]
  have hroots : t.roots = (t.entries.filter fun e => e.parent == none).map Entry.node := by
    refine congrArg (List.map Entry.node) (List.filter_congr fun e _ => ?_)
    cases e.parent <;> rfl
  rw [hroots]
  exact hperm

/-! ## Every tree -/

/-- What mounting a node changes, if it is not refused. -/
theorem entries_add {parent : Option Node} {added : Added} (h : t.add node parent = .ok added) :
    ((∃ i e, t.entries[i]? = some e ∧ e.node.location = node.location ∧
        added.tree.entries = t.entries.set i ⟨node, parent.map Node.location⟩) ∨
      ((∀ e ∈ t.entries, e.node.location ≠ node.location) ∧
        added.tree.entries = t.entries ++ [⟨node, parent.map Node.location⟩])) ∧
    (added.tree.children node).filter (fun n => n.location != node.location) =
      (t.children node).filter fun n => n.location != node.location := by
  rcases t.add_cases node parent with ⟨p, -, -, hadd⟩ | ⟨-, hadd⟩
  · rw [hadd] at h
    cases h
  · rw [hadd] at h
    cases h
    refine ⟨?_, filter_childrenOf_placed t node parent node.location⟩
    by_cases hmem : ∃ e ∈ t.entries, e.node.location = node.location
    · exact Or.inl (place_of_mem hmem)
    · have hnew : ∀ e ∈ t.entries, e.node.location ≠ node.location :=
        fun e he hloc => hmem ⟨e, he, hloc⟩
      exact Or.inr ⟨hnew, place_of_not_mem hnew⟩

/-- A node that is refused: its parent is not mounted, and nothing changes. -/
theorem perform_add_of_error {parent : Option Node} {err : ParentNotFound}
    (h : t.add node parent = .error err) :
    (∃ p, parent = some p ∧ t.contains p.location = false ∧
      err = ⟨p.context.segment, node.context.segment⟩) ∧ t.perform (.add node parent) = t := by
  have hsame : t.perform (.add node parent) = t := by rw [perform, h]
  rcases t.add_cases node parent with ⟨p, hp, hout, hadd⟩ | ⟨-, hadd⟩
  · rw [hadd] at h
    cases h
    exact ⟨⟨p, hp, hout, rfl⟩, hsame⟩
  · rw [hadd] at h
    cases h

/-- **The tree is kept as a list of entries with distinct location ids and mounted parents.**  Of every
tree that operations can lead to, whatever nodes and parents they name:

* No location id is mounted twice, and every parent is mounted.
* A node is refused only if its parent is not mounted, and then nothing changes.
* A node that is not refused changes one entry: it replaces the one with its location id, where that
  stands, or it comes last.  The entry names the parent by its location id, whatever context the parent
  was given with.  The nodes below it are the same as before, in the same order, except that the node
  itself may come to be one of them or cease to be.
* The roots and the children of all mounted nodes, taken together, are the mounted nodes, each once. -/
theorem representation_kept (ops : List Operation) :
    let t := run {} ops
    (t.entries.map (·.node.location)).Nodup ∧
    (∀ e ∈ t.entries, ∀ p, e.parent = some p → t.contains p = true) ∧
    (∀ node parent err, t.add node parent = .error err →
      (∃ p, parent = some p ∧ t.contains p.location = false ∧
        err = ⟨p.context.segment, node.context.segment⟩) ∧ t.perform (.add node parent) = t) ∧
    (∀ node parent added, t.add node parent = .ok added →
      ((∃ i e, t.entries[i]? = some e ∧ e.node.location = node.location ∧
          added.tree.entries = t.entries.set i ⟨node, parent.map Node.location⟩) ∨
        ((∀ e ∈ t.entries, e.node.location ≠ node.location) ∧
          added.tree.entries = t.entries ++ [⟨node, parent.map Node.location⟩])) ∧
      (added.tree.children node).filter (fun n => n.location != node.location) =
        (t.children node).filter fun n => n.location != node.location) ∧
    (t.roots ++ (t.entries.map Entry.node).flatMap t.children).Perm (t.entries.map Entry.node) := by
  intro t
  have hw : t.WellFormed := wellFormed_run ops
  exact ⟨hw.locations, hw.parents, fun node parent err => perform_add_of_error,
    fun node parent added => entries_add, perm_roots_children hw⟩

/-- A section with a link in it is mounted again, with another context and below a node that is named
by an outdated context: it keeps its position and its link. -/
theorem representation_kept_moved :
    let page := sampleNode "1" "Page" "home"
    let menu := sampleNode "2" "Section" "menu"
    let link := sampleNode "3" "Link" "more"
    let t := run {} [.add menu none, .add link (some menu), .add page none]
    let renamed := sampleNode "2" "Section" "navigation"
    ∃ added, t.add renamed (some (sampleNode "1" "Page" "old")) = .ok added ∧
      (∃ i e, t.entries[i]? = some e ∧ e.node.location = "2" ∧
        added.tree.entries = t.entries.set i ⟨renamed, some "1"⟩) ∧
      (added.tree.children renamed).filter (fun n => n.location != "2") =
        (t.children renamed).filter fun n => n.location != "2" := by
  intro page menu link t renamed
  obtain ⟨-, -, -, hadd, -⟩ :=
    representation_kept [.add menu none, .add link (some menu), .add page none]
  refine ⟨_, rfl, ?_⟩
  obtain ⟨hset | ⟨hnew, -⟩, hchildren⟩ := hadd renamed (some (sampleNode "1" "Page" "old")) _ rfl
  · exact ⟨hset, hchildren⟩
  · exact absurd rfl (hnew ⟨menu, none⟩ (List.mem_of_getElem? (i := 0) rfl))

end EventRelay.Location.Tree
