import EventRelay.Location.Tree
import Mathlib.Data.List.Nodup

/-!
# Operations on the location tree

Whatever is done to a location tree is one of four operations: a node is mounted, a node is
unmounted, collisions are looked for, everything is cleared.

* `Operation`, `Tree.perform`, `Tree.run` — one operation, and many; `Tree.reports` and
  `Tree.reportsOf` are the paths that they report.
* `add_cases` — everything that mounting a node can come to.
* `mem_place` — the entries after a node was put in its place: the new one, and all others.
* `dropOrphans_settle` — unmounting goes on until no node is left without its parent.
* `wellFormed_run` — **location ids are mounted once and parents are mounted**, whatever was done.
-/

namespace EventRelay.Location

/-- Something that is done to a location tree. -/
inductive Operation where
  /-- A node is mounted, below a parent or as a root. -/
  | add (node : Node) (parent : Option Node)
  /-- A node is unmounted. -/
  | remove (node : Node)
  /-- Collisions are looked for. -/
  | validate
  /-- Everything is cleared. -/
  | clear

/-- A node for examples: the location id, the type and the id. -/
def sampleNode (location typeName id : String) : Node :=
  ⟨location, { typeName, id }⟩

namespace Tree

/-- The tree after an operation; a node that cannot be mounted changes nothing. -/
def perform (t : Tree) : Operation → Tree
  | .add node parent =>
    match t.add node parent with
    | .ok added => added.tree
    | .error _ => t
  | .remove node => (t.remove node).2
  | .validate => t.validate.2
  | .clear => t.clear

/-- The paths that an operation reports. -/
def reports (t : Tree) : Operation → List String
  | .add node parent =>
    match t.add node parent with
    | .ok added => added.reported
    | .error _ => []
  | .validate => t.validate.1
  | _ => []

/-- The tree after several operations. -/
def run (t : Tree) (ops : List Operation) : Tree :=
  ops.foldl perform t

/-- The paths that several operations report, in order. -/
def reportsOf (t : Tree) : List Operation → List String
  | [] => []
  | op :: ops => t.reports op ++ (t.perform op).reportsOf ops

theorem run_append (t : Tree) (ops more : List Operation) :
    t.run (ops ++ more) = (t.run ops).run more :=
  List.foldl_append

theorem run_concat (t : Tree) (ops : List Operation) (op : Operation) :
    t.run (ops ++ [op]) = (t.run ops).perform op := by
  rw [run_append]
  rfl

/-- What holds of the empty tree and is kept by every operation holds of every tree. -/
theorem run_induction {P : Tree → Prop} (hempty : P {})
    (hstep : ∀ t op, P t → P (t.perform op)) (ops : List Operation) : P (run {} ops) := by
  suffices h : ∀ t, P t → P (t.run ops) from h {} hempty
  induction ops with
  | nil => exact fun t ht => ht
  | cons op ops ih => exact fun t ht => ih (t.perform op) (hstep t op ht)

/-! ## Mounting a node -/

/-- Is a node mounted under the location id? -/
theorem contains_iff {t : Tree} {location : String} :
    t.contains location = true ↔ ∃ e ∈ t.entries, e.node.location = location := by
  simp [contains]

/-- The tree with a node in its place, before collisions are looked for. -/
def placed (t : Tree) (node : Node) (parent : Option Node) : Tree :=
  { t with entries := place node (parent.map Node.location) t.entries }

/-- **What mounting a node comes to.**  Its parent is not mounted, and the node is refused; or the
node gets its place, and collisions are looked for. -/
theorem add_cases (t : Tree) (node : Node) (parent : Option Node) :
    (∃ p, parent = some p ∧ t.contains p.location = false ∧
      t.add node parent = .error ⟨p.context.segment, node.context.segment⟩) ∨
    ((∀ p, parent = some p → t.contains p.location = true) ∧
      t.add node parent = .ok
        { tree := (t.placed node parent).validate.2
          replaced := t.contains node.location
          reported := (t.placed node parent).validate.1 }) := by
  cases parent with
  | none => exact Or.inr ⟨nofun, rfl⟩
  | some p =>
    cases hp : t.contains p.location with
    | false => exact Or.inl ⟨p, rfl, hp, by simp [add, Option.filter, hp]⟩
    | true =>
      refine Or.inr ⟨?_, by simp [add, Option.filter, hp, placed]⟩
      intro q hq
      rwa [← Option.some.inj hq]

/-- The entry that a node gets. -/
theorem place_mem (node : Node) (parent : Option String) (es : List Entry) :
    ⟨node, parent⟩ ∈ place node parent es := by
  induction es with
  | nil => simp [place]
  | cons e es ih =>
    rw [place]
    split
    · exact List.mem_cons_self
    · exact List.mem_cons_of_mem e ih

/-- Entries of other location ids stay, and no others come. -/
theorem mem_place_of_ne {node : Node} {parent : Option String} {es : List Entry} {e : Entry}
    (hne : e.node.location ≠ node.location) : e ∈ place node parent es ↔ e ∈ es := by
  have hnew : e ≠ ⟨node, parent⟩ := by
    rintro rfl
    exact hne rfl
  induction es with
  | nil => simp [place, hnew]
  | cons f es ih =>
    rw [place]
    split
    · rename_i hf
      have hfe : e ≠ f := by
        rintro rfl
        exact hne hf
      simp [hnew, hfe]
    · simp [ih]

/-- The location ids after a node was put in its place. -/
theorem locations_place (node : Node) (parent : Option String) (es : List Entry) :
    (place node parent es).map (·.node.location) =
      if node.location ∈ es.map (·.node.location) then es.map (·.node.location)
      else es.map (·.node.location) ++ [node.location] := by
  induction es with
  | nil => simp [place]
  | cons e es ih =>
    rw [place]
    split
    · rename_i he
      simp [he]
    · rename_i he
      have hne : node.location ≠ e.node.location := Ne.symm he
      rw [List.map_cons, ih, List.map_cons]
      simp only [List.mem_cons, hne, false_or]
      split <;> rfl

theorem nodup_place {es : List Entry} (h : (es.map (·.node.location)).Nodup) (node : Node)
    (parent : Option String) : ((place node parent es).map (·.node.location)).Nodup := by
  rw [locations_place]
  split
  · exact h
  · rename_i hnew
    rw [← List.concat_eq_append]
    exact h.concat hnew

/-- The entries after a node was put in its place: its own, and those of other location ids. -/
theorem mem_place {es : List Entry} (h : (es.map (·.node.location)).Nodup) {node : Node}
    {parent : Option String} {e : Entry} :
    e ∈ place node parent es ↔
      e = ⟨node, parent⟩ ∨ (e ∈ es ∧ e.node.location ≠ node.location) := by
  by_cases hne : e.node.location = node.location
  · constructor
    · intro he
      exact Or.inl (List.inj_on_of_nodup_map (nodup_place h node parent) he
        (place_mem node parent es) hne)
    · rintro (rfl | ⟨-, hother⟩)
      · exact place_mem node parent es
      · exact absurd hne hother
  · rw [mem_place_of_ne hne]
    constructor
    · exact fun he => Or.inr ⟨he, hne⟩
    · rintro (rfl | ⟨he, -⟩)
      · exact absurd rfl hne
      · exact he

/-! ## Unmounting a node -/

/-- An entry stays if it is a root, or if its parent is mounted. -/
theorem mem_dropOrphans {es : List Entry} {e : Entry} :
    e ∈ dropOrphans es ↔
      e ∈ es ∧ ∀ p, e.parent = some p → ∃ f ∈ es, f.node.location = p := by
  unfold dropOrphans
  rw [List.mem_filter]
  cases e.parent <;> simp

/-- Unmounting only takes entries away. -/
theorem settle_sublist (fuel : Nat) (es : List Entry) : (settle fuel es).Sublist es := by
  induction fuel generalizing es with
  | zero => exact List.Sublist.refl es
  | succ fuel ih =>
    rw [settle]
    split
    · exact List.Sublist.refl es
    · exact (ih _).trans List.filter_sublist

/-- **Unmounting goes on until no node is left without its parent**: every round but the last one
takes an entry away. -/
theorem dropOrphans_settle {fuel : Nat} {es : List Entry} (h : es.length < fuel) :
    dropOrphans (settle fuel es) = settle fuel es := by
  induction fuel generalizing es with
  | zero => exact absurd h (Nat.not_lt_zero _)
  | succ fuel ih =>
    have hsub : (dropOrphans es).Sublist es := List.filter_sublist
    rw [settle]
    split
    · rename_i hlen
      exact hsub.eq_of_length hlen
    · rename_i hlen
      have hlt : (dropOrphans es).length < es.length := Nat.lt_of_le_of_ne hsub.length_le hlen
      exact ih (by omega)

/-- What is left when a node was unmounted. -/
theorem remove_sublist (t : Tree) (node : Node) :
    (t.remove node).2.entries.Sublist t.entries :=
  (settle_sublist _ _).trans List.filter_sublist

/-- The parents of what is left are left. -/
theorem parent_of_mem_remove {t : Tree} {node : Node} {e : Entry}
    (he : e ∈ (t.remove node).2.entries) {p : String} (hp : e.parent = some p) :
    ∃ f ∈ (t.remove node).2.entries, f.node.location = p := by
  have hsettled : dropOrphans (t.remove node).2.entries = (t.remove node).2.entries :=
    dropOrphans_settle (Nat.lt_succ_self _)
  rw [← hsettled] at he
  exact (mem_dropOrphans.1 he).2 p hp

/-! ## Well-formed trees -/

/-- Location ids are mounted once, and parents are mounted. -/
structure WellFormed (t : Tree) : Prop where
  /-- No location id is mounted twice. -/
  locations : (t.entries.map (·.node.location)).Nodup
  /-- The parent of a mounted node is mounted. -/
  parents : ∀ e ∈ t.entries, ∀ p, e.parent = some p → t.contains p = true

namespace WellFormed

variable {t : Tree} {e f : Entry}

/-- A mounted node is known by its location id. -/
theorem eq_of_location (h : t.WellFormed) (he : e ∈ t.entries) (hf : f ∈ t.entries)
    (heq : e.node.location = f.node.location) : e = f :=
  List.inj_on_of_nodup_map h.locations he hf heq

/-- The mounted nodes are pairwise different. -/
theorem nodes_nodup (h : t.WellFormed) : (t.entries.map Entry.node).Nodup := by
  refine List.Nodup.of_map Node.location ?_
  rw [List.map_map]
  exact h.locations

/-- A node that gets a place below a mounted parent keeps the tree well formed. -/
theorem placed (h : t.WellFormed) {node : Node} {parent : Option Node}
    (hp : ∀ p, parent = some p → t.contains p.location = true) :
    (t.placed node parent).WellFormed := by
  -- whatever was mounted before is mounted still
  have hkeep : ∀ l, t.contains l = true → (t.placed node parent).contains l = true := by
    intro l hl
    obtain ⟨e, he, rfl⟩ := contains_iff.1 hl
    rw [contains_iff]
    by_cases hne : e.node.location = node.location
    · exact ⟨⟨node, _⟩, place_mem node _ t.entries, hne.symm⟩
    · exact ⟨e, (mem_place_of_ne hne).2 he, rfl⟩
  refine ⟨nodup_place h.locations node _, fun e he l hl => hkeep l ?_⟩
  rcases (mem_place h.locations).1 he with rfl | ⟨he, -⟩
  · obtain ⟨p, hparent, rfl⟩ := Option.map_eq_some_iff.1 hl
    exact hp p hparent
  · exact h.parents e he l hl

theorem remove (h : t.WellFormed) (node : Node) : (t.remove node).2.WellFormed := by
  refine ⟨((t.remove_sublist node).map _).nodup h.locations, fun e he p hp => ?_⟩
  exact contains_iff.2 (parent_of_mem_remove he hp)

/-- **Every operation keeps the tree well formed.** -/
theorem perform (h : t.WellFormed) (op : Operation) : (t.perform op).WellFormed := by
  cases op with
  | add node parent =>
    rcases t.add_cases node parent with ⟨p, -, -, hadd⟩ | ⟨hp, hadd⟩
    · rw [Tree.perform, hadd]
      exact h
    · rw [Tree.perform, hadd]
      exact ⟨(h.placed hp).locations, (h.placed hp).parents⟩
  | remove node => exact h.remove node
  | validate => exact ⟨h.locations, h.parents⟩
  | clear => exact ⟨List.nodup_nil, nofun⟩

end WellFormed

/-- **Location ids are mounted once and parents are mounted**, whatever was done. -/
theorem wellFormed_run (ops : List Operation) : (run {} ops).WellFormed :=
  run_induction ⟨List.nodup_nil, nofun⟩ (fun _ op h => h.perform op) ops

end Tree

end EventRelay.Location
