import EventRelay.Proofs.Location.Walking

/-!
# When the location tree is a forest

The mounted nodes form a forest if the parents of each lead to a root.  Mounting a node again moves
it together with everything below it; nothing keeps it from being moved below itself, and then its
parents go in a circle.

* `Tree.IsForest` — the mounted nodes form a forest.
* `Tree.Within`, `Tree.Loops` — a location id is that of a node or of one below it; an operation
  moves a node below itself.
* `isForest_placed` — **a node that gets a place leaves a forest** exactly if it is not moved below
  itself.
* `forest_until_loop` — **the tree stays a forest until a node is moved below itself**, and the nodes
  that a walk from the roots gets to are those whose parents lead to a root.
* `own_parent_unreachable` — a node that is mounted below itself is in no walk.
-/

namespace EventRelay.Location.Tree

variable {t : Tree} {e : Entry} {above : List Node} {node : Node} {parent : Option Node}

/-- The parents of every mounted node lead to a root. -/
def IsForest (t : Tree) : Prop :=
  ∀ e ∈ t.entries, t.Rooted e

/-- The location id is `top`, or that of a node somewhere below it. -/
inductive Within (t : Tree) (top : String) : String → Prop
  /-- It is `top`. -/
  | self : Within t top top
  /-- Its parent is. -/
  | step {e : Entry} {p : String} (he : e ∈ t.entries) (hp : e.parent = some p)
      (h : Within t top p) : Within t top e.node.location

/-- The operation moves a node below itself: it mounts the node below a mounted parent that is the
node itself or stands below it. -/
def Loops (t : Tree) : Operation → Prop
  | .add node (some parent) =>
    t.contains parent.location = true ∧ t.Within node.location parent.location
  | _ => False

/-- No operation moves a node below itself when its turn comes. -/
def Loopless (t : Tree) : List Operation → Prop
  | [] => True
  | op :: ops => ¬t.Loops op ∧ (t.perform op).Loopless ops

/-- What is within a node is among any location ids that have the node's and those of the children
of each. -/
theorem Within.mem_of_closed {top l : String} (h : t.Within top l) (ls : List String)
    (htop : top ∈ ls)
    (hclosed : ∀ e ∈ t.entries, ∀ p ∈ ls, e.parent = some p → e.node.location ∈ ls) : l ∈ ls := by
  induction h with
  | self => exact htop
  | step he hp _ ih => exact hclosed _ he _ ih hp

/-- What stands above a node, and the node itself, is what the node is within. -/
theorem Lineage.within (h : t.Lineage e above) {l : String}
    (hl : l ∈ (above ++ [e.node]).map Node.location) : t.Within l e.node.location := by
  have hsplit : ∀ {above : List Node} {e : Entry},
      l ∈ (above ++ [e.node]).map Node.location → l ∈ above.map Node.location ∨
        l = e.node.location := by
    intro above e hmem
    simpa using hmem
  induction h with
  | root he hp =>
    rcases hsplit hl with hl | rfl
    · cases hl
    · exact .self
  | under _ he hp ih =>
    rcases hsplit hl with hl | rfl
    · exact .step he hp (ih hl)
    · exact .self

/-! ## Mounting a node -/

/-- A lineage without the node that gets a place stays. -/
theorem Lineage.placed_of_not_mem (h : t.Lineage e above)
    (hnot : node.location ∉ (above ++ [e.node]).map Node.location) :
    (t.placed node parent).Lineage e above := by
  have hmem : ∀ {above : List Node} {e : Entry}, e ∈ t.entries →
      node.location ∉ (above ++ [e.node]).map Node.location →
      e ∈ (t.placed node parent).entries ∧ node.location ∉ above.map Node.location := by
    intro above e he hnot
    rw [List.map_append, List.mem_append, not_or, List.map_singleton, List.mem_singleton] at hnot
    exact ⟨(mem_place_of_ne (Ne.symm hnot.2)).2 he, hnot.1⟩
  induction h with
  | root he hp => exact .root (hmem he hnot).1 hp
  | under hl he hp ih =>
    obtain ⟨he', hnot'⟩ := hmem he hnot
    exact .under (ih hnot') he' hp

/-- If the node that gets a place has a lineage there, so has everything that had one. -/
theorem Rooted.placed
    (hnew : (t.placed node parent).Rooted ⟨node, parent.map Node.location⟩) (h : t.Rooted e)
    (hne : e.node.location ≠ node.location) : (t.placed node parent).Rooted e := by
  have hkeep : ∀ {e : Entry}, e ∈ t.entries → e.node.location ≠ node.location →
      e ∈ (t.placed node parent).entries := fun he hne => (mem_place_of_ne hne).2 he
  obtain ⟨above, hl⟩ := h
  induction hl with
  | root he hp => exact ⟨_, .root (hkeep he hne) hp⟩
  | @under e p above hl he hp ih =>
    by_cases hp' : p.node.location = node.location
    · -- the parent is the node itself, in its new place
      obtain ⟨above', hl'⟩ := hnew
      rw [hp'] at hp
      exact ⟨_, .under hl' (hkeep he hne) hp⟩
    · obtain ⟨above', hl'⟩ := ih hp'
      exact ⟨_, .under hl' (hkeep he hne) hp⟩

/-- Everything that was within the node is at least as deep as the node in its new place. -/
theorem length_le_of_within (hw : t.WellFormed) (hw' : (t.placed node parent).WellFormed)
    {l : String} (h : t.Within node.location l)
    (hnew : (t.placed node parent).Lineage ⟨node, parent.map Node.location⟩ above) :
    ∀ {e : Entry} {above' : List Node}, e.node.location = l →
      (t.placed node parent).Lineage e above' → above.length ≤ above'.length := by
  -- an entry of the node's own location id is the new one
  have hown : ∀ {e : Entry} {above' : List Node}, e.node.location = node.location →
      (t.placed node parent).Lineage e above' → above.length ≤ above'.length := by
    intro e above' hloc hl
    obtain rfl := hw'.eq_of_location hl.mem hnew.mem hloc
    have habove : above' = above := hl.unique hw' hnew
    exact Nat.le_of_eq (by rw [habove])
  induction h with
  | self => exact hown
  | @step f p hf hp _ ih =>
    intro e above' hloc hl
    by_cases hne : e.node.location = node.location
    · exact hown hne hl
    · have he : e ∈ t.entries := (mem_place_of_ne hne).1 hl.mem
      obtain rfl := hw.eq_of_location he hf hloc
      cases hl with
      | root _ hroot => rw [hroot] at hp; cases hp
      | @under _ q above' hl' _ hq =>
        rw [hq] at hp
        have hle := ih (Option.some.inj hp) hl'
        rw [List.length_append, List.length_singleton]
        omega

/-- **A node that gets a place leaves a forest exactly if it is not moved below itself.** -/
theorem isForest_placed (hw : t.WellFormed) (hf : t.IsForest)
    (hp : ∀ p, parent = some p → t.contains p.location = true) :
    (t.placed node parent).IsForest ↔ ¬t.Loops (.add node parent) := by
  have hw' : (t.placed node parent).WellFormed := hw.placed hp
  have hmem : ⟨node, parent.map Node.location⟩ ∈ (t.placed node parent).entries :=
    place_mem node _ t.entries
  constructor
  · intro hf' hloops
    cases parent with
    | none => exact hloops
    | some p =>
      obtain ⟨above, hl⟩ := hf' _ hmem
      cases hl with
      | root _ hroot => cases hroot
      | @under _ q above hl _ hq =>
        -- the parent would be deeper than the node, which is deeper than its parent
        have hle := length_le_of_within hw hw' hloops.2 (.under hl hmem hq)
          (Option.some.inj hq).symm hl
        simp only [List.length_append, List.length_singleton] at hle
        omega
  · intro hloops
    have hnew : (t.placed node parent).Rooted ⟨node, parent.map Node.location⟩ := by
      cases parent with
      | none => exact ⟨[], .root hmem rfl⟩
      | some p =>
        obtain ⟨f, hfm, hloc⟩ := contains_iff.1 (hp p rfl)
        obtain ⟨above, hl⟩ := hf f hfm
        have hnot : node.location ∉ (above ++ [f.node]).map Node.location := by
          intro hin
          have hwithin := hl.within hin
          rw [hloc] at hwithin
          exact hloops ⟨hp p rfl, hwithin⟩
        exact ⟨_, .under (hl.placed_of_not_mem hnot) hmem (by rw [hloc]; rfl)⟩
    intro e he
    rcases (mem_place hw.locations).1 he with rfl | ⟨he, hne⟩
    · exact hnew
    · exact Rooted.placed hnew (hf e he) hne

/-! ## All operations -/

theorem IsForest.of_nil (h : t.entries = []) : t.IsForest := by
  intro e he
  rw [h] at he
  cases he

theorem IsForest.of_entries {t' : Tree} (h : t.IsForest) (heq : t'.entries = t.entries) :
    t'.IsForest := by
  intro e he
  obtain ⟨above, hl⟩ := h e (heq ▸ he)
  exact ⟨above, hl.of_entries heq⟩

/-- **An operation leaves a forest exactly if it does not move a node below itself.** -/
theorem isForest_perform (hw : t.WellFormed) (hf : t.IsForest) (op : Operation) :
    (t.perform op).IsForest ↔ ¬t.Loops op := by
  cases op with
  | add node parent =>
    rcases t.add_cases node parent with ⟨p, rfl, hout, hadd⟩ | ⟨hp, hadd⟩
    · have hno : ¬t.Loops (.add node (some p)) := fun h => by
        rw [h.1] at hout
        cases hout
      rw [perform, hadd]
      exact iff_of_true hf hno
    · rw [perform, hadd, ← isForest_placed hw hf hp]
      exact ⟨fun h => h.of_entries rfl, fun h => h.of_entries rfl⟩
  | remove node =>
    refine iff_of_true (fun e he => ?_) id
    obtain ⟨above, hl⟩ := hf e ((t.remove_sublist node).subset he)
    exact ⟨above, hl.remove hw he⟩
  | validate => exact iff_of_true (hf.of_entries rfl) id
  | clear => exact iff_of_true (.of_nil rfl) id

theorem isForest_run (hw : t.WellFormed) (hf : t.IsForest) {ops : List Operation}
    (h : t.Loopless ops) : (t.run ops).IsForest := by
  induction ops generalizing t with
  | nil => exact hf
  | cons op ops ih => exact ih (hw.perform op) ((isForest_perform hw hf op).2 h.1) h.2

/-- **The tree stays a forest until a node is moved below itself.**  Of every tree that operations can
lead to:

* If none of them has moved a node below itself, it is a forest.
* If it is a forest, the next operation leaves a forest exactly if it does not move a node below
  itself.
* Forest or not, the nodes whose parents lead to a root are those that are reached from the roots
  through children, and those that a walk in search of collisions enters. -/
theorem forest_until_loop (ops : List Operation) :
    let t := run {} ops
    (Loopless {} ops → t.IsForest) ∧
    (t.IsForest → ∀ op, (t.perform op).IsForest ↔ ¬t.Loops op) ∧
    ∀ e ∈ t.entries, (t.Rooted e ↔ t.Reachable e.node) ∧
      (t.Rooted e ↔ e.node.location ∈ t.visits.visited) := by
  intro t
  have hw : t.WellFormed := wellFormed_run ops
  refine ⟨fun h => isForest_run (wellFormed_run []) (.of_nil rfl) h, isForest_perform hw,
    fun e he => ?_⟩
  exact ⟨rooted_iff_reachable hw he, (mem_visited_visits hw he).symm⟩

/-! ## Moves -/

/-- A link is mounted in one section and moved to another, which then moves into the first. -/
def sampleMoves : List Operation :=
  let home := sampleNode "1" "Section" "home"
  let about := sampleNode "2" "Section" "about"
  let link := sampleNode "3" "Link" "more"
  [.add home none, .add about none, .add link (some home), .add link (some about),
    .add about (some home)]

/-- The moves leave a forest; to mount the first section in the link would not. -/
theorem forest_until_loop_moves :
    (run {} sampleMoves).IsForest ∧
      ¬((run {} sampleMoves).perform
        (.add (sampleNode "1" "Section" "home") (some (sampleNode "3" "Link" "more")))).IsForest := by
  obtain ⟨hforest, hnext, -⟩ := forest_until_loop sampleMoves
  have hloopless : Loopless {} sampleMoves := by
    refine ⟨id, id, fun h => ?_, fun h => ?_, fun h => ?_, trivial⟩
    · exact absurd (h.2.mem_of_closed ["3"] (by decide) (by decide)) (by decide)
    · exact absurd (h.2.mem_of_closed ["3"] (by decide) (by decide)) (by decide)
    · exact absurd (h.2.mem_of_closed ["2", "3"] (by decide) (by decide)) (by decide)
  refine ⟨hforest hloopless, fun h => (hnext (hforest hloopless) _).1 h ⟨by decide, ?_⟩⟩
  -- the link is in the second section, and that in the first
  have habout : ⟨sampleNode "2" "Section" "about", some "1"⟩ ∈ (run {} sampleMoves).entries :=
    List.mem_of_getElem? (i := 1) rfl
  have hlink : ⟨sampleNode "3" "Link" "more", some "2"⟩ ∈ (run {} sampleMoves).entries :=
    List.mem_of_getElem? (i := 2) rfl
  exact .step hlink rfl (.step habout rfl .self)

/-- A node that is mounted again with itself as its parent: it is mounted still, but there is no root
to reach it from, and no walk enters it. -/
theorem own_parent_unreachable :
    let home := sampleNode "1" "Section" "home"
    let t := run {} [.add home none, .add home (some home)]
    t.contains home.location = true ∧ ¬t.IsForest ∧ ¬t.Reachable home ∧ t.roots = [] ∧
      t.visits.visited = [] := by
  intro home t
  have hmem : ⟨home, some home.location⟩ ∈ t.entries := List.mem_of_getElem? (i := 0) rfl
  have hroots : t.roots = [] := rfl
  have hunrooted : ¬t.Rooted ⟨home, some home.location⟩ := fun ⟨_, hl⟩ => hl.roots_ne_nil hroots
  refine ⟨by decide, fun h => hunrooted (h _ hmem), fun h => ?_, hroots, ?_⟩
  · exact hunrooted ((rooted_iff_reachable (wellFormed_run _) hmem).2 h)
  · rw [visits, hroots, walkAll]

end EventRelay.Location.Tree
