import EventRelay.Proofs.Location.Walking

/-!
# The recursions over the location tree end

Two recursions go from the roots to children: the walk in search of collisions, which turns back where
it has been before, and the listing, which remembers nothing.  Neither has a bound of its own, and where
parents go in a circle there is none: that both end is due to roots having no parents and to location
ids being mounted once.

* `Tree.Walks`, `Tree.Lists` — what the two recursions come to without any bound, if they end.
* `Walks.unique`, `Lists.unique` — they come to no more than one thing.
* `Lists.not_endless` — a node from which children lead on for ever is not listed.
* `walks_walkAll`, `lists_outlineNodes` — **below nodes that have a lineage both end**, and the walk
  turns back nowhere.
* `outlineNodes_eq` — what is listed: every place with its depth.
* `Tree.InOrder`, `inOrder_places` — **the places of a tree** are those of the nodes that have a
  lineage, each once, parents before children and siblings in the order of mounting.
* `traversals_visit_once` — all of it, of every tree that operations can lead to.
-/

namespace EventRelay.Location.Tree

variable {t : Tree} {base : String} {w w' w'' : Walk} {n : Node} {ns : List Node} {depth : Nat}
  {lines lines' : List String}

/-! ## Without a bound -/

/-- A walk takes down a node and its path, which it may have met before. -/
def Walk.meet (w : Walk) (n : Node) (path : String) : Walk :=
  { visited := n.location :: w.visited
    paths := path :: w.paths
    again := if w.paths.contains path then w.again ++ [path] else w.again }

/-- The walk over several nodes below a path comes to an end, and this is what has been met then.
Whether it may turn back where it has been before is a parameter. -/
inductive Walks (t : Tree) (turning : Prop) : String → Walk → List Node → Walk → Prop
  /-- There is no node left. -/
  | nil {base : String} {w : Walk} : Walks t turning base w [] w
  /-- It has been at the first node, and turns back. -/
  | turn {base : String} {w w' : Walk} {n : Node} {ns : List Node} (hturning : turning)
      (hmet : n.location ∈ w.visited) (rest : Walks t turning base w ns w') :
      Walks t turning base w (n :: ns) w'
  /-- It has not been at the first node, and goes on to its children. -/
  | enter {base : String} {w w' w'' : Walk} {n : Node} {ns : List Node}
      (hnew : n.location ∉ w.visited)
      (below : Walks t turning (appendSegment base n.context)
        (w.meet n (appendSegment base n.context)) (t.children n) w')
      (rest : Walks t turning base w' ns w'') : Walks t turning base w (n :: ns) w''

/-- The line about a node at some depth. -/
def outlineLine (depth : Nat) (n : Node) : String :=
  String.ofList (List.replicate (2 * depth) ' ') ++ n.context.segment ++ " [" ++ n.location ++ "]"

/-- The listing of several nodes at some depth comes to an end, and these are its lines. -/
inductive Lists (t : Tree) : Nat → List Node → List String → Prop
  /-- There is no node left. -/
  | nil {depth : Nat} : Lists t depth [] []
  /-- The first node, what is below it, and the others. -/
  | node {depth : Nat} {n : Node} {ns : List Node} {lines lines' : List String}
      (below : Lists t (depth + 1) (t.children n) lines) (rest : Lists t depth ns lines') :
      Lists t depth (n :: ns) (outlineLine depth n :: (lines ++ lines'))

/-- **A walk comes to one thing at most.** -/
theorem Walks.unique {turning : Prop} (h : t.Walks turning base w ns w')
    (h' : t.Walks turning base w ns w'') : w' = w'' := by
  induction h generalizing w'' with
  | nil =>
    cases h' with
    | nil => rfl
  | turn _ hmet _ ih =>
    cases h' with
    | turn _ _ rest' => exact ih rest'
    | enter hnew _ _ => exact absurd hmet hnew
  | enter hnew _ _ ihbelow ihrest =>
    cases h' with
    | turn _ hmet _ => exact absurd hmet hnew
    | enter _ below' rest' =>
      rw [← ihbelow below'] at rest'
      exact ihrest rest'

/-- To be allowed to turn back makes no difference to a walk that does not. -/
theorem Walks.of_straight {turning : Prop} (h : t.Walks False base w ns w') :
    t.Walks turning base w ns w' := by
  induction h with
  | nil => exact .nil
  | turn hfalse _ _ _ => exact hfalse.elim
  | enter hnew _ _ ihbelow ihrest => exact .enter hnew ihbelow ihrest

/-- **A listing comes to one thing at most.** -/
theorem Lists.unique (h : t.Lists depth ns lines) (h' : t.Lists depth ns lines') :
    lines = lines' := by
  induction h generalizing lines' with
  | nil =>
    cases h' with
    | nil => rfl
  | node _ _ ihbelow ihrest =>
    cases h' with
    | node below' rest' => rw [ihbelow below', ihrest rest']

/-- **A node from which children lead on for ever is not listed**, as on a circle of parents. -/
theorem Lists.not_endless (h : t.Lists depth ns lines) {endless : Node → Prop}
    (hon : ∀ n, endless n → ∃ m ∈ t.children n, endless m) : ∀ n ∈ ns, ¬endless n := by
  induction h with
  | nil => exact fun n hn => absurd hn List.not_mem_nil
  | @node depth n ns lines lines' _ _ ihbelow ihrest =>
    intro m hm hendless
    rcases List.mem_cons.1 hm with rfl | hm
    · obtain ⟨k, hk, hendless⟩ := hon _ hendless
      exact ihbelow k hk hendless
    · exact ihrest m hm hendless

/-! ## Where the recursions end -/

/-- The places of nodes side by side, and all places below them. -/
def placesOf (t : Tree) (fuel : Nat) (above ns : List Node) : List Place :=
  ns.flatMap fun n => t.placesFrom fuel ⟨above, n⟩

theorem placesOf_cons (t : Tree) (fuel : Nat) (above : List Node) (n : Node) (ns : List Node) :
    t.placesOf (fuel + 1) above (n :: ns) =
      (⟨above, n⟩ :: t.placesOf fuel (above ++ [n]) (t.children n)) ++
        t.placesOf (fuel + 1) above ns :=
  List.flatMap_cons

/-- No lineage is longer than the tree is large, so the fuel lasts as long as there are nodes. -/
theorem Stands.fuel_pos (hw : t.WellFormed) {p : Place} (h : t.Stands p) {fuel : Nat}
    (hfuel : t.size ≤ p.above.length + fuel) : 0 < fuel := by
  obtain ⟨e, -, hl⟩ := h
  have hlt := hl.length_lt hw
  omega

/-- **A walk below nodes that have a lineage ends, and turns back nowhere.**  The paths are those of
the nodes' places, so the path that a child's segment is put behind is never an empty one. -/
theorem walks_placesOf (hw : t.WellFormed) {fuel : Nat} {above : List Node}
    (hns : ∀ n ∈ ns, t.Stands ⟨above, n⟩) (hfuel : t.size ≤ above.length + fuel)
    (hnew : w.New (t.placesOf fuel above ns)) :
    t.Walks False (path (above.map Node.context)) w ns
      ((t.placesOf fuel above ns).foldl Walk.enter w) := by
  induction fuel generalizing above ns w with
  | zero =>
    cases ns with
    | nil => exact .nil
    | cons n ns =>
      exact absurd ((hns n List.mem_cons_self).fuel_pos hw hfuel) (Nat.lt_irrefl 0)
  | succ fuel ih =>
    induction ns generalizing w with
    | nil => exact .nil
    | cons n ns ihns =>
      have hstands : t.Stands ⟨above, n⟩ := hns n List.mem_cons_self
      have hpath : appendSegment (path (above.map Node.context)) n.context =
          path ((above ++ [n]).map Node.context) := by
        rw [List.map_append, List.map_singleton, path_concat]
      rw [placesOf_cons] at hnew ⊢
      obtain ⟨hfirst, hrest⟩ := hnew.append
      rw [List.foldl_append]
      refine .enter (hfirst.unvisited _ List.mem_cons_self) ?_ (ihns ?_ hrest)
      · -- the children, with the path of the node above them
        rw [hpath]
        refine ih (fun m hm => hstands.child hm) ?_ (@Walk.New.append w [⟨above, n⟩] _ hfirst).2
        rw [List.length_append, List.length_singleton]
        omega
      · intro m hm
        exact hns m (List.mem_cons_of_mem n hm)

/-- The line of a place: that of its node, at the depth of the place. -/
def Place.line (p : Place) : String :=
  outlineLine p.above.length p.node

/-- **What is listed** are all places, each at its depth. -/
theorem outlineNodes_eq (t : Tree) (fuel : Nat) (above ns : List Node) :
    t.outlineNodes fuel above.length ns = (t.placesOf fuel above ns).map Place.line := by
  induction fuel generalizing above ns with
  | zero =>
    induction ns with
    | nil => rw [outlineNodes]; rfl
    | cons n ns ihns => rw [outlineNodes, outlineNode, ihns]; rfl
  | succ fuel ih =>
    induction ns with
    | nil => rw [outlineNodes]; rfl
    | cons n ns ihns =>
      have hbelow := ih (above ++ [n]) (t.children n)
      rw [List.length_append, List.length_singleton] at hbelow
      rw [outlineNodes, outlineNode, ihns, hbelow, placesOf_cons, List.map_append, List.map_cons]
      rfl

/-- **A listing below nodes that have a lineage ends.** -/
theorem lists_placesOf (hw : t.WellFormed) {fuel : Nat} {above : List Node}
    (hns : ∀ n ∈ ns, t.Stands ⟨above, n⟩) (hfuel : t.size ≤ above.length + fuel) :
    t.Lists above.length ns ((t.placesOf fuel above ns).map Place.line) := by
  induction fuel generalizing above ns with
  | zero =>
    cases ns with
    | nil => exact .nil
    | cons n ns =>
      exact absurd ((hns n List.mem_cons_self).fuel_pos hw hfuel) (Nat.lt_irrefl 0)
  | succ fuel ih =>
    induction ns with
    | nil => exact .nil
    | cons n ns ihns =>
      have hstands : t.Stands ⟨above, n⟩ := hns n List.mem_cons_self
      have hfuel' : t.size ≤ (above ++ [n]).length + fuel := by
        rw [List.length_append, List.length_singleton]
        omega
      have hchildren : ∀ m ∈ t.children n, t.Stands ⟨above ++ [n], m⟩ :=
        fun m hm => hstands.child hm
      have hbelow := ih hchildren hfuel'
      rw [List.length_append, List.length_singleton] at hbelow
      rw [placesOf_cons, List.map_append, List.map_cons]
      exact .node hbelow (ihns fun m hm => hns m (List.mem_cons_of_mem n hm))

/-! ## From the roots -/

theorem places_eq (t : Tree) : t.places = t.placesOf (t.size + 1) [] t.roots :=
  rfl

/-- **The walk from the roots ends**, and turns back nowhere. -/
theorem walks_visits (hw : t.WellFormed) : t.Walks False "" {} t.roots t.visits := by
  have hnew : Walk.New {} t.places := ⟨fun _ _ => List.not_mem_nil, locations_places_nodup hw⟩
  rw [visits_eq hw, places_eq]
  have hroots : ∀ n ∈ t.roots, t.Stands ⟨[], n⟩ := fun n hn => stands_root hn
  refine walks_placesOf hw hroots ?_ hnew
  rw [List.length_nil]
  omega

theorem outline_eq (t : Tree) : t.outline = t.places.map Place.line :=
  outlineNodes_eq t (t.size + 1) [] t.roots

/-- **The listing from the roots ends.** -/
theorem lists_outline (hw : t.WellFormed) : t.Lists 0 t.roots t.outline := by
  rw [outline_eq, places_eq]
  have hroots : ∀ n ∈ t.roots, t.Stands ⟨[], n⟩ := fun n hn => stands_root hn
  refine lists_placesOf hw hroots ?_
  rw [List.length_nil]
  omega

theorem paths_enter (w : Walk) (ps : List Place) :
    (ps.foldl Walk.enter w).paths = (ps.map Place.path).reverse ++ w.paths := by
  induction ps generalizing w with
  | nil => rfl
  | cons p ps ih => simp [ih, Walk.enter]

/-- Places of nodes that have a lineage: every such node once, parents before children, and siblings
in the order of mounting. -/
structure InOrder (t : Tree) (ps : List Place) : Prop where
  /-- They are the places of the nodes that have a lineage. -/
  mem_iff : ∀ p, p ∈ ps ↔ t.Stands p
  /-- No node has two of them. -/
  once : (ps.map (·.node.location)).Nodup
  /-- The roots are in the order of mounting. -/
  roots : (t.roots.map (Place.mk [])).Sublist ps
  /-- A node is followed by its children, and these are in the order of mounting. -/
  families : ∀ p ∈ ps, (p :: (t.children p.node).map p.child).Sublist ps

theorem inOrder_places (hw : t.WellFormed) : t.InOrder t.places where
  mem_iff p := mem_places hw
  once := locations_places_nodup hw
  roots := by
    rw [List.map_eq_flatMap]
    refine List.Sublist.flatMap_right _ fun n _ => ?_
    exact List.singleton_sublist.2 List.mem_cons_self
  families p hp := by
    have hlt : p.above.length < t.size := by
      obtain ⟨e, -, hl⟩ := (mem_places hw).1 hp
      exact hl.length_lt hw
    obtain ⟨n, hn, hp⟩ := List.mem_flatMap.1 hp
    have hfamily := family_sublist hp (by
      simp only [Place.chain, List.length_append, List.length_singleton, List.length_nil]
      omega)
    exact hfamily.trans (List.sublist_flatten_of_mem (List.mem_map_of_mem hn))

/-- **The recursions over the tree end, and are at every node with a lineage once.**  Of every tree that
operations can lead to, whatever circles of parents there are in it:

* There is a list of places that has every node whose parents lead to a root once, and no other node,
  with parents before their children and siblings in the order of mounting.
* The walk from the roots ends and comes to one thing only; it turns back nowhere, although it may.
  It enters the places of the list in their order, and the path it gives to each is that of the
  contexts from the root down.
* So does the listing, which has the places of the list in their order, each as deep as its node has
  nodes above it.
* A path is put together from that of the nodes above and the segment of the node, and the first of
  these is empty for roots only. -/
theorem traversals_visit_once (ops : List Operation) :
    let t := run {} ops
    ∃ ps, t.InOrder ps ∧
      (t.Walks False "" {} t.roots t.visits ∧
        (∀ w, t.Walks True "" {} t.roots w ↔ w = t.visits) ∧
        t.visits.visited.reverse = ps.map (·.node.location) ∧
        t.visits.paths.reverse = ps.map fun p => path ((p.above ++ [p.node]).map Node.context)) ∧
      ((∀ lines, t.Lists 0 t.roots lines ↔ lines = t.outline) ∧
        t.outline = ps.map fun p => outlineLine p.above.length p.node) ∧
      ∀ p ∈ ps, path ((p.above ++ [p.node]).map Node.context) =
          appendSegment (path (p.above.map Node.context)) p.node.context ∧
        (path (p.above.map Node.context) = "" ↔ p.above = []) := by
  intro t
  have hw : t.WellFormed := wellFormed_run ops
  have hwalks := walks_visits hw
  have hlists := lists_outline hw
  refine ⟨t.places, inOrder_places hw, ⟨hwalks, fun w => ?_, ?_, ?_⟩, ⟨fun lines => ?_, ?_⟩, ?_⟩
  · constructor
    · exact fun h => h.unique hwalks.of_straight
    · rintro rfl
      exact hwalks.of_straight
  · rw [visits_eq hw, visited_enter]
    simp
  · rw [visits_eq hw, paths_enter]
    simp [Place.path, Place.chain]
  · constructor
    · exact fun h => h.unique hlists
    · rintro rfl
      exact hlists
  · exact outline_eq t
  · intro p _
    refine ⟨by simp [path_concat], ?_⟩
    rw [path_eq_empty, List.map_eq_nil_iff]

/-- Two sections that were mounted in each other, beside a section with a link in it. -/
def sampleCircle : List Operation :=
  let home := sampleNode "1" "Section" "home"
  let news := sampleNode "2" "Section" "news"
  let about := sampleNode "3" "Section" "about"
  [.add home none, .add news (some home), .add about (some news),
    .add (sampleNode "4" "Link" "more") (some home), .add news (some about)]

/-- The two sections are neither walked nor listed, and the recursions end beside them, though from one
of the two no listing would. -/
theorem traversals_visit_once_circle :
    let t := run {} sampleCircle
    t.Walks True "" {} t.roots t.visits ∧ t.visits.visited = ["4", "1"] ∧
      t.Lists 0 t.roots ["Section:home [1]", "  Link:more [4]"] ∧
      ¬∃ lines, t.Lists 0 [sampleNode "2" "Section" "news"] lines := by
  intro t
  obtain ⟨ps, -, ⟨-, hwalks, -, -⟩, ⟨hlists, -⟩, -⟩ := traversals_visit_once sampleCircle
  have hvisited : t.visits.visited = ["4", "1"] := by
    rw [visits_eq (wellFormed_run _), visited_enter]
    decide
  have houtline : ["Section:home [1]", "  Link:more [4]"] = t.outline := by
    rw [outline_eq]
    decide
  refine ⟨(hwalks _).2 rfl, hvisited, (hlists _).2 houtline, ?_⟩
  rintro ⟨lines, h⟩
  have hon : ∀ n : Node, n.location = "2" ∨ n.location = "3" →
      ∃ m ∈ t.children n, m.location = "2" ∨ m.location = "3" := by
    rintro n (hn | hn)
    · refine ⟨sampleNode "3" "Section" "about", ?_, Or.inr rfl⟩
      rw [children, hn]
      exact List.mem_of_getElem? (i := 0) rfl
    · refine ⟨sampleNode "2" "Section" "news", ?_, Or.inl rfl⟩
      rw [children, hn]
      exact List.mem_of_getElem? (i := 0) rfl
  exact h.not_endless hon _ List.mem_cons_self (Or.inl rfl)

end EventRelay.Location.Tree
