import EventRelay.Proofs.Location.Lineage
import Mathlib.Data.List.Flatten

/-!
# Walking the location tree

A walk enters nodes one after another, renders the path of each from the path of its parent, and
takes down the paths that it has met before.  What it enters does not depend on that: it is the list
of all places of the tree, each node with the nodes above it, a parent before its children and
siblings in the order of mounting.

* `path_concat` — a path that was built step by step is the path of the whole stack.
* `Place`, `Tree.places` — the places of a tree, in the order of the walk.
* `mem_places`, `locations_places_nodup` — **every node that has a lineage has its place, once**, and
  no other node has one.
* `visits_eq` — **a walk enters the places of the tree**, and turns back at none of them.
* `Tree.Shared`, `mem_again_visits` — it meets again exactly the paths that two nodes share.
* `mem_validate`, `nodup_validate` — so **looking for collisions reports** the shared paths that were
  not reported before, each once.
-/

namespace EventRelay.Location

/-! ## Paths step by step -/

theorem path_eq_empty {stack : List Context} : path stack = "" ↔ stack = [] := by
  constructor
  · intro h
    cases stack with
    | nil => rfl
    | cons c stack =>
      -- a segment has a colon, so nothing that holds one is empty
      have hlist := congrArg String.toList h
      cases stack <;> simp [path, Context.segment, String.intercalate_cons_cons] at hlist
  · rintro rfl
    rfl

/-- **A path that was built step by step is the path of the whole stack.** -/
theorem path_concat (stack : List Context) (c : Context) :
    path (stack ++ [c]) = appendSegment (path stack) c := by
  unfold appendSegment
  split
  · rename_i hempty
    obtain rfl := path_eq_empty.1 (String.isEmpty_iff.1 hempty)
    simp [path]
  · rename_i hempty
    have hne : stack ≠ [] := fun h => hempty (String.isEmpty_iff.2 (path_eq_empty.2 h))
    rw [path, List.map_append, String.intercalate_append_of_ne_nil (by simpa using hne) (by simp)]
    simp [path]

/-! ## Places -/

/-- A node in its place: with the nodes above it, the root first. -/
structure Place where
  /-- The nodes above it. -/
  above : List Node
  /-- The node. -/
  node : Node

namespace Place

/-- The nodes from the root down to the node itself. -/
def chain (p : Place) : List Node :=
  p.above ++ [p.node]

/-- The path of the node: that of the contexts from the root down. -/
def path (p : Place) : String :=
  Location.path (p.chain.map Node.context)

/-- The place of a child. -/
def child (p : Place) (n : Node) : Place :=
  ⟨p.chain, n⟩

theorem path_child (p : Place) (n : Node) :
    (p.child n).path = appendSegment p.path n.context := by
  simp [path, child, chain, ← path_concat]

end Place

namespace Tree

variable {t : Tree} {e : Entry} {above : List Node}

/-- A place and all places below it, as far down as `fuel` goes. -/
def placesFrom (t : Tree) : Nat → Place → List Place
  | 0, _ => []
  | fuel + 1, p => p :: (t.children p.node).flatMap fun n => t.placesFrom fuel (p.child n)

/-- All places of a tree, in the order of a walk. -/
def places (t : Tree) : List Place :=
  t.roots.flatMap fun n => t.placesFrom (t.size + 1) ⟨[], n⟩

/-- The node has this lineage. -/
def Stands (t : Tree) (p : Place) : Prop :=
  ∃ e, e.node = p.node ∧ t.Lineage e p.above

theorem Lineage.stands (h : t.Lineage e above) : t.Stands ⟨above, e.node⟩ :=
  ⟨e, rfl, h⟩

theorem stands_root {n : Node} (hn : n ∈ t.roots) : t.Stands ⟨[], n⟩ := by
  obtain ⟨e, he, hp, rfl⟩ := mem_roots.1 hn
  exact ⟨e, rfl, .root he hp⟩

theorem Stands.child {p : Place} (h : t.Stands p) {n : Node} (hn : n ∈ t.children p.node) :
    t.Stands (p.child n) := by
  obtain ⟨f, hf, hl⟩ := h
  obtain ⟨e, he, hp, rfl⟩ := mem_children.1 hn
  rw [← hf] at hp
  exact ⟨e, rfl, by simpa [Place.child, Place.chain, hf] using Lineage.under hl he hp⟩

/-- A node has one place. -/
theorem Stands.eq_of_location (hw : t.WellFormed) {p q : Place} (hp : t.Stands p)
    (hq : t.Stands q) (h : p.node.location = q.node.location) : p = q := by
  obtain ⟨e, he, hl⟩ := hp
  obtain ⟨f, hf, hl'⟩ := hq
  obtain rfl := hw.eq_of_location hl.mem hl'.mem (by rw [he, hf, h])
  cases p
  cases q
  rw [Place.mk.injEq]
  exact ⟨hl.unique hw hl', he.symm.trans hf⟩

theorem stands_of_mem {fuel : Nat} {p q : Place} (hp : t.Stands p) (hq : q ∈ t.placesFrom fuel p) :
    t.Stands q := by
  induction fuel generalizing p with
  | zero => cases hq
  | succ fuel ih =>
    rcases List.mem_cons.1 hq with rfl | hq
    · exact hp
    · obtain ⟨n, hn, hq⟩ := List.mem_flatMap.1 hq
      exact ih (hp.child hn) hq

/-- A place is followed by those of the children, in the order of mounting, as long as the fuel
lasts. -/
theorem family_sublist {fuel : Nat} {p q : Place} (hq : q ∈ t.placesFrom fuel p)
    (hfuel : q.chain.length < p.above.length + fuel) :
    (q :: (t.children q.node).map q.child).Sublist (t.placesFrom fuel p) := by
  induction fuel generalizing p with
  | zero => cases hq
  | succ fuel ih =>
    rcases List.mem_cons.1 hq with rfl | hq
    · obtain ⟨fuel, rfl⟩ : ∃ k, fuel = k + 1 := by
        refine ⟨fuel - 1, ?_⟩
        simp only [Place.chain, List.length_append, List.length_singleton] at hfuel
        omega
      rw [placesFrom, List.map_eq_flatMap]
      refine (List.Sublist.flatMap_right _ fun n _ => ?_).cons_cons q
      exact List.singleton_sublist.2 List.mem_cons_self
    · obtain ⟨m, hm, hq⟩ := List.mem_flatMap.1 hq
      have hbelow := ih hq (by
        simp only [Place.child, Place.chain, List.length_append, List.length_singleton] at hfuel ⊢
        omega)
      refine (hbelow.trans ?_).cons p
      exact List.sublist_flatten_of_mem (List.mem_map_of_mem hm)

/-- **The nodes that have a lineage have their places**, and no others. -/
theorem mem_places (hw : t.WellFormed) {p : Place} : p ∈ t.places ↔ t.Stands p := by
  constructor
  · intro hp
    obtain ⟨n, hn, hp⟩ := List.mem_flatMap.1 hp
    exact stands_of_mem (stands_root hn) hp
  · rintro ⟨e, he, hl⟩
    obtain ⟨above, node⟩ := p
    obtain rfl : e.node = node := he
    replace hl : t.Lineage e above := hl
    induction hl with
    | @root e he hp =>
      have hroot : e.node ∈ t.roots := mem_roots.2 ⟨e, he, hp, rfl⟩
      exact List.mem_flatMap.2 ⟨e.node, hroot, List.mem_cons_self⟩
    | @under e f above hl he hp ih =>
      obtain ⟨n, hn, hmem⟩ := List.mem_flatMap.1 ih
      have hchild : e.node ∈ t.children f.node := mem_children.2 ⟨e, he, hp, rfl⟩
      -- the lineage of the parent is shorter than the tree is large, so the fuel lasts
      have hlt := hl.length_lt hw
      have hfamily := family_sublist hmem (by
        simp only [Place.chain, List.length_append, List.length_singleton, List.length_nil]
        omega)
      refine List.mem_flatMap.2 ⟨n, hn, hfamily.subset ?_⟩
      exact List.mem_cons_of_mem _ (List.mem_map_of_mem hchild)

/-! ## Every place once -/

theorem roots_nodup (hw : t.WellFormed) : t.roots.Nodup :=
  (List.filter_sublist.map _).nodup hw.nodes_nodup

theorem children_nodup (hw : t.WellFormed) (n : Node) : (t.children n).Nodup :=
  (List.filter_sublist.map _).nodup hw.nodes_nodup

/-- What is below a place begins with its chain. -/
theorem chain_prefix_of_mem {fuel : Nat} {p q : Place} (hq : q ∈ t.placesFrom fuel p) :
    p.chain <+: q.chain := by
  induction fuel generalizing p with
  | zero => cases hq
  | succ fuel ih =>
    rcases List.mem_cons.1 hq with rfl | hq
    · exact List.prefix_refl _
    · obtain ⟨n, -, hq⟩ := List.mem_flatMap.1 hq
      exact (List.prefix_append p.chain [n]).trans (ih hq)

/-- Siblings have different places below them. -/
theorem disjoint_siblings {fuel : Nat} {above : List Node} {n m : Node} (hne : n ≠ m) :
    (t.placesFrom fuel ⟨above, n⟩).Disjoint (t.placesFrom fuel ⟨above, m⟩) := by
  intro q hn hm
  have hchain := List.prefix_of_prefix_length_le (chain_prefix_of_mem hn) (chain_prefix_of_mem hm)
    (by simp [Place.chain])
  have heq := hchain.eq_of_length (by simp [Place.chain])
  exact hne (by simpa [Place.chain] using heq)

theorem placesFrom_nodup (hw : t.WellFormed) (fuel : Nat) (p : Place) :
    (t.placesFrom fuel p).Nodup := by
  induction fuel generalizing p with
  | zero => exact List.nodup_nil
  | succ fuel ih =>
    rw [placesFrom, List.nodup_cons, List.nodup_flatMap]
    refine ⟨fun hmem => ?_, fun n _ => ih _, ?_⟩
    · obtain ⟨n, -, hmem⟩ := List.mem_flatMap.1 hmem
      have hlen := (chain_prefix_of_mem hmem).length_le
      simp [Place.child, Place.chain] at hlen
    · exact (children_nodup hw p.node).imp fun hne => disjoint_siblings hne

theorem places_nodup (hw : t.WellFormed) : t.places.Nodup := by
  rw [places, List.nodup_flatMap]
  exact ⟨fun n _ => placesFrom_nodup hw _ _,
    (roots_nodup hw).imp fun hne => disjoint_siblings hne⟩

/-- **No node has two places.** -/
theorem locations_places_nodup (hw : t.WellFormed) : (t.places.map (·.node.location)).Nodup := by
  refine (places_nodup hw).map_on fun p hp q hq h => ?_
  exact ((mem_places hw).1 hp).eq_of_location hw ((mem_places hw).1 hq) h

/-! ## The walk -/

/-- A walk enters a place. -/
def Walk.enter (w : Walk) (p : Place) : Walk :=
  { visited := p.node.location :: w.visited
    paths := p.path :: w.paths
    again := if w.paths.contains p.path then w.again ++ [p.path] else w.again }

theorem visited_enter (w : Walk) (ps : List Place) :
    (ps.foldl Walk.enter w).visited = (ps.map (·.node.location)).reverse ++ w.visited := by
  induction ps generalizing w with
  | nil => rfl
  | cons p ps ih => simp [ih, Walk.enter]

/-- The walk has been at none of these places, and no two of them are of one node. -/
structure Walk.New (w : Walk) (ps : List Place) : Prop where
  /-- It has been at none. -/
  unvisited : ∀ p ∈ ps, p.node.location ∉ w.visited
  /-- No two are of one node. -/
  nodup : (ps.map (·.node.location)).Nodup

theorem Walk.New.append {w : Walk} {ps qs : List Place} (h : w.New (ps ++ qs)) :
    w.New ps ∧ (ps.foldl enter w).New qs := by
  obtain ⟨hunvisited, hnodup⟩ := h
  rw [List.map_append, List.nodup_append] at hnodup
  obtain ⟨hps, hqs, hapart⟩ := hnodup
  refine ⟨⟨fun p hp => hunvisited p (List.mem_append_left qs hp), hps⟩, fun q hq => ?_, hqs⟩
  rw [visited_enter, List.mem_append, List.mem_reverse, not_or]
  refine ⟨fun hmem => ?_, hunvisited q (List.mem_append_right ps hq)⟩
  exact hapart _ hmem _ (List.mem_map_of_mem hq) rfl

theorem walkAll_eq_foldl (t : Tree) (fuel : Nat) (base : String) (w : Walk) (ns : List Node) :
    t.walkAll fuel base w ns = ns.foldl (t.walk fuel base) w := by
  induction ns generalizing w with
  | nil => rw [walkAll]; rfl
  | cons n ns ih => rw [walkAll, ih]; rfl

/-- To walk several nodes is to enter all their places, if to walk one of them is. -/
theorem foldl_walk {fuel : Nat} {base : String} {f : Node → List Place} {ns : List Node} {w : Walk}
    (hone : ∀ n ∈ ns, ∀ w : Walk, w.New (f n) → t.walk fuel base w n = (f n).foldl Walk.enter w)
    (hnew : w.New (ns.flatMap f)) :
    ns.foldl (t.walk fuel base) w = (ns.flatMap f).foldl Walk.enter w := by
  induction ns generalizing w with
  | nil => rfl
  | cons n ns ih =>
    rw [List.flatMap_cons] at hnew ⊢
    obtain ⟨hfirst, hrest⟩ := hnew.append
    rw [List.foldl_cons, List.foldl_append, hone n List.mem_cons_self w hfirst]
    exact ih (fun m hm => hone m (List.mem_cons_of_mem n hm)) hrest

/-- **To walk a node is to enter its place and all places below it.** -/
theorem walk_eq {fuel : Nat} {p : Place} {base : String}
    (hbase : appendSegment base p.node.context = p.path) {w : Walk}
    (hnew : w.New (t.placesFrom fuel p)) :
    t.walk fuel base w p.node = (t.placesFrom fuel p).foldl Walk.enter w := by
  induction fuel generalizing p base w with
  | zero => rw [walk]; rfl
  | succ fuel ih =>
    have hhere : p.node.location ∉ w.visited := hnew.unvisited p List.mem_cons_self
    have hbelow : (w.enter p).New
        ((t.children p.node).flatMap fun n => t.placesFrom fuel (p.child n)) :=
      (@Walk.New.append w [p] _ hnew).2
    rw [walk, if_neg (by simpa using hhere), walkAll_eq_foldl, hbase]
    refine foldl_walk (fun n _ w' hn => ?_) hbelow
    exact ih (p := p.child n) (p.path_child n).symm hn

/-- **A walk of the tree enters all its places**, and turns back at none of them. -/
theorem visits_eq (hw : t.WellFormed) : t.visits = t.places.foldl Walk.enter {} := by
  have hnew : Walk.New {} t.places := ⟨fun _ _ => List.not_mem_nil, locations_places_nodup hw⟩
  rw [visits, walkAll_eq_foldl]
  refine foldl_walk (fun n _ w hn => ?_) hnew
  exact walk_eq (p := ⟨[], n⟩) (by simp [Place.path, Place.chain, path, appendSegment]) hn

/-- The nodes that a walk enters are those that have a lineage. -/
theorem mem_visited_visits (hw : t.WellFormed) (he : e ∈ t.entries) :
    e.node.location ∈ t.visits.visited ↔ t.Rooted e := by
  rw [visits_eq hw, visited_enter]
  simp only [List.append_nil, List.mem_reverse, List.mem_map]
  constructor
  · rintro ⟨p, hp, hloc⟩
    obtain ⟨f, hf, hl⟩ := (mem_places hw).1 hp
    obtain rfl := hw.eq_of_location hl.mem he (by rw [hf, hloc])
    exact ⟨p.above, hl⟩
  · rintro ⟨above, hl⟩
    exact ⟨_, (mem_places hw).2 hl.stands, rfl⟩

/-! ## Paths met again -/

/-- Two different nodes have the path. -/
def Shared (t : Tree) (path : String) : Prop :=
  ∃ p q, t.Stands p ∧ t.Stands q ∧ p.node.location ≠ q.node.location ∧
    p.path = path ∧ q.path = path

/-- The paths that are met again are those met before and those that come twice. -/
theorem mem_again_enter (w : Walk) (ps : List Place) (x : String) :
    x ∈ (ps.foldl Walk.enter w).again ↔
      x ∈ w.again ∨ (x ∈ w.paths ∧ x ∈ ps.map Place.path) ∨ 2 ≤ (ps.map Place.path).count x := by
  induction ps generalizing w with
  | nil => simp
  | cons p ps ih =>
    have hagain : x ∈ (w.enter p).again ↔ x ∈ w.again ∨ (x = p.path ∧ x ∈ w.paths) := by
      simp only [Walk.enter, List.contains_iff_mem]
      split <;> grind
    have hcount : 2 ≤ ((p :: ps).map Place.path).count x ↔
        2 ≤ (ps.map Place.path).count x ∨ (x = p.path ∧ x ∈ ps.map Place.path) := by
      rw [List.map_cons, List.count_cons]
      by_cases hx : x = p.path
      · rw [hx, if_pos (beq_self_eq_true _), ← List.count_pos_iff]
        simp only [true_and]
        omega
      · rw [if_neg (by simpa using Ne.symm hx)]
        simp [hx]
    rw [List.foldl_cons, ih, hagain, hcount]
    simp only [Walk.enter, List.mem_cons, List.map_cons]
    grind

/-- A path comes twice among the places if two different places have it. -/
theorem two_le_count_iff (hw : t.WellFormed) {x : String} :
    2 ≤ (t.places.map Place.path).count x ↔ t.Shared x := by
  constructor
  · intro h
    obtain ⟨two, hsub, hmap⟩ := List.sublist_map_iff.1 (List.replicate_sublist_iff.2 h)
    obtain ⟨p, q, rfl⟩ : ∃ p q, two = [p, q] := by
      refine List.length_eq_two.1 ?_
      simpa using (congrArg List.length hmap).symm
    have hnd := (hsub.map (·.node.location)).nodup (locations_places_nodup hw)
    simp only [List.replicate, List.map_cons, List.map_nil, List.cons.injEq, and_true] at hmap
    refine ⟨p, q, (mem_places hw).1 (hsub.subset (by simp)), (mem_places hw).1
      (hsub.subset (by simp)), ?_, hmap.1.symm, hmap.2.symm⟩
    simpa using hnd
  · rintro ⟨p, q, hp, hq, hne, hpx, hqx⟩
    have hnd : [p, q].Nodup := by
      simp only [List.nodup_cons, List.mem_singleton, List.not_mem_nil, not_false_iff,
        List.nodup_nil, and_true]
      rintro rfl
      exact hne rfl
    have hsub : [p, q] ⊆ t.places := by
      intro r hr
      simp only [List.mem_cons, List.not_mem_nil, or_false] at hr
      rcases hr with rfl | rfl
      · exact (mem_places hw).2 hp
      · exact (mem_places hw).2 hq
    obtain ⟨two, hperm, htwo⟩ := hnd.subperm hsub
    have hle := (htwo.map Place.path).count_le x
    rw [(hperm.map Place.path).count_eq x] at hle
    simpa [hpx, hqx] using hle

/-- **A walk meets again exactly the paths that two nodes share.** -/
theorem mem_again_visits (hw : t.WellFormed) {x : String} : x ∈ t.visits.again ↔ t.Shared x := by
  rw [visits_eq hw, mem_again_enter, ← two_le_count_iff hw]
  simp

/-! ## Looking for collisions -/

theorem mem_fresh {reported ps : List String} {x : String} :
    x ∈ fresh reported ps ↔ x ∈ ps ∧ x ∉ reported := by
  induction ps generalizing reported with
  | nil => simp [fresh]
  | cons p ps ih =>
    rw [fresh]
    split
    · grind
    · grind

theorem nodup_fresh (reported ps : List String) : (fresh reported ps).Nodup := by
  induction ps generalizing reported with
  | nil => exact List.nodup_nil
  | cons p ps ih =>
    rw [fresh]
    split
    · exact ih reported
    · refine List.nodup_cons.2 ⟨fun hmem => ?_, ih _⟩
      exact (mem_fresh.1 hmem).2 List.mem_cons_self

/-- **Looking for collisions reports** the paths that two nodes share and that were not reported
before. -/
theorem mem_validate (hw : t.WellFormed) {x : String} :
    x ∈ t.validate.1 ↔ t.Shared x ∧ x ∉ t.reported := by
  rw [← mem_again_visits hw]
  exact mem_fresh

theorem nodup_validate (t : Tree) : t.validate.1.Nodup :=
  nodup_fresh _ _

/-- Which paths are shared is a matter of the entries. -/
theorem Shared.of_entries {t' : Tree} {x : String} (h : t.Shared x)
    (heq : t'.entries = t.entries) : t'.Shared x := by
  obtain ⟨p, q, ⟨e, he, hl⟩, ⟨f, hf, hl'⟩, hrest⟩ := h
  exact ⟨p, q, ⟨e, he, hl.of_entries heq⟩, ⟨f, hf, hl'.of_entries heq⟩, hrest⟩

end Tree

end EventRelay.Location
