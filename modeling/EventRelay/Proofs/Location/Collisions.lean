import EventRelay.Proofs.Location.Walking

/-!
# Reporting collisions

A path that two mounted nodes share is reported when it is first found and kept in a cache, which
only clearing the tree empties.

* `Tree.Finds` — what looking for collisions has to come to: the shared paths outside the cache, each
  once, and the cache with them.
* `finds_validate`, `finds_add` — **both ways to look for collisions** come to that.
* `nodup_reportsOf` — **no path is reported twice** until the tree is cleared.
* `reported_complete` — **the cache has all collisions**: a move can only cause some where they are
  looked for, and unmounting causes none.
* `collisions_reported_once` — all of it, of every tree that operations can lead to.
-/

namespace EventRelay.Location.Tree

variable {t : Tree}

/-- The paths `new` are the collisions of a tree that a cache did not have, and its cache is that one
with them. -/
structure Finds (cache : List String) (t : Tree) (new : List String) : Prop where
  /-- None of them is found twice. -/
  nodup : new.Nodup
  /-- They are the paths that two nodes share, but for those in the cache. -/
  mem_iff : ∀ x, x ∈ new ↔ t.Shared x ∧ x ∉ cache
  /-- They are in the cache afterwards, and nothing else is new there. -/
  reported : t.reported = cache ++ new

/-- **Looking for collisions finds them.** -/
theorem finds_validate (hw : t.WellFormed) : Finds t.reported t.validate.2 t.validate.1 where
  nodup := nodup_validate t
  mem_iff x := by
    rw [mem_validate hw]
    constructor
    · rintro ⟨hshared, hnew⟩
      exact ⟨hshared.of_entries rfl, hnew⟩
    · rintro ⟨hshared, hnew⟩
      exact ⟨hshared.of_entries rfl, hnew⟩
  reported := rfl

/-- **So does mounting a node**, in the tree with the node. -/
theorem finds_add (hw : t.WellFormed) {node : Node} {parent : Option Node} {added : Added}
    (h : t.add node parent = .ok added) : Finds t.reported added.tree added.reported := by
  rcases t.add_cases node parent with ⟨p, -, -, hadd⟩ | ⟨hp, hadd⟩
  · rw [hadd] at h
    cases h
  · rw [hadd] at h
    cases h
    exact finds_validate (hw.placed hp)

/-- What an operation reports is shared afterwards. -/
theorem shared_of_reports (hw : t.WellFormed) {op : Operation} {x : String}
    (h : x ∈ t.reports op) : (t.perform op).Shared x := by
  cases op with
  | add node parent =>
    rw [reports] at h
    rw [perform]
    cases hadd : t.add node parent with
    | error _ =>
      rw [hadd] at h
      cases h
    | ok added =>
      rw [hadd] at h
      exact (((finds_add hw hadd).mem_iff x).1 h).1
  | remove node => cases h
  | validate => exact (((finds_validate hw).mem_iff x).1 h).1
  | clear => cases h

/-! ## At most once -/

/-- The cache grows by what an operation reports, unless it clears the tree. -/
theorem reported_perform (t : Tree) {op : Operation} (h : op ≠ .clear) :
    (t.perform op).reported = t.reported ++ t.reports op := by
  cases op with
  | add node parent =>
    rcases t.add_cases node parent with ⟨p, -, -, hadd⟩ | ⟨-, hadd⟩
    · simp [perform, reports, hadd]
    · simp [perform, reports, hadd, validate, placed]
  | remove node => simp [perform, reports, remove]
  | validate => rfl
  | clear => exact absurd rfl h

theorem reported_run (t : Tree) {ops : List Operation} (h : .clear ∉ ops) :
    (t.run ops).reported = t.reported ++ t.reportsOf ops := by
  induction ops generalizing t with
  | nil => exact (List.append_nil _).symm
  | cons op ops ih =>
    rw [List.mem_cons, not_or] at h
    have hrest := ih (t.perform op) h.2
    rwa [reported_perform t (Ne.symm h.1), List.append_assoc] at hrest

theorem nodup_reports (t : Tree) (op : Operation) : (t.reports op).Nodup := by
  cases op with
  | add node parent =>
    rcases t.add_cases node parent with ⟨p, -, -, hadd⟩ | ⟨-, hadd⟩
    · simp [reports, hadd]
    · rw [reports, hadd]
      exact nodup_validate _
  | remove node => exact List.nodup_nil
  | validate => exact nodup_validate t
  | clear => exact List.nodup_nil

/-- What an operation reports is not in the cache. -/
theorem not_mem_reported_of_reports {op : Operation} {x : String} (h : x ∈ t.reports op) :
    x ∉ t.reported := by
  cases op with
  | add node parent =>
    rcases t.add_cases node parent with ⟨p, -, -, hadd⟩ | ⟨-, hadd⟩
    · simp [reports, hadd] at h
    · rw [reports, hadd] at h
      exact (mem_fresh.1 h).2
  | remove node => cases h
  | validate => exact (mem_fresh.1 h).2
  | clear => cases h

/-- Nothing in the cache is reported before the tree is cleared. -/
theorem not_mem_reportsOf {ops : List Operation} (h : .clear ∉ ops) {x : String}
    (hx : x ∈ t.reported) : x ∉ t.reportsOf ops := by
  induction ops generalizing t with
  | nil => exact List.not_mem_nil
  | cons op ops ih =>
    rw [List.mem_cons, not_or] at h
    rw [reportsOf, List.mem_append, not_or]
    refine ⟨fun hop => not_mem_reported_of_reports hop hx, ih h.2 ?_⟩
    rw [reported_perform t (Ne.symm h.1)]
    exact List.mem_append_left _ hx

/-- **No path is reported twice** before the tree is cleared. -/
theorem nodup_reportsOf (t : Tree) {ops : List Operation} (h : .clear ∉ ops) :
    (t.reportsOf ops).Nodup := by
  induction ops generalizing t with
  | nil => exact List.nodup_nil
  | cons op ops ih =>
    rw [List.mem_cons, not_or] at h
    refine List.nodup_append'.2 ⟨nodup_reports t op, ih (t.perform op) h.2, fun x hop hlater => ?_⟩
    refine not_mem_reportsOf h.2 ?_ hlater
    rw [reported_perform t (Ne.symm h.1)]
    exact List.mem_append_right _ hop

/-! ## All of them -/

/-- The cache has every path that two nodes share. -/
def CacheComplete (t : Tree) : Prop :=
  ∀ x, t.Shared x → x ∈ t.reported

/-- Where collisions have been looked for, the cache has them. -/
theorem Finds.cacheComplete {cache new : List String} (h : Finds cache t new) :
    t.CacheComplete := by
  intro x hshared
  rw [h.reported, List.mem_append]
  by_cases hx : x ∈ cache
  · exact Or.inl hx
  · exact Or.inr ((h.mem_iff x).2 ⟨hshared, hx⟩)

/-- Paths that are shared when a node was unmounted were shared before. -/
theorem Shared.of_remove {node : Node} {x : String} (h : (t.remove node).2.Shared x) :
    t.Shared x := by
  obtain ⟨p, q, ⟨e, he, hl⟩, ⟨f, hf, hl'⟩, hrest⟩ := h
  exact ⟨p, q, ⟨e, he, hl.of_remove⟩, ⟨f, hf, hl'.of_remove⟩, hrest⟩

/-- Nothing is shared in an empty tree. -/
theorem cacheComplete_empty : CacheComplete {} := by
  rintro x ⟨p, -, ⟨e, -, hl⟩, -⟩
  exact absurd hl.mem List.not_mem_nil

/-- **Every operation keeps the cache complete.** -/
theorem CacheComplete.perform (hw : t.WellFormed) (h : t.CacheComplete) (op : Operation) :
    (t.perform op).CacheComplete := by
  cases op with
  | add node parent =>
    rw [Tree.perform]
    cases hadd : t.add node parent with
    | error _ => exact h
    | ok added => exact (finds_add hw hadd).cacheComplete
  | remove node => exact fun x hx => h x hx.of_remove
  | validate => exact (finds_validate hw).cacheComplete
  | clear => exact cacheComplete_empty

theorem reported_complete (ops : List Operation) : (run {} ops).CacheComplete := by
  refine (run_induction (P := fun t => t.WellFormed ∧ t.CacheComplete) ?_ ?_ ops).2
  · exact ⟨wellFormed_run [], cacheComplete_empty⟩
  · exact fun t op ⟨hw, h⟩ => ⟨hw.perform op, h.perform hw op⟩

/-- **Collisions are found exactly, and reported once.**  Of every tree that operations can lead to:

* Looking for collisions leaves the mounted nodes as they are and finds the paths that two nodes with
  a lineage share and that are not in the cache, each once; these are what the cache gets.
* So does mounting a node, for the tree with the node in its place.
* Until the tree is cleared, whatever is done to it reports no path twice, and none that is in the
  cache.
* The cache has every path that two nodes with a lineage share. -/
theorem collisions_reported_once (ops : List Operation) :
    let t := run {} ops
    (t.validate.2.entries = t.entries ∧ Finds t.reported t.validate.2 t.validate.1) ∧
    (∀ node parent added, t.add node parent = .ok added →
      Finds t.reported added.tree added.reported) ∧
    (∀ more, .clear ∉ more →
      (t.reportsOf more).Nodup ∧ ∀ x ∈ t.reported, x ∉ t.reportsOf more) ∧
    ∀ x, t.Shared x → x ∈ t.reported := by
  intro t
  have hw : t.WellFormed := wellFormed_run ops
  refine ⟨⟨rfl, finds_validate hw⟩, fun node parent added => finds_add hw, fun more h => ?_,
    reported_complete ops⟩
  exact ⟨nodup_reportsOf t h, fun x => not_mem_reportsOf h⟩

/-- Two sections with one id are mounted: their path is shared, it has been reported, and it is not
reported again when one of them is unmounted and comes back. -/
theorem collisions_reported_once_twins :
    let first := sampleNode "1" "Section" "menu"
    let second := sampleNode "2" "Section" "menu"
    let t := run {} [.add first none, .add second none]
    t.Shared "Section:menu" ∧ "Section:menu" ∈ t.reported ∧
      "Section:menu" ∉ t.reportsOf [.remove second, .add second none, .validate] := by
  intro first second t
  obtain ⟨-, -, honce, hall⟩ := collisions_reported_once [.add first none, .add second none]
  have hfirst : t.Stands ⟨[], first⟩ :=
    ⟨⟨first, none⟩, rfl, .root (List.mem_of_getElem? (i := 0) rfl) rfl⟩
  have hsecond : t.Stands ⟨[], second⟩ :=
    ⟨⟨second, none⟩, rfl, .root (List.mem_of_getElem? (i := 1) rfl) rfl⟩
  have hshared : t.Shared "Section:menu" :=
    ⟨_, _, hfirst, hsecond, by decide, by decide, by decide⟩
  have hreported := hall _ hshared
  refine ⟨hshared, hreported, (honce _ ?_).2 _ hreported⟩
  simp

end EventRelay.Location.Tree
