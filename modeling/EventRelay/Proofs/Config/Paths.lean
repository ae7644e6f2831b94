import EventRelay.Config.Value
import EventRelay.Proofs.Json.Fields

/-!
# Values at paths

A source is laid over fields value by value, tables of tables included.  Seen from the leaves it does
no more than to put one leaf after another at its path: what stood at that path is replaced, tables are
made on the way to it, and everything beside the path stays.

* `valueAt` — the value at a path.
* `leaves`, `assignments` — what a source puts where.
* `setAll_eq` — **to lay a source over fields is to put its leaves, one after another**.
* `valueAt_setPath_self`, `valueAt_setPath_unrelated` and others — what one leaf changes.
* `Tidy` — keys in order in every table, which one leaf keeps.
-/

namespace EventRelay.Config

open Json (insertField SortedKeys)

/-! ## The value at a path -/

/-- The fields of the table under a key; none if there is no table. -/
def innerFields (fs : Fields) (key : String) : Fields :=
  ((fs.lookup key).map Value.fields).getD []

/-- The value at a path. -/
def valueAt (fs : Fields) : List String → Option Value
  | [] => none
  | [key] => fs.lookup key
  | key :: next :: path => valueAt (innerFields fs key) (next :: path)

section Insert

variable {key other : String} {v w : Value} {fs : Fields} {path : List String}

theorem innerFields_insertField_self : innerFields (insertField key v fs) key = v.fields := by
  rw [innerFields, Json.lookup_insertField_self]
  rfl

theorem innerFields_insertField_of_ne (h : other ≠ key) :
    innerFields (insertField key v fs) other = innerFields fs other := by
  rw [innerFields, Json.lookup_insertField_of_ne h, innerFields]

theorem insertField_insertField : insertField key v (insertField key w fs) = insertField key v fs := by
  induction fs with
  | nil => simp [insertField]
  | cons f fs ih =>
    obtain ⟨k, u⟩ := f
    rw [insertField]
    split
    · rename_i heq
      simp [insertField, heq]
    · rename_i hne
      split
      · rename_i hlt
        simp [insertField, hne, hlt]
      · rename_i hlt
        rw [insertField, if_neg hne, if_neg hlt, ih, insertField, if_neg hne, if_neg hlt]

theorem valueAt_nil (path : List String) : valueAt [] path = none := by
  induction path with
  | nil => rfl
  | cons k path ih => cases path <;> first | rfl | exact ih

/-- A field that is set changes nothing under other keys. -/
theorem valueAt_insertField_of_ne (h : other ≠ key) :
    valueAt (insertField key v fs) (other :: path) = valueAt fs (other :: path) := by
  cases path with
  | nil => exact Json.lookup_insertField_of_ne h
  | cons next path => rw [valueAt, valueAt, innerFields_insertField_of_ne h]

/-- Under its own key there are the fields of its value. -/
theorem valueAt_insertField_self {next : String} :
    valueAt (insertField key v fs) (key :: next :: path) = valueAt v.fields (next :: path) := by
  rw [valueAt, innerFields_insertField_self]

end Insert

/-! ## Leaves -/

mutual

/-- The leaves of a value under a path: an empty table is one, too. -/
def leaves (path : List String) : Value → List (List String × Value)
  | .table origin [] => [(path, .table origin [])]
  | .table _ (f :: fs) => leavesOf path (f :: fs)
  | v => [(path, v)]

/-- The leaves of fields under a path. -/
def leavesOf (path : List String) : Fields → List (List String × Value)
  | [] => []
  | (key, v) :: fs => leaves (path ++ [key]) v ++ leavesOf path fs

end

/-- What a source puts where, in its order. -/
def assignments (source : Fields) : List (List String × Value) :=
  source.flatMap fun f => leaves ((pathOf f.1).getD [f.1]) f.2

/-- One leaf is put at its path. -/
def put (fs : Fields) (a : List String × Value) : Fields :=
  setPath fs a.2 a.1

theorem mergeFields_eq_foldl (fs source : Fields) :
    mergeFields fs source = source.foldl (fun acc f => setPath acc f.2 [f.1]) fs := by
  induction source generalizing fs with
  | nil => rw [mergeFields, List.foldl_nil]
  | cons f source ih =>
    obtain ⟨k, v⟩ := f
    rw [mergeFields, ih, List.foldl_cons, setPath, mergeFields, mergeFields]

theorem setPath_cons {fs : Fields} {v : Value} {key next : String} {path : List String} :
    setPath fs v (key :: next :: path) = insertField (Text.lower key)
      (.table none (setPath (innerFields fs (Text.lower key)) v (next :: path))) fs := by
  rw [setPath, innerFields]
  exact List.cons_ne_nil next path

/-- Changes under one key, one after another, change the table under it. -/
theorem foldl_inside {α : Type} {key : String} {change : Fields → α → Fields} (fs : Fields) (x : α)
    (xs : List α) :
    (x :: xs).foldl (fun acc x => insertField key (.table none (change (innerFields acc key) x)) acc) fs =
      insertField key (.table none ((x :: xs).foldl change (innerFields fs key))) fs := by
  induction xs generalizing fs x with
  | nil => rfl
  | cons y xs ih =>
    rw [List.foldl_cons, ih, innerFields_insertField_self, insertField_insertField]
    rfl

/-- To put a table somewhere is to put its fields there. -/
theorem setPath_table (origin : Option String) (f : String × Value) (source : Fields) :
    ∀ (fs : Fields) (path : List String), path ≠ [] →
      setPath fs (.table origin (f :: source)) path =
        (f :: source).foldl (fun acc g => setPath acc g.2 (path ++ [g.1])) fs
  | fs, [key], _ => by
    rw [setPath, mergeFields, mergeFields, overlay, mergeFields_eq_foldl]
    exact (foldl_inside fs f source).symm
  | fs, key :: next :: path, _ => by
    rw [setPath_cons, setPath_table origin f source _ (next :: path) (by simp)]
    exact (foldl_inside fs f source).symm

mutual

/-- **To put a value somewhere is to put its leaves**, one after another. -/
theorem setPath_eq_foldl : ∀ (v : Value) (fs : Fields) {path : List String}, path ≠ [] →
    setPath fs v path = (leaves path v).foldl put fs
  | .null _, _, _, _ | .bool _ _, _, _, _ | .int _ _, _, _, _ | .float _ _, _, _, _ | .text _ _, _, _, _
  | .list _ _, _, _, _ | .table _ [], _, _, _ => rfl
  | .table origin (f :: source), fs, path, h => by
    rw [setPath_table origin f source fs path h, leaves, ← leavesOf_eq_foldl]

theorem leavesOf_eq_foldl : ∀ (source fs : Fields) {path : List String},
    source.foldl (fun acc g => setPath acc g.2 (path ++ [g.1])) fs = (leavesOf path source).foldl put fs
  | [], _, _ => rfl
  | (key, v) :: source, fs, path => by
    rw [List.foldl_cons, leavesOf, List.foldl_append, ← setPath_eq_foldl v fs (by simp),
      leavesOf_eq_foldl source]

end

theorem splitChars_ne_nil (separator : Char) (cs : List Char) : Text.splitChars separator cs ≠ [] := by
  cases cs with
  | nil => exact List.cons_ne_nil _ _
  | cons c cs =>
    rw [Text.splitChars]
    split
    · exact List.cons_ne_nil _ _
    · split <;> exact List.cons_ne_nil _ _

/-- A path has at least one name. -/
theorem pathOf_ne_nil (key : String) : (pathOf key).getD [key] ≠ [] := by
  unfold pathOf
  dsimp only
  split
  · exact mt List.map_eq_nil_iff.1 (splitChars_ne_nil '.' key.toList)
  · exact List.cons_ne_nil _ _

/-- **To lay a source over fields is to put its leaves, one after another.** -/
theorem setAll_eq (fs source : Fields) : setAll fs source = (assignments source).foldl put fs := by
  induction source generalizing fs with
  | nil => rfl
  | cons f source ih =>
    have hfirst : setKey fs f.1 f.2 = (leaves ((pathOf f.1).getD [f.1]) f.2).foldl put fs :=
      setPath_eq_foldl f.2 fs (pathOf_ne_nil f.1)
    rw [setAll, List.foldl_cons, ← setAll, ih]
    simp only [assignments, List.flatMap_cons, List.foldl_append, ← hfirst]

/-! ## What a leaf is -/

/-- Is the value a table? -/
def Value.isTable : Value → Bool
  | .table _ _ => true
  | _ => false

/-- A value without fields: no table, or an empty one. -/
def Value.IsLeaf (v : Value) : Prop :=
  v.fields = []

mutual

theorem leaves_isLeaf : ∀ (v : Value) (path : List String), ∀ a ∈ leaves path v, a.2.IsLeaf ∧ path <+: a.1
  | .null _, _, _, ha | .bool _ _, _, _, ha | .int _ _, _, _, ha | .float _ _, _, _, ha
  | .text _ _, _, _, ha | .list _ _, _, _, ha | .table _ [], _, _, ha => by
    cases List.mem_singleton.1 ha
    exact ⟨rfl, List.prefix_rfl⟩
  | .table _ (f :: fs), path, a, ha => leavesOf_isLeaf (f :: fs) path a ha

theorem leavesOf_isLeaf : ∀ (fs : Fields) (path : List String), ∀ a ∈ leavesOf path fs,
    a.2.IsLeaf ∧ path <+: a.1
  | [], _, _, ha => absurd ha List.not_mem_nil
  | (key, v) :: fs, path, a, ha => by
    rcases List.mem_append.1 ha with ha | ha
    · obtain ⟨hleaf, hpath⟩ := leaves_isLeaf v (path ++ [key]) a ha
      exact ⟨hleaf, (List.prefix_append path [key]).trans hpath⟩
    · exact leavesOf_isLeaf fs path a ha

end

/-- What a source puts somewhere are leaves, at paths that are not empty. -/
theorem assignments_isLeaf {source : Fields} : ∀ a ∈ assignments source, a.2.IsLeaf ∧ a.1 ≠ [] := by
  intro a ha
  obtain ⟨f, -, ha⟩ := List.mem_flatMap.1 ha
  obtain ⟨hleaf, hpath⟩ := leaves_isLeaf _ _ a ha
  refine ⟨hleaf, ?_⟩
  rintro hnil
  exact pathOf_ne_nil f.1 (List.prefix_nil.1 (hnil ▸ hpath))

/-! ## What one leaf changes -/

section Put

variable {v : Value} {fs : Fields} {path q : List String}

/-- The path in lower case, as it is taken. -/
def lowerPath (path : List String) : List String :=
  path.map Text.lower

/-- What a leaf leaves at its own path: an empty table leaves what was there. -/
def Value.over (v : Value) (below : Option Value) : Value :=
  if v.isTable then below.getD (.table none []) else v

theorem setPath_single (hv : v.IsLeaf) {key : String} : setPath fs v [key] =
    insertField (Text.lower key) (v.over (fs.lookup (Text.lower key))) fs := by
  rw [setPath, mergeFields, mergeFields]
  cases v with
  | table origin source =>
    obtain rfl : source = [] := hv
    rfl
  | _ => rfl

theorem lowerPath_cons {key : String} : lowerPath (key :: path) = Text.lower key :: lowerPath path := rfl

/-- **A leaf stands at its path.** -/
theorem valueAt_setPath_self (hv : v.IsLeaf) : ∀ (path : List String) (fs : Fields), path ≠ [] →
    valueAt (setPath fs v path) (lowerPath path) = some (v.over (valueAt fs (lowerPath path)))
  | [key], fs, _ => by
    rw [setPath_single hv]
    exact Json.lookup_insertField_self
  | key :: next :: path, fs, _ => by
    rw [setPath_cons, lowerPath_cons, lowerPath_cons, valueAt_insertField_self]
    exact valueAt_setPath_self hv (next :: path) _ (List.cons_ne_nil _ _)

/-- What is beside its path stays. -/
theorem valueAt_setPath_unrelated (hv : v.IsLeaf) : ∀ (path : List String) (fs : Fields) {q : List String},
    path ≠ [] → ¬ lowerPath path <+: q → ¬ q <+: lowerPath path →
    valueAt (setPath fs v path) q = valueAt fs q
  | _, _, [], _, _, hbefore => absurd List.nil_prefix hbefore
  | [key], fs, k :: q, _, hafter, _ => by
    have hne : k ≠ Text.lower key := by
      rintro rfl
      exact hafter (List.prefix_append [Text.lower key] q)
    rw [setPath_single hv, valueAt_insertField_of_ne hne]
  | key :: next :: path, fs, k :: q, _, hafter, hbefore => by
    rw [setPath_cons]
    by_cases hk : k = Text.lower key
    · subst hk
      cases q with
      | nil => exact absurd (List.prefix_append [Text.lower key] _) hbefore
      | cons n q =>
        rw [lowerPath_cons, List.cons_prefix_cons] at hafter hbefore
        rw [valueAt_insertField_self]
        exact valueAt_setPath_unrelated hv (next :: path) _ (List.cons_ne_nil _ _)
          (fun h => hafter ⟨rfl, h⟩) (fun h => hbefore ⟨rfl, h⟩)
    · exact valueAt_insertField_of_ne hk

/-- On the way to its path there are tables. -/
theorem valueAt_setPath_before (hv : v.IsLeaf) : ∀ (path : List String) (fs : Fields) {q : List String},
    q ≠ [] → q <+: lowerPath path → q ≠ lowerPath path →
    ∃ gs, valueAt (setPath fs v path) q = some (.table none gs)
  | _, _, [], hq, _, _ => absurd rfl hq
  | [], _, k :: q, _, hbefore, _ => absurd (List.prefix_nil.1 hbefore) (List.cons_ne_nil _ _)
  | [key], _, k :: q, _, hbefore, hne => by
    obtain ⟨rfl, hq⟩ := List.cons_prefix_cons.1 hbefore
    obtain rfl := List.prefix_nil.1 hq
    exact absurd rfl hne
  | key :: next :: path, fs, k :: q, _, hbefore, hne => by
    rw [lowerPath_cons, List.cons_prefix_cons] at hbefore
    obtain ⟨rfl, hq⟩ := hbefore
    rw [setPath_cons]
    cases q with
    | nil => exact ⟨_, Json.lookup_insertField_self⟩
    | cons n q =>
      rw [valueAt_insertField_self]
      exact valueAt_setPath_before hv (next :: path) _ (List.cons_ne_nil _ _) hq
        fun h => hne (by rw [h]; rfl)

/-- Beyond its path there is nothing, unless it is an empty table, which changes nothing. -/
theorem valueAt_setPath_beyond (hv : v.IsLeaf) : ∀ (path : List String) (fs : Fields) {q : List String},
    path ≠ [] → lowerPath path <+: q → q ≠ lowerPath path →
    valueAt (setPath fs v path) q = if v.isTable then valueAt fs q else none
  | [key], fs, k :: q, _, hafter, hne => by
    obtain ⟨rfl, -⟩ := List.cons_prefix_cons.1 hafter
    rw [setPath_single hv]
    cases q with
    | nil => exact absurd rfl hne
    | cons n q =>
      rw [valueAt_insertField_self, valueAt, innerFields]
      cases hbelow : fs.lookup (Text.lower key) <;> cases v <;>
        simp_all [Value.over, Value.isTable, Value.fields, valueAt_nil]
  | key :: next :: path, fs, k :: q, _, hafter, hne => by
    rw [lowerPath_cons, List.cons_prefix_cons] at hafter
    obtain ⟨rfl, hq⟩ := hafter
    rw [setPath_cons]
    cases q with
    | nil => exact absurd (List.prefix_nil.1 hq) (List.cons_ne_nil _ _)
    | cons n q =>
      rw [valueAt_insertField_self]
      exact valueAt_setPath_beyond hv (next :: path) _ (List.cons_ne_nil _ _) hq
        fun h => hne (by rw [h]; rfl)

end Put

/-! ## Keys in order -/

/-- Fields with keys in order, and so are the fields of every table among them, in any depth. -/
inductive Tidy : Fields → Prop where
  /-- Keys in order, and tidy tables. -/
  | intro {fs : Fields} (sorted : SortedKeys fs) (inner : ∀ f ∈ fs, Tidy f.2.fields) : Tidy fs

namespace Tidy

variable {fs : Fields} {key : String} {v : Value}

theorem nil : Tidy [] :=
  ⟨List.Pairwise.nil, fun _ h => absurd h List.not_mem_nil⟩

theorem sorted (h : Tidy fs) : SortedKeys fs := by
  cases h with
  | intro sorted _ => exact sorted

theorem insertField (h : Tidy fs) (hv : Tidy v.fields) : Tidy (insertField key v fs) := by
  cases h with
  | intro sorted inner =>
    refine ⟨Json.insertField_sorted sorted, fun f hf => ?_⟩
    rcases Json.mem_insertField hf with rfl | hf
    · exact hv
    · exact inner f hf

theorem innerFields (h : Tidy fs) (key : String) : Tidy (innerFields fs key) := by
  cases h with
  | intro _ inner =>
    rw [Config.innerFields]
    cases hk : fs.lookup key with
    | none => exact nil
    | some v =>
      obtain ⟨fs₁, fs₂, rfl, -⟩ := List.lookup_eq_some_iff.1 hk
      exact inner (key, v) (by simp)

/-- A leaf keeps keys in order. -/
theorem setPath (hv : v.IsLeaf) : ∀ (path : List String) {fs : Fields}, Tidy fs → Tidy (setPath fs v path)
  | [], _, h => h
  | [key], fs, h => by
    rw [setPath_single hv]
    refine h.insertField ?_
    rw [Value.over]
    split
    · have hbelow : ((fs.lookup (Text.lower key)).getD (.table none [])).fields =
          Config.innerFields fs (Text.lower key) := by
        rw [Config.innerFields]
        cases fs.lookup (Text.lower key) <;> rfl
      exact hbelow ▸ h.innerFields _
    · exact (show v.fields = [] from hv) ▸ nil
  | key :: next :: path, fs, h => by
    rw [setPath_cons]
    exact h.insertField (setPath hv (next :: path) (h.innerFields _))

theorem foldl_put {as : List (List String × Value)} (has : ∀ a ∈ as, a.2.IsLeaf) (h : Tidy fs) :
    Tidy (as.foldl put fs) := by
  induction as generalizing fs with
  | nil => exact h
  | cons a as ih =>
    exact ih (fun b hb => has b (List.mem_cons_of_mem a hb)) (setPath (has a List.mem_cons_self) a.1 h)

/-- **A source that is laid over fields keeps their keys in order.** -/
theorem setAll (source : Fields) (h : Tidy fs) : Tidy (setAll fs source) := by
  rw [setAll_eq]
  exact h.foldl_put fun a ha => (assignments_isLeaf a ha).1

end Tidy

end EventRelay.Config
