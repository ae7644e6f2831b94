import EventRelay.Proofs.Json.Texts

/-!
# Objects in key order

Fields are set with `insertField`, which keeps keys strictly increasing.  A value in which every
object is of this form is `Canonical`: it is the only representation of its content.

* `insertField_sorted`, `insertField_last` — setting a field keeps the order, and a key behind all
  others comes last.
* `lookup_insertField_self`, `lookup_insertField_of_ne` — what setting a field changes, and what it
  leaves.
* `sortedKeys_ext` — **fields in key order are determined by their values.**
* `Canonical` — every object in a value is in key order.
* `toJson_canonical` — **what is read is canonical**, whatever the text.
-/

namespace EventRelay.Json

/-! ## Setting a field -/

section Fields

variable {α : Type} {key other : String} {value : α} {fields : List (String × α)}

theorem mem_insertField {f : String × α} (h : f ∈ insertField key value fields) :
    f = (key, value) ∨ f ∈ fields := by
  induction fields with
  | nil => exact Or.inl (List.mem_singleton.1 h)
  | cons g rest ih =>
    obtain ⟨k, v⟩ := g
    rw [insertField] at h
    split at h
    · exact (List.mem_cons.1 h).imp id (List.mem_cons_of_mem _)
    split at h
    · exact List.mem_cons.1 h
    · rcases List.mem_cons.1 h with rfl | h
      · exact Or.inr List.mem_cons_self
      · exact (ih h).imp id (List.mem_cons_of_mem _)

/-- Setting a field keeps the key order. -/
theorem insertField_sorted (h : SortedKeys fields) :
    SortedKeys (insertField key value fields) := by
  induction fields with
  | nil => exact List.pairwise_singleton _ _
  | cons g rest ih =>
    obtain ⟨k, v⟩ := g
    obtain ⟨hhead, hrest⟩ := List.pairwise_cons.1 h
    rw [insertField]
    split
    · rename_i heq
      subst heq
      exact List.pairwise_cons.2 ⟨hhead, hrest⟩
    rename_i hne
    split
    · rename_i hlt
      refine List.pairwise_cons.2 ⟨?_, h⟩
      intro f hf
      rcases List.mem_cons.1 hf with rfl | hf
      · exact hlt
      · exact String.lt_trans hlt (hhead f hf)
    · rename_i hlt
      refine List.pairwise_cons.2 ⟨?_, ih hrest⟩
      intro f hf
      rcases mem_insertField hf with rfl | hf
      · exact Std.lt_of_le_of_ne (String.not_lt.1 hlt) (Ne.symm hne)
      · exact hhead f hf

/-- A key behind all others comes last. -/
theorem insertField_last (h : ∀ f ∈ fields, f.1 < key) :
    insertField key value fields = fields ++ [(key, value)] := by
  induction fields with
  | nil => rfl
  | cons g rest ih =>
    obtain ⟨k, v⟩ := g
    have hk : k < key := h (k, v) List.mem_cons_self
    have hne : key ≠ k := by
      rintro rfl
      exact String.lt_irrefl key hk
    rw [insertField, if_neg hne, if_neg (String.lt_asymm hk),
      ih fun f hf => h f (List.mem_cons_of_mem _ hf), List.cons_append]

theorem lookup_insertField_self : (insertField key value fields).lookup key = some value := by
  induction fields with
  | nil => simp [insertField]
  | cons g rest ih =>
    obtain ⟨k, v⟩ := g
    rw [insertField]
    split
    · exact List.lookup_cons_self
    split
    · exact List.lookup_cons_self
    · rename_i hne _
      rw [List.lookup_cons, beq_false_of_ne hne]
      exact ih

theorem lookup_insertField_of_ne (h : other ≠ key) :
    (insertField key value fields).lookup other = fields.lookup other := by
  induction fields with
  | nil => simp [insertField, List.lookup_cons, beq_false_of_ne h]
  | cons g rest ih =>
    obtain ⟨k, v⟩ := g
    rw [insertField]
    split
    · rename_i heq
      subst heq
      simp only [List.lookup_cons, beq_false_of_ne h]
    split
    · simp only [List.lookup_cons, beq_false_of_ne h]
    · rw [List.lookup_cons, List.lookup_cons, ih]

end Fields

/-! ## Keys in order -/

theorem lookup_eq_none_of_lt {α : Type} {fields : List (String × α)} {key : String}
    (h : ∀ f ∈ fields, key < f.1) : fields.lookup key = none := by
  refine List.lookup_eq_none_iff.2 fun f hf => ?_
  have hne : key ≠ f.1 := fun heq => String.lt_irrefl _ (heq ▸ h f hf)
  simpa using hne

/-- The first key of one list is not before that of another with the same values. -/
theorem not_lt_of_lookup {α : Type} {f g : String × α} {fs gs : List (String × α)}
    (hg : ∀ x ∈ gs, g.1 < x.1) (h : ∀ key, (f :: fs).lookup key = (g :: gs).lookup key) :
    ¬ f.1 < g.1 := by
  intro hlt
  have hall : ∀ x ∈ g :: gs, f.1 < x.1 :=
    List.forall_mem_cons.2 ⟨hlt, fun x hx => String.lt_trans hlt (hg x hx)⟩
  have hnone := (h f.1).trans (lookup_eq_none_of_lt hall)
  rw [List.lookup_cons_self] at hnone
  cases hnone

/-- **Fields in key order are determined by their values.** -/
theorem sortedKeys_ext {α : Type} {fs gs : List (String × α)} (hfs : SortedKeys fs)
    (hgs : SortedKeys gs) (h : ∀ key, fs.lookup key = gs.lookup key) : fs = gs := by
  induction fs generalizing gs with
  | nil =>
    cases gs with
    | nil => rfl
    | cons g gs =>
      have := h g.1
      rw [List.lookup_nil, List.lookup_cons_self] at this
      cases this
  | cons f fs ih =>
    cases gs with
    | nil =>
      have := h f.1
      rw [List.lookup_nil, List.lookup_cons_self] at this
      cases this
    | cons g gs =>
      obtain ⟨hf, hfs'⟩ := List.pairwise_cons.1 hfs
      obtain ⟨hg, hgs'⟩ := List.pairwise_cons.1 hgs
      have hkey : f.1 = g.1 := String.le_antisymm
        (String.not_lt.1 (not_lt_of_lookup hf fun key => (h key).symm))
        (String.not_lt.1 (not_lt_of_lookup hg h))
      obtain ⟨k, v⟩ := f
      obtain ⟨l, w⟩ := g
      obtain rfl : k = l := hkey
      have hvalue := h k
      rw [List.lookup_cons_self, List.lookup_cons_self] at hvalue
      rw [Option.some.inj hvalue, ih hfs' hgs' fun key => ?_]
      by_cases hk : key = k
      · rw [hk, lookup_eq_none_of_lt hf, lookup_eq_none_of_lt hg]
      · have hrest := h key
        rwa [List.lookup_cons, List.lookup_cons, beq_false_of_ne hk] at hrest

/-! ## Canonical values -/

mutual

/-- Every object in the value is in key order. -/
def Canonical : Json → Prop
  | .arr items => CanonicalItems items
  | .obj fields => SortedKeys fields ∧ CanonicalFields fields
  | _ => True

/-- Every item is canonical. -/
def CanonicalItems : List Json → Prop
  | [] => True
  | v :: vs => Canonical v ∧ CanonicalItems vs

/-- The value of every field is canonical. -/
def CanonicalFields : List (String × Json) → Prop
  | [] => True
  | (_, v) :: fs => Canonical v ∧ CanonicalFields fs

end

instance {α : Type} (fields : List (String × α)) : Decidable (SortedKeys fields) :=
  inferInstanceAs (Decidable (fields.Pairwise fun a b => a.1 < b.1))

mutual

/-- Whether a value is canonical can be computed. -/
def Canonical.decide : ∀ v : Json, Decidable v.Canonical
  | .null => .isTrue trivial
  | .bool _ => .isTrue trivial
  | .num _ => .isTrue trivial
  | .str _ => .isTrue trivial
  | .arr items => Canonical.decideItems items
  | .obj fields =>
    have := Canonical.decideFields fields
    inferInstanceAs (Decidable (SortedKeys fields ∧ CanonicalFields fields))

/-- The same of items. -/
def Canonical.decideItems : ∀ vs : List Json, Decidable (CanonicalItems vs)
  | [] => .isTrue trivial
  | v :: vs =>
    have := Canonical.decide v
    have := Canonical.decideItems vs
    inferInstanceAs (Decidable (v.Canonical ∧ CanonicalItems vs))

/-- The same of fields. -/
def Canonical.decideFields : ∀ fs : List (String × Json), Decidable (CanonicalFields fs)
  | [] => .isTrue trivial
  | (_, v) :: fs =>
    have := Canonical.decide v
    have := Canonical.decideFields fs
    inferInstanceAs (Decidable (v.Canonical ∧ CanonicalFields fs))

end

instance (v : Json) : Decidable v.Canonical :=
  Canonical.decide v

theorem canonicalFields_iff {fields : List (String × Json)} :
    CanonicalFields fields ↔ ∀ f ∈ fields, f.2.Canonical := by
  induction fields with
  | nil => exact ⟨fun _ => nofun, fun _ => trivial⟩
  | cons f fs ih => rw [CanonicalFields, ih, List.forall_mem_cons]

/-- Setting a field to a canonical value. -/
theorem canonicalFields_insertField {key : String} {v : Json} {fields : List (String × Json)}
    (hv : v.Canonical) (h : CanonicalFields fields) : CanonicalFields (insertField key v fields) := by
  rw [canonicalFields_iff] at h ⊢
  intro f hf
  rcases mem_insertField hf with rfl | hf
  · exact hv
  · exact h f hf

/-! ## What is read -/

/-- A value of another type than the one asked for is not read. -/
theorem refuse_ne_ok {α : Type} (expected : String) (t : Tree) (x : α) :
    t.refuse expected ≠ .ok x := by
  intro h
  cases t with
  | num l =>
    obtain ⟨n, -, h⟩ := bind_eq_ok h
    cases n <;> cases h
  | str s =>
    obtain ⟨_, -, h⟩ := bind_eq_ok h
    cases h
  | _ => cases h

mutual

/-- **What is read is canonical.** -/
theorem toJson_canonical : ∀ (t : Tree) {room : Nat} {v : Json}, t.toJson room = .ok v → v.Canonical
  | .null, _, _, h => by
    cases h
    trivial
  | .bool _, _, _, h => by
    cases h
    trivial
  | .num _, _, _, h => by
    rw [Tree.toJson] at h
    obtain ⟨_, -, rfl⟩ := map_eq_ok h
    trivial
  | .str _, _, _, h => by
    rw [Tree.toJson] at h
    obtain ⟨_, -, rfl⟩ := map_eq_ok h
    trivial
  | .arr items _, _, _, h => by
    rw [Tree.toJson] at h
    obtain ⟨_, -, h⟩ := bind_eq_ok h
    obtain ⟨vs, hvs, h⟩ := bind_eq_ok h
    obtain ⟨_, -, h⟩ := bind_eq_ok h
    cases h
    exact itemsToJson_canonical items hvs
  | .obj members _, _, _, h => by
    rw [Tree.toJson] at h
    obtain ⟨_, -, h⟩ := bind_eq_ok h
    obtain ⟨fs, hfs, h⟩ := bind_eq_ok h
    obtain ⟨_, -, h⟩ := bind_eq_ok h
    cases h
    exact membersToJson_canonical members hfs List.Pairwise.nil trivial
  | .broken _, _, _, h => nomatch h

theorem itemsToJson_canonical : ∀ (ts : List Tree) {room : Nat} {vs : List Json},
    Tree.itemsToJson room ts = .ok vs → CanonicalItems vs
  | [], _, _, h => by
    cases h
    trivial
  | t :: ts, _, _, h => by
    rw [Tree.itemsToJson] at h
    obtain ⟨v, hv, h⟩ := bind_eq_ok h
    obtain ⟨vs, hvs, h⟩ := bind_eq_ok h
    cases h
    exact ⟨toJson_canonical t hv, itemsToJson_canonical ts hvs⟩

theorem membersToJson_canonical : ∀ (ms : List (Quoted × Tree)) {room : Nat}
    {acc fs : List (String × Json)}, Tree.membersToJson room acc ms = .ok fs →
    SortedKeys acc → CanonicalFields acc → SortedKeys fs ∧ CanonicalFields fs
  | [], _, _, _, h, hsorted, hacc => by
    cases h
    exact ⟨hsorted, hacc⟩
  | (_, t) :: ms, _, _, _, h, hsorted, hacc => by
    rw [Tree.membersToJson] at h
    obtain ⟨_, -, h⟩ := bind_eq_ok h
    obtain ⟨v, hv, h⟩ := bind_eq_ok h
    exact membersToJson_canonical ms h (insertField_sorted hsorted)
      (canonicalFields_insertField (toJson_canonical t hv) hacc)

end

end EventRelay.Json
