import EventRelay.Context
import EventRelay.Proofs.Json.Nesting

/-!
# Contexts read back

The flat form of a context puts the attributes next to `_type` and `id`, and the reader has to tell
them apart again.  It can, because no context comes to have an attribute of a reserved name: neither
by the calls that make one nor by reading one.

* `Built` — the contexts that a program can come by.
* `WellFormed` — attributes in key order, canonical, and none of a reserved name.
* `ofTree_attributes` — what one more attribute keeps holds of the attributes of a context that is read.
* `Built.wellFormed` — **every context a program can come by is well-formed**.
* `ofTree_toJson` — **a well-formed context is read back within its depth**.
-/

namespace EventRelay.Context

open Json

/-- The contexts that a program can come by: made, extended or read. -/
inductive Built : Context → Prop
  /-- A context without attributes. -/
  | new (typeName id : String) : Built { typeName, id }
  /-- A call that sets an attribute, whatever its key. -/
  | withAttribute {c : Context} {v : Json} (h : Built c) (key : String) (hv : v.Canonical) :
      Built (c.withAttribute key v)
  /-- A context that stands in for a failed one. -/
  | error (message : String) : Built (Context.error message)
  /-- The context of the tracked application. -/
  | application (id : String) : Built (Context.application id)
  /-- A context that was read, alone or inside something else. -/
  | read {room : Nat} {t : Tree} {c : Context} (h : Context.ofTree room t = .ok c) : Built c

/-- Attributes such that the flat form can be read back. -/
structure Attributes (fields : List (String × Json)) : Prop where
  /-- They are in key order. -/
  sorted : SortedKeys fields
  /-- No key is reserved. -/
  free : ∀ f ∈ fields, isReserved f.1 = false
  /-- The values are canonical. -/
  canonical : CanonicalFields fields

/-- The attributes are such that the flat form can be read back. -/
def WellFormed (c : Context) : Prop :=
  Attributes c.attributes

theorem attributes_nil : Attributes [] :=
  ⟨List.Pairwise.nil, nofun, trivial⟩

/-- Setting an attribute whose key is not reserved. -/
theorem Attributes.insertField {fields : List (String × Json)} (h : Attributes fields)
    {key : String} (hkey : isReserved key = false) {v : Json} (hv : v.Canonical) :
    Attributes (Json.insertField key v fields) where
  sorted := insertField_sorted h.sorted
  free := by
    intro f hf
    rcases mem_insertField hf with rfl | hf
    · exact hkey
    · exact h.free f hf
  canonical := canonicalFields_insertField hv h.canonical

theorem isReserved_eq_false {key : String} :
    isReserved key = false ↔ key ≠ "_type" ∧ key ≠ "id" := by
  rw [isReserved, Bool.or_eq_false_iff, beq_eq_false_iff_ne, beq_eq_false_iff_ne]

/-! ## What is read is well-formed -/

/-- Reading one member leaves the attributes read so far as they are, or sets one of them. -/
theorem Partial.add_cases {room : Nat} {p q : Partial} {key : String} {t : Tree}
    (h : p.add room key t = .ok q) :
    q.attributes = p.attributes ∨ (isReserved key = false ∧
      ∃ v, t.toJson room = .ok v ∧ q.attributes = Json.insertField key v p.attributes) := by
  unfold Partial.add at h
  split at h
  · split at h
    · cases h
    · obtain ⟨_, -, h⟩ := bind_eq_ok h
      cases h
      exact Or.inl rfl
  rename_i htype
  split at h
  · split at h
    · cases h
    · obtain ⟨_, -, h⟩ := bind_eq_ok h
      cases h
      exact Or.inl rfl
  · rename_i hid
    obtain ⟨v, hv, h⟩ := bind_eq_ok h
    cases h
    exact Or.inr ⟨isReserved_eq_false.2 ⟨htype, hid⟩, v, hv, rfl⟩

/-- What holds of attributes still does when one more has been read, where `room` brackets may be
opened. -/
def KeptByReading (room : Nat) (P : List (String × Json) → Prop) : Prop :=
  ∀ key (t : Tree) v fields, isReserved key = false → t.toJson room = .ok v → P fields →
    P (Json.insertField key v fields)

theorem Partial.addAll_keeps {room : Nat} {P : List (String × Json) → Prop}
    (hP : KeptByReading room P) {ms : List (Quoted × Tree)} {p q : Partial}
    (h : p.addAll room ms = .ok q) (hp : P p.attributes) : P q.attributes := by
  induction ms generalizing p with
  | nil =>
    cases h
    exact hp
  | cons m ms ih =>
    obtain ⟨_, -, h⟩ := bind_eq_ok h
    obtain ⟨p', hp', h⟩ := bind_eq_ok h
    refine ih h ?_
    rcases Partial.add_cases hp' with hsame | ⟨hkey, v, hv, hset⟩
    · rwa [hsame]
    · rw [hset]
      exact hP _ _ v _ hkey hv hp

theorem Partial.finish_eq_ok {p : Partial} {c : Context} (h : p.finish = .ok c) :
    c.attributes = p.attributes := by
  unfold Partial.finish at h
  split at h
  · cases h
  · cases h
  · cases h
    rfl

/-- The attributes of a context are read inside its bracket, one after the other. -/
theorem ofTree_attributes {room : Nat} {t : Tree} {c : Context} (h : ofTree room t = .ok c) :
    ∃ inner, openBracket room = .ok inner ∧
      ∀ P : List (String × Json) → Prop, KeptByReading inner P → P [] → P c.attributes := by
  unfold ofTree at h
  split at h
  · obtain ⟨inner, hinner, h⟩ := bind_eq_ok h
    obtain ⟨p, hp, h⟩ := bind_eq_ok h
    obtain ⟨_, -, h⟩ := bind_eq_ok h
    refine ⟨inner, hinner, fun P hP hnil => ?_⟩
    rw [Partial.finish_eq_ok h]
    exact Partial.addAll_keeps hP hp hnil
  · exact absurd h (refuse_ne_ok _ _ _)

theorem ofTree_wellFormed {room : Nat} {t : Tree} {c : Context} (h : ofTree room t = .ok c) :
    c.WellFormed := by
  obtain ⟨inner, -, hkept⟩ := ofTree_attributes h
  refine hkept Attributes (fun key t v fields hkey hv hfields => ?_) attributes_nil
  exact hfields.insertField hkey (toJson_canonical t hv)

/-- **Every context a program can come by is well-formed.** -/
theorem Built.wellFormed {c : Context} (h : c.Built) : c.WellFormed := by
  induction h with
  | new typeName id => exact attributes_nil
  | @withAttribute c v _ key hv ih =>
    unfold Context.withAttribute
    split
    · exact ih
    · rename_i hkey
      exact ih.insertField (Bool.not_eq_true _ ▸ hkey) hv
  | error message => exact attributes_nil.insertField (by decide) trivial
  | application id => exact attributes_nil
  | read h => exact ofTree_wellFormed h

/-! ## Reading the flat form -/

/-- Attributes behind those already read are added at the end. -/
theorem Partial.addAll_tree {room : Nat} (hroom : 0 < room) {fs : List (String × Json)}
    {p : Partial} (hleg : ∀ n ∈ numbersFields fs, n.ReadsBack)
    (h : Attributes (p.attributes ++ fs)) :
    p.addAll room (treeFields fs) =
      within (depthFields fs) room { p with attributes := p.attributes ++ fs } := by
  induction fs generalizing p with
  | nil =>
    rw [List.append_nil]
    exact (within_zero hroom).symm
  | cons f fs ih =>
    obtain ⟨k, v⟩ := f
    have hmem : (k, v) ∈ p.attributes ++ (k, v) :: fs :=
      List.mem_append_right _ List.mem_cons_self
    obtain ⟨htype, hid⟩ := isReserved_eq_false.1 (h.free _ hmem)
    have hv : v.Canonical := canonicalFields_iff.1 h.canonical _ hmem
    have hlast : Json.insertField k v p.attributes = p.attributes ++ [(k, v)] :=
      insertField_last fun f hf =>
        (List.pairwise_append.1 h.sorted).2.2 f hf (k, v) List.mem_cons_self
    have hadd : p.add room k v.tree =
        within v.depth room { p with attributes := p.attributes ++ [(k, v)] } := by
      rw [Partial.add, if_neg htype, if_neg hid,
        toJson_tree v (fun n hn => hleg n (List.mem_append_left _ hn)) hv hroom, hlast.symm]
      exact within_then rfl
    rw [List.append_cons] at h ⊢
    rw [treeFields, Partial.addAll, depthFields]
    show (p.add room k v.tree >>= _) = _
    rw [hadd]
    exact within_bind (ih (fun n hn => hleg n (List.mem_append_right _ hn)) h)

/-- **A well-formed context is read back within its depth.** -/
theorem ofTree_toJson {c : Context} (h : c.WellFormed) (hleg : c.toJson.Legible) {room : Nat} :
    ofTree room c.toJson.tree = within c.toJson.depth room c := by
  have hdepth : c.toJson.depth = depthFields c.attributes + 1 := by
    simp only [toJson, depth, depthFields, Nat.zero_max]
  have hnumbers : ∀ n ∈ numbersFields c.attributes, n.ReadsBack := hleg
  rw [hdepth]
  refine openBracket_bind fun room hroom => ?_
  -- the first two members are the type name and the id
  show (Partial.addAll room ⟨some c.typeName, some c.id, []⟩ (treeFields c.attributes) >>= _) = _
  rw [Partial.addAll_tree (p := ⟨some c.typeName, some c.id, []⟩) hroom hnumbers h]
  exact within_then rfl

end EventRelay.Context
