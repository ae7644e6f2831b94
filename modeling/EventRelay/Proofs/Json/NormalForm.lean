import EventRelay.Proofs.Json.Records

/-!
# The normal form of a text

Many texts are read as one value.  To read a text and to write what was read gives one of them, the
normal form: white space, escapes, the order of keys and keys that come again are gone, and no bracket
was added, so that the reader accepts it.

* `toJson_depth` — **what is read has room for its brackets**.
* `Tree.Ordered`, `tree_ordered` — the keys of every object in the text of a canonical value increase.
* `NormalForm` — what it means that a text has a normal form; `normalForm_of` says when it has one.
-/

namespace EventRelay.Json

/-! ## Room for brackets -/

theorem depthFields_lt {fs : List (String × Json)} {room : Nat} (hroom : 0 < room) :
    depthFields fs < room ↔ ∀ f ∈ fs, f.2.depth < room := by
  induction fs with
  | nil => exact ⟨fun _ => nofun, fun _ => hroom⟩
  | cons f fs ih => rw [depthFields, Nat.max_lt, ih, List.forall_mem_cons]

/-- Setting a field takes no more room than the value and the other fields do. -/
theorem depthFields_insertField {key : String} {v : Json} {fs : List (String × Json)} {room : Nat}
    (hv : v.depth < room) (h : depthFields fs < room) :
    depthFields (insertField key v fs) < room := by
  have hroom : 0 < room := Nat.zero_lt_of_lt hv
  rw [depthFields_lt hroom] at h ⊢
  intro f hf
  rcases mem_insertField hf with rfl | hf
  · exact hv
  · exact h f hf

mutual

/-- **What is read has room for its brackets.** -/
theorem toJson_depth : ∀ (t : Tree) {room : Nat} {v : Json}, 0 < room → t.toJson room = .ok v →
    v.depth < room
  | .null, _, _, hroom, h => by
    cases h
    exact hroom
  | .bool _, _, _, hroom, h => by
    cases h
    exact hroom
  | .num _, _, _, hroom, h => by
    rw [Tree.toJson] at h
    obtain ⟨_, -, rfl⟩ := map_eq_ok h
    exact hroom
  | .str _, _, _, hroom, h => by
    rw [Tree.toJson] at h
    obtain ⟨_, -, rfl⟩ := map_eq_ok h
    exact hroom
  | .arr items _, _, _, _, h => by
    rw [Tree.toJson] at h
    obtain ⟨inner, hinner, h⟩ := bind_eq_ok h
    obtain ⟨vs, hvs, h⟩ := bind_eq_ok h
    obtain ⟨_, -, h⟩ := bind_eq_ok h
    cases h
    obtain ⟨hpos, rfl⟩ := openBracket_eq_ok hinner
    exact Nat.succ_lt_succ (itemsToJson_depth items hpos hvs)
  | .obj members _, _, _, _, h => by
    rw [Tree.toJson] at h
    obtain ⟨inner, hinner, h⟩ := bind_eq_ok h
    obtain ⟨fs, hfs, h⟩ := bind_eq_ok h
    obtain ⟨_, -, h⟩ := bind_eq_ok h
    cases h
    obtain ⟨hpos, rfl⟩ := openBracket_eq_ok hinner
    exact Nat.succ_lt_succ (membersToJson_depth members hpos hfs hpos)
  | .broken _, _, _, _, h => nomatch h

theorem itemsToJson_depth : ∀ (ts : List Tree) {room : Nat} {vs : List Json}, 0 < room →
    Tree.itemsToJson room ts = .ok vs → depthItems vs < room
  | [], _, _, hroom, h => by
    cases h
    exact hroom
  | t :: ts, _, _, hroom, h => by
    rw [Tree.itemsToJson] at h
    obtain ⟨v, hv, h⟩ := bind_eq_ok h
    obtain ⟨vs, hvs, h⟩ := bind_eq_ok h
    cases h
    exact Nat.max_lt.2 ⟨toJson_depth t hroom hv, itemsToJson_depth ts hroom hvs⟩

theorem membersToJson_depth : ∀ (ms : List (Quoted × Tree)) {room : Nat}
    {acc fs : List (String × Json)}, 0 < room → Tree.membersToJson room acc ms = .ok fs →
    depthFields acc < room → depthFields fs < room
  | [], _, _, _, _, h, hacc => by
    cases h
    exact hacc
  | (_, t) :: ms, _, _, _, hroom, h, hacc => by
    rw [Tree.membersToJson] at h
    obtain ⟨_, -, h⟩ := bind_eq_ok h
    obtain ⟨v, hv, h⟩ := bind_eq_ok h
    exact membersToJson_depth ms hroom h (depthFields_insertField (toJson_depth t hroom hv) hacc)

end

/-! ## Keys in text order -/

namespace Tree

/-- The keys of the members are texts that increase strictly, in text order. -/
def KeysIncrease (members : List (Quoted × Tree)) : Prop :=
  ∃ keys : List String, members.map Prod.fst = keys.map .ok ∧ keys.Pairwise (· < ·)

mutual

/-- The keys of every object in the text increase strictly, in text order. -/
def Ordered : Tree → Prop
  | .arr items _ => OrderedItems items
  | .obj members _ => KeysIncrease members ∧ OrderedMembers members
  | _ => True

/-- The same of items. -/
def OrderedItems : List Tree → Prop
  | [] => True
  | t :: ts => Ordered t ∧ OrderedItems ts

/-- The same of the values of members. -/
def OrderedMembers : List (Quoted × Tree) → Prop
  | [] => True
  | (_, t) :: ms => Ordered t ∧ OrderedMembers ms

end

end Tree

theorem keysIncrease_treeFields {fs : List (String × Json)} (h : SortedKeys fs) :
    Tree.KeysIncrease (treeFields fs) := by
  refine ⟨fs.map Prod.fst, ?_, List.pairwise_map.2 h⟩
  clear h
  induction fs with
  | nil => rfl
  | cons f fs ih => rw [treeFields, List.map_cons, ih]; rfl

mutual

/-- **The keys in the text of a canonical value increase.** -/
theorem tree_ordered : ∀ v : Json, v.Canonical → v.tree.Ordered
  | .null, _ => trivial
  | .bool _, _ => trivial
  | .num _, _ => trivial
  | .str _, _ => trivial
  | .arr items, h => treeItems_ordered items h
  | .obj fields, h => ⟨keysIncrease_treeFields h.1, treeFields_ordered fields h.2⟩

theorem treeItems_ordered : ∀ vs : List Json, CanonicalItems vs → Tree.OrderedItems (treeItems vs)
  | [], _ => trivial
  | v :: vs, h => ⟨tree_ordered v h.1, treeItems_ordered vs h.2⟩

theorem treeFields_ordered : ∀ fs : List (String × Json), CanonicalFields fs →
    Tree.OrderedMembers (treeFields fs)
  | [], _ => trivial
  | (_, v) :: fs, h => ⟨tree_ordered v h.1, treeFields_ordered fs h.2⟩

end

/-! ## Normal forms -/

/-- Reads a text and writes what was read. -/
def normalize {α : Type} (parse : String → Read α) (toJson : α → Json) (s : String) : Read String := do
  return (toJson (← parse s)).text

/-- The text `s`, which is read as `a`, has a normal form that looks as `form` says. -/
structure NormalForm {α : Type} (parse : String → Read α) (toJson : α → Json) (form : Tree → Prop)
    (s : String) (a : α) : Prop where
  /-- What was read is written as a text. -/
  normal : normalize parse toJson s = .ok (toJson a).text
  /-- That text is accepted, and read as the same value. -/
  accepted : parse (toJson a).text = .ok a
  /-- To read and write it again changes nothing. -/
  stable : normalize parse toJson (toJson a).text = .ok (toJson a).text
  /-- Texts have one normal form exactly if they are read as one value. -/
  decides : ∀ s' a', parse s' = .ok a' → (toJson a').FloatsReadBack →
    (normalize parse toJson s' = .ok (toJson a).text ↔ a' = a)
  /-- The normal form looks as it should, and nothing follows it. -/
  form : form (layOut (toJson a).text.toList).root ∧ (layOut (toJson a).text.toList).trailing = false

/-- A text has a normal form if what is read can be written and read again. -/
theorem normalForm_of {α : Type} {parse : String → Read α} {toJson : α → Json} {form : Tree → Prop}
    (hback : ∀ s a, parse s = .ok a → (toJson a).FloatsReadBack → parse (toJson a).text = .ok a)
    (hform : ∀ s a, parse s = .ok a → form (toJson a).tree) {s : String} {a : α}
    (h : parse s = .ok a) (hfloats : (toJson a).FloatsReadBack) :
    NormalForm parse toJson form s a := by
  have hread : ∀ {s a}, parse s = .ok a → normalize parse toJson s = .ok (toJson a).text :=
    fun h => bind_ok h _
  have haccepted := hback s a h hfloats
  refine ⟨hread h, haccepted, hread haccepted, fun s' a' h' hfloats' => ?_, ?_⟩
  · rw [hread h']
    constructor
    · intro htext
      -- one text is not read as two values
      have hsame := hback s' a' h' hfloats'
      rw [Except.ok.inj htext, haccepted] at hsame
      exact (Except.ok.inj hsame).symm
    · rintro rfl
      rfl
  · rw [layOut_text hfloats.legible]
    exact ⟨hform s a h, rfl⟩

end EventRelay.Json
