import EventRelay.Proofs.Json.Fields
import EventRelay.Proofs.Json.Layout

/-!
# How deep a value nests

The writer opens as many brackets as the value has; the reader stops at `nestingLimit`.  So a
written value reads back exactly if it is not nested too deeply, and both sides of the boundary are
stated at once, with `within`.

* `depth` — how many brackets are open at once, at most.
* `within` — a result that takes some depth to reach.
* `toJson_tree` — **the layout of a canonical value is read as the value within its depth**.
* `parse_text` — so is its text.
-/

namespace EventRelay.Json

mutual

/-- How many brackets are open at once, at most, in the text of a value. -/
def depth : Json → Nat
  | .arr items => depthItems items + 1
  | .obj fields => depthFields fields + 1
  | _ => 0

/-- The depth of the deepest item. -/
def depthItems : List Json → Nat
  | [] => 0
  | v :: vs => max (depth v) (depthItems vs)

/-- The depth of the deepest field. -/
def depthFields : List (String × Json) → Nat
  | [] => 0
  | (_, v) :: fs => max (depth v) (depthFields fs)

end

theorem depthItems_map_le {α : Type} {f : α → Json} {xs : List α} {d : Nat} :
    depthItems (xs.map f) ≤ d ↔ ∀ x ∈ xs, (f x).depth ≤ d := by
  induction xs with
  | nil => exact ⟨fun _ => nofun, fun _ => Nat.zero_le d⟩
  | cons x xs ih => rw [List.map_cons, depthItems, Nat.max_le, ih, List.forall_mem_cons]

/-! ## Results that take some depth -/

/-- The result of a reader that has to open `depth` brackets and has room for fewer than `room`. -/
def within {α : Type} (depth room : Nat) (x : α) : Read α :=
  if depth < room then .ok x else fail .tooDeep

section Within

variable {α β : Type} {d d' room : Nat} {x : α}

theorem within_zero (h : 0 < room) : within 0 room x = .ok x := if_pos h

theorem within_of_lt (h : d < room) : within d room x = .ok x := if_pos h

theorem within_of_le (h : room ≤ d) : within d room x = fail .tooDeep := if_neg (Nat.not_lt.2 h)

/-- What needs no further bracket. -/
theorem within_then {y : β} {f : α → Read β} (h : f x = .ok y) :
    (within d room x >>= f) = within d room y := by
  unfold within
  split
  · exact h
  · rfl

/-- One result after another takes the greater of both depths. -/
theorem within_bind {y : β} {f : α → Read β} (h : f x = within d' room y) :
    (within d room x >>= f) = within (max d d') room y := by
  rcases Nat.lt_or_ge d room with hd | hd
  · rw [within_of_lt hd]
    refine h.trans ?_
    unfold within
    congr 1
    exact propext ⟨fun h => Nat.max_lt.2 ⟨hd, h⟩, fun h => (Nat.max_lt.1 h).2⟩
  · rw [within_of_le hd, within_of_le (Nat.le_trans hd (Nat.le_max_left d d'))]
    rfl

/-- Inside a bracket there is room for one less. -/
theorem openBracket_bind {f : Nat → Read α} (h : ∀ room, 0 < room → f room = within d room x) :
    (openBracket room >>= f) = within (d + 1) room x := by
  unfold openBracket
  split
  · rename_i hroom
    rw [within_of_le (Nat.le_trans hroom (Nat.le_add_left 1 d))]
    rfl
  · rename_i hroom
    refine (h (room - 1) (by omega)).trans ?_
    unfold within
    congr 1
    exact propext (by omega)

end Within

/-! ## Reading layouts of values -/

mutual

/-- **The layout of a canonical value is read as the value, within its depth.** -/
theorem toJson_tree : ∀ (v : Json) {room : Nat}, v.Legible → v.Canonical → 0 < room →
    v.tree.toJson room = within v.depth room v
  | .null, _, _, _, hroom => (within_zero hroom).symm
  | .bool _, _, _, _, hroom => (within_zero hroom).symm
  | .num n, _, hleg, _, hroom => by
    rw [tree, Tree.toJson, Number.read_literal (hleg n List.mem_cons_self)]
    exact (within_zero hroom).symm
  | .str _, _, _, _, hroom => (within_zero hroom).symm
  | .arr items, _, hleg, hcan, _ => by
    rw [tree, Tree.toJson, depth]
    refine openBracket_bind fun room hroom => ?_
    rw [itemsToJson_tree items hleg hcan hroom]
    exact within_then rfl
  | .obj fields, _, hleg, hcan, _ => by
    rw [tree, Tree.toJson, depth]
    refine openBracket_bind fun room hroom => ?_
    rw [membersToJson_tree fields [] hleg hcan.1 hcan.2 hroom]
    exact within_then rfl

theorem itemsToJson_tree : ∀ (vs : List Json) {room : Nat},
    (∀ n ∈ numbersItems vs, n.ReadsBack) → CanonicalItems vs → 0 < room →
    Tree.itemsToJson room (treeItems vs) = within (depthItems vs) room vs
  | [], _, _, _, hroom => (within_zero hroom).symm
  | v :: vs, _, hleg, hcan, hroom => by
    rw [treeItems, Tree.itemsToJson, depthItems,
      toJson_tree v (fun n hn => hleg n (List.mem_append_left _ hn)) hcan.1 hroom,
      itemsToJson_tree vs (fun n hn => hleg n (List.mem_append_right _ hn)) hcan.2 hroom]
    exact within_bind (within_then rfl)

/-- Fields behind those already read are added at the end. -/
theorem membersToJson_tree : ∀ (fs acc : List (String × Json)) {room : Nat}, (∀ n ∈ numbersFields fs, n.ReadsBack) →
    SortedKeys (acc ++ fs) → CanonicalFields fs → 0 < room →
    Tree.membersToJson room acc (treeFields fs) = within (depthFields fs) room (acc ++ fs)
  | [], acc, _, _, _, _, hroom => by
    rw [List.append_nil]
    exact (within_zero hroom).symm
  | (k, v) :: fs, acc, _, hleg, hsorted, hcan, hroom => by
    have hlast : insertField k v acc = acc ++ [(k, v)] := insertField_last fun f hf =>
      (List.pairwise_append.1 hsorted).2.2 f hf (k, v) List.mem_cons_self
    rw [List.append_cons] at hsorted ⊢
    rw [treeFields, Tree.membersToJson, depthFields,
      toJson_tree v (fun n hn => hleg n (List.mem_append_left _ hn)) hcan.1 hroom]
    refine within_bind ?_
    rw [hlast]
    exact membersToJson_tree fs _ (fun n hn => hleg n (List.mem_append_right _ hn)) hsorted hcan.2
      hroom

end

/-- **A written value reads back exactly if it is not nested too deeply.** -/
theorem parse_text {v : Json} (hleg : v.Legible) (hcan : v.Canonical) :
    parse v.text = within v.depth nestingLimit v := by
  rw [parse, decode_text _ hleg]
  exact toJson_tree v hleg hcan (by decide)

/-! ## Lists of values of one type -/

/-- An array of written values is read as the list of them, if each of them is read within its
depth. -/
theorem asList_tree {α : Type} {f : α → Json} {decoder : Nat → Tree → Read α} (xs : List α)
    (h : ∀ x ∈ xs, ∀ room, 0 < room → decoder room (f x).tree = within (f x).depth room x)
    (room : Nat) :
    (Json.arr (xs.map f)).tree.asList room decoder =
      within (Json.arr (xs.map f)).depth room xs := by
  refine openBracket_bind fun room hroom => ?_
  have hitems : Tree.items (decoder room) (treeItems (xs.map f)) =
      within (depthItems (xs.map f)) room xs := by
    induction xs with
    | nil => exact (within_zero hroom).symm
    | cons x xs ih =>
      rw [List.map_cons, treeItems, Tree.items, depthItems, h x List.mem_cons_self room hroom,
        ih fun y hy => h y (List.mem_cons_of_mem x hy)]
      exact within_bind (within_then rfl)
  rw [hitems]
  exact within_then rfl

end EventRelay.Json
