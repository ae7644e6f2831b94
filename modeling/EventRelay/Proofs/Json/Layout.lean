import EventRelay.Proofs.Json.Numbers

/-!
# Written values are laid out as they are

The text of a value is laid out as the tree of that value (`tree`), without a fault and without a
rest.  Nothing is asked of the value but that its numbers read back.

* `tree` — the layout to expect.
* `fuel`, `fuel_le` — the reader makes so many nested calls, and never more than there are
  characters.
* `layValue_write` — **a written value is laid out as its tree**, whatever follows, if that does not
  go on with a number.
* `layOut_text`, `decode_text` — so the text of a value has its tree as layout, and decoding it is
  decoding that tree.
-/

namespace EventRelay.Json

/-! ## What to expect -/

mutual

/-- The layout of the text of a value. -/
def tree : Json → Tree
  | .null => .null
  | .bool b => .bool b
  | .num n => .num n.literal
  | .str s => .str (.ok s)
  | .arr items => .arr (treeItems items) none
  | .obj fields => .obj (treeFields fields) none

/-- The layouts of items. -/
def treeItems : List Json → List Tree
  | [] => []
  | v :: vs => tree v :: treeItems vs

/-- The layouts of fields. -/
def treeFields : List (String × Json) → List (Quoted × Tree)
  | [] => []
  | (k, v) :: fs => (.ok k, tree v) :: treeFields fs

end

mutual

/-- The numbers in a value, in text order. -/
def numbers : Json → List Number
  | .num n => [n]
  | .arr items => numbersItems items
  | .obj fields => numbersFields fields
  | _ => []

/-- The numbers in items. -/
def numbersItems : List Json → List Number
  | [] => []
  | v :: vs => numbers v ++ numbersItems vs

/-- The numbers in fields. -/
def numbersFields : List (String × Json) → List Number
  | [] => []
  | (_, v) :: fs => numbers v ++ numbersFields fs

end

/-- Every number in the value reads back. -/
def Legible (v : Json) : Prop :=
  ∀ n ∈ v.numbers, n.ReadsBack

/-- Every float in the value reads back. -/
def FloatsReadBack (v : Json) : Prop :=
  ∀ x, .real x ∈ v.numbers → (Number.real x).ReadsBack

/-- Of integers nothing has to be asked. -/
theorem FloatsReadBack.legible {v : Json} (h : v.FloatsReadBack) : v.Legible := by
  intro n hn
  cases n with
  | natural n => exact natural_readsBack n
  | negative n => exact negative_readsBack n
  | real x => exact h x hn

theorem legible_arr {items : List Json} :
    (Json.arr items).Legible ↔ ∀ v ∈ items, v.Legible := by
  have hnumbers : (Json.arr items).numbers = items.flatMap numbers := by
    show numbersItems items = _
    induction items with
    | nil => rfl
    | cons v vs ih => rw [numbersItems, ih, List.flatMap_cons]
  rw [Legible, hnumbers]
  exact List.forall_mem_flatMap

theorem legible_obj {fields : List (String × Json)} :
    (Json.obj fields).Legible ↔ ∀ f ∈ fields, f.2.Legible := by
  have hnumbers : (Json.obj fields).numbers = fields.flatMap fun f => f.2.numbers := by
    show numbersFields fields = _
    induction fields with
    | nil => rfl
    | cons f fs ih => rw [numbersFields, ih, List.flatMap_cons]
  rw [Legible, hnumbers]
  exact List.forall_mem_flatMap

mutual

/-- The number of nested calls that it takes to lay a value out. -/
def fuel : Json → Nat
  | .arr items => fuelItems items + 1
  | .obj fields => fuelFields fields + 1
  | _ => 1

/-- The calls for the items of an array. -/
def fuelItems : List Json → Nat
  | [] => 1
  | v :: vs => max (fuel v) (fuelItems vs) + 1

/-- The calls for the fields of an object. -/
def fuelFields : List (String × Json) → Nat
  | [] => 1
  | (_, v) :: fs => max (fuel v) (fuelFields fs) + 1

end

theorem fuel_pos (v : Json) : 1 ≤ v.fuel := by
  cases v with
  | arr items => exact Nat.le_add_left 1 _
  | obj fields => exact Nat.le_add_left 1 _
  | _ => exact Nat.le_refl 1

/-! ## The writer, piece by piece -/

/-- Items after the first one, each behind a comma. -/
def writeMoreItems : List Json → List Char → List Char
  | [], rest => rest
  | v :: vs, rest => ',' :: writeItems (v :: vs) rest

/-- Fields after the first one, each behind a comma. -/
def writeMoreFields : List (String × Json) → List Char → List Char
  | [], rest => rest
  | f :: fs, rest => ',' :: writeFields (f :: fs) rest

theorem write_arr (items : List Json) (rest : List Char) :
    (Json.arr items).write rest = '[' :: writeItems items (']' :: rest) := rfl

theorem write_obj (fields : List (String × Json)) (rest : List Char) :
    (Json.obj fields).write rest = '{' :: writeFields fields ('}' :: rest) := rfl

theorem writeItems_cons (v : Json) (vs : List Json) (rest : List Char) :
    writeItems (v :: vs) rest = v.write (writeMoreItems vs rest) := by
  cases vs <;> rfl

theorem writeFields_cons (k : String) (v : Json) (fs : List (String × Json)) (rest : List Char) :
    writeFields ((k, v) :: fs) rest =
      '"' :: writeChars k.toList (':' :: v.write (writeMoreFields fs rest)) := by
  cases fs <;> rfl

theorem delimited_moreItems (vs : List Json) (rest : List Char) :
    Delimited (writeMoreItems vs (']' :: rest)) := by
  cases vs with
  | nil => exact delimited_cons rfl (by decide) (by decide) (by decide) rest
  | cons v vs => exact delimited_cons rfl (by decide) (by decide) (by decide) _

theorem delimited_moreFields (fs : List (String × Json)) (rest : List Char) :
    Delimited (writeMoreFields fs ('}' :: rest)) := by
  cases fs with
  | nil => exact delimited_cons rfl (by decide) (by decide) (by decide) rest
  | cons f fs => exact delimited_cons rfl (by decide) (by decide) (by decide) _

/-! ## The reader, piece by piece -/

theorem layValue_congr {cs cs' : List Char} (h : skipSpace cs = skipSpace cs') (n : Nat) :
    layValue n cs = layValue n cs' := by
  cases n with
  | zero => rfl
  | succ n => rw [layValue, layValue, h]

theorem layItems_congr {cs cs' : List Char} (h : skipSpace cs = skipSpace cs') (n : Nat)
    (first : Bool) : layItems n first cs = layItems n first cs' := by
  cases n with
  | zero => rfl
  | succ n => rw [layItems, layItems, h]

theorem layMembers_congr {cs cs' : List Char} (h : skipSpace cs = skipSpace cs') (n : Nat)
    (first : Bool) : layMembers n first cs = layMembers n first cs' := by
  cases n with
  | zero => rfl
  | succ n => rw [layMembers, layMembers, h]

/-- Where a value can be read there is no closing bracket. -/
theorem layValue_head {n : Nat} {cs rest : List Char} {t : Tree}
    (h : layValue n cs = (t, some rest)) :
    ∃ c r, skipSpace cs = c :: r ∧ isSpace c = false ∧ c ≠ ']' := by
  cases n with
  | zero => cases h
  | succ n =>
    cases hcs : skipSpace cs with
    | nil =>
      rw [layValue, hcs] at h
      cases h
    | cons c r =>
      refine ⟨c, r, rfl, isSpace_of_skipSpace hcs, ?_⟩
      rintro rfl
      rw [layValue, hcs] at h
      cases h

theorem layItems_close (n : Nat) (first : Bool) (rest : List Char) :
    layItems (n + 1) first (']' :: rest) = ([], none, some rest) := by
  rw [layItems, skipSpace_cons rfl]
  rfl

theorem layMembers_close (n : Nat) (first : Bool) (rest : List Char) :
    layMembers (n + 1) first ('}' :: rest) = ([], none, some rest) := by
  rw [layMembers, skipSpace_cons rfl]
  rfl

/-- The first item is followed by the others. -/
theorem layItems_first {n : Nat} {cs after rest : List Char} {t : Tree} {ts : List Tree}
    (hv : layValue n cs = (t, some after)) (hts : layItems n false after = (ts, none, some rest)) :
    layItems (n + 1) true cs = (t :: ts, none, some rest) := by
  obtain ⟨c, r, hcs, hspace, hc⟩ := layValue_head hv
  have hvalue : layValue n (c :: r) = (t, some after) := by
    rw [← hv, layValue_congr]
    rw [hcs, skipSpace_cons hspace]
  rw [layItems, hcs]
  simp only [if_neg hc, Bool.not_true, Bool.false_and, Bool.false_eq_true, ↓reduceIte,
    skipSpace_cons hspace, hvalue, hts]

/-- A further item stands behind a comma. -/
theorem layItems_more {n : Nat} {cs after rest : List Char} {t : Tree} {ts : List Tree}
    (hv : layValue n cs = (t, some after)) (hts : layItems n false after = (ts, none, some rest)) :
    layItems (n + 1) false (',' :: cs) = (t :: ts, none, some rest) := by
  obtain ⟨c, r, hcs, hspace, hc⟩ := layValue_head hv
  have hvalue : layValue n (c :: r) = (t, some after) := by
    rw [← hv, layValue_congr]
    rw [hcs, skipSpace_cons hspace]
  rw [layItems, skipSpace_cons rfl]
  simp only [Char.reduceEq, ↓reduceIte, Bool.not_false, Bool.true_and, ne_eq, not_true_eq_false,
    decide_false, Bool.false_eq_true, hcs, if_neg hc, hvalue, hts]

/-- The first member is followed by the others. -/
theorem layMembers_first {n : Nat} {key : Quoted} {ks more cs after rest : List Char} {t : Tree}
    {ms : List (Quoted × Tree)} (hk : quoted ks = .ok (key, more))
    (hmore : skipSpace more = ':' :: cs) (hv : layValue n cs = (t, some after))
    (hms : layMembers n false after = (ms, none, some rest)) :
    layMembers (n + 1) true ('"' :: ks) = ((key, t) :: ms, none, some rest) := by
  rw [layMembers, skipSpace_cons rfl]
  simp only [Char.reduceEq, ↓reduceIte, Bool.not_true, Bool.false_and, Bool.false_eq_true, ne_eq,
    not_true_eq_false, skipSpace_cons (show isSpace '"' = false from rfl), hk, hmore, hv, hms]

/-- A further member stands behind a comma. -/
theorem layMembers_more {n : Nat} {key : Quoted} {behind ks more cs after rest : List Char} {t : Tree}
    {ms : List (Quoted × Tree)} (hbehind : skipSpace behind = '"' :: ks)
    (hk : quoted ks = .ok (key, more)) (hmore : skipSpace more = ':' :: cs)
    (hv : layValue n cs = (t, some after)) (hms : layMembers n false after = (ms, none, some rest)) :
    layMembers (n + 1) false (',' :: behind) = ((key, t) :: ms, none, some rest) := by
  rw [layMembers, skipSpace_cons rfl]
  simp only [Char.reduceEq, ↓reduceIte, Bool.not_false, Bool.true_and, ne_eq, not_true_eq_false,
    decide_false, Bool.false_eq_true, hbehind, hk, hmore, hv, hms]

/-! ## Written values -/

theorem layValue_str (n : Nat) (s : String) (rest : List Char) :
    layValue (n + 1) ((Json.str s).write rest) = (.str (.ok s), some rest) := by
  rw [show (Json.str s).write rest = '"' :: writeChars s.toList rest from rfl, layValue,
    skipSpace_cons rfl]
  simp only [Char.reduceEq, ↓reduceIte, show Char.isDigit '"' = false from rfl,
    Bool.false_eq_true, quoted_writeChars]
  rfl

theorem layValue_arr {n : Nat} {cs rest : List Char} {ts : List Tree}
    (h : layItems n true cs = (ts, none, some rest)) :
    layValue (n + 1) ('[' :: cs) = (.arr ts none, some rest) := by
  rw [layValue, skipSpace_cons rfl]
  simp only [Char.reduceEq, ↓reduceIte, show Char.isDigit '[' = false from rfl,
    Bool.false_eq_true, h]

theorem layValue_obj {n : Nat} {cs rest : List Char} {ms : List (Quoted × Tree)}
    (h : layMembers n true cs = (ms, none, some rest)) :
    layValue (n + 1) ('{' :: cs) = (.obj ms none, some rest) := by
  rw [layValue, skipSpace_cons rfl]
  simp only [Char.reduceEq, ↓reduceIte, show Char.isDigit '{' = false from rfl,
    Bool.false_eq_true, h]

mutual

/-- **A written value is laid out as its tree.**  What is left is what follows the value, perhaps
behind white space. -/
theorem layValue_write : ∀ (v : Json) (n : Nat) (rest : List Char), v.Legible → v.fuel ≤ n →
    Delimited rest →
    ∃ after, layValue n (v.write rest) = (v.tree, some after) ∧ skipSpace after = skipSpace rest
  | .null, _ + 1, rest, _, _, _ => ⟨rest, rfl, rfl⟩
  | .bool true, _ + 1, rest, _, _, _ => ⟨rest, rfl, rfl⟩
  | .bool false, _ + 1, rest, _, _, _ => ⟨rest, rfl, rfl⟩
  | .num m, n + 1, _, hleg, _, hrest =>
    Number.layValue_chars (hleg m List.mem_cons_self) hrest n
  | .str s, n + 1, rest, _, _, _ => ⟨rest, layValue_str n s rest, rfl⟩
  | .arr items, n + 1, rest, hleg, hn, _ =>
    ⟨rest, layValue_arr (layItems_write items n rest hleg (Nat.le_of_succ_le_succ hn)).1, rfl⟩
  | .obj fields, n + 1, rest, hleg, hn, _ =>
    ⟨rest, layValue_obj (layMembers_write fields n rest hleg (Nat.le_of_succ_le_succ hn)).1, rfl⟩
  | v, 0, _, _, hn, _ => absurd v.fuel_pos (Nat.not_le.2 (Nat.lt_succ_of_le hn))

/-- Written items are laid out as their trees, from the first one on or after one. -/
theorem layItems_write : ∀ (vs : List Json) (n : Nat) (rest : List Char),
    (∀ m ∈ numbersItems vs, m.ReadsBack) → fuelItems vs ≤ n →
    layItems n true (writeItems vs (']' :: rest)) = (treeItems vs, none, some rest) ∧
    layItems n false (writeMoreItems vs (']' :: rest)) = (treeItems vs, none, some rest)
  | [], n + 1, rest, _, _ => ⟨layItems_close n true rest, layItems_close n false rest⟩
  | v :: vs, n + 1, rest, hleg, hn => by
    have hfuel := Nat.max_le.1 (Nat.le_of_succ_le_succ hn)
    obtain ⟨after, hv, hafter⟩ := layValue_write v n _
      (fun m hm => hleg m (List.mem_append_left _ hm)) hfuel.1 (delimited_moreItems vs rest)
    have hvs := (layItems_write vs n rest (fun m hm => hleg m (List.mem_append_right _ hm))
      hfuel.2).2
    rw [← layItems_congr hafter] at hvs
    rw [writeMoreItems, writeItems_cons]
    exact ⟨layItems_first hv hvs, layItems_more hv hvs⟩
  | [], 0, _, _, hn => absurd hn (Nat.not_succ_le_zero _)
  | _ :: _, 0, _, _, hn => absurd hn (Nat.not_succ_le_zero _)

/-- Written fields are laid out as their trees, from the first one on or after one. -/
theorem layMembers_write : ∀ (fs : List (String × Json)) (n : Nat) (rest : List Char),
    (∀ m ∈ numbersFields fs, m.ReadsBack) → fuelFields fs ≤ n →
    layMembers n true (writeFields fs ('}' :: rest)) = (treeFields fs, none, some rest) ∧
    layMembers n false (writeMoreFields fs ('}' :: rest)) = (treeFields fs, none, some rest)
  | [], n + 1, rest, _, _ => ⟨layMembers_close n true rest, layMembers_close n false rest⟩
  | (k, v) :: fs, n + 1, rest, hleg, hn => by
    have hfuel := Nat.max_le.1 (Nat.le_of_succ_le_succ hn)
    obtain ⟨after, hv, hafter⟩ := layValue_write v n _
      (fun m hm => hleg m (List.mem_append_left _ hm)) hfuel.1 (delimited_moreFields fs rest)
    have hfs := (layMembers_write fs n rest (fun m hm => hleg m (List.mem_append_right _ hm))
      hfuel.2).2
    rw [← layMembers_congr hafter] at hfs
    rw [writeMoreFields, writeFields_cons]
    have hkey := quoted_writeChars k (':' :: v.write (writeMoreFields fs ('}' :: rest)))
    have hcolon := skipSpace_cons (c := ':') rfl (v.write (writeMoreFields fs ('}' :: rest)))
    exact ⟨layMembers_first hkey hcolon hv hfs,
      layMembers_more (skipSpace_cons rfl _) hkey hcolon hv hfs⟩
  | [], 0, _, _, hn => absurd hn (Nat.not_succ_le_zero _)
  | _ :: _, 0, _, _, hn => absurd hn (Nat.not_succ_le_zero _)

end

/-! ## Enough fuel -/

theorem length_writeChars (cs rest : List Char) : rest.length < (writeChars cs rest).length := by
  induction cs with
  | nil => exact Nat.lt_succ_self _
  | cons c cs ih =>
    rw [writeChars, List.length_append]
    omega

/-- The text of a number that reads back is not empty. -/
theorem Number.chars_ne_nil {n : Number} (h : n.ReadsBack) : n.chars ≠ [] := by
  intro hnil
  obtain ⟨_, hlay, -⟩ := Number.layValue_of_readsBack h
  rw [hnil] at hlay
  cases hlay

mutual

/-- A value needs no more calls than its text has characters, and one. -/
theorem fuel_le : ∀ (v : Json) (rest : List Char), v.Legible →
    v.fuel + rest.length ≤ (v.write rest).length + 1 ∧ rest.length < (v.write rest).length
  | .null, rest, _ => by
    rw [show Json.null.write rest = 'n' :: 'u' :: 'l' :: 'l' :: rest from rfl]
    simp only [fuel, List.length_cons]
    omega
  | .bool true, rest, _ => by
    rw [show (Json.bool true).write rest = 't' :: 'r' :: 'u' :: 'e' :: rest from rfl]
    simp only [fuel, List.length_cons]
    omega
  | .bool false, rest, _ => by
    rw [show (Json.bool false).write rest = 'f' :: 'a' :: 'l' :: 's' :: 'e' :: rest from rfl]
    simp only [fuel, List.length_cons]
    omega
  | .num m, rest, hleg => by
    have hpos := List.length_pos_iff.2 (Number.chars_ne_nil (hleg m List.mem_cons_self))
    rw [show (Json.num m).write rest = m.chars ++ rest from rfl, List.length_append]
    simp only [fuel]
    omega
  | .str s, rest, _ => by
    have hlen := length_writeChars s.toList rest
    rw [show (Json.str s).write rest = '"' :: writeChars s.toList rest from rfl, List.length_cons]
    simp only [fuel]
    omega
  | .arr items, rest, hleg => by
    have hlen := fuelItems_le items (']' :: rest) hleg
    rw [write_arr, List.length_cons]
    rw [List.length_cons] at hlen
    simp only [fuel]
    omega
  | .obj fields, rest, hleg => by
    have hlen := fuelFields_le fields ('}' :: rest) hleg
    rw [write_obj, List.length_cons]
    rw [List.length_cons] at hlen
    simp only [fuel]
    omega

theorem fuelItems_le : ∀ (vs : List Json) (rest : List Char),
    (∀ m ∈ numbersItems vs, m.ReadsBack) →
    fuelItems vs + rest.length ≤ (writeItems vs rest).length + 2 ∧
      rest.length ≤ (writeItems vs rest).length
  | [], rest, _ => by
    rw [show writeItems [] rest = rest from rfl]
    simp only [fuelItems]
    omega
  | v :: vs, rest, hleg => by
    have hv := fuel_le v (writeMoreItems vs rest) fun m hm => hleg m (List.mem_append_left _ hm)
    have hvs := fuelItems_le vs rest fun m hm => hleg m (List.mem_append_right _ hm)
    have hmore : (writeItems vs rest).length ≤ (writeMoreItems vs rest).length := by
      cases vs with
      | nil => exact Nat.le_refl _
      | cons w ws => exact Nat.le_succ _
    rw [writeItems_cons]
    simp only [fuelItems]
    omega

theorem fuelFields_le : ∀ (fs : List (String × Json)) (rest : List Char),
    (∀ m ∈ numbersFields fs, m.ReadsBack) →
    fuelFields fs + rest.length ≤ (writeFields fs rest).length + 2 ∧
      rest.length ≤ (writeFields fs rest).length
  | [], rest, _ => by
    rw [show writeFields [] rest = rest from rfl]
    simp only [fuelFields]
    omega
  | (k, v) :: fs, rest, hleg => by
    have hv := fuel_le v (writeMoreFields fs rest) fun m hm => hleg m (List.mem_append_left _ hm)
    have hfs := fuelFields_le fs rest fun m hm => hleg m (List.mem_append_right _ hm)
    have hkey := length_writeChars k.toList (':' :: v.write (writeMoreFields fs rest))
    have hmore : (writeFields fs rest).length ≤ (writeMoreFields fs rest).length := by
      cases fs with
      | nil => exact Nat.le_refl _
      | cons f fs => exact Nat.le_succ _
    rw [writeFields_cons, List.length_cons]
    rw [List.length_cons] at hkey
    simp only [fuelFields]
    omega

end

/-- **The text of a value is laid out as its tree**, and nothing follows it. -/
theorem layOut_text {v : Json} (h : v.Legible) : layOut v.text.toList = ⟨v.tree, false⟩ := by
  have hchars : v.text.toList = v.write [] := String.toList_ofList
  obtain ⟨after, hlay, hafter⟩ :=
    layValue_write v ((v.write []).length + 1) [] h (v.fuel_le [] h).1 delimited_nil
  rw [← hchars] at hlay
  exact layOut_of_layValue hlay hafter

/-- **Decoding the text of a value is decoding its tree.** -/
theorem decode_text {α : Type} (decoder : Nat → Tree → Read α) {v : Json} (h : v.Legible) :
    decode decoder v.text = decoder nestingLimit v.tree :=
  decode_of_layOut decoder (layOut_text h)

end EventRelay.Json
