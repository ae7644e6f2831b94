import EventRelay.Proofs.Json.Texts
import Mathlib.Data.List.TakeWhile

/-!
# Numbers read back

The reader does not know where the text of a number ends: it takes what goes on with the number.  So
a number is read alike in front of anything that does not go on with it (`layValue_append`), and what
reads back alone reads back inside a larger text.

* `Number.ReadsBack` — the text of a number, alone, is read as that number.
* `Number.layValue_chars` — the same inside a larger text.
* `natural_readsBack`, `negative_readsBack` — **integers read back**.  Of floats it depends on how
  they are printed and read, and nothing is said here.
-/

namespace EventRelay.Json

/-! ## Parts of a number -/

/-- Digits at the front, at least one. -/
def someDigits (cs : List Char) : Except Fault (List Nat × List Char) :=
  match digitRun cs with
  | ([], []) => .error .endInValue
  | ([], _ :: _) => .error .badNumber
  | (ds, rest) => .ok (ds, rest)

theorem someDigits_eq_ok {cs rest : List Char} {ds : List Nat} :
    someDigits cs = .ok (ds, rest) ↔ ds ≠ [] ∧ digitRun cs = (ds, rest) := by
  unfold someDigits
  rcases digitRun cs with ⟨_ | ⟨d, ds'⟩, _ | ⟨c, r⟩⟩ <;> grind

theorem fractionPart_point (cs : List Char) :
    fractionPart ('.' :: cs) = (someDigits cs).map fun r => (some r.1, r.2) := by
  simp only [fractionPart, someDigits]
  rcases digitRun cs with ⟨_ | ⟨d, ds'⟩, _ | ⟨c, r⟩⟩ <;> rfl

theorem fractionPart_other {c : Char} (h : c ≠ '.') (cs : List Char) :
    fractionPart (c :: cs) = .ok (none, c :: cs) := by
  unfold fractionPart
  split
  · rename_i heq
    cases heq
    exact absurd rfl h
  · rfl

/-- The sign of an exponent (`true` for minus), and what follows it. -/
def exponentSign (cs : List Char) : Bool × List Char :=
  match cs with
  | '+' :: r => (false, r)
  | '-' :: r => (true, r)
  | r => (false, r)

theorem exponentSign_append (c : Char) (cs more : List Char) :
    exponentSign (c :: cs ++ more) =
      ((exponentSign (c :: cs)).1, (exponentSign (c :: cs)).2 ++ more) := by
  by_cases hp : c = '+'
  · subst hp
    rfl
  by_cases hm : c = '-'
  · subst hm
    rfl
  have hother : ∀ r : List Char, exponentSign (c :: r) = (false, c :: r) := by
    intro r
    unfold exponentSign
    split <;> simp_all
  rw [List.cons_append, hother, hother, List.cons_append]

theorem exponentPart_mark {c : Char} (h : c = 'e' ∨ c = 'E') (cs : List Char) :
    exponentPart (c :: cs) =
      (someDigits (exponentSign cs).2).map fun r => (some ((exponentSign cs).1, r.1), r.2) := by
  simp only [exponentPart, if_pos h, someDigits]
  change (match digitRun (exponentSign cs).2 with
    | ([], []) => Except.error Fault.endInValue
    | ([], _ :: _) => .error .badNumber
    | (ds, rest) => .ok (some ((exponentSign cs).1, ds), rest)) = _
  rcases digitRun (exponentSign cs).2 with ⟨_ | ⟨d, ds'⟩, _ | ⟨c, r⟩⟩ <;> rfl

theorem exponentPart_other {c : Char} (h : ¬ (c = 'e' ∨ c = 'E')) (cs : List Char) :
    exponentPart (c :: cs) = .ok (none, c :: cs) := by
  simp only [exponentPart, if_neg h]

/-- Digits before the point: at least one, and no zero in front of others. -/
def IsWhole (ds : List Nat) : Prop :=
  ds ≠ [] ∧ ∀ d more, ds ≠ 0 :: d :: more

/-- A number after its sign is made of three parts. -/
theorem literal_of_parts {negative : Bool} {cs r₁ r₂ rest : List Char} {whole : List Nat}
    {fraction : Option (List Nat)} {exponent : Option (Bool × List Nat)}
    (hrun : digitRun cs = (whole, r₁)) (hwhole : IsWhole whole)
    (hf : fractionPart r₁ = .ok (fraction, r₂)) (he : exponentPart r₂ = .ok (exponent, rest)) :
    literal negative cs = .ok (⟨negative, whole, fraction, exponent⟩, rest) := by
  unfold literal
  rw [hrun]
  dsimp only
  split
  · exact absurd rfl hwhole.1
  · exact absurd rfl hwhole.1
  · exact absurd rfl (hwhole.2 _ _)
  · rw [hf]
    show (exponentPart r₂ >>= _) = _
    rw [he]
    rfl

theorem literal_eq_ok {negative : Bool} {cs rest : List Char} {l : Literal}
    (h : literal negative cs = .ok (l, rest)) :
    ∃ whole fraction exponent r₁ r₂, digitRun cs = (whole, r₁) ∧ IsWhole whole ∧
      fractionPart r₁ = .ok (fraction, r₂) ∧ exponentPart r₂ = .ok (exponent, rest) ∧
      l = ⟨negative, whole, fraction, exponent⟩ := by
  unfold literal at h
  rcases hrun : digitRun cs with ⟨whole, r₁⟩
  rw [hrun] at h
  dsimp only at h
  split at h
  · cases h
  · cases h
  · cases h
  · rename_i hnil hzero _
    obtain ⟨⟨fraction, r₂⟩, hf, h⟩ := bind_eq_ok h
    obtain ⟨⟨exponent, r₃⟩, he, h⟩ := bind_eq_ok h
    cases h
    exact ⟨whole, fraction, exponent, r₁, r₂, rfl, ⟨hnil, hzero⟩, hf, he, rfl⟩

/-! ## What follows a number -/

/-- The characters do not go on with a number. -/
def Delimited (more : List Char) : Prop :=
  ∀ c ∈ more.head?, c.isDigit = false ∧ c ≠ '.' ∧ c ≠ 'e' ∧ c ≠ 'E'

theorem delimited_nil : Delimited [] :=
  nofun

theorem delimited_cons {c : Char} (hd : c.isDigit = false) (hp : c ≠ '.') (he : c ≠ 'e')
    (hE : c ≠ 'E') (rest : List Char) : Delimited (c :: rest) := by
  intro d hmem
  cases Option.mem_some.1 hmem
  exact ⟨hd, hp, he, hE⟩

namespace Delimited

variable {more : List Char}

theorem digitRun_eq (h : Delimited more) : digitRun more = ([], more) := by
  cases more with
  | nil => rfl
  | cons c rest =>
    have hc : c.isDigit = false := (h c rfl).1
    simp [digitRun, hc]

theorem fractionPart_eq (h : Delimited more) : fractionPart more = .ok (none, more) := by
  cases more with
  | nil => rfl
  | cons c rest =>
    have hc : c ≠ '.' := (h c rfl).2.1
    unfold fractionPart
    split
    · rename_i heq
      cases heq
      exact absurd rfl hc
    · rfl

theorem exponentPart_eq (h : Delimited more) : exponentPart more = .ok (none, more) := by
  cases more with
  | nil => rfl
  | cons c rest =>
    obtain ⟨-, -, he, hE⟩ := h c rfl
    simp only [exponentPart, he, hE, or_self, ↓reduceIte]

/-! ## Numbers in front of something -/

theorem digitRun_append (h : Delimited more) (cs : List Char) :
    digitRun (cs ++ more) = ((digitRun cs).1, (digitRun cs).2 ++ more) := by
  induction cs with
  | nil => rw [List.nil_append, h.digitRun_eq]; rfl
  | cons c cs ih =>
    unfold digitRun at ih ⊢
    rw [List.cons_append, List.takeWhile_cons, List.takeWhile_cons, List.dropWhile_cons,
      List.dropWhile_cons]
    cases c.isDigit with
    | true => simpa using ih
    | false => rfl

theorem someDigits_append (h : Delimited more) {cs rest : List Char} {ds : List Nat}
    (hcs : someDigits cs = .ok (ds, rest)) :
    someDigits (cs ++ more) = .ok (ds, rest ++ more) := by
  obtain ⟨hne, hrun⟩ := someDigits_eq_ok.1 hcs
  exact someDigits_eq_ok.2 ⟨hne, by rw [h.digitRun_append, hrun]⟩

theorem fractionPart_append (h : Delimited more) {cs rest : List Char} {fraction : Option (List Nat)}
    (hcs : fractionPart cs = .ok (fraction, rest)) :
    fractionPart (cs ++ more) = .ok (fraction, rest ++ more) := by
  cases cs with
  | nil =>
    cases hcs
    exact h.fractionPart_eq
  | cons c cs =>
    rw [List.cons_append]
    by_cases hc : c = '.'
    · subst hc
      rw [fractionPart_point] at hcs ⊢
      obtain ⟨⟨ds, r⟩, hds, heq⟩ := map_eq_ok hcs
      cases heq
      rw [h.someDigits_append hds]
      rfl
    · rw [fractionPart_other hc] at hcs ⊢
      cases hcs
      rfl

theorem exponentPart_append (h : Delimited more) {cs rest : List Char}
    {exponent : Option (Bool × List Nat)} (hcs : exponentPart cs = .ok (exponent, rest)) :
    exponentPart (cs ++ more) = .ok (exponent, rest ++ more) := by
  cases cs with
  | nil =>
    cases hcs
    exact h.exponentPart_eq
  | cons c cs =>
    rw [List.cons_append]
    by_cases hc : c = 'e' ∨ c = 'E'
    · rw [exponentPart_mark hc] at hcs ⊢
      obtain ⟨⟨ds, r⟩, hds, heq⟩ := map_eq_ok hcs
      cases heq
      cases cs with
      | nil => cases hds
      | cons d cs =>
        rw [exponentSign_append, h.someDigits_append hds]
        rfl
    · rw [exponentPart_other hc] at hcs ⊢
      cases hcs
      rfl

theorem literal_append (h : Delimited more) {negative : Bool} {cs rest : List Char} {l : Literal}
    (hcs : literal negative cs = .ok (l, rest)) :
    literal negative (cs ++ more) = .ok (l, rest ++ more) := by
  obtain ⟨whole, fraction, exponent, r₁, r₂, hrun, hwhole, hf, he, rfl⟩ := literal_eq_ok hcs
  have hrun' : digitRun (cs ++ more) = (whole, r₁ ++ more) := by rw [h.digitRun_append, hrun]
  exact literal_of_parts hrun' hwhole (h.fractionPart_append hf) (h.exponentPart_append he)

end Delimited

/-! ## Numbers as values -/

theorem ne_of_isDigit {c d : Char} (hc : c.isDigit = true) (hd : d.isDigit = false) : c ≠ d := by
  rintro rfl
  rw [hc] at hd
  cases hd

/-- Where a number was read, nothing has gone wrong. -/
theorem stopOr_eq_num {r : Except Fault Laid} {l : Literal} {after : Option (List Char)}
    (h : stopOr r = (.num l, after)) : r = .ok (.num l, after) := by
  cases r with
  | error f => cases h
  | ok laid => exact congrArg Except.ok h

/-- A number starts with a minus sign or a digit. -/
theorem layValue_eq_num {fuel : Nat} {cs : List Char} {l : Literal} {after : Option (List Char)}
    (h : layValue (fuel + 1) cs = (.num l, after)) :
    ∃ c r rest, skipSpace cs = c :: r ∧ after = some rest ∧
      (c = '-' ∧ literal true r = .ok (l, rest) ∨
        c.isDigit = true ∧ literal false (c :: r) = .ok (l, rest)) := by
  rw [layValue] at h
  split at h
  · cases h
  rename_i c r hcs
  refine ⟨c, r, ?_⟩
  -- the words, texts and brackets come to other trees
  split at h
  · obtain ⟨_, -, heq⟩ := bind_eq_ok (stopOr_eq_num h)
    cases heq
  split at h
  · obtain ⟨_, -, heq⟩ := bind_eq_ok (stopOr_eq_num h)
    cases heq
  split at h
  · obtain ⟨_, -, heq⟩ := bind_eq_ok (stopOr_eq_num h)
    cases heq
  split at h
  · rename_i hc
    obtain ⟨⟨l', rest⟩, hl, heq⟩ := bind_eq_ok (stopOr_eq_num h)
    cases heq
    exact ⟨rest, hcs, rfl, Or.inl ⟨hc, hl⟩⟩
  split at h
  · rename_i hc
    obtain ⟨⟨l', rest⟩, hl, heq⟩ := bind_eq_ok (stopOr_eq_num h)
    cases heq
    exact ⟨rest, hcs, rfl, Or.inr ⟨hc, hl⟩⟩
  split at h
  · obtain ⟨_, -, heq⟩ := bind_eq_ok (stopOr_eq_num h)
    cases heq
  split at h
  · cases h
  split at h <;> cases h

theorem layValue_minus {cs r rest : List Char} {l : Literal} (hcs : skipSpace cs = '-' :: r)
    (h : literal true r = .ok (l, rest)) (fuel : Nat) :
    layValue (fuel + 1) cs = (.num l, some rest) := by
  rw [layValue, hcs]
  simp only [Char.reduceEq, ↓reduceIte, h]
  rfl

theorem layValue_digit {cs r rest : List Char} {c : Char} {l : Literal} (hcs : skipSpace cs = c :: r)
    (hc : c.isDigit = true) (h : literal false (c :: r) = .ok (l, rest)) (fuel : Nat) :
    layValue (fuel + 1) cs = (.num l, some rest) := by
  rw [layValue, hcs]
  simp only [if_neg (ne_of_isDigit hc (d := 'n') rfl), if_neg (ne_of_isDigit hc (d := 't') rfl),
    if_neg (ne_of_isDigit hc (d := 'f') rfl), if_neg (ne_of_isDigit hc (d := '-') rfl), if_pos hc, h]
  rfl

/-- **What follows a number does not matter**, as long as it does not go on with it. -/
theorem layValue_append {more : List Char} (hmore : Delimited more) {fuel : Nat} {cs : List Char}
    {l : Literal} {after : Option (List Char)} (h : layValue (fuel + 1) cs = (.num l, after)) :
    ∃ rest, after = some rest ∧
      ∀ fuel', layValue (fuel' + 1) (cs ++ more) = (.num l, some (rest ++ more)) := by
  obtain ⟨c, r, rest, hcs, rfl, hl⟩ := layValue_eq_num h
  have hskip : skipSpace (cs ++ more) = c :: (r ++ more) := by
    rw [skipSpace_append, hcs, if_neg (List.cons_ne_nil c r), List.cons_append]
  refine ⟨rest, rfl, fun fuel' => ?_⟩
  rcases hl with ⟨rfl, hl⟩ | ⟨hc, hl⟩
  · exact layValue_minus hskip (hmore.literal_append hl) fuel'
  · exact layValue_digit hskip hc (hmore.literal_append hl) fuel'

/-! ## Whole texts -/

/-- A text with nothing but one value is laid out as that value. -/
theorem layOut_of_layValue {cs rest : List Char} {t : Tree}
    (h : layValue (cs.length + 1) cs = (t, some rest)) (hrest : skipSpace rest = []) :
    layOut cs = ⟨t, false⟩ := by
  rw [layOut, h]
  simp only [hrest, List.isEmpty_nil, Bool.not_true]

theorem decode_of_layOut {α : Type} (decoder : Nat → Tree → Read α) {s : String} {t : Tree}
    (h : layOut s.toList = ⟨t, false⟩) : decode decoder s = decoder nestingLimit t := by
  rw [decode, h]
  cases decoder nestingLimit t <;> rfl

/-- A text with nothing but one value is decoded as that value is. -/
theorem decode_of_layValue {α : Type} (decoder : Nat → Tree → Read α) {s : String} {t : Tree}
    {rest : List Char} (h : layValue (s.toList.length + 1) s.toList = (t, some rest))
    (hrest : skipSpace rest = []) : decode decoder s = decoder nestingLimit t :=
  decode_of_layOut decoder (layOut_of_layValue h hrest)

theorem decode_eq_ok {α : Type} {decoder : Nat → Tree → Read α} {s : String} {v : α}
    (h : decode decoder s = .ok v) :
    ∃ t after, layValue (s.toList.length + 1) s.toList = (t, after) ∧
      decoder nestingLimit t = .ok v ∧ ∀ rest, after = some rest → skipSpace rest = [] := by
  obtain ⟨w, hw, h⟩ := bind_eq_ok h
  split at h
  · cases h
  · rename_i htrailing
    cases h
    rcases hlay : layValue (s.toList.length + 1) s.toList with ⟨t, after⟩
    rw [layOut, hlay] at hw htrailing
    cases after with
    | none => exact ⟨t, none, rfl, hw, nofun⟩
    | some rest =>
      refine ⟨t, some rest, rfl, hw, ?_⟩
      rintro _ ⟨⟩
      simpa using htrailing

theorem toJson_eq_num {room : Nat} {t : Tree} {n : Number} (h : t.toJson room = .ok (.num n)) :
    ∃ l, t = .num l ∧ l.read = .ok n := by
  cases t with
  | null => cases h
  | bool b => cases h
  | num l =>
    rw [Tree.toJson] at h
    obtain ⟨m, hm, heq⟩ := map_eq_ok h
    cases heq
    exact ⟨l, rfl, hm⟩
  | str s =>
    rw [Tree.toJson] at h
    obtain ⟨_, -, heq⟩ := map_eq_ok h
    cases heq
  | arr items stop =>
    rw [Tree.toJson] at h
    obtain ⟨_, -, h⟩ := bind_eq_ok h
    obtain ⟨_, -, h⟩ := bind_eq_ok h
    obtain ⟨_, -, h⟩ := bind_eq_ok h
    cases h
  | obj members stop =>
    rw [Tree.toJson] at h
    obtain ⟨_, -, h⟩ := bind_eq_ok h
    obtain ⟨_, -, h⟩ := bind_eq_ok h
    obtain ⟨_, -, h⟩ := bind_eq_ok h
    cases h
  | broken f => cases h

namespace Number

/-- The text of the number, alone, is read as the number. -/
def ReadsBack (n : Number) : Prop :=
  parse (Json.num n).text = .ok (.num n)

theorem toList_text (n : Number) : (Json.num n).text.toList = n.chars := by
  rw [text, String.toList_ofList]
  exact List.append_nil n.chars

/-- The literal that the text of the number is laid out as. -/
def literal (n : Number) : Literal :=
  match layValue (n.chars.length + 1) n.chars with
  | (.num l, _) => l
  | _ => ⟨false, [], none, none⟩

/-- A text that is read as a number is laid out as a number. -/
theorem layValue_of_readsBack {n : Number} (h : n.ReadsBack) :
    ∃ rest, layValue (n.chars.length + 1) n.chars = (.num n.literal, some rest) ∧
      skipSpace rest = [] ∧ n.literal.read = .ok n := by
  obtain ⟨t, after, hlay, hread, hrest⟩ := decode_eq_ok h
  rw [toList_text] at hlay
  obtain ⟨l, rfl, hl⟩ := toJson_eq_num hread
  have hliteral : n.literal = l := by rw [literal, hlay]
  obtain ⟨rest, rfl, -⟩ := layValue_append delimited_nil hlay
  rw [hliteral]
  exact ⟨rest, hlay, hrest rest rfl, hl⟩

/-- **A number that reads back alone reads back in a larger text.** -/
theorem layValue_chars {n : Number} (h : n.ReadsBack) {more : List Char} (hmore : Delimited more)
    (fuel : Nat) : ∃ rest, layValue (fuel + 1) (n.chars ++ more) = (.num n.literal, some rest) ∧
      skipSpace rest = skipSpace more := by
  obtain ⟨rest, hlay, hrest, -⟩ := layValue_of_readsBack h
  obtain ⟨rest', heq, happ⟩ := layValue_append hmore hlay
  cases heq
  exact ⟨rest ++ more, happ fuel, by rw [skipSpace_append, if_pos hrest]⟩

theorem read_literal {n : Number} (h : n.ReadsBack) : n.literal.read = .ok n := by
  obtain ⟨_, -, -, hread⟩ := layValue_of_readsBack h
  exact hread

theorem readsBack_of_layValue {n : Number} {l : Literal}
    (h : layValue (n.chars.length + 1) n.chars = (.num l, some [])) (hread : l.read = .ok n) :
    n.ReadsBack := by
  rw [← toList_text] at h
  rw [ReadsBack, parse, decode_of_layValue _ h rfl, Tree.toJson, hread]
  rfl

end Number

/-! ## Integers -/

theorem le_foldl_digits (ds : List Nat) (acc : Nat) :
    acc ≤ ds.foldl (fun acc d => acc * 10 + d) acc := by
  induction ds generalizing acc with
  | nil => exact Nat.le_refl acc
  | cons d ds ih =>
    have hle : acc ≤ acc * 10 + d := by omega
    exact Nat.le_trans hle (ih (acc * 10 + d))

/-- Digits of a number that fits a word are all taken. -/
theorem accumulate_eq (ds : List Nat) (acc : Nat)
    (h : ds.foldl (fun acc d => acc * 10 + d) acc < 0x10000000000000000) :
    accumulate acc ds = (ds.foldl (fun acc d => acc * 10 + d) acc, []) := by
  induction ds generalizing acc with
  | nil => rfl
  | cons d ds ih =>
    have hle := le_foldl_digits ds (acc * 10 + d)
    rw [accumulate, if_pos (Nat.lt_of_le_of_lt hle h)]
    exact ih (acc * 10 + d) h

theorem foldl_toDigits (n : Nat) :
    ((Nat.toDigits 10 n).map digitValue).foldl (fun acc d => acc * 10 + d) 0 = n := by
  rw [List.foldl_map]
  refine Eq.trans ?_ (Nat.ofDigitChars_ten_toDigits (n := n))
  rw [Nat.ofDigitChars_eq_foldl]
  congr 1
  funext acc c
  rw [Nat.mul_comm]
  rfl

theorem digitRun_toDigits (n : Nat) :
    digitRun (Nat.toDigits 10 n) = ((Nat.toDigits 10 n).map digitValue, []) := by
  have hall : ∀ c ∈ Nat.toDigits 10 n, c.isDigit = true :=
    fun c hc => Nat.isDigit_of_mem_toDigits (by decide) (by decide) hc
  unfold digitRun
  rw [List.takeWhile_eq_self_iff.2 hall, List.dropWhile_eq_nil_iff.2 hall]

/-- The first digit of a positive number is not zero. -/
theorem toDigits_head {n : Nat} (hn : 0 < n) :
    ∃ d ds, (Nat.toDigits 10 n).map digitValue = d :: ds ∧ d ≠ 0 := by
  induction n using Nat.strongRecOn with
  | ind n ih =>
    by_cases hlt : n < 10
    · refine ⟨n, [], ?_, by omega⟩
      have hsmall : ∀ m < 10, digitValue (Nat.digitChar m) = m := by decide
      rw [Nat.toDigits_of_lt_base hlt, List.map_singleton, hsmall n hlt]
    · obtain ⟨d, ds, hds, hd⟩ := ih (n / 10) (by omega) (by omega)
      rw [Nat.toDigits_of_base_le (by decide) (Nat.not_lt.1 hlt), List.map_append, hds]
      exact ⟨d, _, rfl, hd⟩

theorem isWhole_toDigits (n : Nat) : IsWhole ((Nat.toDigits 10 n).map digitValue) := by
  rcases Nat.eq_zero_or_pos n with rfl | hn
  · exact ⟨by decide, fun d more h => by cases h⟩
  · obtain ⟨d, ds, hds, hd⟩ := toDigits_head hn
    rw [hds]
    refine ⟨List.cons_ne_nil d ds, ?_⟩
    rintro e more ⟨⟩
    exact hd rfl

theorem literal_toDigits (negative : Bool) (n : Nat) :
    literal negative (Nat.toDigits 10 n) =
      .ok (⟨negative, (Nat.toDigits 10 n).map digitValue, none, none⟩, []) :=
  literal_of_parts (digitRun_toDigits n) (isWhole_toDigits n) rfl rfl

theorem value_toDigits (negative : Bool) {n : Nat} (h : n < 0x10000000000000000) :
    Literal.value ⟨negative, (Nat.toDigits 10 n).map digitValue, none, none⟩ =
      integerValue negative n := by
  have hacc := accumulate_eq ((Nat.toDigits 10 n).map digitValue) 0 (by rwa [foldl_toDigits])
  rw [foldl_toDigits] at hacc
  simp only [Literal.value, hacc]
  rfl

/-- **Integers from zero up read back.** -/
theorem natural_readsBack (n : UInt64) : (Number.natural n).ReadsBack := by
  have hn : n.toNat < 0x10000000000000000 := n.toNat_lt
  obtain ⟨c, cs, hcs⟩ := List.exists_cons_of_ne_nil (Nat.toDigits_ne_nil (n := n.toNat) (b := 10))
  have hc : c.isDigit = true :=
    Nat.isDigit_of_mem_toDigits (b := 10) (n := n.toNat) (by decide) (by decide)
      (by rw [hcs]; exact List.mem_cons_self)
  have hspace : isSpace c = false := by
    simp [isSpace, ne_of_isDigit hc (d := ' ') rfl, ne_of_isDigit hc (d := '\n') rfl,
      ne_of_isDigit hc (d := '\t') rfl, ne_of_isDigit hc (d := '\r') rfl]
  have hskip : skipSpace (Nat.toDigits 10 n.toNat) = c :: cs := by rw [hcs, skipSpace_cons hspace]
  have hlit := literal_toDigits false n.toNat
  rw [hcs] at hlit
  refine Number.readsBack_of_layValue (layValue_digit hskip hc hlit _) ?_
  have hvalue : integerValue false n.toNat = .number (.natural n) := by
    simp only [integerValue, Bool.false_eq_true, ↓reduceIte, UInt64.ofNat_toNat]
  rw [← hcs, Literal.read, value_toDigits false hn, hvalue]

/-- **Negative integers read back.** -/
theorem negative_readsBack (n : Fin 0x8000000000000000) : (Number.negative n).ReadsBack := by
  have hn : n.val + 1 < 0x10000000000000000 := by omega
  have hskip : skipSpace (Number.negative n).chars = '-' :: Nat.toDigits 10 (n.val + 1) :=
    skipSpace_cons rfl _
  refine Number.readsBack_of_layValue (layValue_minus hskip (literal_toDigits true _) _) ?_
  have hvalue : integerValue true (n.val + 1) = .number (.negative n) := by
    simp only [integerValue, ↓reduceIte, n.isLt, ↓reduceDIte]
  rw [Literal.read, value_toDigits true hn, hvalue]

end EventRelay.Json
