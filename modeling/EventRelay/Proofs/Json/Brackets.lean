import EventRelay.Proofs.Json.Nesting

/-!
# Brackets in a text

How deep a value nests can be seen from its text alone, by counting brackets and passing over quoted
texts: neither a text nor a number adds a bracket.

* `nesting` — the most brackets that are open at once in a text.
* `nesting_text` — **the text of a value nests as deep as the value**.
-/

namespace EventRelay.Json

/-- The most brackets that are open at once, from here on, where `level` are open now; `inside` says
that a quoted text is open. -/
def nestingFrom : Bool → Nat → List Char → Nat
  | _, level, [] => level
  | false, level, c :: cs =>
    if c = '"' then nestingFrom true level cs
    else if c = '[' ∨ c = '{' then nestingFrom false (level + 1) cs
    else if c = ']' ∨ c = '}' then max level (nestingFrom false (level - 1) cs)
    else nestingFrom false level cs
  | true, level, c :: cs =>
    if c = '"' then nestingFrom false level cs
    else if c = '\\' then
      match cs with
      | [] => level
      | _ :: cs => nestingFrom true level cs
    else nestingFrom true level cs

/-- The most brackets that are open at once in a text, outside of quoted texts. -/
def nesting (s : String) : Nat :=
  nestingFrom false 0 s.toList

theorem le_nestingFrom (inside : Bool) (level : Nat) (cs : List Char) :
    level ≤ nestingFrom inside level cs := by
  fun_induction nestingFrom inside level cs with
  | case1 => exact Nat.le_refl _
  | case2 => assumption
  | case3 level c cs _ _ ih => omega
  | case4 => exact Nat.le_max_left _ _
  | case5 => assumption
  | case6 => assumption
  | case7 => exact Nat.le_refl _
  | case8 => assumption
  | case9 => assumption

/-! ## Characters that do not count -/

/-- Neither a bracket nor a quote. -/
def isPlain (c : Char) : Bool :=
  c != '"' && c != '[' && c != '{' && c != ']' && c != '}'

theorem nestingFrom_plain {cs : List Char} (h : ∀ c ∈ cs, isPlain c = true) (level : Nat)
    (rest : List Char) : nestingFrom false level (cs ++ rest) = nestingFrom false level rest := by
  induction cs with
  | nil => rfl
  | cons c cs ih =>
    have hc := h c List.mem_cons_self
    simp only [isPlain, Bool.and_eq_true, bne_iff_ne, ne_eq] at hc
    obtain ⟨⟨⟨⟨h₁, h₂⟩, h₃⟩, h₄⟩, h₅⟩ := hc
    rw [List.cons_append, nestingFrom]
    simp only [h₁, h₂, h₃, h₄, h₅, or_self, ↓reduceIte]
    exact ih fun d hd => h d (List.mem_cons_of_mem c hd)

/-! ## Quoted texts -/

theorem nestingFrom_escape (level : Nat) (e : Char) (rest : List Char) :
    nestingFrom true level ('\\' :: e :: rest) = nestingFrom true level rest := by
  simp only [nestingFrom, Char.reduceEq, ↓reduceIte]

theorem nestingFrom_inside {c : Char} (hq : c ≠ '"') (hs : c ≠ '\\') (level : Nat)
    (rest : List Char) : nestingFrom true level (c :: rest) = nestingFrom true level rest := by
  rw [nestingFrom.eq_def]
  simp only [if_neg hq, if_neg hs]

theorem hexChar_inside : ∀ n, n < 16 → hexChar n ≠ '"' ∧ hexChar n ≠ '\\' := by
  decide

/-- An escaped character stays inside the quoted text. -/
theorem nestingFrom_escapeChar (level : Nat) (c : Char) (rest : List Char) :
    nestingFrom true level (escapeChar c ++ rest) = nestingFrom true level rest := by
  rcases escapeChar_cases c with ⟨e, hc, -⟩ | ⟨hlow, -, hc⟩ | ⟨hc, hquote, hslash, -⟩
  · rw [hc]
    exact nestingFrom_escape level e rest
  · obtain ⟨h₁, h₂⟩ := hexChar_inside (c.toNat / 16) (by omega)
    obtain ⟨h₃, h₄⟩ := hexChar_inside (c.toNat % 16) (by omega)
    rw [hc]
    simp only [List.cons_append, List.nil_append]
    rw [nestingFrom_escape, nestingFrom_inside (by decide) (by decide),
      nestingFrom_inside (by decide) (by decide), nestingFrom_inside h₁ h₂,
      nestingFrom_inside h₃ h₄]
  · rw [hc]
    exact nestingFrom_inside hquote hslash level rest

theorem nestingFrom_writeChars (level : Nat) (cs rest : List Char) :
    nestingFrom true level (writeChars cs rest) = nestingFrom false level rest := by
  induction cs with
  | nil =>
    rw [writeChars, nestingFrom.eq_def]
    rfl
  | cons c cs ih => rw [writeChars, nestingFrom_escapeChar, ih]

/-! ## Numbers -/

theorem isPlain_of_isDigit {c : Char} (h : c.isDigit = true) : isPlain c = true := by
  simp [isPlain, ne_of_isDigit h (d := '"') rfl, ne_of_isDigit h (d := '[') rfl,
    ne_of_isDigit h (d := '{') rfl, ne_of_isDigit h (d := ']') rfl, ne_of_isDigit h (d := '}') rfl]

theorem isPlain_toDigits {n : Nat} {c : Char} (h : c ∈ Nat.toDigits 10 n) : isPlain c = true :=
  isPlain_of_isDigit (Nat.isDigit_of_mem_toDigits (by decide) (by decide) h)

theorem lt_of_mem_natDigits {n d : Nat} (h : d ∈ Decimal.natDigits n) : d < 10 := by
  obtain ⟨c, hc, rfl⟩ := List.mem_map.1 h
  have hdigit := Nat.isDigit_of_mem_toDigits (b := 10) (by decide) (by decide) hc
  have hle : c.toNat ≤ 57 := (Char.isDigit_iff_toNat.1 hdigit).2
  omega

theorem mem_of_mem_dropTrailingZeros {ds : List Nat} {d : Nat}
    (h : d ∈ Decimal.dropTrailingZeros ds) : d ∈ ds := by
  have hmem := (List.dropWhile_suffix _).subset (List.mem_reverse.1 h)
  exact List.mem_reverse.1 hmem

theorem lt_of_mem_shortest {significand d : Nat} {exponent : Int}
    (h : d ∈ (Decimal.shortest significand exponent).digits) : d < 10 := by
  unfold Decimal.shortest at h
  split at h
  · cases h
  · dsimp only at h
    split at h
    · exact lt_of_mem_natDigits (mem_of_mem_dropTrailingZeros h)
    · exact lt_of_mem_natDigits h

theorem isPlain_digitChar : ∀ d, d < 10 → isPlain (Decimal.digitChar d) = true := by
  decide

theorem isPlain_positional {d : Decimal.Digits} {keepsPoint : Bool}
    (h : ∀ c ∈ d.digits.map Decimal.digitChar, isPlain c = true) :
    ∀ c ∈ Decimal.positionalText keepsPoint d, isPlain c = true := by
  have hzeros : ∀ n, ∀ c ∈ List.replicate n '0', isPlain c = true := by
    intro n c hc
    cases List.eq_of_mem_replicate hc
    rfl
  unfold Decimal.positionalText
  dsimp only
  cases d.point with
  | negSucc p =>
    exact List.forall_mem_cons.2 ⟨rfl, List.forall_mem_cons.2
      ⟨rfl, List.forall_mem_append.2 ⟨hzeros _, h⟩⟩⟩
  | ofNat p =>
    have htake : ∀ c ∈ (d.digits.map Decimal.digitChar).take p, isPlain c = true :=
      fun c hc => h c (List.mem_of_mem_take hc)
    have hdrop : ∀ c ∈ (d.digits.map Decimal.digitChar).drop p, isPlain c = true :=
      fun c hc => h c (List.mem_of_mem_drop hc)
    have hwhole : ∀ whole : List Char, (∀ c ∈ whole, isPlain c = true) →
        ∀ c ∈ (if whole.isEmpty then ['0'] else whole), isPlain c = true := by
      intro whole hplain
      split
      · exact List.forall_mem_singleton.2 rfl
      · exact hplain
    have hpadded := hwhole _ (List.forall_mem_append.2
      ⟨htake, hzeros (p - (d.digits.map Decimal.digitChar).length)⟩)
    dsimp only
    split
    · refine List.forall_mem_append.2 ⟨hpadded, ?_⟩
      split
      · exact List.all_eq_true.1 rfl
      · exact nofun
    · exact List.forall_mem_append.2 ⟨hpadded, List.forall_mem_cons.2 ⟨rfl, hdrop⟩⟩

theorem isPlain_exponent {d : Decimal.Digits}
    (h : ∀ c ∈ d.digits.map Decimal.digitChar, isPlain c = true) :
    ∀ c ∈ Decimal.exponentText d, isPlain c = true := by
  unfold Decimal.exponentText
  dsimp only
  refine List.forall_mem_append.2 ⟨?_, List.forall_mem_cons.2 ⟨rfl, List.forall_mem_cons.2
    ⟨?_, fun c hc => isPlain_toDigits hc⟩⟩⟩
  · split
    · exact List.forall_mem_singleton.2 rfl
    · rename_i heq
      rwa [heq] at h
    · rename_i heq
      rw [heq] at h
      obtain ⟨hc, hcs⟩ := List.forall_mem_cons.1 h
      exact List.forall_mem_cons.2 ⟨hc, List.forall_mem_cons.2 ⟨rfl, hcs⟩⟩
  · split <;> rfl

/-- The text of a float has digits, a point, an exponent mark and signs. -/
theorem isPlain_digits {d : Decimal.Digits} (h : ∀ n ∈ d.digits, n < 10) :
    ∀ c ∈ d.text .json, isPlain c = true := by
  have hdigits : ∀ c ∈ d.digits.map Decimal.digitChar, isPlain c = true := by
    intro c hc
    obtain ⟨n, hn, rfl⟩ := List.mem_map.1 hc
    exact isPlain_digitChar n (h n hn)
  unfold Decimal.Digits.text
  dsimp only [Decimal.Style.json]
  split
  · exact isPlain_positional hdigits
  · exact isPlain_exponent hdigits

/-- No number adds a bracket. -/
theorem isPlain_number (n : Number) : ∀ c ∈ n.chars, isPlain c = true := by
  cases n with
  | natural n => exact fun c hc => isPlain_toDigits hc
  | negative n =>
    intro c hc
    rcases List.mem_cons.1 hc with rfl | hc
    · rfl
    · exact isPlain_toDigits hc
  | real x =>
    rw [Number.chars]
    cases Decimal.Binary.ofBits x.bits with
    | nan => exact List.all_eq_true.1 rfl
    | infinite negative => cases negative <;> exact List.all_eq_true.1 rfl
    | finite negative significand exponent =>
      intro c hc
      rcases List.mem_append.1 hc with hc | hc
      · cases negative with
        | false => cases hc
        | true =>
          cases List.mem_singleton.1 hc
          rfl
      · exact isPlain_digits (fun _ => lt_of_mem_shortest) c hc

/-! ## Values -/

/-- A word or a number in front of something. -/
theorem nestingFrom_word {cs : List Char} (h : ∀ c ∈ cs, isPlain c = true) (level : Nat)
    (rest : List Char) : nestingFrom false level (cs ++ rest) =
      max (level + 0) (nestingFrom false level rest) := by
  rw [nestingFrom_plain h]
  exact (Nat.max_eq_right (le_nestingFrom false level rest)).symm

mutual

/-- What follows a value nests on its own. -/
theorem nestingFrom_write : ∀ (v : Json) (level : Nat) (rest : List Char),
    nestingFrom false level (v.write rest) = max (level + v.depth) (nestingFrom false level rest)
  | .null, level, rest => nestingFrom_word (List.all_eq_true.1 rfl) level rest
  | .bool true, level, rest => nestingFrom_word (List.all_eq_true.1 rfl) level rest
  | .bool false, level, rest => nestingFrom_word (List.all_eq_true.1 rfl) level rest
  | .num n, level, rest => nestingFrom_word (isPlain_number n) level rest
  | .str s, level, rest => by
    refine (nestingFrom_writeChars level s.toList rest).trans ?_
    exact (Nat.max_eq_right (le_nestingFrom false level rest)).symm
  | .arr items, level, rest => by
    have hle := le_nestingFrom false level rest
    rw [write_arr]
    refine (nestingFrom_items items (level + 1) (']' :: rest)).trans ?_
    have hclose : nestingFrom false (level + 1) (']' :: rest) =
        max (level + 1) (nestingFrom false level rest) := rfl
    rw [hclose, depth]
    omega
  | .obj fields, level, rest => by
    have hle := le_nestingFrom false level rest
    rw [write_obj]
    refine (nestingFrom_fields fields (level + 1) ('}' :: rest)).trans ?_
    have hclose : nestingFrom false (level + 1) ('}' :: rest) =
        max (level + 1) (nestingFrom false level rest) := rfl
    rw [hclose, depth]
    omega

theorem nestingFrom_items : ∀ (vs : List Json) (level : Nat) (rest : List Char),
    nestingFrom false level (writeItems vs rest) =
      max (level + depthItems vs) (nestingFrom false level rest)
  | [], level, rest => (Nat.max_eq_right (le_nestingFrom false level rest)).symm
  | v :: vs, level, rest => by
    have hmore : nestingFrom false level (writeMoreItems vs rest) =
        nestingFrom false level (writeItems vs rest) := by
      cases vs <;> rfl
    rw [writeItems_cons, nestingFrom_write v, hmore, nestingFrom_items vs, depthItems]
    omega

theorem nestingFrom_fields : ∀ (fs : List (String × Json)) (level : Nat) (rest : List Char),
    nestingFrom false level (writeFields fs rest) =
      max (level + depthFields fs) (nestingFrom false level rest)
  | [], level, rest => (Nat.max_eq_right (le_nestingFrom false level rest)).symm
  | (k, v) :: fs, level, rest => by
    have hmore : nestingFrom false level (writeMoreFields fs rest) =
        nestingFrom false level (writeFields fs rest) := by
      cases fs <;> rfl
    have hkey : nestingFrom false level
        ('"' :: writeChars k.toList (':' :: v.write (writeMoreFields fs rest))) =
        nestingFrom false level (v.write (writeMoreFields fs rest)) :=
      nestingFrom_writeChars level k.toList _
    rw [writeFields_cons, hkey, nestingFrom_write v, hmore, nestingFrom_fields fs, depthFields]
    omega

end

/-- **The text of a value nests as deep as the value.** -/
theorem nesting_text (v : Json) : nesting v.text = v.depth := by
  rw [nesting, text, String.toList_ofList, nestingFrom_write v 0 []]
  simp [nestingFrom]

end EventRelay.Json
