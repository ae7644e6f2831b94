import EventRelay.Json.Decode
import EventRelay.Json.Writer

/-!
# Texts read back

What the writer makes of a text, the reader takes for that text, whatever follows.

* `bind_eq_ok`, `map_eq_ok` — what it takes for a result to be reached in steps.
* `skipSpace_append` and others — white space in front of tokens.
* `escapeChar_cases` — the three ways in which a character is written.
* `quotedUnits_escapeChar` — each character, escaped or not, is read as one unit.
* `quoted_writeChars` — **an escaped text is read as the text**.
-/

namespace EventRelay.Json

/-! ## Results in steps -/

/-- A result that was reached in two steps. -/
theorem bind_eq_ok {ε α β : Type} {r : Except ε α} {f : α → Except ε β} {b : β}
    (h : (r >>= f) = .ok b) : ∃ a, r = .ok a ∧ f a = .ok b := by
  cases r with
  | error e => cases h
  | ok a => exact ⟨a, rfl, h⟩

theorem bind_ok {ε α β : Type} {r : Except ε α} {a : α} (h : r = .ok a) (f : α → Except ε β) :
    (r >>= f) = f a := by
  rw [h]
  rfl

theorem bind_eq_ok_iff {ε α β : Type} {r : Except ε α} {f : α → Except ε β} {b : β} :
    (r >>= f) = .ok b ↔ ∃ a, r = .ok a ∧ f a = .ok b :=
  ⟨bind_eq_ok, fun ⟨_, ha, hb⟩ => (bind_ok ha f).trans hb⟩

/-- A result that was mapped. -/
theorem map_eq_ok {ε α β : Type} {r : Except ε α} {f : α → β} {b : β} (h : r.map f = .ok b) :
    ∃ a, r = .ok a ∧ f a = b := by
  cases r with
  | error e => cases h
  | ok a => exact ⟨a, rfl, Except.ok.inj h⟩

/-! ## White space -/

theorem skipSpace_cons {c : Char} (h : isSpace c = false) (cs : List Char) :
    skipSpace (c :: cs) = c :: cs := by
  rw [skipSpace, List.dropWhile_cons, h]
  rfl

/-- What is left after white space does not start with white space. -/
theorem isSpace_of_skipSpace {cs rest : List Char} {c : Char} (h : skipSpace cs = c :: rest) :
    isSpace c = false := by
  induction cs with
  | nil => cases h
  | cons d cs ih =>
    cases hd : isSpace d with
    | true =>
      rw [skipSpace, List.dropWhile_cons, hd, if_pos rfl] at h
      exact ih h
    | false =>
      rw [skipSpace_cons hd] at h
      cases h
      exact hd

theorem skipSpace_append (cs more : List Char) :
    skipSpace (cs ++ more) =
      if skipSpace cs = [] then skipSpace more else skipSpace cs ++ more := by
  unfold skipSpace
  rw [List.dropWhile_append]
  simp only [List.isEmpty_iff]

/-! ## Quoted texts -/

/-- What the reader makes of an escaped character. -/
def unitOf (c : Char) : Unit16 :=
  if c = '"' ∨ c = '\\' ∨ 0x20 ≤ c.toNat ∨ c = '\x08' ∨ c = '\t' ∨ c = '\n' ∨ c = '\x0c' ∨ c = '\r'
  then .char c else .unit c.toNat

/-- The escape of a control character names it. -/
theorem hexUnit?_control : ∀ n, n < 0x20 →
    hexUnit? '0' '0' (hexChar (n / 16)) (hexChar (n % 16)) = some n := by
  decide

theorem quotedUnits_quote (rest : List Char) : quotedUnits ('"' :: rest) = .ok ([], rest) := by
  rw [quotedUnits.eq_def]
  rfl

theorem quotedUnits_short {e d : Char} (hu : e ≠ 'u') (h : shortEscape? e = some d)
    (rest : List Char) :
    quotedUnits ('\\' :: e :: rest) = putUnit (.char d) (quotedUnits rest) := by
  rw [quotedUnits.eq_def]
  simp only [Char.reduceEq, ↓reduceIte, if_neg hu, h]

theorem quotedUnits_hex {h₁ h₂ h₃ h₄ : Char} {n : Nat} (h : hexUnit? h₁ h₂ h₃ h₄ = some n)
    (rest : List Char) :
    quotedUnits ('\\' :: 'u' :: h₁ :: h₂ :: h₃ :: h₄ :: rest) =
      putUnit (.unit n) (quotedUnits rest) := by
  rw [quotedUnits.eq_def]
  simp only [Char.reduceEq, ↓reduceIte, h]

theorem quotedUnits_plain {c : Char} (hq : c ≠ '"') (hs : c ≠ '\\') (hc : ¬ c.toNat < 0x20)
    (rest : List Char) : quotedUnits (c :: rest) = putUnit (.char c) (quotedUnits rest) := by
  rw [quotedUnits.eq_def]
  simp only [if_neg hq, if_neg hs, if_neg hc]

/-- A character is written with a short escape, with a `\u` escape or as it is. -/
theorem escapeChar_cases (c : Char) :
    (∃ e, escapeChar c = ['\\', e] ∧ e ≠ 'u' ∧ shortEscape? e = some c ∧ unitOf c = .char c) ∨
      (c.toNat < 0x20 ∧ unitOf c = .unit c.toNat ∧
        escapeChar c = ['\\', 'u', '0', '0', hexChar (c.toNat / 16), hexChar (c.toNat % 16)]) ∨
      (escapeChar c = [c] ∧ c ≠ '"' ∧ c ≠ '\\' ∧ ¬ c.toNat < 0x20 ∧ unitOf c = .char c) := by
  by_cases hshort : c ∈ ['"', '\\', '\x08', '\t', '\n', '\x0c', '\r']
  · left
    simp only [List.mem_cons, List.not_mem_nil, or_false] at hshort
    rcases hshort with rfl | rfl | rfl | rfl | rfl | rfl | rfl <;>
      exact ⟨_, rfl, by decide, rfl, rfl⟩
  right
  simp only [List.mem_cons, List.not_mem_nil, or_false, not_or] at hshort
  obtain ⟨hquote, hslash, hb, ht, hn, hf, hr⟩ := hshort
  by_cases hlow : c.toNat < 0x20
  · have hunit : unitOf c = .unit c.toNat :=
      if_neg (by simp [hquote, hslash, Nat.not_le.2 hlow, hb, ht, hn, hf, hr])
    refine Or.inl ⟨hlow, hunit, ?_⟩
    simp only [escapeChar, hquote, hslash, hlow, hb, ht, hn, hf, hr, ↓reduceIte]
  · have hunit : unitOf c = .char c := if_pos (by simp [Nat.not_lt.1 hlow])
    refine Or.inr ⟨?_, hquote, hslash, hlow, hunit⟩
    simp only [escapeChar, hquote, hslash, hlow, ↓reduceIte]

theorem quotedUnits_escapeChar (c : Char) (rest : List Char) :
    quotedUnits (escapeChar c ++ rest) = putUnit (unitOf c) (quotedUnits rest) := by
  rcases escapeChar_cases c with ⟨e, hc, hu, hshort, hunit⟩ | ⟨hlow, hunit, hc⟩ |
    ⟨hc, hquote, hslash, hlow, hunit⟩
  · rw [hc, hunit]
    exact quotedUnits_short hu hshort rest
  · rw [hc, hunit]
    exact quotedUnits_hex (hexUnit?_control c.toNat hlow) rest
  · rw [hc, hunit]
    exact quotedUnits_plain hquote hslash hlow rest

/-- The units of escaped characters are put together to the characters. -/
theorem joinUnits_unitOf (cs : List Char) : joinUnits (cs.map unitOf) = .ok cs := by
  induction cs with
  | nil => rfl
  | cons c cs ih =>
    rw [List.map_cons, unitOf]
    split
    · rw [joinUnits, ih]
      rfl
    · rename_i h
      simp only [not_or, Nat.not_le] at h
      have hlow : c.toNat < 0x20 := h.2.2.1
      rw [joinUnits.eq_def]
      simp only [if_neg (show ¬ (0xDC00 ≤ c.toNat ∧ c.toNat ≤ 0xDFFF) by omega),
        if_neg (show ¬ (0xD800 ≤ c.toNat ∧ c.toNat ≤ 0xDBFF) by omega), ih, Char.ofNat_toNat]
      rfl

theorem quotedUnits_writeChars (cs rest : List Char) :
    quotedUnits (writeChars cs rest) = .ok (cs.map unitOf, rest) := by
  induction cs with
  | nil => exact quotedUnits_quote rest
  | cons c cs ih =>
    rw [writeChars, quotedUnits_escapeChar, ih]
    rfl

/-- **A text is read back.** -/
theorem quoted_writeChars (s : String) (rest : List Char) :
    quoted (writeChars s.toList rest) = .ok (.ok s, rest) := by
  rw [quoted, quotedUnits_writeChars]
  show Except.ok (String.ofList <$> joinUnits (s.toList.map unitOf), rest) = _
  rw [joinUnits_unitOf]
  show Except.ok (Except.ok (String.ofList s.toList), rest) = _
  rw [String.ofList_toList]

end EventRelay.Json
