import EventRelay.Proofs.Json.Layout
import Mathlib

/-!
# Which texts are JSON

The grammar of the format, said without the reader: which characters spell which tree.  It asks
nothing of the size of numbers, of surrogate pairs or of the nesting of brackets; these are limits of
the reader.

* `QuoteText`, `NumberText` — the spelling of quoted texts and of numbers.
* `Spells`, `SpellsItems`, `SpellsMembers` — the spelling of values.
* `IsJson` — a whole text: a value with white space around it.
* `layValue_of_spells` — **what the grammar spells is laid out as its tree**.
* `laid_to_end` — **what is laid out to its end is spelt by the grammar**.
* `isJson_iff` — so a text is JSON exactly if it is laid out to its end, and nothing follows.
-/

namespace EventRelay.Json

/-! ## The grammar -/

/-- White space only. -/
def IsBlank (cs : List Char) : Prop :=
  ∀ c ∈ cs, isSpace c = true

/-- Characters between two quotes, with the units they stand for. -/
inductive QuoteText : List Char → List Unit16 → Prop
  /-- Nothing. -/
  | nil : QuoteText [] []
  /-- A character as it is. -/
  | plain {c : Char} {cs : List Char} {us : List Unit16} (hquote : c ≠ '"') (hslash : c ≠ '\\')
      (hcontrol : ¬ c.toNat < 0x20) (h : QuoteText cs us) : QuoteText (c :: cs) (.char c :: us)
  /-- A short escape. -/
  | short {e c : Char} {cs : List Char} {us : List Unit16} (he : shortEscape? e = some c)
      (h : QuoteText cs us) : QuoteText ('\\' :: e :: cs) (.char c :: us)
  /-- Four hexadecimal digits. -/
  | hex {h₁ h₂ h₃ h₄ : Char} {n : Nat} {cs : List Char} {us : List Unit16}
      (hn : hexUnit? h₁ h₂ h₃ h₄ = some n) (h : QuoteText cs us) :
      QuoteText ('\\' :: 'u' :: h₁ :: h₂ :: h₃ :: h₄ :: cs) (.unit n :: us)

/-- Decimal digits, at least one, with their values. -/
inductive DigitText : List Char → List Nat → Prop
  /-- These digits. -/
  | mk {cs : List Char} (hne : cs ≠ []) (hdigits : ∀ c ∈ cs, c.isDigit = true) :
      DigitText cs (cs.map digitValue)

/-- A fraction, or none. -/
inductive FractionText : List Char → Option (List Nat) → Prop
  /-- None. -/
  | none : FractionText [] none
  /-- A point and digits. -/
  | point {cs : List Char} {ds : List Nat} (h : DigitText cs ds) : FractionText ('.' :: cs) (some ds)

/-- An exponent, or none. -/
inductive ExponentText : List Char → Option (Bool × List Nat) → Prop
  /-- None. -/
  | none : ExponentText [] none
  /-- A mark and digits. -/
  | plain {m : Char} {cs : List Char} {ds : List Nat} (hm : m = 'e' ∨ m = 'E') (h : DigitText cs ds) :
      ExponentText (m :: cs) (some (false, ds))
  /-- A mark, a plus sign and digits. -/
  | plus {m : Char} {cs : List Char} {ds : List Nat} (hm : m = 'e' ∨ m = 'E') (h : DigitText cs ds) :
      ExponentText (m :: '+' :: cs) (some (false, ds))
  /-- A mark, a minus sign and digits. -/
  | minus {m : Char} {cs : List Char} {ds : List Nat} (hm : m = 'e' ∨ m = 'E') (h : DigitText cs ds) :
      ExponentText (m :: '-' :: cs) (some (true, ds))

/-- A number without its sign: no zero stands in front of another digit. -/
inductive MagnitudeText (negative : Bool) : List Char → Literal → Prop
  /-- Of three parts. -/
  | mk {w f e : List Char} {whole : List Nat} {fraction : Option (List Nat)}
      {exponent : Option (Bool × List Nat)} (hw : DigitText w whole) (hzero : IsWhole whole)
      (hf : FractionText f fraction) (he : ExponentText e exponent) :
      MagnitudeText negative (w ++ (f ++ e)) ⟨negative, whole, fraction, exponent⟩

/-- A number. -/
inductive NumberText : List Char → Literal → Prop
  /-- Without a sign. -/
  | positive {cs : List Char} {l : Literal} (h : MagnitudeText false cs l) : NumberText cs l
  /-- With a minus sign. -/
  | negative {cs : List Char} {l : Literal} (h : MagnitudeText true cs l) : NumberText ('-' :: cs) l

/-- A key of an object, with the colon behind it. -/
inductive KeyText : List Char → Quoted → Prop
  /-- This key. -/
  | mk {cs blank : List Char} {us : List Unit16} (h : QuoteText cs us) (hblank : IsBlank blank) :
      KeyText ('"' :: (cs ++ '"' :: (blank ++ [':']))) (String.ofList <$> joinUnits us)

mutual

/-- The characters spell the value, without white space around it. -/
inductive Spells : List Char → Tree → Prop
  /-- The word for nothing. -/
  | null : Spells ['n', 'u', 'l', 'l'] .null
  /-- The word for truth. -/
  | true : Spells ['t', 'r', 'u', 'e'] (.bool true)
  /-- The word for falsehood. -/
  | false : Spells ['f', 'a', 'l', 's', 'e'] (.bool false)
  /-- A number. -/
  | num {cs : List Char} {l : Literal} (h : NumberText cs l) : Spells cs (.num l)
  /-- A quoted text. -/
  | str {cs : List Char} {us : List Unit16} (h : QuoteText cs us) :
      Spells ('"' :: (cs ++ ['"'])) (.str (String.ofList <$> joinUnits us))
  /-- An array. -/
  | arr {cs : List Char} {ts : List Tree} (h : SpellsItems true cs ts) :
      Spells ('[' :: (cs ++ [']'])) (.arr ts none)
  /-- An object. -/
  | obj {cs : List Char} {ms : List (Quoted × Tree)} (h : SpellsMembers true cs ms) :
      Spells ('{' :: (cs ++ ['}'])) (.obj ms none)

/-- The characters spell the items of an array, from the first one on or after one. -/
inductive SpellsItems : Bool → List Char → List Tree → Prop
  /-- No item is left. -/
  | none {first : Bool} {blank : List Char} (h : IsBlank blank) : SpellsItems first blank []
  /-- The first item. -/
  | first {blank v more : List Char} {t : Tree} {ts : List Tree} (hblank : IsBlank blank)
      (hv : Spells v t) (hmore : SpellsItems false more ts) :
      SpellsItems true (blank ++ (v ++ more)) (t :: ts)
  /-- A further item, behind a comma. -/
  | more {before blank v more : List Char} {t : Tree} {ts : List Tree} (hbefore : IsBlank before)
      (hblank : IsBlank blank) (hv : Spells v t) (hmore : SpellsItems false more ts) :
      SpellsItems false (before ++ ',' :: (blank ++ (v ++ more))) (t :: ts)

/-- The characters spell the members of an object, from the first one on or after one. -/
inductive SpellsMembers : Bool → List Char → List (Quoted × Tree) → Prop
  /-- No member is left. -/
  | none {first : Bool} {blank : List Char} (h : IsBlank blank) : SpellsMembers first blank []
  /-- The first member. -/
  | first {blank k inner v more : List Char} {key : Quoted} {t : Tree} {ms : List (Quoted × Tree)}
      (hblank : IsBlank blank) (hk : KeyText k key) (hinner : IsBlank inner) (hv : Spells v t)
      (hmore : SpellsMembers false more ms) :
      SpellsMembers true (blank ++ (k ++ (inner ++ (v ++ more)))) ((key, t) :: ms)
  /-- A further member, behind a comma. -/
  | more {before blank k inner v more : List Char} {key : Quoted} {t : Tree}
      {ms : List (Quoted × Tree)} (hbefore : IsBlank before) (hblank : IsBlank blank)
      (hk : KeyText k key) (hinner : IsBlank inner) (hv : Spells v t)
      (hmore : SpellsMembers false more ms) :
      SpellsMembers false (before ++ ',' :: (blank ++ (k ++ (inner ++ (v ++ more)))))
        ((key, t) :: ms)

end

/-- The text spells the value, with white space around it. -/
def IsJson (s : String) (t : Tree) : Prop :=
  ∃ blank v after, IsBlank blank ∧ Spells v t ∧ IsBlank after ∧ s.toList = blank ++ (v ++ after)

/-! ## White space -/

theorem skipSpace_blank {blank : List Char} (h : IsBlank blank) (cs : List Char) :
    skipSpace (blank ++ cs) = skipSpace cs :=
  List.dropWhile_append_of_pos h

theorem isBlank_iff {cs : List Char} : IsBlank cs ↔ skipSpace cs = [] :=
  List.dropWhile_eq_nil_iff.symm

/-- White space can be taken off the front. -/
theorem exists_blank (cs : List Char) : ∃ blank, IsBlank blank ∧ cs = blank ++ skipSpace cs :=
  ⟨cs.takeWhile isSpace, fun _ hc => List.mem_takeWhile_imp hc, List.takeWhile_append_dropWhile.symm⟩

/-- White space does not go on with a number, nor does what closes or goes on with a list. -/
theorem delimited_blank {blank rest : List Char} (hblank : IsBlank blank) (hrest : Delimited rest) :
    Delimited (blank ++ rest) := by
  cases blank with
  | nil => exact hrest
  | cons c blank =>
    have hc : isSpace c = true := hblank c List.mem_cons_self
    simp only [isSpace, Bool.or_eq_true, decide_eq_true_eq] at hc
    rcases hc with ((rfl | rfl) | rfl) | rfl <;>
      exact delimited_cons rfl (by decide) (by decide) (by decide) _

/-! ## Quoted texts -/

theorem quotedUnits_of_quoteText {cs : List Char} {us : List Unit16} (h : QuoteText cs us)
    (rest : List Char) : quotedUnits (cs ++ '"' :: rest) = .ok (us, rest) := by
  induction h with
  | nil => exact quotedUnits_quote rest
  | plain hquote hslash hcontrol h ih =>
    rw [List.cons_append, quotedUnits_plain hquote hslash hcontrol, ih]
    rfl
  | short he h ih =>
    have hu : ∀ {e c : Char}, shortEscape? e = some c → e ≠ 'u' := by
      rintro e c he rfl
      cases he
    rw [List.cons_append, List.cons_append, quotedUnits_short (hu he) he, ih]
    rfl
  | hex hn h ih =>
    simp only [List.cons_append]
    rw [quotedUnits_hex hn, ih]
    rfl

theorem quoted_of_quoteText {cs : List Char} {us : List Unit16} (h : QuoteText cs us)
    (rest : List Char) :
    quoted (cs ++ '"' :: rest) = .ok (String.ofList <$> joinUnits us, rest) := by
  rw [quoted, quotedUnits_of_quoteText h]
  rfl

theorem putUnit_eq_ok {u : Unit16} {r : Except Fault (List Unit16 × List Char)}
    {us : List Unit16} {rest : List Char} (h : putUnit u r = .ok (us, rest)) :
    ∃ us', r = .ok (us', rest) ∧ us = u :: us' := by
  obtain ⟨⟨us', rest'⟩, hr, heq⟩ := map_eq_ok h
  cases heq
  exact ⟨us', hr, rfl⟩

theorem quoteText_of_quotedUnits {cs rest : List Char} {us : List Unit16}
    (h : quotedUnits cs = .ok (us, rest)) : ∃ q, QuoteText q us ∧ cs = q ++ '"' :: rest := by
  induction hn : cs.length using Nat.strong_induction_on generalizing cs us with
  | _ n ih =>
    subst hn
    rw [quotedUnits.eq_def] at h
    split at h
    · cases h
    · rename_i c cs
      split at h
      · -- the closing quote
        rename_i hquote
        cases h
        exact ⟨[], .nil, by rw [hquote]; rfl⟩
      · rename_i hquote
        split at h
        · rename_i hslash
          subst hslash
          split at h
          · cases h
          · rename_i e r
            split at h
            · -- a unit by its number
              rename_i hu
              subst hu
              split at h
              · rename_i h₁ h₂ h₃ h₄ r
                split at h
                · cases h
                · rename_i n hn
                  obtain ⟨us', hr, rfl⟩ := putUnit_eq_ok h
                  obtain ⟨q, hq, rfl⟩ := ih r.length (by simp only [List.length_cons]; omega) hr rfl
                  exact ⟨_, .hex hn hq, rfl⟩
              · cases h
            · -- a short escape
              split at h
              · cases h
              · rename_i d hd
                obtain ⟨us', hr, rfl⟩ := putUnit_eq_ok h
                obtain ⟨q, hq, rfl⟩ := ih r.length (by simp only [List.length_cons]; omega) hr rfl
                exact ⟨_, .short hd hq, rfl⟩
        · rename_i hslash
          split at h
          · cases h
          · rename_i hcontrol
            obtain ⟨us', hr, rfl⟩ := putUnit_eq_ok h
            obtain ⟨q, hq, rfl⟩ := ih cs.length (by simp only [List.length_cons]; omega) hr rfl
            exact ⟨_, .plain hquote hslash hcontrol hq, rfl⟩
theorem quoteText_of_quoted {cs rest : List Char} {key : Quoted} (h : quoted cs = .ok (key, rest)) :
    ∃ q us, QuoteText q us ∧ cs = q ++ '"' :: rest ∧ key = String.ofList <$> joinUnits us := by
  obtain ⟨⟨us, r⟩, hus, heq⟩ := bind_eq_ok h
  cases heq
  obtain ⟨q, hq, hcs⟩ := quoteText_of_quotedUnits hus
  exact ⟨q, us, hq, hcs, rfl⟩

/-! ## Numbers -/

theorem digitRun_of_digits {cs more : List Char} (hdigits : ∀ c ∈ cs, c.isDigit = true)
    (hmore : ∀ c ∈ more.head?, c.isDigit = false) :
    digitRun (cs ++ more) = (cs.map digitValue, more) := by
  have htake : (cs ++ more).takeWhile Char.isDigit = cs := by
    rw [List.takeWhile_append_of_pos hdigits]
    cases more with
    | nil => rw [List.takeWhile_nil, List.append_nil]
    | cons c more => rw [List.takeWhile_cons, hmore c rfl]; exact List.append_nil cs
  have hdrop : (cs ++ more).dropWhile Char.isDigit = more := by
    rw [List.dropWhile_append_of_pos hdigits]
    cases more with
    | nil => rfl
    | cons c more => rw [List.dropWhile_cons, hmore c rfl]; rfl
  rw [digitRun, htake, hdrop]

theorem someDigits_of_digitText {cs more : List Char} {ds : List Nat} (h : DigitText cs ds)
    (hmore : ∀ c ∈ more.head?, c.isDigit = false) : someDigits (cs ++ more) = .ok (ds, more) := by
  obtain ⟨hne, hdigits⟩ := h
  exact someDigits_eq_ok.2 ⟨by simpa using hne, digitRun_of_digits hdigits hmore⟩

theorem digitText_of_digitRun {cs rest : List Char} {ds : List Nat} (h : digitRun cs = (ds, rest))
    (hne : ds ≠ []) : ∃ w, DigitText w ds ∧ cs = w ++ rest := by
  obtain ⟨rfl, rfl⟩ := Prod.mk.inj h
  refine ⟨cs.takeWhile Char.isDigit, .mk ?_ fun c hc => List.mem_takeWhile_imp hc,
    List.takeWhile_append_dropWhile.symm⟩
  exact fun hnil => hne (by rw [hnil]; rfl)

theorem fractionPart_of_text {f more : List Char} {fraction : Option (List Nat)}
    (h : FractionText f fraction) (hmore : ∀ c ∈ more.head?, c.isDigit = false ∧ c ≠ '.') :
    fractionPart (f ++ more) = .ok (fraction, more) := by
  cases h with
  | none =>
    cases more with
    | nil => rfl
    | cons c more => exact fractionPart_other (hmore c rfl).2 more
  | point h =>
    rw [List.cons_append, fractionPart_point,
      someDigits_of_digitText h fun c hc => (hmore c hc).1]
    rfl

theorem text_of_fractionPart {cs rest : List Char} {fraction : Option (List Nat)}
    (h : fractionPart cs = .ok (fraction, rest)) :
    ∃ f, FractionText f fraction ∧ cs = f ++ rest := by
  cases cs with
  | nil =>
    cases h
    exact ⟨[], .none, rfl⟩
  | cons c cs =>
    by_cases hc : c = '.'
    · subst hc
      rw [fractionPart_point] at h
      obtain ⟨⟨ds, r⟩, hds, heq⟩ := map_eq_ok h
      cases heq
      obtain ⟨hne, hrun⟩ := someDigits_eq_ok.1 hds
      obtain ⟨w, hw, rfl⟩ := digitText_of_digitRun hrun hne
      exact ⟨'.' :: w, .point hw, rfl⟩
    · rw [fractionPart_other hc] at h
      cases h
      exact ⟨[], .none, rfl⟩

/-- Digits carry no sign. -/
theorem exponentSign_digits {cs more : List Char} {ds : List Nat} (h : DigitText cs ds) :
    exponentSign (cs ++ more) = (false, cs ++ more) := by
  obtain ⟨hne, hdigits⟩ := h
  obtain ⟨c, cs, rfl⟩ := List.exists_cons_of_ne_nil hne
  have hc : c.isDigit = true := hdigits c List.mem_cons_self
  unfold exponentSign
  split
  · rename_i heq
    cases heq
    cases hc
  · rename_i heq
    cases heq
    cases hc
  · rfl

theorem exponentPart_of_text {e more : List Char} {exponent : Option (Bool × List Nat)}
    (h : ExponentText e exponent) (hmore : Delimited more) :
    exponentPart (e ++ more) = .ok (exponent, more) := by
  have hdigit : ∀ c ∈ more.head?, c.isDigit = false := fun c hc => (hmore c hc).1
  cases h with
  | none => exact hmore.exponentPart_eq
  | plain hm h =>
    rw [List.cons_append, exponentPart_mark hm, exponentSign_digits h,
      someDigits_of_digitText h hdigit]
    rfl
  | plus hm h =>
    rw [List.cons_append, exponentPart_mark hm, List.cons_append]
    simp only [exponentSign, someDigits_of_digitText h hdigit]
    rfl
  | minus hm h =>
    rw [List.cons_append, exponentPart_mark hm, List.cons_append]
    simp only [exponentSign, someDigits_of_digitText h hdigit]
    rfl

theorem text_of_exponentPart {cs rest : List Char} {exponent : Option (Bool × List Nat)}
    (h : exponentPart cs = .ok (exponent, rest)) :
    ∃ e, ExponentText e exponent ∧ cs = e ++ rest := by
  cases cs with
  | nil =>
    cases h
    exact ⟨[], .none, rfl⟩
  | cons c cs =>
    by_cases hc : c = 'e' ∨ c = 'E'
    · rw [exponentPart_mark hc] at h
      obtain ⟨⟨ds, r⟩, hds, heq⟩ := map_eq_ok h
      cases heq
      obtain ⟨hne, hrun⟩ := someDigits_eq_ok.1 hds
      obtain ⟨w, hw, hcs⟩ := digitText_of_digitRun hrun hne
      revert hcs
      unfold exponentSign
      split
      · rintro rfl
        exact ⟨c :: '+' :: w, .plus hc hw, rfl⟩
      · rintro rfl
        exact ⟨c :: '-' :: w, .minus hc hw, rfl⟩
      · rintro rfl
        exact ⟨c :: w, .plain hc hw, rfl⟩
    · rw [exponentPart_other hc] at h
      cases h
      exact ⟨[], .none, rfl⟩

/-- An exponent, or what follows a number, does not go on with a fraction. -/
theorem head_exponentText {e more : List Char} {exponent : Option (Bool × List Nat)}
    (h : ExponentText e exponent) (hmore : Delimited more) :
    ∀ c ∈ (e ++ more).head?, c.isDigit = false ∧ c ≠ '.' := by
  have hmark : ∀ m : Char, m = 'e' ∨ m = 'E' → m.isDigit = false ∧ m ≠ '.' := by
    rintro m (rfl | rfl) <;> decide
  intro c hc
  cases h with
  | none => exact ⟨(hmore c hc).1, (hmore c hc).2.1⟩
  | plain hm _ => cases hc; exact hmark _ hm
  | plus hm _ => cases hc; exact hmark _ hm
  | minus hm _ => cases hc; exact hmark _ hm

theorem literal_of_text {negative : Bool} {cs more : List Char} {l : Literal}
    (h : MagnitudeText negative cs l) (hmore : Delimited more) :
    literal negative (cs ++ more) = .ok (l, more) := by
  obtain ⟨⟨hne, hdigits⟩, hzero, hf, he⟩ := h
  rename_i w f e fraction exponent
  have hhead := head_exponentText he hmore
  have hrun : digitRun (w ++ (f ++ (e ++ more))) = (w.map digitValue, f ++ (e ++ more)) := by
    refine digitRun_of_digits hdigits fun c hc => ?_
    cases hf with
    | none => exact (hhead c hc).1
    | point _ => cases hc; rfl
  rw [List.append_assoc, List.append_assoc]
  exact literal_of_parts hrun hzero (fractionPart_of_text hf hhead) (exponentPart_of_text he hmore)

theorem text_of_literal {negative : Bool} {cs rest : List Char} {l : Literal}
    (h : literal negative cs = .ok (l, rest)) :
    ∃ m, MagnitudeText negative m l ∧ cs = m ++ rest := by
  obtain ⟨whole, fraction, exponent, r₁, r₂, hrun, hwhole, hf, he, rfl⟩ := literal_eq_ok h
  obtain ⟨w, hw, rfl⟩ := digitText_of_digitRun hrun hwhole.1
  obtain ⟨f, hfraction, rfl⟩ := text_of_fractionPart hf
  obtain ⟨e, hexponent, rfl⟩ := text_of_exponentPart he
  exact ⟨w ++ (f ++ e), .mk hw hwhole hfraction hexponent, by simp only [List.append_assoc]⟩

/-- A number starts with a digit. -/
theorem MagnitudeText.head {negative : Bool} {cs : List Char} {l : Literal}
    (h : MagnitudeText negative cs l) : ∃ c r, cs = c :: r ∧ c.isDigit = true := by
  obtain ⟨⟨hne, hdigits⟩, -, -, -⟩ := h
  obtain ⟨c, w, rfl⟩ := List.exists_cons_of_ne_nil hne
  exact ⟨c, _, rfl, hdigits c List.mem_cons_self⟩

theorem isSpace_of_isDigit {c : Char} (h : c.isDigit = true) : isSpace c = false := by
  simp [isSpace, ne_of_isDigit h (d := ' ') rfl, ne_of_isDigit h (d := '\n') rfl,
    ne_of_isDigit h (d := '\t') rfl, ne_of_isDigit h (d := '\r') rfl]

theorem layValue_of_numberText {cs more : List Char} {l : Literal} (h : NumberText cs l)
    (hmore : Delimited more) (n : Nat) : layValue (n + 1) (cs ++ more) = (.num l, some more) := by
  cases h with
  | positive h =>
    have hl := literal_of_text h hmore
    obtain ⟨c, r, rfl, hc⟩ := h.head
    exact layValue_digit (skipSpace_cons (isSpace_of_isDigit hc) _) hc hl n
  | negative h =>
    exact layValue_minus (skipSpace_cons rfl _) (literal_of_text h hmore) n

/-! ## What the grammar spells is laid out -/

theorem layValue_blank {blank : List Char} (h : IsBlank blank) (n : Nat) (cs : List Char) :
    layValue n (blank ++ cs) = layValue n cs :=
  layValue_congr (skipSpace_blank h cs) n

/-- A value is spelt by at least one character. -/
theorem Spells.length_pos {v : List Char} {t : Tree} (h : Spells v t) : 0 < v.length := by
  cases h with
  | num h =>
    cases h with
    | positive h =>
      obtain ⟨c, r, rfl, -⟩ := h.head
      exact Nat.succ_pos _
    | negative h => exact Nat.succ_pos _
  | _ => exact Nat.succ_pos _

theorem delimited_items {cs : List Char} {ts : List Tree} (h : SpellsItems false cs ts)
    (rest : List Char) : Delimited (cs ++ ']' :: rest) := by
  cases h with
  | none h => exact delimited_blank h (delimited_cons rfl (by decide) (by decide) (by decide) _)
  | more hbefore _ _ _ =>
    rw [List.append_assoc]
    exact delimited_blank hbefore (delimited_cons rfl (by decide) (by decide) (by decide) _)

theorem delimited_members {cs : List Char} {ms : List (Quoted × Tree)}
    (h : SpellsMembers false cs ms) (rest : List Char) : Delimited (cs ++ '}' :: rest) := by
  cases h with
  | none h => exact delimited_blank h (delimited_cons rfl (by decide) (by decide) (by decide) _)
  | more hbefore _ _ _ _ _ =>
    rw [List.append_assoc]
    exact delimited_blank hbefore (delimited_cons rfl (by decide) (by decide) (by decide) _)

/-- A key is read up to its colon. -/
theorem KeyText.reads {k : List Char} {key : Quoted} (h : KeyText k key) (rest : List Char) :
    ∃ ks more, k ++ rest = '"' :: ks ∧ quoted ks = .ok (key, more) ∧ skipSpace more = ':' :: rest := by
  obtain ⟨h, hblank⟩ := h
  rename_i cs blank us
  refine ⟨cs ++ '"' :: (blank ++ ':' :: rest), blank ++ ':' :: rest, ?_,
    quoted_of_quoteText h _, ?_⟩
  · simp only [List.cons_append, List.append_assoc, List.nil_append]
  · rw [skipSpace_blank hblank, skipSpace_cons rfl]

mutual

/-- **What the grammar spells is laid out as its tree**, whatever follows, if that does not go on with
a number.  As many nested calls are enough as there are characters. -/
theorem layValue_of_spells : ∀ {v : List Char} {t : Tree}, Spells v t → ∀ (n : Nat) (rest : List Char),
    v.length ≤ n → Delimited rest → layValue n (v ++ rest) = (t, some rest)
  | _, _, .null, n + 1, rest, _, _ => rfl
  | _, _, .true, n + 1, rest, _, _ => rfl
  | _, _, .false, n + 1, rest, _, _ => rfl
  | _, _, .num h, n + 1, rest, _, hrest => layValue_of_numberText h hrest n
  | _, _, .str h, n + 1, rest, _, _ => by
    rw [List.cons_append, List.append_assoc, layValue, skipSpace_cons rfl]
    simp only [Char.reduceEq, ↓reduceIte, show Char.isDigit '"' = false from rfl,
      Bool.false_eq_true, List.singleton_append, quoted_of_quoteText h]
    rfl
  | _, _, .arr h, n + 1, rest, hn, _ => by
    rw [List.length_cons, List.length_append] at hn
    rw [List.cons_append, List.append_assoc]
    exact layValue_arr (layItems_of_spells h n rest (Nat.le_of_succ_le_succ hn))
  | _, _, .obj h, n + 1, rest, hn, _ => by
    rw [List.length_cons, List.length_append] at hn
    rw [List.cons_append, List.append_assoc]
    exact layValue_obj (layMembers_of_spells h n rest (Nat.le_of_succ_le_succ hn))
  | _, _, h, 0, _, hn, _ => absurd h.length_pos (Nat.not_lt.2 hn)

theorem layItems_of_spells : ∀ {first : Bool} {cs : List Char} {ts : List Tree},
    SpellsItems first cs ts → ∀ (n : Nat) (rest : List Char), cs.length + 1 ≤ n →
    layItems n first (cs ++ ']' :: rest) = (ts, none, some rest)
  | first, _, _, .none h, n + 1, rest, _ => by
    rw [layItems_congr (skipSpace_blank h _)]
    exact layItems_close n first rest
  | _, _, _, @SpellsItems.first _ _ more _ _ hblank hv hmore, n + 1, rest, hn => by
    have hpos := hv.length_pos
    simp only [List.length_append] at hn
    have hvalue := layValue_of_spells hv n (more ++ ']' :: rest) (by omega) (delimited_items hmore rest)
    have hitems := layItems_of_spells hmore n rest (by omega)
    rw [List.append_assoc, List.append_assoc, layItems_congr (skipSpace_blank hblank _)]
    exact layItems_first hvalue hitems
  | _, _, _, @SpellsItems.more _ _ _ more _ _ hbefore hblank hv hmore, n + 1, rest, hn => by
    have hpos := hv.length_pos
    simp only [List.length_append, List.length_cons] at hn
    have hvalue := layValue_of_spells hv n (more ++ ']' :: rest) (by omega) (delimited_items hmore rest)
    have hitems := layItems_of_spells hmore n rest (by omega)
    rw [← layValue_blank hblank] at hvalue
    rw [List.append_assoc, layItems_congr (skipSpace_blank hbefore _), List.cons_append,
      List.append_assoc, List.append_assoc]
    exact layItems_more hvalue hitems
  | _, _, _, _, 0, _, hn => absurd hn (Nat.not_succ_le_zero _)

theorem layMembers_of_spells : ∀ {first : Bool} {cs : List Char} {ms : List (Quoted × Tree)},
    SpellsMembers first cs ms → ∀ (n : Nat) (rest : List Char), cs.length + 1 ≤ n →
    layMembers n first (cs ++ '}' :: rest) = (ms, none, some rest)
  | first, _, _, .none h, n + 1, rest, _ => by
    rw [layMembers_congr (skipSpace_blank h _)]
    exact layMembers_close n first rest
  | _, _, _, @SpellsMembers.first _ _ _ _ more _ _ _ hblank hk hinner hv hmore, n + 1, rest, hn => by
    have hpos := hv.length_pos
    simp only [List.length_append] at hn
    have hvalue := layValue_of_spells hv n (more ++ '}' :: rest) (by omega) (delimited_members hmore rest)
    have hmembers := layMembers_of_spells hmore n rest (by omega)
    rw [← layValue_blank hinner] at hvalue
    obtain ⟨ks, behind, hks, hkey, hcolon⟩ := hk.reads _
    simp only [List.append_assoc]
    rw [layMembers_congr (skipSpace_blank hblank _), hks]
    exact layMembers_first hkey hcolon hvalue hmembers
  | _, _, _, @SpellsMembers.more _ _ _ _ _ more _ _ _ hbefore hblank hk hinner hv hmore, n + 1, rest,
      hn => by
    have hpos := hv.length_pos
    simp only [List.length_append, List.length_cons] at hn
    have hvalue := layValue_of_spells hv n (more ++ '}' :: rest) (by omega) (delimited_members hmore rest)
    have hmembers := layMembers_of_spells hmore n rest (by omega)
    rw [← layValue_blank hinner] at hvalue
    obtain ⟨ks, behind, hks, hkey, hcolon⟩ := hk.reads _
    simp only [List.append_assoc, List.cons_append]
    rw [layMembers_congr (skipSpace_blank hbefore _), hks]
    refine layMembers_more ?_ hkey hcolon hvalue hmembers
    rw [skipSpace_blank hblank, skipSpace_cons rfl]
  | _, _, _, _, 0, _, hn => absurd hn (Nat.not_succ_le_zero _)

end

/-! ## What is laid out to its end is spelt by the grammar -/

theorem IsBlank.append {a b : List Char} (ha : IsBlank a) (hb : IsBlank b) : IsBlank (a ++ b) :=
  fun c hc => (List.mem_append.1 hc).elim (ha c) (hb c)

theorem stopOr_eq_some {r : Except Fault Laid} {t : Tree} {rest : List Char}
    (h : stopOr r = (t, some rest)) : r = .ok (t, some rest) := by
  cases r with
  | error f => cases h
  | ok laid => exact congrArg Except.ok h

theorem spelled_eq_ok {ws cs rest : List Char} (h : spelled ws cs = .ok rest) : cs = ws ++ rest := by
  induction ws generalizing cs with
  | nil =>
    cases h
    rfl
  | cons w ws ih =>
    cases cs with
    | nil => cases h
    | cons c cs =>
      rw [spelled] at h
      split at h
      · rename_i hwc
        rw [hwc, ih h]
        rfl
      · cases h

/-- What `n` nested calls lay out to its end is spelt by the grammar. -/
structure LaidToEnd (n : Nat) : Prop where
  /-- Values. -/
  value : ∀ {cs t rest}, layValue n cs = (t, some rest) →
    ∃ blank v, IsBlank blank ∧ Spells v t ∧ cs = blank ++ (v ++ rest)
  /-- Items. -/
  items : ∀ {first cs ts stop rest}, layItems n first cs = (ts, stop, some rest) →
    stop = none ∧ ∃ body, SpellsItems first body ts ∧ cs = body ++ ']' :: rest
  /-- Members. -/
  members : ∀ {first cs ms stop rest}, layMembers n first cs = (ms, stop, some rest) →
    stop = none ∧ ∃ body, SpellsMembers first body ms ∧ cs = body ++ '}' :: rest

theorem LaidToEnd.value_succ {n : Nat} (hn : LaidToEnd n) {cs rest : List Char} {t : Tree}
    (h : layValue (n + 1) cs = (t, some rest)) :
    ∃ blank v, IsBlank blank ∧ Spells v t ∧ cs = blank ++ (v ++ rest) := by
  obtain ⟨blank, hblank, hcs⟩ := exists_blank cs
  rw [layValue] at h
  split at h
  · cases h
  rename_i c r hskip
  rw [hskip] at hcs
  -- the blank is the one in front, and what is left is spelt by `v`
  suffices ∃ v, Spells v t ∧ c :: r = v ++ rest by
    obtain ⟨v, hv, hr⟩ := this
    exact ⟨blank, v, hblank, hv, by rw [hcs, hr]⟩
  split at h
  · rename_i hc
    obtain ⟨_, hword, heq⟩ := bind_eq_ok (stopOr_eq_some h)
    cases heq
    exact ⟨_, .null, by rw [hc, spelled_eq_ok hword]; rfl⟩
  split at h
  · rename_i hc
    obtain ⟨_, hword, heq⟩ := bind_eq_ok (stopOr_eq_some h)
    cases heq
    exact ⟨_, .true, by rw [hc, spelled_eq_ok hword]; rfl⟩
  split at h
  · rename_i hc
    obtain ⟨_, hword, heq⟩ := bind_eq_ok (stopOr_eq_some h)
    cases heq
    exact ⟨_, .false, by rw [hc, spelled_eq_ok hword]; rfl⟩
  split at h
  · rename_i hc
    obtain ⟨⟨l, r'⟩, hl, heq⟩ := bind_eq_ok (stopOr_eq_some h)
    cases heq
    obtain ⟨m, hm, rfl⟩ := text_of_literal hl
    exact ⟨_, .num (.negative hm), by rw [hc]; rfl⟩
  split at h
  · obtain ⟨⟨l, r'⟩, hl, heq⟩ := bind_eq_ok (stopOr_eq_some h)
    cases heq
    obtain ⟨m, hm, hr⟩ := text_of_literal hl
    exact ⟨_, .num (.positive hm), hr⟩
  split at h
  · rename_i hc
    obtain ⟨⟨q, r'⟩, hq, heq⟩ := bind_eq_ok (stopOr_eq_some h)
    cases heq
    obtain ⟨w, us, hw, rfl, rfl⟩ := quoteText_of_quoted hq
    exact ⟨_, .str hw, by rw [hc, List.cons_append, List.append_assoc]; rfl⟩
  split at h
  · rename_i hc
    rcases hitems : layItems n true r with ⟨ts, stop, after⟩
    simp only [hitems, Prod.mk.injEq] at h
    obtain ⟨rfl, rfl⟩ := h
    obtain ⟨rfl, body, hbody, rfl⟩ := hn.items hitems
    exact ⟨_, .arr hbody, by rw [hc, List.cons_append, List.append_assoc]; rfl⟩
  split at h
  · rename_i hc
    rcases hmembers : layMembers n true r with ⟨ms, stop, after⟩
    simp only [hmembers, Prod.mk.injEq] at h
    obtain ⟨rfl, rfl⟩ := h
    obtain ⟨rfl, body, hbody, rfl⟩ := hn.members hmembers
    exact ⟨_, .obj hbody, by rw [hc, List.cons_append, List.append_assoc]; rfl⟩
  · cases h

theorem LaidToEnd.items_succ {n : Nat} (hn : LaidToEnd n) {first : Bool} {cs rest : List Char}
    {ts : List Tree} {stop : Option Fault} (h : layItems (n + 1) first cs = (ts, stop, some rest)) :
    stop = none ∧ ∃ body, SpellsItems first body ts ∧ cs = body ++ ']' :: rest := by
  obtain ⟨blank, hblank, hcs⟩ := exists_blank cs
  rw [layItems] at h
  split at h
  · cases h
  rename_i c r hskip
  rw [hskip] at hcs
  split at h
  · rename_i hc
    cases h
    exact ⟨rfl, blank, .none hblank, by rw [hcs, hc]⟩
  split at h
  · cases h
  rename_i hcomma
  split at h
  · cases h
  rename_i d r' hitem
  obtain ⟨gap, hgap, hbehind⟩ := exists_blank (if first then c :: r else r)
  rw [hitem] at hbehind
  split at h
  · cases h
  split at h
  · cases h
  rename_i t after hvalue
  obtain ⟨inner, v, hinner, hv, hd⟩ := hn.value hvalue
  rcases hmore : layItems n false after with ⟨ts', stop', after'⟩
  simp only [hmore, Prod.mk.injEq] at h
  obtain ⟨rfl, rfl, rfl⟩ := h
  obtain ⟨rfl, body, hbody, rfl⟩ := hn.items hmore
  refine ⟨rfl, ?_⟩
  cases first with
  | true =>
    refine ⟨_, .first (hblank.append (hgap.append hinner)) hv hbody, ?_⟩
    rw [hcs, show c :: r = gap ++ d :: r' from hbehind, hd]
    simp only [List.append_assoc]
  | false =>
    have hc : c = ',' := by simpa using hcomma
    refine ⟨_, .more hblank (hgap.append hinner) hv hbody, ?_⟩
    rw [hcs, hc, show r = gap ++ d :: r' from hbehind, hd]
    simp only [List.append_assoc, List.cons_append]

theorem LaidToEnd.members_succ {n : Nat} (hn : LaidToEnd n) {first : Bool} {cs rest : List Char}
    {ms : List (Quoted × Tree)} {stop : Option Fault}
    (h : layMembers (n + 1) first cs = (ms, stop, some rest)) :
    stop = none ∧ ∃ body, SpellsMembers first body ms ∧ cs = body ++ '}' :: rest := by
  obtain ⟨blank, hblank, hcs⟩ := exists_blank cs
  rw [layMembers] at h
  split at h
  · cases h
  rename_i c r hskip
  rw [hskip] at hcs
  split at h
  · rename_i hc
    cases h
    exact ⟨rfl, blank, .none hblank, by rw [hcs, hc]⟩
  split at h
  · cases h
  rename_i hcomma
  split at h
  · cases h
  rename_i d r' hmember
  obtain ⟨gap, hgap, hbehind⟩ := exists_blank (if first then c :: r else r)
  rw [hmember] at hbehind
  split at h
  · cases h
  split at h
  · cases h
  rename_i hquote
  have hd : d = '"' := by simpa using hquote
  split at h
  · cases h
  rename_i key more hkey
  obtain ⟨q, us, hq, rfl, rfl⟩ := quoteText_of_quoted hkey
  split at h
  · cases h
  rename_i e r'' hcolon
  obtain ⟨before, hbefore, hmore⟩ := exists_blank more
  rw [hcolon] at hmore
  split at h
  · cases h
  rename_i hne
  have he : e = ':' := by simpa using hne
  split at h
  · cases h
  rename_i t after hvalue
  obtain ⟨inner, v, hinner, hv, rfl⟩ := hn.value hvalue
  rcases hrest : layMembers n false after with ⟨ms', stop', after'⟩
  simp only [hrest, Prod.mk.injEq] at h
  obtain ⟨rfl, rfl, rfl⟩ := h
  obtain ⟨rfl, body, hbody, rfl⟩ := hn.members hrest
  refine ⟨rfl, ?_⟩
  cases first with
  | true =>
    refine ⟨_, .first (hblank.append hgap) (.mk hq hbefore) hinner hv hbody, ?_⟩
    rw [hcs, show c :: r = gap ++ d :: _ from hbehind, hd, hmore, he]
    simp only [List.append_assoc, List.cons_append, List.nil_append]
  | false =>
    have hc : c = ',' := by simpa using hcomma
    refine ⟨_, .more hblank hgap (.mk hq hbefore) hinner hv hbody, ?_⟩
    rw [hcs, hc, show r = gap ++ d :: _ from hbehind, hd, hmore, he]
    simp only [List.append_assoc, List.cons_append, List.nil_append]

/-- **What is laid out to its end is spelt by the grammar.** -/
theorem laid_to_end (n : Nat) : LaidToEnd n := by
  induction n with
  | zero =>
    refine ⟨fun h => ?_, fun h => ?_, fun h => ?_⟩ <;> cases h
  | succ n ih => exact ⟨ih.value_succ, ih.items_succ, ih.members_succ⟩

/-- **A text is JSON exactly if it is laid out to its end**, and nothing follows. -/
theorem isJson_iff {s : String} {t : Tree} :
    IsJson s t ↔ ∃ rest, layValue (s.toList.length + 1) s.toList = (t, some rest) ∧
      skipSpace rest = [] := by
  constructor
  · rintro ⟨blank, v, after, hblank, hv, hafter, hs⟩
    have hlay : layValue (s.toList.length + 1) (v ++ after) = (t, some after) := by
      refine layValue_of_spells hv _ _ ?_ ?_
      · rw [hs]
        simp only [List.length_append]
        omega
      · have := delimited_blank hafter delimited_nil
        rwa [List.append_nil] at this
    refine ⟨after, ?_, isBlank_iff.1 hafter⟩
    rw [← hlay, hs, layValue_blank hblank]
  · rintro ⟨rest, hlay, hrest⟩
    obtain ⟨blank, v, hblank, hv, hs⟩ := (laid_to_end _).value hlay
    exact ⟨blank, v, rest, hblank, hv, isBlank_iff.2 hrest, hs⟩

/-- **What is written is JSON**, if its numbers read back. -/
theorem isJson_text {v : Json} (h : v.Legible) : IsJson v.text v.tree := by
  have hchars : v.text.toList = v.write [] := String.toList_ofList
  obtain ⟨after, hlay, hafter⟩ :=
    layValue_write v ((v.write []).length + 1) [] h (v.fuel_le [] h).1 delimited_nil
  rw [← hchars] at hlay
  exact isJson_iff.2 ⟨after, hlay, hafter⟩

end EventRelay.Json
