import EventRelay.Proofs.Event.RoundTrip
import EventRelay.Proofs.Json.Members

/-!
# The forms of an event id

An id is 32 hexadecimal digits, read in four forms: bare, in five groups with hyphens between them, and
such groups in braces or behind `urn:uuid:`.

* `Digits`, `Hyphenated`, `Form` — which characters are an id, and of which number.
* `ofBare?_eq_some`, `ofHyphenated?_eq_some` — the two ways to write the digits.
* `ofChars?_eq_some` — **a text is read as an id exactly if it is one of the four forms**.
-/

namespace EventRelay

open Json

namespace EventId

/-- The characters are 32 hexadecimal digits, and their number is the id. -/
structure Digits (cs : List Char) (id : EventId) : Prop where
  /-- There are 32. -/
  length : cs.length = 32
  /-- Each of them is a digit. -/
  number : ∃ ds : List Nat, cs.map hexValue? = ds.map some ∧ ds.foldl (fun acc d => acc * 16 + d) 0 = id.toNat

/-- The characters are five groups of digits with hyphens between them. -/
inductive Hyphenated : List Char → EventId → Prop
  /-- With these groups. -/
  | mk {a b c d e : List Char} {id : EventId} (ha : a.length = 8) (hb : b.length = 4)
      (hc : c.length = 4) (hd : d.length = 4) (he : e.length = 12)
      (h : Digits (a ++ b ++ c ++ d ++ e) id) :
      Hyphenated (a ++ '-' :: (b ++ '-' :: (c ++ '-' :: (d ++ '-' :: e)))) id

/-- The characters are one of the four notations of the id. -/
inductive Form : List Char → EventId → Prop
  /-- Bare digits. -/
  | bare {cs : List Char} {id : EventId} (h : Digits cs id) : Form cs id
  /-- Digits in groups. -/
  | hyphenated {cs : List Char} {id : EventId} (h : Hyphenated cs id) : Form cs id
  /-- In braces. -/
  | braced {cs : List Char} {id : EventId} (h : Hyphenated cs id) : Form ('{' :: (cs ++ ['}'])) id
  /-- As a name, whose first part may be in any case. -/
  | urn {scheme cs : List Char} {id : EventId} (hscheme : scheme.map Char.toLower = "urn:uuid:".toList)
      (h : Hyphenated cs id) : Form (scheme ++ cs) id

theorem hexValue?_lt {c : Char} {d : Nat} (h : hexValue? c = some d) : d < 16 := by
  unfold hexValue? at h
  have hle : ∀ {a b : Char}, a ≤ b → a.toNat ≤ b.toNat := fun h => h
  split at h
  · rename_i hc
    have := hle hc.2
    simp at h this
    omega
  split at h
  · rename_i hc
    have := hle hc.2
    simp at h this
    omega
  split at h
  · rename_i hc
    have := hle hc.2
    simp at h this
    omega
  · cases h

theorem foldlM_hex {cs : List Char} {acc n : Nat} :
    cs.foldlM (fun acc c => (hexValue? c).map (acc * 16 + ·)) acc = some n ↔
      ∃ ds : List Nat, cs.map hexValue? = ds.map some ∧ ds.foldl (fun acc d => acc * 16 + d) acc = n := by
  induction cs generalizing acc with
  | nil =>
    constructor
    · intro h
      exact ⟨[], rfl, Option.some.inj h⟩
    · rintro ⟨ds, hds, h⟩
      obtain rfl : ds = [] := List.map_eq_nil_iff.1 hds.symm
      exact congrArg some h
  | cons c cs ih =>
    rw [List.foldlM_cons]
    cases hc : hexValue? c with
    | none =>
      constructor
      · intro h
        cases h
      · rintro ⟨ds, hds, -⟩
        rw [List.map_cons, hc] at hds
        cases ds <;> cases hds
    | some d =>
      rw [Option.map_some, Option.bind_eq_bind, Option.bind_some, ih]
      constructor
      · rintro ⟨ds, hds, h⟩
        exact ⟨d :: ds, by rw [List.map_cons, List.map_cons, hc, hds], h⟩
      · rintro ⟨ds, hds, h⟩
        rw [List.map_cons, hc] at hds
        cases ds with
        | nil => cases hds
        | cons d' ds =>
          obtain ⟨hd, hrest⟩ := List.cons.inj hds
          cases hd
          exact ⟨ds, hrest, h⟩

theorem foldl_hex_lt {ds : List Nat} (h : ∀ d ∈ ds, d < 16) (acc : Nat) :
    ds.foldl (fun acc d => acc * 16 + d) acc < (acc + 1) * 16 ^ ds.length := by
  induction ds generalizing acc with
  | nil => simp
  | cons d ds ih =>
    obtain ⟨hd, hds⟩ := List.forall_mem_cons.1 h
    calc ds.foldl (fun acc d => acc * 16 + d) (acc * 16 + d)
        < (acc * 16 + d + 1) * 16 ^ ds.length := ih hds _
      _ ≤ ((acc + 1) * 16) * 16 ^ ds.length := Nat.mul_le_mul_right _ (by omega)
      _ = (acc + 1) * 16 ^ (ds.length + 1) := by rw [Nat.mul_assoc, Nat.pow_succ']

/-- **Bare digits are read exactly if there are 32.** -/
theorem ofBare?_eq_some {cs : List Char} {id : EventId} : ofBare? cs = some id ↔ Digits cs id := by
  have hfits : ∀ {ds : List Nat}, cs.length = 32 → cs.map hexValue? = ds.map some →
      ds.foldl (fun acc d => acc * 16 + d) 0 < 0x100000000000000000000000000000000 := by
    intro ds hlen hds
    have hlt : ∀ d ∈ ds, d < 16 := by
      intro d hd
      have hmem : some d ∈ cs.map hexValue? := hds ▸ List.mem_map_of_mem hd
      obtain ⟨c, -, hc⟩ := List.mem_map.1 hmem
      exact hexValue?_lt hc
    have hlength : ds.length = 32 := by
      have := congrArg List.length hds
      rw [List.length_map, List.length_map] at this
      omega
    have := foldl_hex_lt hlt 0
    rwa [hlength] at this
  unfold ofBare? hexNumber?
  constructor
  · intro h
    split at h
    · rename_i hlen
      obtain ⟨n, hn, rfl⟩ := Option.map_eq_some_iff.1 h
      obtain ⟨ds, hds, rfl⟩ := foldlM_hex.1 hn
      exact ⟨hlen, ds, hds, (Nat.mod_eq_of_lt (hfits hlen hds)).symm⟩
    · cases h
  · rintro ⟨hlen, hnumber⟩
    rw [if_pos hlen, foldlM_hex.2 hnumber, Option.map_some, ofNat, toNat, Fin.ofNat_val_eq_self]

/-- **Groups are read exactly if there are five of the right lengths.** -/
theorem ofHyphenated?_eq_some {cs : List Char} {id : EventId} :
    ofHyphenated? cs = some id ↔ Hyphenated cs id := by
  constructor
  · intro h
    unfold ofHyphenated? at h
    split at h
    · rename_i hlen
      split at h
      · rename_i r₁ r₂ r₃ last h₁ h₂ h₃ h₄
        -- every group ends where the next hyphen stands
        have hnext : ∀ {n : Nat} {r : List Char}, cs.drop n = '-' :: r → r = cs.drop (n + 1) := by
          intro n r hdrop
          rw [← List.drop_drop, hdrop, List.drop_one, List.tail_cons]
        have hgroup : ∀ {n k : Nat} {r : List Char}, cs.drop (n + k) = '-' :: r →
            cs.drop n = (cs.drop n).take k ++ '-' :: cs.drop (n + k + 1) := by
          intro n k r hdrop
          rw [← hnext hdrop, ← hdrop, ← List.drop_drop, List.take_append_drop]
        have hcs : cs = cs.take 8 ++ '-' :: ((cs.drop 9).take 4 ++ '-' :: ((cs.drop 14).take 4 ++
            '-' :: ((cs.drop 19).take 4 ++ '-' :: last))) := by
          have e₁ := hgroup (n := 0) (k := 8) h₁
          have e₂ := hgroup (n := 9) (k := 4) h₂
          have e₃ := hgroup (n := 14) (k := 4) h₃
          have e₄ := hgroup (n := 19) (k := 4) h₄
          rw [hnext h₄, ← e₄, ← e₃, ← e₂]
          exact e₁
        have hlast : last.length = 12 := by rw [hnext h₄, List.length_drop, hlen]
        rw [hcs]
        refine .mk ?_ ?_ ?_ ?_ hlast (ofBare?_eq_some.1 h) <;> simp [hlen]
      · cases h
    · cases h
  · rintro ⟨ha, hb, hc, hd, he, h⟩
    rw [ofHyphenated?_groups ha hb hc hd he]
    exact ofBare?_eq_some.2 h

theorem Hyphenated.length {cs : List Char} {id : EventId} (h : Hyphenated cs id) : cs.length = 36 := by
  obtain ⟨ha, hb, hc, hd, he, -⟩ := h
  simp [ha, hb, hc, hd, he]

/-- **A text is read as an id exactly if it is one of the four forms.** -/
theorem ofChars?_eq_some {cs : List Char} {id : EventId} : ofChars? cs = some id ↔ Form cs id := by
  constructor
  · intro h
    unfold ofChars? at h
    split at h
    · exact .bare (ofBare?_eq_some.1 h)
    split at h
    · rename_i hbraces
      obtain ⟨hlen, hopen, hclose⟩ := hbraces
      obtain ⟨inner, hinner⟩ := List.getLast?_eq_some_iff.1 hclose
      cases inner with
      | nil =>
        rw [hinner] at hlen
        cases hlen
      | cons c inner =>
        rw [hinner] at hopen h ⊢
        obtain rfl : c = '{' := Option.some.inj hopen
        rw [List.cons_append, List.drop_one, List.tail_cons, List.dropLast_concat] at h
        exact .braced (ofHyphenated?_eq_some.1 h)
    split at h
    · rename_i hurn
      rw [← List.take_append_drop 9 cs]
      exact .urn hurn.2 (ofHyphenated?_eq_some.1 h)
    · exact .hyphenated (ofHyphenated?_eq_some.1 h)
  · intro h
    cases h with
    | bare h => rw [ofChars?, if_pos h.length, ofBare?_eq_some.2 h]
    | hyphenated h =>
      have hlen := h.length
      rw [ofChars?, if_neg (by omega), if_neg (by omega), if_neg (by omega), ofHyphenated?_eq_some.2 h]
    | @braced inner _ h =>
      have hlen := h.length
      have hlast : ('{' :: (inner ++ ['}'])).getLast? = some '}' :=
        List.getLast?_eq_some_iff.2 ⟨'{' :: inner, rfl⟩
      rw [ofChars?, if_neg (by simp [hlen]), if_pos ⟨by simp [hlen], rfl, hlast⟩, List.drop_one,
        List.tail_cons, List.dropLast_concat, ofHyphenated?_eq_some.2 h]
    | @urn scheme inner _ hscheme h =>
      have hlen := h.length
      have hnine : scheme.length = 9 := by simpa using congrArg List.length hscheme
      rw [ofChars?, if_neg (by simp [hlen, hnine]), if_neg (by simp [hlen, hnine]),
        if_pos ⟨by simp [hlen, hnine], by rw [List.take_left' hnine, hscheme]⟩, List.drop_left' hnine,
        ofHyphenated?_eq_some.2 h]

/-- **An id is read exactly from a quoted text in one of its forms.** -/
theorem ofTree_eq_ok {t : Tree} {id : EventId} :
    ofTree t = .ok id ↔ ∃ s : String, t = .str (.ok s) ∧ Form s.toList id := by
  constructor
  · intro h
    obtain ⟨s, hs, h⟩ := bind_eq_ok h
    have hid : ofChars? s.toList = some id := by
      cases hchars : ofChars? s.toList with
      | none => rw [hchars] at h; cases h
      | some found => rw [hchars] at h; cases h; rfl
    exact ⟨s, Tree.asText_eq_ok.1 hs, ofChars?_eq_some.1 hid⟩
  · rintro ⟨s, rfl, hform⟩
    rw [ofTree, bind_ok (Tree.asText_eq_ok.2 rfl), ofChars?_eq_some.2 hform]
    rfl

end EventId

end EventRelay
