import EventRelay.Proofs.Json.Limits
import Mathlib.Data.List.Forall2

/-!
# What decoders accept

A decoder of one type accepts one form of text.  A word of 64 bits is read from digits alone, and a
record from an object or from an array: of an object every field has to come once, in any place, and
members of other names are passed over; of an array there is one item for each field, in their order.

* `Literal.Natural`, `asWord_eq_ok` — **a word is read exactly from the digits of a number that fits**.
* `Once` — a key that comes once, with its value.
* `Field.Reads` — a field that reads its own part of the record, and nothing else.
* `WithinRecord`, `RecordFormat` — which trees a record can be read from, and what they say.
* `asRecord_eq_ok` — **a record is read exactly from its format**.
* `asList_eq_ok` — so is a list of what is.
* `lookup_memberContents` — of a key that comes again the last value counts.
-/

namespace EventRelay.Json

/-! ## Texts and integers -/

/-- The digits spell a natural number, without sign, point and exponent. -/
structure Literal.Natural (l : Literal) (n : Nat) : Prop where
  /-- No sign. -/
  unsigned : l.negative = false
  /-- No point. -/
  whole : l.fraction = none
  /-- No exponent. -/
  plain : l.exponent = none
  /-- The number. -/
  number : l.whole.foldl (fun acc d => acc * 10 + d) 0 = n

theorem accumulate_all {ds : List Nat} {acc word : Nat} (hacc : acc < 0x10000000000000000)
    (h : accumulate acc ds = (word, [])) :
    ds.foldl (fun acc d => acc * 10 + d) acc = word ∧ word < 0x10000000000000000 := by
  induction ds generalizing acc with
  | nil =>
    cases h
    exact ⟨rfl, hacc⟩
  | cons d ds ih =>
    rw [accumulate] at h
    split at h
    · rename_i hfits
      exact ih hfits h
    · cases h

theorem signed_ne_natural {negative : Bool} {f : Float} {n : UInt64} :
    signed negative f ≠ .number (.natural n) := by
  unfold signed
  split <;> simp

theorem scaled_ne_natural {negative : Bool} {word : Nat} {point : Int} {n : UInt64} :
    (match scale word point with
      | some f => signed negative f
      | none => .outOfRange) ≠ .number (.natural n) := by
  split
  · exact signed_ne_natural
  · nofun

theorem vast_ne_natural {negative : Bool} {f : Float} {n : UInt64} {c : Prop} [Decidable c] :
    (if c then .outOfRange else signed negative f) ≠ .number (.natural n) := by
  split
  · nofun
  · exact signed_ne_natural

theorem integerValue_eq_natural {negative : Bool} {word : Nat} {n : UInt64}
    (hword : word < 0x10000000000000000) :
    integerValue negative word = .number (.natural n) ↔ negative = false ∧ word = n.toNat := by
  unfold integerValue
  split
  · rename_i hnegative
    refine ⟨fun h => ?_, fun h => absurd (hnegative.symm.trans h.1) nofun⟩
    split at h
    · exact absurd h signed_ne_natural
    · split at h
      · cases h
      · exact absurd h signed_ne_natural
  · rename_i hnegative
    simp only [LiteralValue.number.injEq, Number.natural.injEq, hnegative, true_and]
    constructor
    · rintro rfl
      exact (UInt64.toNat_ofNat_of_lt' hword).symm
    · rintro rfl
      exact UInt64.ofNat_toNat

/-- **A literal is a natural number exactly if it has no sign, no point and no exponent**, and fits 64
bits. -/
theorem value_eq_natural {l : Literal} {n : UInt64} :
    l.value = .number (.natural n) ↔ l.Natural n.toNat := by
  constructor
  · intro h
    obtain ⟨negative, whole, fraction, exponent⟩ := l
    rcases hword : accumulate 0 whole with ⟨word, left⟩
    simp only [Literal.value, hword] at h
    cases exponent with
    | some e =>
      cases hexponent : exponentOf e.2 with
      | none =>
        simp only [hexponent] at h
        exact absurd h vast_ne_natural
      | some k =>
        simp only [hexponent] at h
        exact absurd h scaled_ne_natural
    | none =>
      simp only at h
      split at h
      · rename_i hplain
        obtain ⟨hfraction, hleft⟩ := Bool.and_eq_true_iff.1 hplain
        obtain rfl := Option.isNone_iff_eq_none.1 hfraction
        obtain rfl := List.isEmpty_iff.1 hleft
        obtain ⟨hnumber, hfits⟩ := accumulate_all (by decide) hword
        obtain ⟨hsign, rfl⟩ := (integerValue_eq_natural hfits).1 h
        exact ⟨hsign, rfl, rfl, hnumber⟩
      · exact absurd h scaled_ne_natural
  · rintro ⟨hsign, hfraction, hexponent, hnumber⟩
    obtain ⟨negative, whole, fraction, exponent⟩ := l
    obtain rfl : negative = false := hsign
    obtain rfl : fraction = none := hfraction
    obtain rfl : exponent = none := hexponent
    have hall := accumulate_eq whole 0 (by rw [hnumber]; exact n.toNat_lt)
    simp only [Literal.value, hall]
    exact (integerValue_eq_natural (by rw [hnumber]; exact n.toNat_lt)).2 ⟨rfl, hnumber⟩

namespace Tree

theorem asText_eq_ok {expected : String} {t : Tree} {s : String} :
    t.asText expected = .ok s ↔ t = .str (.ok s) := by
  unfold asText
  split
  · rw [read_eq_ok, Tree.str.injEq]
  · rename_i hother
    exact ⟨fun h => absurd h (refuse_ne_ok _ _ _), fun h => absurd h (hother _)⟩

/-- **A word of 64 bits is read exactly from a natural number that fits it.** -/
theorem asWord_eq_ok {expected : String} {t : Tree} {n : Nat} :
    t.asWord 0x10000000000000000 expected = .ok n ↔
      ∃ l, t = .num l ∧ l.Natural n ∧ n < 0x10000000000000000 := by
  unfold asWord
  split
  · rename_i l
    constructor
    · intro h
      obtain ⟨m, hm, h⟩ := bind_eq_ok h
      have hvalue := literal_read_eq_ok.1 hm
      cases m with
      | natural w =>
        simp only [show w.toNat < 0x10000000000000000 from w.toNat_lt, ↓reduceIte] at h
        cases h
        exact ⟨l, rfl, value_eq_natural.1 hvalue, w.toNat_lt⟩
      | negative k => cases h
      | real x => cases h
    · rintro ⟨_, ⟨⟩, hnatural, hfits⟩
      have hw : (UInt64.ofNat n).toNat = n := UInt64.toNat_ofNat_of_lt' hfits
      have hvalue : l.value = .number (.natural (UInt64.ofNat n)) :=
        value_eq_natural.2 (by rwa [hw])
      rw [bind_ok (literal_read_eq_ok.2 hvalue)]
      simp only [hw, hfits, ↓reduceIte]
  · rename_i hother
    exact ⟨fun h => absurd h (refuse_ne_ok _ _ _), fun ⟨l, h, _⟩ => absurd h (hother l)⟩

/-! ## Keys among members -/

/-- Does the member have this key? -/
def isNamed (name : String) (m : Quoted × Tree) : Bool :=
  m.1.toOption == some name

/-- The key comes once among the members, with this value. -/
def Once (name : String) (t : Tree) (ms : List (Quoted × Tree)) : Prop :=
  ms.filter (isNamed name) = [(.ok name, t)]

/-- The key does not come among the members. -/
def Absent (name : String) (ms : List (Quoted × Tree)) : Prop :=
  ms.filter (isNamed name) = []

section Keys

variable {name key : String} {t u : Tree} {ms : List (Quoted × Tree)}

theorem isNamed_self : isNamed name (.ok name, t) = true := by
  simp [isNamed, Except.toOption]

theorem isNamed_of_ne (h : key ≠ name) : isNamed name (.ok key, t) = false := by
  simpa [isNamed, Except.toOption] using h

theorem filter_isNamed_self :
    ((.ok name, t) :: ms).filter (isNamed name) = (.ok name, t) :: ms.filter (isNamed name) :=
  List.filter_cons_of_pos isNamed_self

theorem filter_isNamed_of_ne (h : key ≠ name) :
    ((.ok key, t) :: ms).filter (isNamed name) = ms.filter (isNamed name) :=
  List.filter_cons_of_neg (by rw [isNamed_of_ne h]; exact Bool.false_ne_true)

theorem once_cons_self : Once name u ((.ok name, t) :: ms) ↔ t = u ∧ Absent name ms := by
  simp [Once, Absent, filter_isNamed_self]

theorem absent_cons_self : ¬ Absent name ((.ok name, t) :: ms) := by
  simp [Absent, filter_isNamed_self]

theorem once_cons_of_ne (h : key ≠ name) : Once name u ((.ok key, t) :: ms) ↔ Once name u ms := by
  rw [Once, Once, filter_isNamed_of_ne h]

theorem absent_cons_of_ne (h : key ≠ name) : Absent name ((.ok key, t) :: ms) ↔ Absent name ms := by
  rw [Absent, Absent, filter_isNamed_of_ne h]

theorem Once.unique (h : Once name t ms) (h' : Once name u ms) : t = u := by
  simpa using h.symm.trans h'

theorem not_once_nil : ¬ Once name t [] := nofun

end Keys

/-! ## Records -/

/-- A member of a record: its key can be read, its value is there, and if the key is one of the fields
the value is within the limits. -/
def WithinMember (room : Nat) (names : List String) (m : Quoted × Tree) : Prop :=
  ∃ key, m.1 = .ok key ∧ m.2.Complete ∧ (key ∈ names → m.2.Within room)

/-- What of a tree has to be within the limits if a record with fields of these names is to be read:
everything but the values of other members. -/
def WithinRecord (room : Nat) (names : List String) : Tree → Prop
  | .obj members stop => 1 < room ∧ (∀ m ∈ members, WithinMember (room - 1) names m) ∧ stop = none
  | t => t.Within room

/-- What is within the limits altogether can be read as a record, as far as they go. -/
theorem Within.record {room : Nat} {t : Tree} (h : t.Within room) (names : List String) :
    t.WithinRecord room names := by
  cases t with
  | obj members stop =>
    obtain ⟨hroom, hmembers, hstop⟩ := h
    refine ⟨hroom, fun m hm => ?_, hstop⟩
    obtain ⟨⟨key, hkey⟩, hvalue⟩ := withinMembers_iff.1 hmembers m hm
    exact ⟨key, hkey, hvalue.complete, fun _ => hvalue⟩
  | _ => exact h

theorem WithinRecord.complete {room : Nat} {names : List String} {t : Tree}
    (h : t.WithinRecord room names) : t.Complete := by
  cases t with
  | obj members stop =>
    obtain ⟨-, hmembers, hstop⟩ := h
    refine ⟨completeMembers_iff.2 fun m hm => ?_, hstop⟩
    obtain ⟨_, -, hvalue, -⟩ := hmembers m hm
    exact hvalue
  | _ => exact Within.complete (show Within room _ from h)

section Records

variable {α : Type} (part : α → String → Tree → Prop)

/-- The record `a` as an object in which every field comes once, or as an array of one item for each
field; `part` says what the value of a field has to be. -/
def RecordFormat (names : List String) (a : α) : Tree → Prop
  | .obj members _ => ∀ name ∈ names, ∃ t, Once name t members ∧ part a name t
  | .arr items _ => List.Forall₂ (part a) names items
  | _ => False

variable {part} in
/-- Two records of one tree have the parts of every field in common. -/
theorem RecordFormat.common {names : List String} {a a' : α} {t : Tree}
    (h : t.RecordFormat part names a) (h' : t.RecordFormat part names a') {name : String}
    (hname : name ∈ names) : ∃ u, part a name u ∧ part a' name u := by
  cases t with
  | obj members stop =>
    obtain ⟨u, honce, hpart⟩ := h name hname
    obtain ⟨u', honce', hpart'⟩ := h' name hname
    exact ⟨u, hpart, honce.unique honce' ▸ hpart'⟩
  | arr items stop =>
    change List.Forall₂ _ _ _ at h h'
    induction h with
    | nil => cases hname
    | cons hpart hparts ih =>
      cases h' with
      | cons hpart' hparts' =>
        rcases List.mem_cons.1 hname with rfl | hname
        · exact ⟨_, hpart, hpart'⟩
        · exact ih hname hparts'
  | _ => exact h.elim

/-- A field reads its own part of the record, and leaves the others. -/
structure Field.Reads (room : Nat) (f : Field α) : Prop where
  /-- What is read is within the limits, and says what the record then holds. -/
  sound : ∀ {t acc acc'}, f.read room t acc = .ok acc' → t.Within room ∧ part acc' f.name t
  /-- The parts of other fields stay. -/
  others : ∀ {t acc acc'}, f.read room t acc = .ok acc' →
    ∀ {name u}, name ≠ f.name → part acc name u → part acc' name u
  /-- Whatever says what some record holds is read. -/
  total : ∀ {t a}, t.Within room → part a f.name t → ∀ acc, ∃ acc', f.read room t acc = .ok acc'

variable {part} {fields : List (Field α)} {room : Nat}

/-- A field that is set to what a decoder reads. -/
theorem Field.reads_of_set {β : Type} {name : String} (decoder : Nat → Tree → Read β)
    (set : α → β → α)
    (hsound : ∀ {t x}, decoder room t = .ok x → t.Within room ∧ ∀ acc, part (set acc x) name t)
    (hothers : ∀ {acc name' u} x, name' ≠ name → part acc name' u → part (set acc x) name' u)
    (htotal : ∀ {t a}, t.Within room → part a name t → ∃ x, decoder room t = .ok x) :
    Field.Reads part room ⟨name, fun room t acc => do return set acc (← decoder room t)⟩ where
  sound := by
    intro t acc acc' h
    obtain ⟨x, hx, h⟩ := bind_eq_ok h
    cases h
    exact ⟨(hsound hx).1, (hsound hx).2 acc⟩
  others := by
    intro t acc acc' h name' u hne hpart
    obtain ⟨x, -, h⟩ := bind_eq_ok h
    cases h
    exact hothers x hne hpart
  total := by
    intro t a hwithin hpart acc
    obtain ⟨x, hx⟩ := htotal hwithin hpart
    exact ⟨set acc x, bind_ok hx _⟩

theorem not_known {k : String} (h : fields.find? (·.name = k) = none) : ∀ f ∈ fields, f.name ≠ k :=
  fun f hf => by simpa using List.find?_eq_none.1 h f hf

theorem known {k : String} {f : Field α} (h : fields.find? (·.name = k) = some f) :
    f ∈ fields ∧ f.name = k :=
  ⟨List.mem_of_find?_eq_some h, by simpa using List.find?_some h⟩

/-- What has been read of the members of an object: every member is within the limits, a field that was
seen before does not come again and keeps its part, and a field that was seen only then came once. -/
structure ReadMembers (part : α → String → Tree → Prop) (fields : List (Field α)) (room : Nat)
    (ms : List (Quoted × Tree)) (seen seen' : List String) (acc acc' : α) : Prop where
  within : ∀ m ∈ ms, WithinMember room (fields.map (·.name)) m
  before : ∀ f ∈ fields, f.name ∈ seen →
    Absent f.name ms ∧ ∀ t, part acc f.name t → part acc' f.name t
  now : ∀ f ∈ fields, f.name ∉ seen → f.name ∈ seen' → ∃ t, Once f.name t ms ∧ part acc' f.name t

theorem recordMembers_sound (hreads : ∀ f ∈ fields, f.Reads part room) {ms : List (Quoted × Tree)}
    {seen seen' : List String} {acc acc' : α}
    (h : recordMembers room fields seen acc ms = .ok (acc', seen')) :
    ReadMembers part fields room ms seen seen' acc acc' := by
  induction ms generalizing seen acc with
  | nil =>
    cases h
    exact ⟨nofun, fun _ _ _ => ⟨rfl, fun _ => id⟩, fun _ _ hnot hin => absurd hin hnot⟩
  | cons m ms ih =>
    obtain ⟨q, t⟩ := m
    obtain ⟨k, hk, hrest⟩ := bind_eq_ok h
    obtain rfl := read_eq_ok.1 hk
    clear h
    split at hrest
    · -- a member of another name
      rename_i hunknown
      have hne := not_known hunknown
      obtain ⟨_, hskip, h⟩ := bind_eq_ok hrest
      obtain ⟨hwithin, hbefore, hnow⟩ := ih h
      refine ⟨List.forall_mem_cons.2 ⟨⟨k, rfl, (skip_eq_ok t).1 hskip, fun hmem => ?_⟩, hwithin⟩,
        fun f hf hseen => ?_, fun f hf hseen hseen' => ?_⟩
      · obtain ⟨f, hf, hname⟩ := List.mem_map.1 hmem
        exact absurd hname (hne f hf)
      · rw [absent_cons_of_ne (hne f hf).symm]
        exact hbefore f hf hseen
      · simp only [once_cons_of_ne (hne f hf).symm]
        exact hnow f hf hseen hseen'
    · rename_i g hfound
      obtain ⟨hg, rfl⟩ := known hfound
      split at hrest
      · cases hrest
      rename_i hfresh
      have hfresh : g.name ∉ seen := by simpa using hfresh
      obtain ⟨acc₁, hread, h⟩ := bind_eq_ok hrest
      obtain ⟨hwithin, hbefore, hnow⟩ := ih h
      obtain ⟨hvalue, hpart⟩ := (hreads g hg).sound hread
      refine ⟨List.forall_mem_cons.2 ⟨⟨g.name, rfl, hvalue.complete, fun _ => hvalue⟩, hwithin⟩,
        fun f hf hseen => ?_, fun f hf hseen hseen' => ?_⟩
      · have hne : f.name ≠ g.name := fun heq => hfresh (heq ▸ hseen)
        rw [absent_cons_of_ne hne.symm]
        obtain ⟨habsent, hkept⟩ := hbefore f hf (List.mem_cons_of_mem _ hseen)
        exact ⟨habsent, fun u hu => hkept u ((hreads g hg).others hread hne hu)⟩
      · by_cases hname : f.name = g.name
        · obtain ⟨habsent, hkept⟩ := hbefore g hg List.mem_cons_self
          rw [hname]
          exact ⟨t, once_cons_self.2 ⟨rfl, habsent⟩, hkept t hpart⟩
        · simp only [once_cons_of_ne (Ne.symm hname)]
          exact hnow f hf (by simp [hname, hseen]) hseen'

theorem recordMembers_total (hreads : ∀ f ∈ fields, f.Reads part room) {a : α}
    {ms : List (Quoted × Tree)} (hwithin : ∀ m ∈ ms, WithinMember room (fields.map (·.name)) m)
    {seen : List String} (hseen : ∀ f ∈ fields, f.name ∈ seen → Absent f.name ms)
    (honce : ∀ f ∈ fields, f.name ∉ seen → ∃ t, Once f.name t ms ∧ part a f.name t) (acc : α) :
    ∃ acc' seen', recordMembers room fields seen acc ms = .ok (acc', seen') ∧
      ∀ f ∈ fields, f.name ∈ seen' := by
  induction ms generalizing seen acc with
  | nil =>
    refine ⟨acc, seen, rfl, fun f hf => ?_⟩
    by_contra hnot
    obtain ⟨t, ht, -⟩ := honce f hf hnot
    exact not_once_nil ht
  | cons m ms ih =>
    obtain ⟨q, t⟩ := m
    obtain ⟨⟨k, hk, hcomplete, hvalue⟩, hmore⟩ := List.forall_mem_cons.1 hwithin
    obtain rfl : q = .ok k := hk
    rw [recordMembers, bind_ok (read_eq_ok.2 rfl)]
    cases hfound : fields.find? (·.name = k) with
    | none =>
      have hne := not_known hfound
      have hskip : t.skip = .ok () := (skip_eq_ok t).2 hcomplete
      simp only [hskip]
      refine ih hmore (fun f hf hin => ?_) (fun f hf hnot => ?_) acc
      · exact (absent_cons_of_ne (hne f hf).symm).1 (hseen f hf hin)
      · obtain ⟨u, hu, hpart⟩ := honce f hf hnot
        exact ⟨u, (once_cons_of_ne (hne f hf).symm).1 hu, hpart⟩
    | some g =>
      obtain ⟨hg, rfl⟩ := known hfound
      have hfresh : g.name ∉ seen := fun hin => absent_cons_self (hseen g hg hin)
      obtain ⟨u, hu, hpart⟩ := honce g hg hfresh
      obtain ⟨rfl, habsent⟩ := once_cons_self.1 hu
      obtain ⟨acc₁, hread⟩ :=
        (hreads g hg).total (hvalue (List.mem_map_of_mem hg)) hpart acc
      have hcontains : seen.contains g.name = false := by simpa using hfresh
      simp only [hcontains, Bool.false_eq_true, ↓reduceIte, hread]
      refine ih hmore (fun f hf hin => ?_) (fun f hf hnot => ?_) acc₁
      · rcases List.mem_cons.1 hin with hname | hin
        · rw [hname]
          exact habsent
        · have hne : f.name ≠ g.name := fun heq => hfresh (heq ▸ hin)
          exact (absent_cons_of_ne hne.symm).1 (hseen f hf hin)
      · obtain ⟨hne, hnot⟩ := not_or.1 (mt List.mem_cons.2 hnot)
        obtain ⟨v, hv, hv'⟩ := honce f hf hnot
        exact ⟨v, (once_cons_of_ne (Ne.symm hne)).1 hv, hv'⟩

/-- What has been read of the items of an array: there was one for each field, within the limits, and
other parts stay. -/
theorem recordItems_sound {fs : List (Field α)} (hreads : ∀ f ∈ fs, f.Reads part room)
    (hnodup : (fs.map (·.name)).Nodup) {ts : List Tree} {acc acc' : α}
    (h : recordItems room acc fs ts = .ok (acc', [], [])) :
    (∀ t ∈ ts, t.Within room) ∧ List.Forall₂ (part acc') (fs.map (·.name)) ts ∧
      ∀ name t, name ∉ fs.map (·.name) → part acc name t → part acc' name t := by
  induction fs generalizing ts acc with
  | nil =>
    cases ts with
    | nil =>
      cases h
      exact ⟨nofun, .nil, fun _ _ _ => id⟩
    | cons t ts => cases h
  | cons f fs ih =>
    cases ts with
    | nil => cases h
    | cons t ts =>
      obtain ⟨acc₁, hread, h⟩ := bind_eq_ok h
      obtain ⟨hf, hfs⟩ := List.forall_mem_cons.1 hreads
      obtain ⟨hfresh, hnodup⟩ := List.nodup_cons.1 hnodup
      obtain ⟨hwithin, hparts, hkept⟩ := ih hfs hnodup h
      obtain ⟨hvalue, hpart⟩ := hf.sound hread
      refine ⟨List.forall_mem_cons.2 ⟨hvalue, hwithin⟩, .cons (hkept _ _ hfresh hpart) hparts,
        fun name u hnot hu => ?_⟩
      obtain ⟨hne, hnot⟩ := not_or.1 (mt List.mem_cons.2 hnot)
      exact hkept _ _ hnot (hf.others hread hne hu)

/-- The fields that are left over are some of the fields. -/
theorem recordItems_left {fs left : List (Field α)} {ts rest : List Tree} {acc acc' : α}
    (h : recordItems room acc fs ts = .ok (acc', left, rest)) : left ⊆ fs := by
  induction fs generalizing ts acc with
  | nil =>
    cases h
    exact List.Subset.refl _
  | cons f fs ih =>
    cases ts with
    | nil =>
      cases h
      exact List.Subset.refl _
    | cons t ts =>
      obtain ⟨acc₁, -, h⟩ := bind_eq_ok h
      exact List.subset_cons_of_subset f (ih h)

theorem recordItems_total {fs : List (Field α)} (hreads : ∀ f ∈ fs, f.Reads part room) {a : α}
    {ts : List Tree}
    (h : List.Forall₂ (part a) (fs.map (·.name)) ts)
    (hwithin : ∀ t ∈ ts, t.Within room) (acc : α) :
    ∃ acc', recordItems room acc fs ts = .ok (acc', [], []) := by
  induction fs generalizing ts acc with
  | nil =>
    cases h
    exact ⟨acc, rfl⟩
  | cons f fs ih =>
    cases h with
    | cons hpart hparts =>
      obtain ⟨hf, hfs⟩ := List.forall_mem_cons.1 hreads
      obtain ⟨ht, hts⟩ := List.forall_mem_cons.1 hwithin
      obtain ⟨acc₁, hread⟩ := hf.total ht hpart acc
      rw [recordItems, bind_ok hread]
      exact ih hfs hparts hts acc₁

section Format

variable (hreads : ∀ room, ∀ f ∈ fields, f.Reads part room) {title : String} {start a : α} {t : Tree}

include hreads

theorem asRecord_sound (hnodup : (fields.map (·.name)).Nodup)
    (h : t.asRecord room title fields start (fields.map (·.name)) = .ok a) :
    t.WithinRecord room (fields.map (·.name)) ∧ t.RecordFormat part (fields.map (·.name)) a := by
  unfold asRecord at h
  split at h
  · obtain ⟨inner, hinner, h⟩ := bind_eq_ok h
    obtain ⟨hroom, rfl⟩ := openBracket_eq_ok_iff.1 hinner
    obtain ⟨⟨acc, seen⟩, hmembers, h⟩ := bind_eq_ok h
    obtain ⟨_, hstop, h⟩ := bind_eq_ok h
    have hread := recordMembers_sound (hreads _) hmembers
    split at h
    · cases h
    rename_i hmissing
    cases h
    refine ⟨⟨hroom, hread.within, closing_eq_ok.1 hstop⟩, fun name hname => ?_⟩
    obtain ⟨f, hf, rfl⟩ := List.mem_map.1 hname
    exact hread.now f hf nofun (by simpa using List.find?_eq_none.1 hmissing f.name hname)
  · obtain ⟨inner, hinner, h⟩ := bind_eq_ok h
    obtain ⟨hroom, rfl⟩ := openBracket_eq_ok_iff.1 hinner
    obtain ⟨⟨acc, left, rest⟩, hitems, h⟩ := bind_eq_ok h
    dsimp only at h
    split at h
    · split at h
      · cases h
        obtain ⟨hwithin, hparts, -⟩ := recordItems_sound (hreads _) hnodup hitems
        exact ⟨⟨hroom, withinItems_iff.2 hwithin, rfl⟩, hparts⟩
      all_goals cases h
    · cases h
    · -- too few items: the first field that is left is missed
      rename_i f _
      obtain ⟨_, -, h⟩ := bind_eq_ok h
      have hf : f ∈ fields := recordItems_left hitems List.mem_cons_self
      rw [if_pos (List.contains_iff_mem.2 (List.mem_map_of_mem hf))] at h
      cases h
  · exact absurd h (refuse_ne_ok _ _ _)

theorem asRecord_total (title : String) (start : α) (hwithin : t.WithinRecord room (fields.map (·.name)))
    (hformat : t.RecordFormat part (fields.map (·.name)) a) :
    ∃ a', t.asRecord room title fields start (fields.map (·.name)) = .ok a' := by
  cases t with
  | obj members stop =>
    obtain ⟨hroom, hmembers, rfl⟩ := hwithin
    have honce : ∀ f ∈ fields, f.name ∉ [] → ∃ t, Once f.name t members ∧ part a f.name t :=
      fun f hf _ => hformat f.name (List.mem_map_of_mem hf)
    obtain ⟨acc, seen, hread, hseen⟩ :=
      recordMembers_total (hreads (room - 1)) hmembers
        (fun _ _ h => absurd h List.not_mem_nil) honce start
    refine ⟨acc, ?_⟩
    have hnone : (fields.map (·.name)).find? (fun f => !seen.contains f) = none := by
      simpa [List.find?_eq_none] using hseen
    rw [asRecord, bind_ok (openBracket_eq_ok_iff.2 ⟨hroom, rfl⟩), bind_ok hread]
    refine (bind_ok (show closing none = .ok () from rfl) _).trans ?_
    simp only [hnone]
    rfl
  | arr items stop =>
    obtain ⟨hroom, hitems, rfl⟩ := hwithin
    obtain ⟨acc, hread⟩ := recordItems_total (hreads (room - 1)) hformat
      (withinItems_iff.1 hitems) start
    refine ⟨acc, ?_⟩
    rw [asRecord, bind_ok (openBracket_eq_ok_iff.2 ⟨hroom, rfl⟩), bind_ok hread]
    rfl
  | _ => exact hformat.elim

/-- **A record is read exactly from its format**, if every field reads its own part of it and the parts
make up the record. -/
theorem asRecord_eq_ok (hnodup : (fields.map (·.name)).Nodup)
    (hdetermined : ∀ a a', (∀ name ∈ fields.map (·.name), ∃ t, part a name t ∧ part a' name t) →
      a = a') :
    t.asRecord room title fields start (fields.map (·.name)) = .ok a ↔
      t.WithinRecord room (fields.map (·.name)) ∧ t.RecordFormat part (fields.map (·.name)) a := by
  refine ⟨asRecord_sound hreads hnodup, fun ⟨hwithin, hformat⟩ => ?_⟩
  obtain ⟨a', hread⟩ := asRecord_total hreads title start hwithin hformat
  obtain ⟨-, hformat'⟩ := asRecord_sound hreads hnodup hread
  rw [hread, hdetermined a' a fun name hname => hformat'.common hformat hname]

end Format

end Records

/-! ## Lists -/

section Lists

variable {α : Type} {means : Tree → α → Prop}

theorem items_eq_ok {decoder : Tree → Read α} {room : Nat}
    (h : ∀ t x, decoder t = .ok x ↔ t.Within room ∧ means t x) {ts : List Tree} {xs : List α} :
    items decoder ts = .ok xs ↔ (∀ t ∈ ts, t.Within room) ∧ List.Forall₂ means ts xs := by
  induction ts generalizing xs with
  | nil =>
    constructor
    · intro hread
      cases hread
      exact ⟨nofun, .nil⟩
    · rintro ⟨-, ⟨⟩⟩
      rfl
  | cons t ts ih =>
    rw [items]
    constructor
    · intro hread
      obtain ⟨x, hx, hread⟩ := bind_eq_ok hread
      obtain ⟨xs, hxs, hread⟩ := bind_eq_ok hread
      cases hread
      obtain ⟨ht, hmeans⟩ := (h t x).1 hx
      obtain ⟨hts, hmore⟩ := ih.1 hxs
      exact ⟨List.forall_mem_cons.2 ⟨ht, hts⟩, .cons hmeans hmore⟩
    · rintro ⟨hwithin, hmeans⟩
      obtain ⟨ht, hts⟩ := List.forall_mem_cons.1 hwithin
      cases hmeans with
      | cons hx hxs => rw [bind_ok ((h t _).2 ⟨ht, hx⟩), bind_ok (ih.2 ⟨hts, hxs⟩)]; rfl

/-- **A list is read exactly from an array**, item by item. -/
theorem asList_eq_ok {decoder : Nat → Tree → Read α}
    (h : ∀ room t x, decoder room t = .ok x ↔ t.Within room ∧ means t x) {room : Nat} {t : Tree}
    {xs : List α} :
    t.asList room decoder = .ok xs ↔
      t.Within room ∧ ∃ ts, t = .arr ts none ∧ List.Forall₂ means ts xs := by
  unfold asList
  split
  · rename_i ts stop
    constructor
    · intro hread
      obtain ⟨inner, hinner, hread⟩ := bind_eq_ok hread
      obtain ⟨ys, hitems, hread⟩ := bind_eq_ok hread
      obtain ⟨_, hstop, hread⟩ := bind_eq_ok hread
      cases hread
      obtain ⟨hroom, rfl⟩ := openBracket_eq_ok_iff.1 hinner
      obtain ⟨hwithin, hmeans⟩ := (items_eq_ok (h _)).1 hitems
      obtain rfl := closing_eq_ok.1 hstop
      exact ⟨⟨hroom, withinItems_iff.2 hwithin, rfl⟩, ts, rfl, hmeans⟩
    · rintro ⟨⟨hroom, hwithin, rfl⟩, _, ⟨⟩, hmeans⟩
      rw [bind_ok (openBracket_eq_ok_iff.2 ⟨hroom, rfl⟩),
        bind_ok ((items_eq_ok (h _)).2 ⟨withinItems_iff.1 hwithin, hmeans⟩)]
      rfl
  · rename_i hother
    refine ⟨fun hread => absurd hread (refuse_ne_ok _ _ _), ?_⟩
    rintro ⟨-, ts, rfl, -⟩
    exact absurd rfl (hother ts none)

end Lists

/-! ## Fields -/

/-- The last value of a key among the members. -/
def lastNamed (name : String) (ms : List (Quoted × Tree)) : Option Tree :=
  (ms.filter (isNamed name)).getLast?.map Prod.snd

section Last

variable {key name : String} {t : Tree} {ms : List (Quoted × Tree)}

theorem lastNamed_cons_self :
    lastNamed name ((.ok name, t) :: ms) = (lastNamed name ms).or (some t) := by
  rw [lastNamed, lastNamed, filter_isNamed_self]
  cases hlast : (ms.filter (isNamed name)).getLast? with
  | none => rw [List.getLast?_eq_none_iff.1 hlast]; rfl
  | some m => rw [List.getLast?_cons, hlast]; rfl

theorem lastNamed_cons_of_ne (h : key ≠ name) :
    lastNamed name ((.ok key, t) :: ms) = lastNamed name ms := by
  rw [lastNamed, lastNamed, filter_isNamed_of_ne h]

end Last

/-- **Of a key that comes again the last value counts**, and of one that does not come what was there. -/
theorem lookup_memberContents {room : Nat} {ms : List (Quoted × Tree)} (h : WithinMembers room ms)
    {acc : List (String × Json)} {key : String} :
    (memberContents acc ms).lookup key = ((lastNamed key ms).map content).or (acc.lookup key) := by
  induction ms generalizing acc with
  | nil => rfl
  | cons m ms ih =>
    obtain ⟨q, t⟩ := m
    obtain ⟨⟨k, rfl⟩, -, hms⟩ := h
    rw [memberContents, ih hms]
    by_cases hk : k = key
    · subst hk
      rw [lastNamed_cons_self]
      show ((lastNamed k ms).map content).or ((insertField k t.content acc).lookup k) = _
      rw [lookup_insertField_self]
      cases lastNamed k ms <;> rfl
    · rw [lastNamed_cons_of_ne hk]
      show ((lastNamed key ms).map content).or ((insertField k t.content acc).lookup key) = _
      rw [lookup_insertField_of_ne (Ne.symm hk)]

theorem memberContents_sorted {ms : List (Quoted × Tree)} {acc : List (String × Json)}
    (h : SortedKeys acc) : SortedKeys (memberContents acc ms) := by
  induction ms generalizing acc with
  | nil => exact h
  | cons m ms ih =>
    obtain ⟨q, t⟩ := m
    rw [memberContents]
    refine ih ?_
    cases q with
    | error f => exact h
    | ok k => exact insertField_sorted h

end Tree

end EventRelay.Json
