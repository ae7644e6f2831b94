import EventRelay.Proofs.Json.Grammar
import EventRelay.Proofs.Json.Records

/-!
# The limits of the reader

Of a text that is JSON the reader may still refuse a part that it looks at: a quoted text with half of
a surrogate pair, a number beyond the largest float, brackets that nest too deeply.  A part that nobody
looks at only has to be there.

* `Tree.Complete`, `skip_eq_ok` — what is there to its end, and can be passed over.
* `Tree.Within`, `Tree.content` — what is within the limits, and what it says.
* `toJson_eq_ok` — **any value is read exactly if it is within the limits**.
* `decode_eq_ok_iff` — a decoder that only takes complete trees accepts nothing but JSON.
-/

namespace EventRelay.Json

namespace Tree

/-! ## Complete trees -/

mutual

/-- Nothing broken off. -/
def Complete : Tree → Prop
  | .arr items stop => CompleteItems items ∧ stop = none
  | .obj members stop => CompleteMembers members ∧ stop = none
  | .broken _ => False
  | _ => True

/-- The same of items. -/
def CompleteItems : List Tree → Prop
  | [] => True
  | t :: ts => Complete t ∧ CompleteItems ts

/-- The same of the values of members. -/
def CompleteMembers : List (Quoted × Tree) → Prop
  | [] => True
  | (_, t) :: ms => Complete t ∧ CompleteMembers ms

end

theorem closing_eq_ok {stop : Option Fault} {u : Unit} : closing stop = .ok u ↔ stop = none := by
  cases stop with
  | none => exact ⟨fun _ => rfl, fun _ => rfl⟩
  | some f => exact ⟨fun h => (by cases h), fun h => by cases h⟩

mutual

/-- **What nobody looks at is passed over exactly if it is complete.** -/
theorem skip_eq_ok : ∀ (t : Tree) {u : Unit}, t.skip = .ok u ↔ t.Complete
  | .null, _ => ⟨fun _ => trivial, fun _ => rfl⟩
  | .bool _, _ => ⟨fun _ => trivial, fun _ => rfl⟩
  | .num _, _ => ⟨fun _ => trivial, fun _ => rfl⟩
  | .str _, _ => ⟨fun _ => trivial, fun _ => rfl⟩
  | .arr items stop, u => by
    rw [skip, Complete]
    constructor
    · intro h
      obtain ⟨_, hitems, h⟩ := bind_eq_ok h
      exact ⟨(skipItems_eq_ok items).1 hitems, closing_eq_ok.1 h⟩
    · rintro ⟨hitems, hstop⟩
      rw [bind_ok ((skipItems_eq_ok items (u := ())).2 hitems)]
      exact closing_eq_ok.2 hstop
  | .obj members stop, u => by
    rw [skip, Complete]
    constructor
    · intro h
      obtain ⟨_, hmembers, h⟩ := bind_eq_ok h
      exact ⟨(skipMembers_eq_ok members).1 hmembers, closing_eq_ok.1 h⟩
    · rintro ⟨hmembers, hstop⟩
      rw [bind_ok ((skipMembers_eq_ok members (u := ())).2 hmembers)]
      exact closing_eq_ok.2 hstop
  | .broken f, _ => ⟨fun h => (by cases h), fun h => h.elim⟩

theorem skipItems_eq_ok : ∀ (ts : List Tree) {u : Unit}, skipItems ts = .ok u ↔ CompleteItems ts
  | [], _ => ⟨fun _ => trivial, fun _ => rfl⟩
  | t :: ts, u => by
    rw [skipItems, CompleteItems]
    constructor
    · intro h
      obtain ⟨_, ht, h⟩ := bind_eq_ok h
      exact ⟨(skip_eq_ok t).1 ht, (skipItems_eq_ok ts).1 h⟩
    · rintro ⟨ht, hts⟩
      rw [bind_ok ((skip_eq_ok t (u := ())).2 ht)]
      exact (skipItems_eq_ok ts).2 hts

theorem skipMembers_eq_ok : ∀ (ms : List (Quoted × Tree)) {u : Unit},
    skipMembers ms = .ok u ↔ CompleteMembers ms
  | [], _ => ⟨fun _ => trivial, fun _ => rfl⟩
  | (_, t) :: ms, u => by
    rw [skipMembers, CompleteMembers]
    constructor
    · intro h
      obtain ⟨_, ht, h⟩ := bind_eq_ok h
      exact ⟨(skip_eq_ok t).1 ht, (skipMembers_eq_ok ms).1 h⟩
    · rintro ⟨ht, hms⟩
      rw [bind_ok ((skip_eq_ok t (u := ())).2 ht)]
      exact (skipMembers_eq_ok ms).2 hms

end

theorem completeMembers_iff {ms : List (Quoted × Tree)} :
    CompleteMembers ms ↔ ∀ m ∈ ms, m.2.Complete := by
  induction ms with
  | nil => exact ⟨fun _ => nofun, fun _ => trivial⟩
  | cons m ms ih => rw [CompleteMembers, ih, List.forall_mem_cons]

end Tree

mutual

/-- What the grammar spells is complete. -/
theorem Spells.complete : ∀ {v : List Char} {t : Tree}, Spells v t → t.Complete
  | _, _, .null => trivial
  | _, _, .true => trivial
  | _, _, .false => trivial
  | _, _, .num _ => trivial
  | _, _, .str _ => trivial
  | _, _, .arr h => ⟨h.complete, rfl⟩
  | _, _, .obj h => ⟨h.complete, rfl⟩

theorem SpellsItems.complete : ∀ {first : Bool} {cs : List Char} {ts : List Tree},
    SpellsItems first cs ts → Tree.CompleteItems ts
  | _, _, _, .none _ => trivial
  | _, _, _, .first _ hv hmore => ⟨hv.complete, hmore.complete⟩
  | _, _, _, .more _ _ hv hmore => ⟨hv.complete, hmore.complete⟩

theorem SpellsMembers.complete : ∀ {first : Bool} {cs : List Char} {ms : List (Quoted × Tree)},
    SpellsMembers first cs ms → Tree.CompleteMembers ms
  | _, _, _, .none _ => trivial
  | _, _, _, .first _ _ _ hv hmore => ⟨hv.complete, hmore.complete⟩
  | _, _, _, .more _ _ _ _ hv hmore => ⟨hv.complete, hmore.complete⟩

end

/-! ## What breaks off -/

/-- What `n` nested calls do not lay out to its end is not complete. -/
structure BreaksOff (n : Nat) : Prop where
  /-- Values. -/
  value : ∀ {cs t}, layValue n cs = (t, none) → ¬ t.Complete
  /-- Items. -/
  items : ∀ {first cs ts stop}, layItems n first cs = (ts, stop, none) →
    ¬ (Tree.CompleteItems ts ∧ stop = none)
  /-- Members. -/
  members : ∀ {first cs ms stop}, layMembers n first cs = (ms, stop, none) →
    ¬ (Tree.CompleteMembers ms ∧ stop = none)

theorem stopOr_eq_none {r : Except Fault Laid} {t : Tree} (hr : ∀ t, r ≠ .ok (t, none))
    (h : stopOr r = (t, none)) : ¬ t.Complete := by
  cases r with
  | error f =>
    cases h
    exact id
  | ok laid => exact absurd (congrArg Except.ok h) (hr t)

/-- What was read in two steps and is followed by something. -/
theorem bind_ne_none {α : Type} {r : Except Fault α} {f : α → Tree} {g : α → List Char} (t : Tree) :
    (do let a ← r; return (f a, some (g a))) ≠ (.ok (t, none) : Except Fault Laid) := by
  intro h
  obtain ⟨_, -, h⟩ := bind_eq_ok h
  cases h

theorem BreaksOff.value_succ {n : Nat} (hn : BreaksOff n) {cs : List Char} {t : Tree}
    (h : layValue (n + 1) cs = (t, none)) : ¬ t.Complete := by
  rw [layValue] at h
  split at h
  · cases h
    exact id
  rename_i c r _
  split at h
  · exact stopOr_eq_none bind_ne_none h
  split at h
  · exact stopOr_eq_none bind_ne_none h
  split at h
  · exact stopOr_eq_none bind_ne_none h
  split at h
  · exact stopOr_eq_none bind_ne_none h
  split at h
  · exact stopOr_eq_none bind_ne_none h
  split at h
  · exact stopOr_eq_none bind_ne_none h
  split at h
  · rcases hitems : layItems n true r with ⟨ts, stop, after⟩
    simp only [hitems, Prod.mk.injEq] at h
    obtain ⟨rfl, rfl⟩ := h
    exact hn.items hitems
  split at h
  · rcases hmembers : layMembers n true r with ⟨ms, stop, after⟩
    simp only [hmembers, Prod.mk.injEq] at h
    obtain ⟨rfl, rfl⟩ := h
    exact hn.members hmembers
  · cases h
    exact id

theorem BreaksOff.items_succ {n : Nat} (hn : BreaksOff n) {first : Bool} {cs : List Char}
    {ts : List Tree} {stop : Option Fault} (h : layItems (n + 1) first cs = (ts, stop, none)) :
    ¬ (Tree.CompleteItems ts ∧ stop = none) := by
  have hstop : ∀ f : Fault, ¬ (Tree.CompleteItems [] ∧ some f = none) := fun f h => by cases h.2
  rw [layItems] at h
  split at h
  · cases h
    exact hstop _
  split at h
  · cases h
  split at h
  · cases h
    exact hstop _
  split at h
  · cases h
    exact hstop _
  split at h
  · cases h
    exact hstop _
  split at h
  · rename_i t hvalue
    cases h
    exact fun hcomplete => hn.value hvalue hcomplete.1.1
  · rename_i t after hvalue
    rcases hmore : layItems n false after with ⟨ts', stop', after'⟩
    simp only [hmore, Prod.mk.injEq] at h
    obtain ⟨rfl, rfl, rfl⟩ := h
    exact fun hcomplete => hn.items hmore ⟨hcomplete.1.2, hcomplete.2⟩

theorem BreaksOff.members_succ {n : Nat} (hn : BreaksOff n) {first : Bool} {cs : List Char}
    {ms : List (Quoted × Tree)} {stop : Option Fault}
    (h : layMembers (n + 1) first cs = (ms, stop, none)) :
    ¬ (Tree.CompleteMembers ms ∧ stop = none) := by
  have hstop : ∀ f : Fault, ¬ (Tree.CompleteMembers [] ∧ some f = none) := fun f h => by cases h.2
  rw [layMembers] at h
  split at h
  · cases h
    exact hstop _
  split at h
  · cases h
  split at h
  · cases h
    exact hstop _
  split at h
  · cases h
    exact hstop _
  split at h
  · cases h
    exact hstop _
  split at h
  · cases h
    exact hstop _
  split at h
  · cases h
    exact hstop _
  split at h
  · cases h
    exact fun hcomplete => hcomplete.1.1
  split at h
  · cases h
    exact fun hcomplete => hcomplete.1.1
  split at h
  · rename_i t hvalue
    cases h
    exact fun hcomplete => hn.value hvalue hcomplete.1.1
  · rename_i t after hvalue
    rcases hmore : layMembers n false after with ⟨ms', stop', after'⟩
    simp only [hmore, Prod.mk.injEq] at h
    obtain ⟨rfl, rfl, rfl⟩ := h
    exact fun hcomplete => hn.members hmore ⟨hcomplete.1.2, hcomplete.2⟩

/-- What is not laid out to its end is not complete. -/
theorem breaks_off (n : Nat) : BreaksOff n := by
  induction n with
  | zero =>
    refine ⟨fun h => ?_, fun h => ?_, fun h => ?_⟩
    · cases h
      exact id
    · cases h
      exact fun h => by cases h.2
    · cases h
      exact fun h => by cases h.2
  | succ n ih => exact ⟨ih.value_succ, ih.items_succ, ih.members_succ⟩

/-- **A decoder that only takes complete trees accepts nothing but JSON**, and decodes what the text
spells. -/
theorem decode_eq_ok_iff {α : Type} {decoder : Nat → Tree → Read α}
    (hcomplete : ∀ room t a, decoder room t = .ok a → t.Complete) {s : String} {a : α} :
    decode decoder s = .ok a ↔ ∃ t, IsJson s t ∧ decoder nestingLimit t = .ok a := by
  constructor
  · intro h
    obtain ⟨t, after, hlay, hread, hrest⟩ := decode_eq_ok h
    cases after with
    | none => exact absurd (hcomplete _ _ _ hread) ((breaks_off _).value hlay)
    | some rest => exact ⟨t, isJson_iff.2 ⟨rest, hlay, hrest rest rfl⟩, hread⟩
  · rintro ⟨t, hs, hread⟩
    obtain ⟨rest, hlay, hrest⟩ := isJson_iff.1 hs
    rw [decode_of_layValue decoder hlay hrest, hread]

/-- One text does not spell two trees. -/
theorem IsJson.unique {s : String} {t t' : Tree} (h : IsJson s t) (h' : IsJson s t') : t = t' := by
  obtain ⟨_, hlay, -⟩ := isJson_iff.1 h
  obtain ⟨_, hlay', -⟩ := isJson_iff.1 h'
  exact congrArg Prod.fst (hlay.symm.trans hlay')

/-! ## What is within the limits -/

namespace Tree

mutual

/-- Every quoted text and every number can be read, and fewer than `room` brackets are open at once. -/
def Within (room : Nat) : Tree → Prop
  | .num l => ∃ n, l.value = .number n
  | .str s => ∃ text, s = .ok text
  | .arr items stop => 1 < room ∧ WithinItems (room - 1) items ∧ stop = none
  | .obj members stop => 1 < room ∧ WithinMembers (room - 1) members ∧ stop = none
  | .broken _ => False
  | _ => True

/-- The same of items. -/
def WithinItems (room : Nat) : List Tree → Prop
  | [] => True
  | t :: ts => Within room t ∧ WithinItems room ts

/-- The same of members and their keys. -/
def WithinMembers (room : Nat) : List (Quoted × Tree) → Prop
  | [] => True
  | (k, t) :: ms => (∃ key, k = .ok key) ∧ Within room t ∧ WithinMembers room ms

end

mutual

/-- What a tree within the limits says; of a key that comes again the last value counts. -/
def content : Tree → Json
  | .null => .null
  | .bool b => .bool b
  | .num l =>
    match l.value with
    | .number n => .num n
    | .outOfRange => .null
  | .str s => s.toOption.elim .null .str
  | .arr items _ => .arr (contents items)
  | .obj members _ => .obj (memberContents [] members)
  | .broken _ => .null

/-- What items say. -/
def contents : List Tree → List Json
  | [] => []
  | t :: ts => content t :: contents ts

/-- What members say, added to fields. -/
def memberContents (acc : List (String × Json)) : List (Quoted × Tree) → List (String × Json)
  | [] => acc
  | (k, t) :: ms => memberContents (k.toOption.elim acc fun key => insertField key (content t) acc) ms

end

theorem openBracket_eq_ok_iff {room inner : Nat} :
    openBracket room = .ok inner ↔ 1 < room ∧ inner = room - 1 := by
  unfold openBracket
  split
  · exact ⟨fun h => (by cases h), fun h => by omega⟩
  · exact ⟨fun h => (by cases h; omega), fun h => by rw [h.2]⟩

theorem read_eq_ok {q : Quoted} {s : String} : Quoted.read q = .ok s ↔ q = .ok s := by
  cases q with
  | ok text => exact ⟨fun h => (by cases h; rfl), fun h => by cases h; rfl⟩
  | error f => exact ⟨fun h => (by cases h), fun h => by cases h⟩

theorem literal_read_eq_ok {l : Literal} {n : Number} : l.read = .ok n ↔ l.value = .number n := by
  unfold Literal.read
  cases l.value with
  | number m => exact ⟨fun h => (by cases h; rfl), fun h => by cases h; rfl⟩
  | outOfRange => exact ⟨fun h => (by cases h), fun h => by cases h⟩

mutual

/-- **Any value is read exactly if it is within the limits**, and as what it says. -/
theorem toJson_eq_ok : ∀ (t : Tree) {room : Nat} {v : Json},
    t.toJson room = .ok v ↔ t.Within room ∧ v = t.content
  | .null, _, _ => ⟨fun h => (by cases h; exact ⟨trivial, rfl⟩), fun h => by rw [h.2]; rfl⟩
  | .bool _, _, _ => ⟨fun h => (by cases h; exact ⟨trivial, rfl⟩), fun h => by rw [h.2]; rfl⟩
  | .num l, _, _ => by
    rw [toJson, Within, content]
    constructor
    · intro h
      obtain ⟨n, hn, rfl⟩ := map_eq_ok h
      have hvalue := literal_read_eq_ok.1 hn
      exact ⟨⟨n, hvalue⟩, by rw [hvalue]⟩
    · rintro ⟨⟨n, hn⟩, rfl⟩
      rw [literal_read_eq_ok.2 hn, hn]
      rfl
  | .str s, _, _ => by
    rw [toJson, Within, content]
    constructor
    · intro h
      obtain ⟨text, htext, rfl⟩ := map_eq_ok h
      rw [read_eq_ok.1 htext]
      exact ⟨⟨text, rfl⟩, rfl⟩
    · rintro ⟨⟨text, rfl⟩, rfl⟩
      rfl
  | .arr items stop, room, v => by
    rw [toJson, Within, content]
    constructor
    · intro h
      obtain ⟨inner, hinner, h⟩ := bind_eq_ok h
      obtain ⟨vs, hvs, h⟩ := bind_eq_ok h
      obtain ⟨_, hstop, h⟩ := bind_eq_ok h
      cases h
      obtain ⟨hroom, rfl⟩ := openBracket_eq_ok_iff.1 hinner
      obtain ⟨hitems, rfl⟩ := (itemsToJson_eq_ok items).1 hvs
      exact ⟨⟨hroom, hitems, closing_eq_ok.1 hstop⟩, rfl⟩
    · rintro ⟨⟨hroom, hitems, rfl⟩, rfl⟩
      rw [bind_ok (openBracket_eq_ok_iff.2 ⟨hroom, rfl⟩),
        bind_ok ((itemsToJson_eq_ok items).2 ⟨hitems, rfl⟩)]
      rfl
  | .obj members stop, room, v => by
    rw [toJson, Within, content]
    constructor
    · intro h
      obtain ⟨inner, hinner, h⟩ := bind_eq_ok h
      obtain ⟨fs, hfs, h⟩ := bind_eq_ok h
      obtain ⟨_, hstop, h⟩ := bind_eq_ok h
      cases h
      obtain ⟨hroom, rfl⟩ := openBracket_eq_ok_iff.1 hinner
      obtain ⟨hmembers, rfl⟩ := (membersToJson_eq_ok members).1 hfs
      exact ⟨⟨hroom, hmembers, closing_eq_ok.1 hstop⟩, rfl⟩
    · rintro ⟨⟨hroom, hmembers, rfl⟩, rfl⟩
      rw [bind_ok (openBracket_eq_ok_iff.2 ⟨hroom, rfl⟩),
        bind_ok ((membersToJson_eq_ok members).2 ⟨hmembers, rfl⟩)]
      rfl
  | .broken f, _, _ => ⟨fun h => (by cases h), fun h => h.1.elim⟩

theorem itemsToJson_eq_ok : ∀ (ts : List Tree) {room : Nat} {vs : List Json},
    itemsToJson room ts = .ok vs ↔ WithinItems room ts ∧ vs = contents ts
  | [], _, _ => ⟨fun h => (by cases h; exact ⟨trivial, rfl⟩), fun h => by rw [h.2]; rfl⟩
  | t :: ts, room, vs => by
    rw [itemsToJson, WithinItems, contents]
    constructor
    · intro h
      obtain ⟨v, hv, h⟩ := bind_eq_ok h
      obtain ⟨vs, hvs, h⟩ := bind_eq_ok h
      cases h
      obtain ⟨ht, rfl⟩ := (toJson_eq_ok t).1 hv
      obtain ⟨hts, rfl⟩ := (itemsToJson_eq_ok ts).1 hvs
      exact ⟨⟨ht, hts⟩, rfl⟩
    · rintro ⟨⟨ht, hts⟩, rfl⟩
      rw [bind_ok ((toJson_eq_ok t).2 ⟨ht, rfl⟩), bind_ok ((itemsToJson_eq_ok ts).2 ⟨hts, rfl⟩)]
      rfl

theorem membersToJson_eq_ok : ∀ (ms : List (Quoted × Tree)) {room : Nat}
    {acc fs : List (String × Json)},
    membersToJson room acc ms = .ok fs ↔ WithinMembers room ms ∧ fs = memberContents acc ms
  | [], _, _, _ => ⟨fun h => (by cases h; exact ⟨trivial, rfl⟩), fun h => by rw [h.2]; rfl⟩
  | (k, t) :: ms, room, acc, fs => by
    rw [membersToJson, WithinMembers, memberContents]
    constructor
    · intro h
      obtain ⟨key, hkey, h⟩ := bind_eq_ok h
      obtain ⟨v, hv, h⟩ := bind_eq_ok h
      obtain ⟨ht, rfl⟩ := (toJson_eq_ok t).1 hv
      obtain ⟨hms, rfl⟩ := (membersToJson_eq_ok ms).1 h
      rw [read_eq_ok.1 hkey]
      exact ⟨⟨⟨key, rfl⟩, ht, hms⟩, rfl⟩
    · rintro ⟨⟨⟨key, rfl⟩, ht, hms⟩, rfl⟩
      rw [bind_ok (read_eq_ok.2 rfl), bind_ok ((toJson_eq_ok t).2 ⟨ht, rfl⟩)]
      exact (membersToJson_eq_ok ms).2 ⟨hms, rfl⟩

end

theorem withinItems_iff {room : Nat} {ts : List Tree} :
    WithinItems room ts ↔ ∀ t ∈ ts, t.Within room := by
  induction ts with
  | nil => exact ⟨fun _ => nofun, fun _ => trivial⟩
  | cons t ts ih => rw [WithinItems, ih, List.forall_mem_cons]

theorem withinMembers_iff {room : Nat} {ms : List (Quoted × Tree)} :
    WithinMembers room ms ↔ ∀ m ∈ ms, (∃ key, m.1 = .ok key) ∧ m.2.Within room := by
  induction ms with
  | nil => exact ⟨fun _ => nofun, fun _ => trivial⟩
  | cons m ms ih => rw [WithinMembers, ih, List.forall_mem_cons, and_assoc]

mutual

/-- What is within the limits is complete. -/
theorem Within.complete : ∀ {t : Tree} {room : Nat}, t.Within room → t.Complete
  | .null, _, _ => trivial
  | .bool _, _, _ => trivial
  | .num _, _, _ => trivial
  | .str _, _, _ => trivial
  | .arr _ _, _, h => ⟨withinItems_complete h.2.1, h.2.2⟩
  | .obj _ _, _, h => ⟨withinMembers_complete h.2.1, h.2.2⟩
  | .broken _, _, h => h.elim

theorem withinItems_complete : ∀ {ts : List Tree} {room : Nat}, WithinItems room ts → CompleteItems ts
  | [], _, _ => trivial
  | _ :: _, _, h => ⟨h.1.complete, withinItems_complete h.2⟩

theorem withinMembers_complete : ∀ {ms : List (Quoted × Tree)} {room : Nat},
    WithinMembers room ms → CompleteMembers ms
  | [], _, _ => trivial
  | (_, _) :: _, _, h => ⟨h.2.1.complete, withinMembers_complete h.2.2⟩

end

end Tree

end EventRelay.Json
