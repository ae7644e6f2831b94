import EventRelay.Proofs.Json.Fields
import EventRelay.Proofs.Json.Nesting

/-!
# Records and lists, member by member

A record is filled field by field, from an object or from an array.

* `recordMembers_field` — one more field of an object is read within its depth.
* `asRecord_preserves` — what every field keeps of a record holds of the record that is read.
* `asList_forall` — what holds of everything a decoder reads holds of the items of a list.
* `openBracket_eq_ok`, `asRecord_preserves_at`, `asList_forall_at` — the same, if it depends on the room
  that is left inside a bracket.
-/

namespace EventRelay.Json

/-- Inside a bracket there is room for one less, and for something still. -/
theorem openBracket_eq_ok {room inner : Nat} (h : openBracket room = .ok inner) :
    0 < inner ∧ room = inner + 1 := by
  unfold openBracket at h
  split at h
  · cases h
  · rename_i hroom
    cases h
    omega

namespace Tree

section Records

variable {α : Type} {fields : List (Field α)}

/-- A member that is one of the fields, for the first time. -/
theorem recordMembers_field {room d d' : Nat} {f : Field α} {k : String}
    (hf : fields.find? (·.name = k) = some f) {seen : List String}
    (hk : seen.contains k = false) {acc acc' : α} {t : Tree} {ms : List (Quoted × Tree)}
    {r : α × List String} (hread : f.read room t acc = within d room acc')
    (hrest : recordMembers room fields (k :: seen) acc' ms = within d' room r) :
    recordMembers room fields seen acc ((.ok k, t) :: ms) = within (max d d') room r := by
  rw [recordMembers]
  refine (bind_ok (show Quoted.read (.ok k) = .ok k from rfl) _).trans ?_
  simp only [hf, hk, Bool.false_eq_true, ↓reduceIte, hread]
  exact within_bind hrest

variable {P : α → Prop}

/-- Reading a field into a record keeps `P`. -/
def Field.Keeps (P : α → Prop) (f : Field α) : Prop :=
  ∀ room t acc acc', f.read room t acc = .ok acc' → P acc → P acc'

/-- The same where `room` brackets may be opened. -/
def Field.KeepsAt (room : Nat) (P : α → Prop) (f : Field α) : Prop :=
  ∀ t acc acc', f.read room t acc = .ok acc' → P acc → P acc'

theorem recordMembers_preserves {room : Nat} (hfields : ∀ f ∈ fields, f.KeepsAt room P)
    {ms : List (Quoted × Tree)} {seen seen' : List String} {acc acc' : α}
    (h : recordMembers room fields seen acc ms = .ok (acc', seen')) (hacc : P acc) : P acc' := by
  induction ms generalizing seen acc with
  | nil =>
    cases h
    exact hacc
  | cons m ms ih =>
    obtain ⟨k, -, h⟩ := bind_eq_ok h
    split at h
    · obtain ⟨_, -, h⟩ := bind_eq_ok h
      exact ih h hacc
    · rename_i f hf
      split at h
      · cases h
      · obtain ⟨acc₁, hread, h⟩ := bind_eq_ok h
        exact ih h (hfields f (List.mem_of_find?_eq_some hf) _ _ _ hread hacc)

theorem recordItems_preserves {room : Nat} {fs : List (Field α)}
    (hfields : ∀ f ∈ fs, f.KeepsAt room P) {ts rest : List Tree} {acc acc' : α} {left : List (Field α)}
    (h : recordItems room acc fs ts = .ok (acc', left, rest)) (hacc : P acc) : P acc' := by
  induction fs generalizing ts acc with
  | nil =>
    cases h
    exact hacc
  | cons f fs ih =>
    cases ts with
    | nil =>
      cases h
      exact hacc
    | cons t ts =>
      obtain ⟨acc₁, hread, h⟩ := bind_eq_ok h
      exact ih (fun g hg => hfields g (List.mem_cons_of_mem f hg)) h
        (hfields f List.mem_cons_self _ _ _ hread hacc)

/-- What every field keeps of a record inside its bracket holds of the record that is read. -/
theorem asRecord_preserves_at {room : Nat}
    (hfields : ∀ inner, openBracket room = .ok inner → ∀ f ∈ fields, f.KeepsAt inner P)
    {name : String} {start a : α} {required : List String} {t : Tree}
    (h : t.asRecord room name fields start required = .ok a) (hstart : P start) : P a := by
  unfold asRecord at h
  split at h
  · obtain ⟨inner, hinner, h⟩ := bind_eq_ok h
    obtain ⟨⟨acc, seen⟩, hmembers, h⟩ := bind_eq_ok h
    obtain ⟨_, -, h⟩ := bind_eq_ok h
    have hacc := recordMembers_preserves (hfields inner hinner) hmembers hstart
    split at h
    · cases h
    · cases h
      exact hacc
  · obtain ⟨inner, hinner, h⟩ := bind_eq_ok h
    obtain ⟨⟨acc, left, rest⟩, hitems, h⟩ := bind_eq_ok h
    have hacc := recordItems_preserves (hfields inner hinner) hitems hstart
    dsimp only at h
    split at h
    · split at h
      · cases h
        exact hacc
      all_goals cases h
    · cases h
    · obtain ⟨_, -, h⟩ := bind_eq_ok h
      split at h
      · cases h
      · cases h
        exact hacc
  · exact absurd h (refuse_ne_ok _ _ _)

/-- What every field keeps of a record holds of the record that is read. -/
theorem asRecord_preserves (hfields : ∀ f ∈ fields, f.Keeps P) {room : Nat} {name : String}
    {start a : α} {required : List String} {t : Tree}
    (h : t.asRecord room name fields start required = .ok a) (hstart : P start) : P a :=
  asRecord_preserves_at (fun inner _ f hf => hfields f hf inner) h hstart

end Records

theorem items_forall {α : Type} {P : α → Prop} {decoder : Tree → Read α}
    (h : ∀ t x, decoder t = .ok x → P x) {ts : List Tree} {xs : List α}
    (hread : items decoder ts = .ok xs) : ∀ x ∈ xs, P x := by
  induction ts generalizing xs with
  | nil =>
    cases hread
    exact nofun
  | cons t ts ih =>
    obtain ⟨v, hv, hread⟩ := bind_eq_ok hread
    obtain ⟨vs, hvs, hread⟩ := bind_eq_ok hread
    cases hread
    exact List.forall_mem_cons.2 ⟨h t v hv, ih hvs⟩

/-- What holds of everything a decoder reads inside a bracket holds of the items of a list. -/
theorem asList_forall_at {α : Type} {P : α → Prop} {decoder : Nat → Tree → Read α} {room : Nat}
    (h : ∀ inner, openBracket room = .ok inner → ∀ t x, decoder inner t = .ok x → P x) {t : Tree}
    {xs : List α} (hread : t.asList room decoder = .ok xs) : ∀ x ∈ xs, P x := by
  unfold asList at hread
  split at hread
  · obtain ⟨inner, hinner, hread⟩ := bind_eq_ok hread
    obtain ⟨vs, hitems, hread⟩ := bind_eq_ok hread
    obtain ⟨_, -, hread⟩ := bind_eq_ok hread
    cases hread
    exact items_forall (h inner hinner) hitems
  · exact absurd hread (refuse_ne_ok _ _ _)

/-- What holds of everything a decoder reads holds of the items of a list. -/
theorem asList_forall {α : Type} {P : α → Prop} {decoder : Nat → Tree → Read α}
    (h : ∀ room t x, decoder room t = .ok x → P x) {room : Nat} {t : Tree} {xs : List α}
    (hread : t.asList room decoder = .ok xs) : ∀ x ∈ xs, P x :=
  asList_forall_at (fun inner _ => h inner) hread

end Tree

end EventRelay.Json
