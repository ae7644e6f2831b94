import EventRelay.Run.Await

/-!
# Waiting for an errand

`await` goes on for as long as the errand takes, so what it comes to is that which is reached by one
happening after another.

* `World.Reaches`, `await_eq_some_iff` — **to wait comes to whatever is reached**, and to nothing else.
* `World.Sees`, `talk_eq_some_iff` — the same for a call.
* `World.awaitFor`, `run_eq_of_isSome` — a wait that ends soon can be computed.
-/

namespace EventRelay.Run.World

/-- One happening after another, the wait for the errand comes to this; the `Bool` says that the errand
goes next. -/
inductive Reaches (result : Option Arrival × World) : Bool → World → Errand → Prop
  /-- It is over. -/
  | last {woken : Bool} {w : World} {e : Errand} (h : awaitNext (woken, w, e) = .inr result) :
      Reaches result woken w e
  /-- It goes on, and comes to this later. -/
  | next {woken woken' : Bool} {w w₁ : World} {e e' : Errand}
      (h : awaitNext (woken, w, e) = .inl (woken', w₁, e')) (later : Reaches result woken' w₁ e') :
      Reaches result woken w e

variable {result : Option Arrival × World} {woken : Bool} {w w' : World} {e : Errand}

/-- An errand reaches what it reaches after what happens next. -/
theorem reaches_iff :
    Reaches result woken w e ↔
      (∃ woken' w₁ e', awaitNext (woken, w, e) = .inl (woken', w₁, e') ∧
        Reaches result woken' w₁ e') ∨
      awaitNext (woken, w, e) = .inr result := by
  constructor
  · rintro (h | ⟨h, later⟩)
    · exact Or.inr h
    · exact Or.inl ⟨_, _, _, h, later⟩
  · rintro (⟨woken', w₁, e', h, later⟩ | h)
    · exact .next h later
    · exact .last h

/-- What happens next is the same, and so is what is reached. -/
theorem reaches_congr {woken₁ woken₂ : Bool} {w₁ w₂ : World} {e₁ e₂ : Errand}
    (h : awaitNext (woken₁, w₁, e₁) = awaitNext (woken₂, w₂, e₂)) :
    Reaches result woken₁ w₁ e₁ ↔ Reaches result woken₂ w₂ e₂ := by
  rw [reaches_iff, reaches_iff, h]

theorem Reaches.await (h : Reaches result woken w e) : w.await woken e = some result := by
  induction h with
  | last h => rw [World.await, h]
  | next h _ ih =>
    rw [World.await, h]
    exact ih

theorem reaches_of_await (h : w.await woken e = some result) : Reaches result woken w e := by
  refine await.partial_correctness (fun woken w e result => Reaches result woken w e) ?_
    woken w e result h
  intro await ih woken w e result h
  cases hnext : awaitNext (woken, w, e) with
  | inl s =>
    rw [hnext] at h
    exact .next hnext (ih _ _ _ _ h)
  | inr r =>
    rw [hnext] at h
    cases h
    exact .last hnext

/-- **To wait comes to whatever is reached.** -/
theorem await_eq_some_iff : w.await woken e = some result ↔ Reaches result woken w e :=
  ⟨reaches_of_await, Reaches.await⟩

/-- An errand is seen through, or the wait for it never ends. -/
theorem run_cases (w : World) (e : Errand) :
    Reaches (w.run e) true w e ∨ w.run e = (none, w) := by
  rw [run]
  cases h : w.await true e with
  | none => exact Or.inr rfl
  | some result => exact Or.inl (reaches_of_await h)

theorem Reaches.run (h : Reaches result true w e) : w.run e = result := by
  rw [World.run, h.await, Option.getD_some]

/-! ## Calls -/

/-- Seen through, the call comes to this end. -/
def Sees (w : World) (d : Dialogue) (a : Arrival) (w' : World) : Prop :=
  w.await true (.talk (.ofDialogue d)) = some (some a, w')

variable {d : Dialogue} {a : Arrival}

theorem sees_iff_reaches :
    w.Sees d a w' ↔ Reaches (some a, w') true w (.talk (.ofDialogue d)) :=
  await_eq_some_iff

/-- A call comes to one end only. -/
theorem Sees.unique {a' : Arrival} {w'' : World} (h : w.Sees d a w') (h' : w.Sees d a' w'') :
    a' = a ∧ w'' = w' := by
  have hsame : (some a', w'') = (some a, w') := Option.some.inj (h'.symm.trans h)
  cases hsame
  exact ⟨rfl, rfl⟩

/-- **A call comes to this outcome if it is seen to end with it.** -/
theorem talk_eq_some_iff {o : Outcome} : w.talk d = (some o, w') ↔ w.Sees d (.ended o) w' := by
  rw [talk, run, Sees]
  cases w.await true (.talk (.ofDialogue d)) with
  | none => simp
  | some result =>
    obtain ⟨arrival, w₁⟩ := result
    cases arrival with
    | none => simp
    | some arrival => cases arrival <;> simp

theorem Sees.talk_crashed (h : w.Sees d .crashed w') : w.talk d = (none, w') := by
  rw [talk, run, show w.await true _ = _ from h, Option.getD_some]

/-! ## Waits that end soon -/

/-- Lets so many things happen, and says whether the wait is over by then. -/
def awaitFor : Nat → Bool → World → Errand → Option (Option Arrival × World)
  | 0, _, _, _ => none
  | n + 1, woken, w, e =>
    match awaitNext (woken, w, e) with
    | .inl (woken, w, e) => awaitFor n woken w e
    | .inr result => some result

theorem reaches_of_awaitFor {n : Nat} (h : awaitFor n woken w e = some result) :
    Reaches result woken w e := by
  induction n generalizing woken w e with
  | zero => cases h
  | succ n ih =>
    rw [awaitFor] at h
    split at h
    · rename_i hnext
      exact .next hnext (ih h)
    · rename_i hnext
      cases h
      exact .last hnext

/-- A wait that is over by then comes to this. -/
theorem run_eq_of_isSome (n : Nat) (h : (awaitFor n true w e).isSome = true) :
    w.run e = (awaitFor n true w e).get h :=
  (reaches_of_awaitFor (Option.some_get h).symm).run

end EventRelay.Run.World
