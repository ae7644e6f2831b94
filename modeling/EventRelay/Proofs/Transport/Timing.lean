import EventRelay.Proofs.Weaving
import EventRelay.Transport.Handle
import Mathlib.Order.Lattice
import Mathlib.Algebra.Order.Group.Nat

/-!
# How long a call takes

A call on a clock that only waiting moves: a wait of some length moves it by that length, and everything
else happens in no time.  Answers from outside are free.  Calls that are held at once start together and
end with the last of them.

Of what a call does on its way, two things are kept as marks: the leaves it asks, with the instant, and
the attempts it enters in books.

* `Dialogue.Takes` — the call, started at one instant, can end at another with this outcome and these
  marks; the marks of calls that are held at once are woven together.
* `Dialogue.takes_bind`, `takes_notes`, `takes_follow` — calls made of calls.
-/

namespace EventRelay

/-- Something that a call does on its way. -/
inductive Mark where
  /-- It asks a leaf, which gives the cue. -/
  | asked (leaf time : Nat) (batch : Batch) (cue : Cue)
  /-- It enters an attempt in a book. -/
  | entered (book : Nat) (attempt : Retry.Attempt)

/-- The attempts entered in a book. -/
def Mark.entries (book : Nat) (marks : List Mark) : List Retry.Attempt :=
  marks.filterMap fun
    | .entered b attempt => if b = book then some attempt else none
    | .asked _ _ _ _ => none

/-- The cues that a leaf gave. -/
def Mark.cues (leaf : Nat) (marks : List Mark) : List Cue :=
  marks.filterMap fun
    | .asked l _ _ cue => if l = leaf then some cue else none
    | .entered _ _ => none

theorem Mark.entries_append (book : Nat) (ms ns : List Mark) :
    entries book (ms ++ ns) = entries book ms ++ entries book ns :=
  List.filterMap_append

theorem Mark.cues_append (leaf : Nat) (ms ns : List Mark) :
    cues leaf (ms ++ ns) = cues leaf ms ++ cues leaf ns :=
  List.filterMap_append

namespace Dialogue

mutual

/-- The call, started at `t`, can end at `t'` with this outcome and these marks. -/
def Takes : Dialogue → Nat → Nat → Outcome → List Mark → Prop
  | .finish outcome, t, t', o, ms => t' = t ∧ o = outcome ∧ ms = []
  | .crash, _, _, _, _ => False
  | .look next, t, t', o, ms => ∃ u, Takes (next u) t t' o ms
  | .clock next, t, t', o, ms => Takes (next t) t t' o ms
  | .note _ next, t, t', o, ms => Takes next t t' o ms
  | .perform leaf batch next, t, t', o, ms => ∃ cue rest,
      ms = .asked leaf t batch cue :: rest ∧ Takes (next cue) t t' o rest
  | .post _ _ next, t, t', o, ms => ∃ reply, Takes (next reply) t t' o ms
  | .change _ next, t, t', o, ms => Takes next t t' o ms
  | .record book attempt next, t, t', o, ms => ∃ rest,
      ms = .entered book attempt :: rest ∧ Takes next t t' o rest
  | .enqueue _ _ next, t, t', o, ms => ∃ result, Takes (next result) t t' o ms
  | .pause span next, t, t', o, ms => Takes next (t + span.onClock) t' o ms
  | .all parts next, t, t', o, ms => ∃ t₁ os mss woven rest,
      TakesAll parts t t₁ os mss ∧ Woven mss woven ∧ ms = woven ++ rest ∧
        Takes (next os) t₁ t' o rest

/-- Several calls, started at `t` and held at once: the last ends at `t'`. -/
def TakesAll : List Dialogue → Nat → Nat → List Outcome → List (List Mark) → Prop
  | [], t, t', os, mss => t' = t ∧ os = [] ∧ mss = []
  | d :: ds, t, t', os, mss => ∃ t₁ o ms t₂ os' mss',
      Takes d t t₁ o ms ∧ TakesAll ds t t₂ os' mss' ∧
        t' = max t₁ t₂ ∧ os = o :: os' ∧ mss = ms :: mss'

end

mutual

/-- A call does not end before it starts. -/
theorem takes_le : (d : Dialogue) → {t t' : Nat} → {o : Outcome} → {ms : List Mark} →
    Takes d t t' o ms → t ≤ t'
  | .finish _, _, _, _, _, h => h.1.ge
  | .crash, _, _, _, _, h => h.elim
  | .look next, _, _, _, _, ⟨u, h⟩ => takes_le (next u) h
  | .clock next, t, _, _, _, h => takes_le (next t) h
  | .note _ next, _, _, _, _, h => takes_le next h
  | .perform _ _ next, _, _, _, _, ⟨cue, _, _, h⟩ => takes_le (next cue) h
  | .post _ _ next, _, _, _, _, ⟨reply, h⟩ => takes_le (next reply) h
  | .change _ next, _, _, _, _, h => takes_le next h
  | .record _ _ next, _, _, _, _, ⟨_, _, h⟩ => takes_le next h
  | .enqueue _ _ next, _, _, _, _, ⟨result, h⟩ => takes_le (next result) h
  | .pause _ next, _, _, _, _, h => Nat.le_trans (Nat.le_add_right _ _) (takes_le next h)
  | .all parts next, _, _, _, _, ⟨_, os, _, _, _, hs, _, _, h⟩ =>
    Nat.le_trans (takesAll_le parts hs) (takes_le (next os) h)

theorem takesAll_le : (ds : List Dialogue) → {t t' : Nat} → {os : List Outcome} →
    {mss : List (List Mark)} → TakesAll ds t t' os mss → t ≤ t'
  | [], _, _, _, _, h => h.1.ge
  | d :: _, _, _, _, _, ⟨_, _, _, _, _, _, h, _, hmax, _, _⟩ =>
    hmax ▸ le_max_of_le_left (takes_le d h)

end

/-! ## Calls made of calls -/

/-- One call after another. -/
theorem takes_bind {k : Outcome → Dialogue} {t' : Nat} {o : Outcome} :
    (d : Dialogue) → {t : Nat} → {ms : List Mark} → Takes (d.bind k) t t' o ms →
      ∃ t₁ o₁ ms₁ ms₂, Takes d t t₁ o₁ ms₁ ∧ Takes (k o₁) t₁ t' o ms₂ ∧ ms = ms₁ ++ ms₂
  | .finish outcome, t, ms, h => ⟨t, outcome, [], ms, ⟨rfl, rfl, rfl⟩, h, rfl⟩
  | .crash, _, _, h => h.elim
  | .look next, _, _, h => by
    obtain ⟨u, h⟩ := h
    obtain ⟨t₁, o₁, ms₁, ms₂, hd, hk, rfl⟩ := takes_bind (next u) h
    exact ⟨t₁, o₁, ms₁, ms₂, ⟨u, hd⟩, hk, rfl⟩
  | .clock next, t, _, h => takes_bind (next t) h
  | .note _ next, _, _, h => takes_bind next h
  | .perform leaf batch next, t, _, h => by
    obtain ⟨cue, _, rfl, h⟩ := h
    obtain ⟨t₁, o₁, ms₁, ms₂, hd, hk, rfl⟩ := takes_bind (next cue) h
    exact ⟨t₁, o₁, .asked leaf t batch cue :: ms₁, ms₂, ⟨cue, ms₁, rfl, hd⟩, hk, rfl⟩
  | .post _ _ next, _, _, h => by
    obtain ⟨reply, h⟩ := h
    obtain ⟨t₁, o₁, ms₁, ms₂, hd, hk, rfl⟩ := takes_bind (next reply) h
    exact ⟨t₁, o₁, ms₁, ms₂, ⟨reply, hd⟩, hk, rfl⟩
  | .change _ next, _, _, h => takes_bind next h
  | .record book attempt next, _, _, h => by
    obtain ⟨_, rfl, h⟩ := h
    obtain ⟨t₁, o₁, ms₁, ms₂, hd, hk, rfl⟩ := takes_bind next h
    exact ⟨t₁, o₁, .entered book attempt :: ms₁, ms₂, ⟨ms₁, rfl, hd⟩, hk, rfl⟩
  | .enqueue _ _ next, _, _, h => by
    obtain ⟨result, h⟩ := h
    obtain ⟨t₁, o₁, ms₁, ms₂, hd, hk, rfl⟩ := takes_bind (next result) h
    exact ⟨t₁, o₁, ms₁, ms₂, ⟨result, hd⟩, hk, rfl⟩
  | .pause _ next, _, _, h => takes_bind next h
  | .all _ next, _, _, h => by
    obtain ⟨s, os, mss, woven, _, hs, hwoven, rfl, h⟩ := h
    obtain ⟨t₁, o₁, ms₁, ms₂, hd, hk, rfl⟩ := takes_bind (next os) h
    exact ⟨t₁, o₁, woven ++ ms₁, ms₂, ⟨s, os, mss, woven, ms₁, hs, hwoven, rfl, hd⟩, hk,
      (List.append_assoc _ _ _).symm⟩

/-- Log lines take no time and leave no marks. -/
theorem takes_notes {lines : List Log.Line} {d : Dialogue} {t t' : Nat} {o : Outcome}
    {ms : List Mark} : Takes (.notes lines d) t t' o ms ↔ Takes d t t' o ms := by
  induction lines with
  | nil => exact Iff.rfl
  | cons line lines ih => exact ih

/-- A scripted leaf takes as long as its cue says, and ends so. -/
theorem takes_follow {cue : Cue} {t t' : Nat} {o : Outcome} {ms : List Mark}
    (h : Takes (.follow cue) t t' o ms) : t' = t + cue.delay ∧ o = cue.outcome ∧ ms = [] := by
  have hend : Takes (if cue.crashes then .crash else .finish cue.outcome) (t + cue.delay) t' o ms :=
    h
  split at hend
  · exact hend.elim
  · exact hend

end Dialogue

end EventRelay
