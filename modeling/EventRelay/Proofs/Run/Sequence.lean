import EventRelay.Proofs.Run.Clockwork
import EventRelay.Proofs.Run.Tracking

/-!
# One call after another

Where a call is made of two, the world sees the first through and then, from there, the second: no turn
of anything else comes between them, and the second starts in the turn in which the first has ended.

* `Running.bind`, `andThen` — what is left of a call, with another one behind it.
* `advance_bind`, `resume_bind` — **a turn of both is a turn of the first**, and of the second if the
  first has ended with it.
* `World.sees_bind` — **to see both through is to see one through after the other**.
* `World.arrival_of_approaches` — what only writes and waits comes to its end.
-/

namespace EventRelay.Run

/-! ## A turn of both -/

/-- What is left of a call that waits, with another one behind it. -/
def Running.bind (k : Outcome → Dialogue) : Running → Running
  | .done outcome => .done outcome
  | .crashed => .crashed
  | .asleep alarm next => .asleep alarm (next.bind k)
  | .all parts next => .all parts fun outcomes => (next outcomes).bind k

/-- It is woken by the same alarm. -/
theorem Running.alarm?_bind (k : Outcome → Dialogue) (r : Running) :
    (r.bind k).alarm? = r.alarm? := by
  cases r <;> rfl

/-- A call has come so far in this turn; if that is its end, the call behind it begins. -/
def andThen (k : Outcome → Dialogue) : Running × World → Running × World
  | (.done outcome, w) => advance (k outcome) w
  | (r, w) => (r.bind k, w)

/-- **To run both is to run the first**, and the second if the first has ended. -/
theorem advance_bind (k : Outcome → Dialogue) (d : Dialogue) (w : World) :
    advance (d.bind k) w = andThen k (advance d w) := by
  cases d with
  | finish outcome => rw [Dialogue.bind, advance, andThen]
  | crash =>
    rw [Dialogue.bind, advance]
    rfl
  | look next =>
    rw [Dialogue.bind, advance, advance]
    exact advance_bind k (next w.usability) w
  | clock next =>
    rw [Dialogue.bind, advance, advance]
    exact advance_bind k (next w.now) w
  | note line next =>
    rw [Dialogue.bind, advance, advance]
    exact advance_bind k next (w.note line)
  | perform leaf batch next =>
    rw [Dialogue.bind, advance_perform, advance_perform]
    exact advance_bind k (next (w.perform leaf batch).1) _
  | post endpoint batch next =>
    rw [Dialogue.bind, advance_post, advance_post]
    exact advance_bind k (next (w.post endpoint batch).1) _
  | change changes next =>
    rw [Dialogue.bind, advance, advance]
    exact advance_bind k next (w.change changes)
  | record book attempt next =>
    rw [Dialogue.bind, advance, advance]
    exact advance_bind k next (w.record book attempt)
  | enqueue queue events next =>
    rw [Dialogue.bind, advance, advance]
    exact advance_bind k (next (w.enqueue queue events).1) _
  | pause span next =>
    rw [Dialogue.bind, advance, advance]
    split
    · exact advance_bind k next w
    · rfl
  | all parts next =>
    rw [Dialogue.bind, advance, advance]
    split
    · rfl
    · rename_i w₁ _
      split
      · rename_i outcomes _
        exact advance_bind k (next outcomes) w₁
      · rfl

/-- **The same for a call that goes on.** -/
theorem resume_bind (k : Outcome → Dialogue) {r : Running} (hr : ∀ o, r ≠ .done o) (w : World) :
    resume (r.bind k) w = andThen k (resume r w) := by
  cases r with
  | done o => exact absurd rfl (hr o)
  | crashed => rfl
  | asleep alarm next =>
    rw [Running.bind, resume, resume]
    split
    · exact advance_bind k next w
    · rfl
  | all parts next =>
    rw [Running.bind, resume, resume]
    split
    · rfl
    · split
      · exact advance_bind k _ _
      · rfl

/-- A call that has not begun begins. -/
theorem resume_ofDialogue (d : Dialogue) (w : World) :
    resume (.ofDialogue d) w = advance d w := by
  rw [Running.ofDialogue, resume, if_pos (Nat.zero_le _)]

namespace World

variable {w w' : World} {r : Running} {k : Outcome → Dialogue} {d : Dialogue} {a : Arrival}

/-- While both wait, what happens next is what happens while the first waits: the wait goes on, or the
second begins in the turn in which the first has ended, or both are over. -/
theorem awaitNext_bind (k : Outcome → Dialogue) (hr : ∀ o, r ≠ .done o) (woken : Bool) (w : World) :
    (∃ woken' w₁ r', (∀ o, r' ≠ .done o) ∧
      awaitNext (woken, w, .talk r) = .inl (woken', w₁, .talk r') ∧
      awaitNext (woken, w, .talk (r.bind k)) = .inl (woken', w₁, .talk (r'.bind k))) ∨
    (∃ o w₁, awaitNext (woken, w, .talk r) = .inr (some (.ended o), w₁) ∧
      awaitNext (woken, w, .talk (r.bind k)) = awaitNext (true, w₁, .talk (.ofDialogue (k o)))) ∨
    ∃ a w₁, (∀ o, a ≠ some (.ended o)) ∧ awaitNext (woken, w, .talk r) = .inr (a, w₁) ∧
      awaitNext (woken, w, .talk (r.bind k)) = .inr (a, w₁) := by
  cases woken with
  | true =>
    have hboth := resume_bind k hr w
    simp only [awaitNext, Errand.turn, resume_ofDialogue]
    generalize resume r w = result at hboth
    obtain ⟨r', w₁⟩ := result
    rw [hboth]
    cases r' with
    | done o => exact Or.inr (Or.inl ⟨o, w₁, rfl, rfl⟩)
    | crashed => exact Or.inr (Or.inr ⟨some .crashed, w₁, by simp, rfl, rfl⟩)
    | asleep alarm next => exact Or.inl ⟨false, w₁, .asleep alarm next, by simp, rfl, rfl⟩
    | all parts next => exact Or.inl ⟨false, w₁, .all parts next, by simp, rfl, rfl⟩
  | false =>
    have hmove : ∀ w : World, (Errand.talk (r.bind k)).canMove w = (Errand.talk r).canMove w := by
      intro w
      simp only [Errand.canMove, Errand.alarm?, Running.alarm?_bind]
    have halarm : (Errand.talk (r.bind k)).alarm? = (Errand.talk r).alarm? := r.alarm?_bind k
    simp only [awaitNext, hmove, halarm]
    split
    · exact Or.inl ⟨_, _, r, hr, rfl, rfl⟩
    · split
      · exact Or.inl ⟨_, _, r, hr, rfl, rfl⟩
      · split
        · exact Or.inr (Or.inr ⟨none, _, by simp, rfl, rfl⟩)
        · exact Or.inl ⟨_, _, r, hr, rfl, rfl⟩

/-! ## Seeing calls through -/

/-- When the first call has come to its end in `w₁`, both come to this end: the second is seen through
from there, unless the first has crashed. -/
def Continues (k : Outcome → Dialogue) (w₁ : World) : Arrival → Arrival → World → Prop
  | .ended o, a, w' => w₁.Sees (k o) a w'
  | a₁, a, w' => a = a₁ ∧ w' = w₁

theorem continues_of_ne {w₁ : World} {a₁ : Arrival} (h : ∀ o, a₁ ≠ .ended o) :
    Continues k w₁ a₁ a w' ↔ a = a₁ ∧ w' = w₁ := by
  cases a₁ with
  | ended o => exact absurd rfl (h o)
  | _ => exact Iff.rfl

theorem reaches_of_continues {woken : Bool} (hr : ∀ o, r ≠ .done o) {a₁ : Arrival} {w₁ : World}
    (h : Reaches (some a₁, w₁) woken w (.talk r)) (hk : Continues k w₁ a₁ a w') :
    Reaches (some a, w') woken w (.talk (r.bind k)) := by
  generalize he : Errand.talk r = e at h
  induction h generalizing r with
  | @last woken w e h =>
    subst he
    rcases awaitNext_bind k hr woken w with
      ⟨woken', w₂, r', hr', hfirst, hboth⟩ | ⟨o, w₂, hfirst, hboth⟩ | ⟨a', w₂, ha, hfirst, hboth⟩
    · cases hfirst.symm.trans h
    · cases hfirst.symm.trans h
      exact (reaches_congr hboth).2 (sees_iff_reaches.1 hk)
    · cases hfirst.symm.trans h
      obtain ⟨rfl, rfl⟩ := (continues_of_ne fun o ho => ha o (congrArg some ho)).1 hk
      exact .last hboth
  | @next woken woken' w w₂ e e' h _ ih =>
    subst he
    rcases awaitNext_bind k hr woken w with
      ⟨woken', w₂, r', hr', hfirst, hboth⟩ | ⟨o, w₂, hfirst, hboth⟩ | ⟨a', w₂, ha, hfirst, hboth⟩
    · cases hfirst.symm.trans h
      exact .next hboth (ih hr' rfl)
    · cases hfirst.symm.trans h
    · cases hfirst.symm.trans h

theorem continues_of_reaches {woken : Bool} (hr : ∀ o, r ≠ .done o)
    (h : Reaches (some a, w') woken w (.talk (r.bind k))) :
    ∃ a₁ w₁, Reaches (some a₁, w₁) woken w (.talk r) ∧ Continues k w₁ a₁ a w' := by
  generalize he : Errand.talk (r.bind k) = e at h
  induction h generalizing r with
  | @last woken w e h =>
    subst he
    rcases awaitNext_bind k hr woken w with
      ⟨woken', w₂, r', hr', hfirst, hboth⟩ | ⟨o, w₂, hfirst, hboth⟩ | ⟨a', w₂, ha, hfirst, hboth⟩
    · cases hboth.symm.trans h
    · have hlast : Reaches (some a, w') true w₂ (.talk (.ofDialogue (k o))) :=
        .last (hboth.symm.trans h)
      exact ⟨.ended o, w₂, .last hfirst, sees_iff_reaches.2 hlast⟩
    · cases hboth.symm.trans h
      refine ⟨a, w', .last hfirst, (continues_of_ne fun o ho => ?_).2 ⟨rfl, rfl⟩⟩
      exact ha o (congrArg some ho)
  | @next woken woken' w w₂ e e' h later ih =>
    subst he
    rcases awaitNext_bind k hr woken w with
      ⟨woken', w₂, r', hr', hfirst, hboth⟩ | ⟨o, w₂, hfirst, hboth⟩ | ⟨a', w₂, ha, hfirst, hboth⟩
    · cases hboth.symm.trans h
      obtain ⟨a₁, w₁, hends, hk⟩ := ih hr' rfl
      exact ⟨a₁, w₁, .next hfirst hends, hk⟩
    · have hrest : Reaches (some a, w') true w₂ (.talk (.ofDialogue (k o))) :=
        .next (hboth.symm.trans h) later
      exact ⟨.ended o, w₂, .last hfirst, sees_iff_reaches.2 hrest⟩
    · cases hboth.symm.trans h

/-- **To see both calls through is to see one through after the other.** -/
theorem sees_bind : w.Sees (d.bind k) a w' ↔
    ∃ a₁ w₁, w.Sees d a₁ w₁ ∧ Continues k w₁ a₁ a w' := by
  constructor
  · intro h
    obtain ⟨a₁, w₁, hends, hk⟩ :=
      continues_of_reaches (r := .ofDialogue d) nofun (sees_iff_reaches.1 h)
    exact ⟨a₁, w₁, sees_iff_reaches.2 hends, hk⟩
  · rintro ⟨a₁, w₁, hends, hk⟩
    exact sees_iff_reaches.2
      (reaches_of_continues (r := .ofDialogue d) nofun (sees_iff_reaches.1 hends) hk)

/-- Calls that come to the same in their first turn are seen through alike. -/
theorem sees_congr {d₁ d₂ : Dialogue} {w₁ w₂ : World} (h : advance d₁ w₁ = advance d₂ w₂) :
    w₁.Sees d₁ a w' ↔ w₂.Sees d₂ a w' := by
  rw [sees_iff_reaches, sees_iff_reaches]
  refine reaches_congr ?_
  simp only [awaitNext, Errand.turn, resume_ofDialogue, h]

theorem sees_notes (lines : List Log.Line) :
    w.Sees (.notes lines d) a w' ↔ (w.notes lines).Sees d a w' :=
  sees_congr (advance_notes lines d w)

theorem sees_finish {o : Outcome} : w.Sees (.finish o) a w' ↔ a = .ended o ∧ w' = w := by
  have hends : w.Sees (.finish o) (.ended o) w := sees_iff_reaches.2 (.last rfl)
  constructor
  · exact fun h => hends.unique h
  · rintro ⟨rfl, rfl⟩
    exact hends

/-- A call comes to an outcome, or crashes. -/
theorem Sees.cases (h : w.Sees d a w') : (∃ o, a = .ended o) ∨ a = .crashed := by
  obtain ⟨hs, r, -, -, hlast⟩ := sees_underway h
  rcases turn_talk_ends (w.follow hs) r with hturn | ⟨o, -, hturn⟩ | ⟨-, -, hturn⟩
  · cases hturn.symm.trans hlast
    exact Or.inr rfl
  · cases hturn.symm.trans hlast
    exact Or.inl ⟨o, rfl⟩
  · cases hturn.symm.trans hlast

/-- A call that only writes and waits until it ends comes to that end and to no other. -/
theorem arrival_of_approaches {o : Outcome} (h : Approaches (.finish o) d) (hs : w.Sees d a w') :
    a = .ended o := by
  obtain ⟨hs, r, -, hunder, hlast⟩ := sees_underway hs
  obtain ⟨alarm, d', rfl, hway⟩ := approaches_of_underway (fun w => ⟨o, w, rfl⟩) h hunder
  rcases turn_of_approaches hway alarm (w.follow hs) with ⟨_, _, _, hwaits, -⟩ | ⟨w₁, -, hthere⟩
  · cases hwaits.symm.trans hlast
  · rw [Errand.turn, hthere, advance] at hlast
    cases hlast
    rfl

end World

end EventRelay.Run
