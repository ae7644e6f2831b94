import EventRelay.Proofs.Run.Clockwork

/-!
# Calls that take turns

Several calls are under way in one world, and nothing is said about who goes first: any of them may take
a turn at any time, and the clock may move as long as it does not pass an alarm that one of them waits
for.

* `Together` — what the world and the calls can come to in this way.
* `Share` — what one of the calls has done: it has ended in its own time, or whatever is left of it takes
  the rest.
* `shares_of_together` — **each call takes the time and does the things that it would alone**, and what
  they leave behind is an interleaving.
-/

namespace EventRelay.Run

open Dialogue

/-- From the world `w`, in which these calls begin, the calls have come to `rs` and the world to `w'`. -/
inductive Together (w : World) (calls : List Dialogue) : World → List Running → Prop
  /-- They begin. -/
  | begun : Together w calls w (calls.map .ofDialogue)
  /-- One of them takes a turn. -/
  | turn {w' : World} {rs : List Running} {r : Running} (i : Nat) (hi : rs[i]? = some r)
      (h : Together w calls w' rs) : Together w calls (resume r w').2 (rs.set i (resume r w').1)
  /-- The clock moves, and not past an alarm. -/
  | clock {w' : World} {rs : List Running} {instant : Nat} (hnow : w'.now ≤ instant)
      (hle : ∀ r ∈ rs, ∀ a, r.alarm? = some a → instant ≤ a.instant) (h : Together w calls w' rs) :
      Together w calls (w'.moveClock instant) rs

/-- What the call `d`, begun at `start`, has done until `now`, where `r` is left of it: it has ended, or
crashed, or whatever is left of it takes the rest. -/
inductive Share (start now : Nat) (d : Dialogue) : Running → List Mark → Prop
  /-- It has ended. -/
  | ended {t : Nat} {o : Outcome} {ms : List Mark} (h : Takes d start t o ms) :
      Share start now d (.done o) ms
  /-- It has crashed. -/
  | crashed (ms : List Mark) : Share start now d .crashed ms
  /-- It waits. -/
  | waits {r : Running} {ms : List Mark} {a : Alarm} (hsound : r.Sound) (ha : r.alarm? = some a)
      (h : ∀ t o rest, r.Takes now t o rest → Takes d start t o (ms ++ rest)) :
      Share start now d r ms

/-- A call that takes a turn goes on with its share. -/
theorem Share.turn {start : Nat} {d : Dialogue} {r : Running} {ms : List Mark} {w : World}
    (h : Share start w.now d r ms) :
    ∃ xs, w.Marked xs (resume r w).2 ∧ Share start (resume r w).2.now d (resume r w).1 (ms ++ xs) := by
  have hnow := (resume_drifts r w).now
  cases h with
  | ended h =>
    refine ⟨[], .refl w, ?_⟩
    rw [List.append_nil]
    exact .ended h
  | crashed => exact ⟨[], .refl w, .crashed _⟩
  | waits hsound ha h =>
    obtain ⟨xs, hmarked, hrest⟩ := resume_passes r w
    refine ⟨xs, hmarked, ?_⟩
    rw [hnow]
    have hall : ∀ t o rest, (resume r w).1.Takes w.now t o rest →
        Takes d start t o (ms ++ xs ++ rest) := by
      intro t o rest hr
      rw [List.append_assoc]
      exact h t o (xs ++ rest) (hrest t o rest hr)
    rcases resume_waits r w with hcrashed | ⟨hsound', -⟩
    · rw [hcrashed]
      exact .crashed _
    · rcases Running.alarm_of_sound _ hsound' with ⟨o, hdone⟩ | ⟨a', ha'⟩
      · rw [hdone] at hall ⊢
        have hend := hall w.now o [] ⟨rfl, rfl, rfl⟩
        rw [List.append_nil] at hend
        exact .ended hend
      · exact .waits hsound' ha' hall

/-- The clock may move while a call waits. -/
theorem Share.clock {start now instant : Nat} {d : Dialogue} {r : Running} {ms : List Mark}
    (hnow : now ≤ instant) (hle : ∀ a, r.alarm? = some a → instant ≤ a.instant)
    (h : Share start now d r ms) : Share start instant d r ms := by
  cases h with
  | ended h => exact .ended h
  | crashed => exact .crashed ms
  | waits hsound ha h =>
    refine .waits hsound ha fun t o rest hr => h t o rest ?_
    exact Running.takes_of_later hsound ha hnow (hle _ ha) hr

/-- **Each call takes the time and does the things that it would alone**, and what they leave behind is
an interleaving. -/
theorem shares_of_together {w w' : World} {calls : List Dialogue} {rs : List Running}
    (h : Together w calls w' rs) :
    ∃ mss whole, Woven mss whole ∧ w.Marked whole w' ∧ mss.length = calls.length ∧
      rs.length = calls.length ∧ ∀ (i : Nat) d r ms, calls[i]? = some d → rs[i]? = some r →
        mss[i]? = some ms → Share w.now w'.now d r ms := by
  induction h with
  | begun =>
    refine ⟨calls.map fun _ => [], [], .nil (by simp), .refl w, by simp, by simp, ?_⟩
    intro i d r ms hd hr hms
    rw [List.getElem?_map, hd, Option.map_some] at hr hms
    cases hr
    cases hms
    refine .waits (a := ⟨0, 0⟩) trivial rfl fun t o rest hr => ?_
    have hbegun : Takes d (max w.now 0) t o rest := hr
    rwa [Nat.max_zero] at hbegun
  | @turn w' rs r i hi _ ih =>
    obtain ⟨mss, whole, hwoven, hmarked, hlength, hrs, hshare⟩ := ih
    have hbound : i < calls.length := hrs ▸ (List.getElem?_eq_some_iff.1 hi).1
    obtain ⟨d, hd⟩ : ∃ d, calls[i]? = some d := ⟨_, List.getElem?_eq_getElem hbound⟩
    obtain ⟨ms, hms⟩ : ∃ ms, mss[i]? = some ms :=
      ⟨_, List.getElem?_eq_getElem (hlength ▸ hbound)⟩
    obtain ⟨xs, hturn, hnext⟩ := (hshare i d r ms hd hi hms).turn
    refine ⟨mss.set i (ms ++ xs), whole ++ xs, hwoven.concat hms xs, hmarked.trans hturn,
      by rw [List.length_set, hlength], by rw [List.length_set, hrs], ?_⟩
    intro j d' r' ms' hd' hr' hms'
    by_cases hij : i = j
    · subst hij
      rw [List.getElem?_set_self (hrs ▸ hbound)] at hr'
      rw [List.getElem?_set_self (hlength ▸ hbound)] at hms'
      cases hr'
      cases hms'
      cases hd.symm.trans hd'
      exact hnext
    · rw [List.getElem?_set_ne hij] at hr' hms'
      rw [(resume_drifts r w').now]
      exact hshare j d' r' ms' hd' hr' hms'
  | @clock w' rs instant hnow hle _ ih =>
    obtain ⟨mss, whole, hwoven, hmarked, hlength, hrs, hshare⟩ := ih
    refine ⟨mss, whole, hwoven, ?_, hlength, hrs, fun i d r ms hd hr hms => ?_⟩
    · have hall := hmarked.trans (w'.marked_moveClock instant)
      rwa [List.append_nil] at hall
    · exact (hshare i d r ms hd hr hms).clock hnow (hle r (List.mem_of_getElem? hr))

end EventRelay.Run
