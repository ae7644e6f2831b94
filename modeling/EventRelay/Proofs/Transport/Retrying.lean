import EventRelay.Proofs.Transport.Timing
import Mathlib.Order.Bounds.Basic
import Mathlib.Algebra.BigOperators.Group.List.Basic
import Mathlib.Algebra.Ring.Nat
import Mathlib.Logic.Function.Basic

/-!
# How often a retry tries

A retry calls its inner transport again and again.  How each of these calls would end and how long it
would take is a script; it decides, with the policy, how many of them are made.

Calls are counted from zero in a script and from one in the book, so call `i` of the script is attempt
`i + 1`, and the wait before it is that of retry `i - 1`.

* `Stops` — when no further call is made: after a success, when the number of attempts is used up, or
  after a failure when the time since the start of the first call is used up.
* `Rounds` — what a retry does that makes the calls of a script until it stops.
* `rounds_of_retry`, `Rounds.least` — **every call of a retry is of this kind**, and the number of its
  calls is the least at which it stops.
* `count_le`, `last_of_late` — the number of attempts is a bound, and only the last call can start when
  the time is used up.
* `entries_handle`, `Rounds.entries` — a call enters attempts in the books of its own retries only, so a
  retry enters exactly its calls in its book.
-/

namespace EventRelay.Retry

open Dialogue

/-- One call of the inner transport. -/
structure Trial where
  /-- How it ends. -/
  outcome : Outcome
  /-- How long it takes. -/
  duration : Nat

variable {policy : Policy} {script : Nat → Trial}

/-- The wait before a call. -/
def waitBefore (policy : Policy) : Nat → Span
  | 0 => .ms 0
  | i + 1 => policy.delay i

/-- When a call starts, counted from the start of the first one. -/
def startsAfter (policy : Policy) (script : Nat → Trial) : Nat → Nat
  | 0 => 0
  | i + 1 => startsAfter policy script i + (script i).duration + (policy.delay i).onClock

/-- When a call ends. -/
def endsAfter (policy : Policy) (script : Nat → Trial) (i : Nat) : Nat :=
  startsAfter policy script i + (script i).duration

/-- The retry stops after attempt `n`: it succeeded, or it was the last one allowed, or it failed and the
time since the start of the first attempt is used up. -/
def Stops (policy : Policy) (script : Nat → Trial) (n : Nat) : Prop :=
  (script (n - 1)).outcome = .ok () ∨ max policy.maxAttempts 1 ≤ n ∨
    ∃ limit e, policy.maxRetry = some limit ∧ (script (n - 1)).outcome = .error e ∧
      limit ≤ endsAfter policy script (n - 1)

/-- The text of a failure. -/
def failureText : Outcome → Option String
  | .ok () => none
  | .error e => some e.message

/-- What stands in the book about a call. -/
def attemptAt (policy : Policy) (script : Nat → Trial) (i : Nat) : Attempt :=
  ⟨i + 1, waitBefore policy i, failureText (script i).outcome⟩

/-- What the retry tells if it stops after some attempts, of which the last came to this. -/
def told (count : Nat) : Outcome → Outcome
  | .ok () => .ok ()
  | .error e => .error (.retryExhausted count e.message)

/-- What the retry comes to after some calls. -/
def resultOf (script : Nat → Trial) (count : Nat) : Outcome :=
  told count (script (count - 1)).outcome

/-! ## Scripts that agree -/

theorem startsAfter_congr {script' : Nat → Trial} {k : Nat} (h : ∀ i < k, script i = script' i) :
    startsAfter policy script k = startsAfter policy script' k := by
  induction k with
  | zero => rfl
  | succ k ih =>
    have hbefore := ih fun i hi => h i (Nat.lt_succ_of_lt hi)
    rw [startsAfter, startsAfter, hbefore, h k (Nat.lt_succ_self k)]

theorem endsAfter_congr {script' : Nat → Trial} {k : Nat} (h : ∀ i ≤ k, script i = script' i) :
    endsAfter policy script k = endsAfter policy script' k := by
  rw [endsAfter, endsAfter, startsAfter_congr fun i hi => h i (Nat.le_of_lt hi), h k (Nat.le_refl k)]

theorem stops_congr {script' : Nat → Trial} {n : Nat} (h : ∀ i ≤ n - 1, script i = script' i) :
    Stops policy script n ↔ Stops policy script' n := by
  rw [Stops, Stops, h (n - 1) (Nat.le_refl _), endsAfter_congr h]

/-- The calls and the waits make up the whole time. -/
theorem endsAfter_eq_sum (policy : Policy) (script : Nat → Trial) (k : Nat) :
    endsAfter policy script k =
      ((List.range (k + 1)).map fun i => (script i).duration).sum +
        ((List.range (k + 1)).map fun i => (waitBefore policy i).onClock).sum := by
  induction k with
  | zero => simp [endsAfter, startsAfter, waitBefore, Span.onClock]
  | succ k ih =>
    rw [List.range_succ, List.map_append, List.sum_append, List.map_append, List.sum_append]
    simp only [List.map_singleton, List.sum_singleton]
    rw [endsAfter, startsAfter, ← endsAfter, ih, waitBefore]
    omega

/-! ## The rounds of a retry -/

/-- From call `k` on, a retry that started at `start` and calls `call` has made its calls up to `count`,
which leave the marks `marks i` on their way. -/
structure Rounds (policy : Policy) (book : Nat) (call : Dialogue) (start k : Nat)
    (script : Nat → Trial) (marks : Nat → List Mark) (count finish : Nat) (o : Outcome)
    (ms : List Mark) : Prop where
  /-- There is a call. -/
  some_call : k < count
  /-- It goes on until the last one. -/
  goes_on : ∀ n, k < n → n < count → ¬Stops policy script n
  /-- It stops then. -/
  stops : Stops policy script count
  /-- The calls go as the script says. -/
  calls : ∀ i, k ≤ i → i < count → Takes call (start + startsAfter policy script i)
    (start + endsAfter policy script i) (script i).outcome (marks i)
  /-- It ends with the last call. -/
  ends : finish = start + endsAfter policy script (count - 1)
  /-- It tells what the last call came to. -/
  outcome : o = resultOf script count
  /-- Every call is entered in the book. -/
  marked : ms = (List.range' k (count - k)).flatMap fun i =>
    marks i ++ [.entered book (attemptAt policy script i)]

/-- The last call. -/
theorem Rounds.last (book : Nat) {call : Dialogue} {start k : Nat} {only : List Mark}
    (hcall : Takes call (start + startsAfter policy script k)
      (start + endsAfter policy script k) (script k).outcome only)
    (hstops : Stops policy script (k + 1)) :
    Rounds policy book call start k script (fun _ => only) (k + 1)
      (start + endsAfter policy script k) (resultOf script (k + 1))
      (only ++ [.entered book (attemptAt policy script k)]) := by
  refine ⟨Nat.lt_succ_self k, fun n hk hn => ?_, hstops, fun i hk hi => ?_, rfl, rfl, ?_⟩
  · omega
  · have hik : i = k := by omega
    rw [hik]
    exact hcall
  · have hone : k + 1 - k = 1 := by omega
    simp [hone]

/-- One more call in front. -/
theorem Rounds.cons {book : Nat} {call : Dialogue} {start k : Nat} {marks : Nat → List Mark}
    {count finish : Nat} {o : Outcome} {first ms : List Mark}
    (hcall : Takes call (start + startsAfter policy script k)
      (start + endsAfter policy script k) (script k).outcome first)
    (hgoes : ¬Stops policy script (k + 1))
    (h : Rounds policy book call start (k + 1) script marks count finish o ms) :
    Rounds policy book call start k script (Function.update marks k first) count finish o
      (first ++ .entered book (attemptAt policy script k) :: ms) := by
  have hsome := h.some_call
  refine ⟨by omega, fun n hk hn => ?_, h.stops, fun i hk hi => ?_, h.ends, h.outcome, ?_⟩
  · by_cases hnk : n = k + 1
    · rw [hnk]
      exact hgoes
    · exact h.goes_on n (by omega) hn
  · by_cases hik : i = k
    · rw [hik, Function.update_self]
      exact hcall
    · rw [Function.update_of_ne hik]
      exact h.calls i (by omega) hi
  · have hrange : List.range' k (count - k) = k :: List.range' (k + 1) (count - (k + 1)) := by
      have hlength : count - k = count - (k + 1) + 1 := by omega
      rw [hlength, List.range'_succ]
    have hrest : (List.range' (k + 1) (count - (k + 1))).flatMap (fun i =>
        Function.update marks k first i ++ [.entered book (attemptAt policy script i)]) = ms := by
      rw [h.marked]
      refine List.flatMap_congr fun i hi => ?_
      have hik : i ≠ k := by
        have := (List.mem_range'_1.1 hi).1
        omega
      rw [Function.update_of_ne hik]
    rw [hrange, List.flatMap_cons, hrest, Function.update_self, List.append_assoc,
      List.singleton_append]

/-! ## The loop -/

theorem budgetSpent_iff {elapsed : Nat} :
    Transport.budgetSpent policy elapsed = true ↔
      ∃ limit, policy.maxRetry = some limit ∧ limit ≤ elapsed := by
  rw [Transport.budgetSpent]
  split
  · rename_i hnone
    simp [hnone]
  · rename_i limit hsome
    simp [hsome]

section Loop

variable {call : Dialogue} {name : String} {events book start : Nat}

/-- An attempt is the last one, or another one follows after a wait. -/
theorem takes_attempts {left k : Nat} {delay : Span} {s t' : Nat} {o : Outcome} {ms : List Mark}
    (h : Takes (Transport.attempts call name events book policy start left (k + 1) delay)
      s t' o ms) :
    ∃ s₁ o₁ ms₁ rest, Takes call s s₁ o₁ ms₁ ∧
      ms = ms₁ ++ .entered book ⟨k + 1, delay, failureText o₁⟩ :: rest ∧
      ((t' = s₁ ∧ o = told (k + 1) o₁ ∧ rest = [] ∧
          (o₁ = .ok () ∨ ∃ e, o₁ = .error e ∧
            (left = 0 ∨ Transport.budgetSpent policy (s₁ - start) = true))) ∨
        ∃ e left', o₁ = .error e ∧ left = left' + 1 ∧
          Transport.budgetSpent policy (s₁ - start) ≠ true ∧
          Takes (Transport.attempts call name events book policy start left' (k + 2)
            (policy.delay k)) (s₁ + (policy.delay k).onClock) t' o rest) := by
  rw [Transport.attempts] at h
  obtain ⟨s₁, o₁, ms₁, ms₂, hcall, hnext, rfl⟩ := takes_bind call h
  cases o₁ with
  | ok u =>
    obtain ⟨rest, rfl, hend⟩ := hnext
    obtain ⟨ht, ho, hrest⟩ := takes_notes.1 hend
    exact ⟨s₁, .ok (), ms₁, rest, hcall, rfl, Or.inl ⟨ht, ho, hrest, Or.inl rfl⟩⟩
  | error e =>
    obtain ⟨rest, rfl, hend⟩ := hnext
    refine ⟨s₁, .error e, ms₁, rest, hcall, rfl, ?_⟩
    cases left with
    | zero =>
      obtain ⟨ht, ho, hrest⟩ := hend
      exact Or.inl ⟨ht, ho, hrest, Or.inr ⟨e, rfl, Or.inl rfl⟩⟩
    | succ left =>
      have hbranch : Takes (if Transport.budgetSpent policy (s₁ - start) then
          Transport.giveUp name (k + 1) (s₁ - start) e
        else .note (Transport.againLine name (k + 1) (policy.delay k) e)
          (.pause (policy.delay k) (Transport.attempts call name events book policy start left
            (k + 2) (policy.delay k)))) s₁ t' o rest := hend
      by_cases hspent : Transport.budgetSpent policy (s₁ - start) = true
      · rw [if_pos hspent] at hbranch
        obtain ⟨ht, ho, hrest⟩ := hbranch
        exact Or.inl ⟨ht, ho, hrest, Or.inr ⟨e, rfl, Or.inr hspent⟩⟩
      · rw [if_neg hspent] at hbranch
        exact Or.inr ⟨e, left, rfl, rfl, hspent, hbranch⟩

/-- A call that starts at the end of a known script, and what it came to. -/
theorem after_known {known : Nat → Trial} {k s₁ : Nat} {o₁ : Outcome}
    (hle : start + startsAfter policy known k ≤ s₁)
    (hbefore : ∀ i < k, script i = known i)
    (hat : script k = ⟨o₁, s₁ - (start + startsAfter policy known k)⟩) :
    startsAfter policy script k = startsAfter policy known k ∧
      start + endsAfter policy script k = s₁ := by
  have hstarts : startsAfter policy script k = startsAfter policy known k :=
    startsAfter_congr hbefore
  refine ⟨hstarts, ?_⟩
  rw [endsAfter, hstarts, hat]
  show start + (startsAfter policy known k + (s₁ - (start + startsAfter policy known k))) = s₁
  omega

/-- The retry stops after a call, for one of three reasons. -/
theorem rounds_last (known : Nat → Trial) {left k s₁ : Nat} {o₁ : Outcome} {ms₁ : List Mark}
    (hleft : k + 1 + left = max policy.maxAttempts 1)
    (hcall : Takes call (start + startsAfter policy known k) s₁ o₁ ms₁)
    (hstops : o₁ = .ok () ∨ ∃ e, o₁ = .error e ∧
      (left = 0 ∨ Transport.budgetSpent policy (s₁ - start) = true)) :
    ∃ script marks count, (∀ i < k, script i = known i) ∧
      Rounds policy book call start k script marks count s₁ (told (k + 1) o₁)
        (ms₁ ++ [.entered book ⟨k + 1, waitBefore policy k, failureText o₁⟩]) := by
  let trial : Trial := ⟨o₁, s₁ - (start + startsAfter policy known k)⟩
  have hbefore : ∀ i < k, Function.update known k trial i = known i :=
    fun i hi => Function.update_of_ne (Nat.ne_of_lt hi) _ _
  have hat : Function.update known k trial k = trial := Function.update_self _ _ _
  obtain ⟨hstarts, hends⟩ := after_known (takes_le call hcall) hbefore hat
  refine ⟨Function.update known k trial, fun _ => ms₁, k + 1, hbefore, ?_⟩
  have hlast : Takes call (start + startsAfter policy (Function.update known k trial) k)
      (start + endsAfter policy (Function.update known k trial) k)
      (Function.update known k trial k).outcome ms₁ := by
    rw [hstarts, hends, hat]
    exact hcall
  have hend : Stops policy (Function.update known k trial) (k + 1) := by
    rw [Stops, Nat.add_sub_cancel, hat]
    rcases hstops with hok | ⟨e, he, hnone | hspent⟩
    · exact Or.inl hok
    · exact Or.inr (Or.inl (by omega))
    · obtain ⟨limit, hlimit, hle⟩ := budgetSpent_iff.1 hspent
      exact Or.inr (Or.inr ⟨limit, e, hlimit, he, by omega⟩)
  have hrounds := Rounds.last book hlast hend
  rw [hends, resultOf, attemptAt, Nat.add_sub_cancel, hat] at hrounds
  exact hrounds

/-- **The loop of a retry makes its rounds.**  What the calls before `k` came to is known. -/
theorem rounds_of_takes (known : Nat → Trial) {left k : Nat}
    (hleft : k + 1 + left = max policy.maxAttempts 1) {t' : Nat} {o : Outcome} {ms : List Mark}
    (h : Takes (Transport.attempts call name events book policy start left (k + 1)
      (waitBefore policy k)) (start + startsAfter policy known k) t' o ms) :
    ∃ script marks count, (∀ i < k, script i = known i) ∧
      Rounds policy book call start k script marks count t' o ms := by
  induction left generalizing k known ms with
  | zero =>
    obtain ⟨s₁, o₁, ms₁, rest, hcall, rfl, ⟨rfl, rfl, rfl, hstops⟩ | ⟨_, _, -, hmore, -⟩⟩ :=
      takes_attempts h
    · exact rounds_last known hleft hcall hstops
    · cases hmore
  | succ left ih =>
    obtain ⟨s₁, o₁, ms₁, rest, hcall, rfl, ⟨rfl, rfl, rfl, hstops⟩ |
      ⟨e, left', rfl, hmore, hspent, hagain⟩⟩ := takes_attempts h
    · exact rounds_last known hleft hcall hstops
    · cases hmore
      have hle := takes_le call hcall
      -- this call is known as well when the next one starts
      let trial : Trial := ⟨.error e, s₁ - (start + startsAfter policy known k)⟩
      have hnext : start + startsAfter policy (Function.update known k trial) (k + 1) =
          s₁ + (policy.delay k).onClock := by
        obtain ⟨-, hends⟩ := after_known hle
          (fun i hi => Function.update_of_ne (Nat.ne_of_lt hi) trial known)
          (Function.update_self k trial known)
        rw [startsAfter, ← endsAfter, ← hends]
        omega
      rw [← hnext] at hagain
      obtain ⟨script, marks, count, hknown, hrounds⟩ :=
        ih (Function.update known k trial) (by omega) hagain
      have hbefore : ∀ i < k, script i = known i := fun i hi =>
        (hknown i (by omega)).trans (Function.update_of_ne (Nat.ne_of_lt hi) trial known)
      have hat : script k = trial :=
        (hknown k (Nat.lt_succ_self k)).trans (Function.update_self k trial known)
      obtain ⟨hstarts, hends⟩ := after_known hle hbefore hat
      have hfirst : Takes call (start + startsAfter policy script k)
          (start + endsAfter policy script k) (script k).outcome ms₁ := by
        rw [hstarts, hends, hat]
        exact hcall
      have hgoes : ¬Stops policy script (k + 1) := by
        rw [Stops, Nat.add_sub_cancel, hat]
        rintro (hok | hallowed | ⟨limit, _, hlimit, -, hle⟩)
        · cases hok
        · omega
        · exact hspent (budgetSpent_iff.2 ⟨limit, hlimit, by omega⟩)
      have hall := Rounds.cons hfirst hgoes hrounds
      rw [attemptAt, hat] at hall
      exact ⟨script, _, count, hbefore, hall⟩

end Loop

/-! ## A retry -/

/-- **Every call of a retry makes such rounds.** -/
theorem rounds_of_retry {b : Batch} {book : Nat} {inner : Transport} {t t' : Nat} {o : Outcome}
    {ms : List Mark} (h : Takes (Transport.handle b (.retry book policy inner)) t t' o ms) :
    ∃ script marks count,
      Rounds policy book (Transport.handle b inner) t 0 script marks count t' o ms := by
  have hloop : Takes (Transport.attempts (Transport.handle b inner) inner.name b.size book policy t
      (policy.attemptsAllowed - 1) 1 (.ms 0)) t t' o ms := h
  have hleft : 0 + 1 + (policy.attemptsAllowed - 1) = max policy.maxAttempts 1 := by
    have hallowed : policy.attemptsAllowed = max policy.maxAttempts 1 := rfl
    omega
  obtain ⟨script, marks, count, -, hrounds⟩ :=
    rounds_of_takes (fun _ => ⟨.ok (), 0⟩) hleft hloop
  exact ⟨script, marks, count, hrounds⟩

variable {book : Nat} {call : Dialogue} {start count finish : Nat} {marks : Nat → List Mark}
  {o : Outcome} {ms : List Mark}

/-- **The number of calls is the least at which the retry stops.** -/
theorem Rounds.least (h : Rounds policy book call start 0 script marks count finish o ms) :
    IsLeast {n | 1 ≤ n ∧ Stops policy script n} count := by
  refine ⟨⟨h.some_call, h.stops⟩, fun n hn => ?_⟩
  by_contra hless
  exact h.goes_on n hn.1 (Nat.lt_of_not_le hless) hn.2

/-- No more attempts are made than the policy allows. -/
theorem count_le (h : IsLeast {n | 1 ≤ n ∧ Stops policy script n} count) :
    count ≤ max policy.maxAttempts 1 :=
  h.2 ⟨Nat.le_max_right _ _, Or.inr (Or.inl (Nat.le_refl _))⟩

/-- **A call that starts when the time is used up is the last one.** -/
theorem last_of_late (h : IsLeast {n | 1 ≤ n ∧ Stops policy script n} count) {limit : Nat}
    (hlimit : policy.maxRetry = some limit) {i : Nat} (hi : i < count)
    (hlate : limit ≤ startsAfter policy script i) : i + 1 = count := by
  have hstops : Stops policy script (i + 1) := by
    rw [Stops, Nat.add_sub_cancel]
    cases hoc : (script i).outcome with
    | ok u => exact Or.inl rfl
    | error e =>
      refine Or.inr (Or.inr ⟨limit, e, hlimit, rfl, Nat.le_trans hlate ?_⟩)
      exact Nat.le_add_right _ _
  have hle : count ≤ i + 1 := h.2 ⟨Nat.succ_le_succ (Nat.zero_le i), hstops⟩
  omega

/-- Scripts that agree on the calls that are made have the same number of them. -/
theorem least_congr {script' : Nat → Trial} (hsame : ∀ i < count, script i = script' i)
    (h : IsLeast {n | 1 ≤ n ∧ Stops policy script n} count) :
    IsLeast {n | 1 ≤ n ∧ Stops policy script' n} count := by
  have hpos : 1 ≤ count := h.1.1
  refine ⟨⟨hpos, (stops_congr fun i hi => hsame i (by omega)).1 h.1.2⟩, fun n hn => ?_⟩
  by_contra hless
  have hstops : Stops policy script n :=
    (stops_congr fun i hi => hsame i (by omega)).2 hn.2
  exact hless (h.2 ⟨hn.1, hstops⟩)

/-- Scripts that agree on the calls that are made come to the same. -/
theorem resultOf_congr {script' : Nat → Trial} (hpos : 0 < count)
    (hsame : ∀ i < count, script i = script' i) : resultOf script count = resultOf script' count := by
  rw [resultOf, resultOf, hsame (count - 1) (by omega)]

/-- The calls that a retry makes of a scripted leaf are those of the cues. -/
theorem Rounds.of_sink {b : Batch} {leaf : Nat} {name : String}
    (h : Rounds policy book (Transport.handle b (.sink leaf name)) start 0 script marks count
      finish o ms) :
    ∃ cues : Nat → Cue, ∀ i < count, script i = ⟨(cues i).outcome, (cues i).delay⟩ ∧
      marks i = [.asked leaf (start + startsAfter policy script i) b (cues i)] := by
  have hcall : ∀ i, ∃ cue : Cue, i < count → script i = ⟨cue.outcome, cue.delay⟩ ∧
      marks i = [.asked leaf (start + startsAfter policy script i) b cue] := by
    intro i
    by_cases hi : i < count
    · obtain ⟨cue, rest, hmarks, hfollow⟩ := h.calls i (Nat.zero_le i) hi
      obtain ⟨hend, hoc, rfl⟩ := takes_follow hfollow
      refine ⟨cue, fun _ => ⟨?_, hmarks⟩⟩
      have hduration : (script i).duration = cue.delay := by
        rw [endsAfter] at hend
        omega
      rw [← hoc, ← hduration]
    · exact ⟨{}, fun hlt => absurd hlt hi⟩
  choose cues hcues using hcall
  exact ⟨cues, hcues⟩

/-! ## The books of a transport -/

mutual

/-- The books of the retries in a transport. -/
def booksIn : Transport → List Nat
  | .sink _ _ => []
  | .debug => []
  | .http _ _ => []
  | .retry book _ inner => book :: booksIn inner
  | .switch children => booksInAll children
  | .group children => booksInAll children
  | .queued _ _ => []

/-- The books of several transports. -/
def booksInAll : List Transport → List Nat
  | [] => []
  | t :: ts => booksIn t ++ booksInAll ts

end

theorem entries_woven {mss : List (List Mark)} {woven : List Mark} (h : Woven mss woven)
    (hnone : ∀ ms ∈ mss, Mark.entries book ms = []) : Mark.entries book woven = [] := by
  have hperm : (Mark.entries book woven).Perm (mss.map (Mark.entries book)).flatten :=
    (h.filterMap _).perm
  rw [List.flatten_eq_nil_iff.2] at hperm
  · exact hperm.eq_nil
  · intro ms hms
    obtain ⟨ns, hns, rfl⟩ := List.mem_map.1 hms
    exact hnone ns hns

/-- A retry enters its calls in its book, if they enter nothing there themselves. -/
theorem Rounds.entries (h : Rounds policy book call start 0 script marks count finish o ms)
    (hnone : ∀ i < count, Mark.entries book (marks i) = []) :
    Mark.entries book ms = (List.range count).map (attemptAt policy script) := by
  have heach : ∀ i ∈ List.range count, Mark.entries book
      (marks i ++ [.entered book (attemptAt policy script i)]) = [attemptAt policy script i] := by
    intro i hi
    rw [Mark.entries_append, hnone i (List.mem_range.1 hi)]
    simp [Mark.entries]
  rw [h.marked, Nat.sub_zero, ← List.range_eq_range', Mark.entries, List.filterMap_flatMap]
  rw [← List.flatMap_pure_eq_map]
  exact List.flatMap_congr heach

/-- In other books it enters what its calls enter there. -/
theorem Rounds.entries_other {other : Nat} (hother : other ≠ book)
    (h : Rounds policy book call start 0 script marks count finish o ms)
    (hnone : ∀ i < count, Mark.entries other (marks i) = []) : Mark.entries other ms = [] := by
  rw [h.marked, Nat.sub_zero, ← List.range_eq_range', Mark.entries, List.filterMap_flatMap,
    List.flatMap_eq_nil_iff]
  intro i hi
  have hnext : Mark.entries other (marks i ++ [.entered book (attemptAt policy script i)]) = [] := by
    rw [Mark.entries_append, hnone i (List.mem_range.1 hi)]
    simp [Mark.entries, Ne.symm hother]
  exact hnext

theorem marks_settleGroup {names : List String} {b : Batch} {outcomes : List Outcome} {t t' : Nat}
    (h : Takes (Transport.settleGroup names b outcomes) t t' o ms) : ms = [] := by
  rw [Transport.settleGroup] at h
  dsimp only at h
  split at h
  · exact h.2.2
  · exact (takes_notes.1 h).2.2

mutual

/-- **A call enters attempts in the books of its own retries only.** -/
theorem entries_handle (b : Batch) {book : Nat} : (t : Transport) → book ∉ booksIn t →
    {s s' : Nat} → {o : Outcome} → {ms : List Mark} →
    Takes (Transport.handle b t) s s' o ms → Mark.entries book ms = []
  | .sink _ _, _, _, _, _, _, h => by
    obtain ⟨cue, rest, rfl, hfollow⟩ := h
    obtain ⟨-, -, rfl⟩ := takes_follow hfollow
    rfl
  | .debug, _, _, _, _, _, h => by
    obtain ⟨-, -, rfl⟩ := takes_notes.1 h
    rfl
  | .http _ endpoint, _, _, _, _, _, h => by
    obtain ⟨reply, h⟩ := h
    rw [Transport.settleReply] at h
    split at h
    · obtain ⟨-, -, rfl⟩ := h
      rfl
    · obtain ⟨-, -, rfl⟩ := h
      rfl
  | .queued _ _, _, _, _, _, _, h => by
    obtain ⟨result, h⟩ := h
    cases result with
    | ok u =>
      obtain ⟨-, -, rfl⟩ := h
      rfl
    | error e =>
      obtain ⟨-, -, rfl⟩ := h
      rfl
  | .retry own policy inner, hbook, _, _, _, _, h => by
    rw [booksIn, List.mem_cons, not_or] at hbook
    obtain ⟨script, marks, count, hrounds⟩ := rounds_of_retry h
    exact hrounds.entries_other hbook.1 fun i hi =>
      entries_handle b inner hbook.2 (hrounds.calls i (Nat.zero_le i) hi)
  | .switch children, hbook, _, _, _, _, h => by
    obtain ⟨u, h⟩ := h
    exact entries_first b u children hbook h
  | .group children, hbook, _, _, _, _, h => by
    obtain ⟨u, h⟩ := h
    dsimp only at h
    split at h
    · obtain ⟨-, -, rfl⟩ := h
      rfl
    · obtain ⟨_, _, mss, woven, rest, hparts, hwoven, rfl, hend⟩ := h
      rw [marks_settleGroup hend, List.append_nil]
      exact entries_woven hwoven (entries_usable b u children hbook hparts)

theorem entries_first (b : Batch) {book : Nat} (u : Usability) : (ts : List Transport) →
    book ∉ booksInAll ts → {s s' : Nat} → {o : Outcome} → {ms : List Mark} →
    Takes (Transport.handleFirst u b ts) s s' o ms → Mark.entries book ms = []
  | [], _, _, _, _, _, h => by
    obtain ⟨-, -, rfl⟩ := h
    rfl
  | t :: ts, hbook, _, _, _, _, h => by
    rw [booksInAll, List.mem_append, not_or] at hbook
    rw [Transport.handleFirst] at h
    split at h
    · exact entries_handle b t hbook.1 h
    · exact entries_first b u ts hbook.2 h

theorem entries_usable (b : Batch) {book : Nat} (u : Usability) : (ts : List Transport) →
    book ∉ booksInAll ts → {s s' : Nat} → {os : List Outcome} → {mss : List (List Mark)} →
    TakesAll (Transport.handleUsable u b ts) s s' os mss →
      ∀ ms ∈ mss, Mark.entries book ms = []
  | [], _, _, _, _, _, h => by
    obtain ⟨-, -, rfl⟩ := h
    nofun
  | t :: ts, hbook, _, _, _, _, h => by
    rw [booksInAll, List.mem_append, not_or] at hbook
    rw [Transport.handleUsable] at h
    split at h
    · obtain ⟨_, _, ms, _, _, mss', hd, hrest, -, -, rfl⟩ := h
      refine List.forall_mem_cons.2 ⟨entries_handle b t hbook.1 hd, ?_⟩
      exact entries_usable b u ts hbook.2 hrest
    · exact entries_usable b u ts hbook.2 h

end

end EventRelay.Retry
