import EventRelay.Proofs.Run.LeftAlone
import EventRelay.Proofs.Run.Marks
import EventRelay.Proofs.Run.Talks

/-!
# Calls on the clock of a world

A call that is seen through in a world takes the time that it takes by itself, whatever else goes on:
its waits end when their alarms go off, and everything else it does happens in no time.

* `Running.Takes` — how long what is left of a call takes, and what it leaves behind.
* `advance_passes`, `resume_passes` — **whatever is left of a call after a turn takes, the call takes
  as a whole**, with what it did in that turn in front.
* `Running.takes_of_later` — to wait for the next alarm changes nothing.
* `World.Reaches.takes` — **a call that is seen through has taken its time**; if nothing else goes on,
  all marks that are left are its own.
* `World.exists_sees` — **every call comes to its end**, whatever goes on meanwhile.
* `World.seen_through` — where nothing else goes on, and it cannot crash, it has an outcome.
-/

namespace EventRelay.Run

open Dialogue

/-! ## What is left of a call -/

namespace Running

mutual

/-- What is left of a call at `t` can end at `t'` with this outcome and these marks. -/
def Takes : Running → Nat → Nat → Outcome → List Mark → Prop
  | .done outcome, t, t', o, ms => t' = t ∧ o = outcome ∧ ms = []
  | .crashed, _, _, _, _ => False
  | .asleep alarm next, t, t', o, ms => Dialogue.Takes next (max t alarm.instant) t' o ms
  | .all parts next, t, t', o, ms => ∃ t₁ os mss woven rest,
      TakesAll parts t t₁ os mss ∧ Woven mss woven ∧ ms = woven ++ rest ∧
        Dialogue.Takes (next os) t₁ t' o rest

/-- The same for several calls that are held at once: the last ends at `t'`. -/
def TakesAll : List Running → Nat → Nat → List Outcome → List (List Mark) → Prop
  | [], t, t', os, mss => t' = t ∧ os = [] ∧ mss = []
  | r :: rs, t, t', os, mss => ∃ t₁ o ms t₂ os' mss',
      Takes r t t₁ o ms ∧ TakesAll rs t t₂ os' mss' ∧
        t' = max t₁ t₂ ∧ os = o :: os' ∧ mss = ms :: mss'

end

theorem length_takesAll {rs : List Running} {t t' : Nat} {os : List Outcome}
    {mss : List (List Mark)} (h : TakesAll rs t t' os mss) : mss.length = rs.length := by
  induction rs generalizing t' os mss with
  | nil =>
    rw [h.2.2]
    rfl
  | cons r rs ih =>
    obtain ⟨_, _, _, _, _, _, -, hrest, -, -, rfl⟩ := h
    rw [List.length_cons, ih hrest, List.length_cons]

/-- Calls that have ended have ended, and leave nothing more behind. -/
theorem takesAll_of_outcomes {rs : List Running} {os : List Outcome} (h : outcomes? rs = some os)
    (t : Nat) : ∃ mss, TakesAll rs t t os mss ∧ Woven mss [] := by
  suffices hnone : ∃ mss, TakesAll rs t t os mss ∧ ∀ ms ∈ mss, ms = [] by
    obtain ⟨mss, htakes, hnil⟩ := hnone
    exact ⟨mss, htakes, .nil hnil⟩
  induction rs generalizing os with
  | nil =>
    cases h
    exact ⟨[], ⟨rfl, rfl, rfl⟩, List.forall_mem_nil _⟩
  | cons r rs ih =>
    cases r with
    | done o =>
      obtain ⟨os', hos, rfl⟩ := Option.map_eq_some_iff.1 h
      obtain ⟨mss, htakes, hnil⟩ := ih hos
      refine ⟨[] :: mss, ?_, ?_⟩
      · exact ⟨t, o, [], t, os', mss, ⟨rfl, rfl, rfl⟩, htakes, (Nat.max_self t).symm, rfl, rfl⟩
      · simpa using hnil
    | crashed => cases h
    | asleep alarm next => cases h
    | all parts next => cases h

end Running

/-! ## One turn -/

/-- Of a call that takes as `takes` says, `r` is left when the world has come from `w` to `w'`: whatever
`r` takes from here, the call takes as a whole, with the marks left on the way in front. -/
def Passes (w : World) (takes : Nat → Outcome → List Mark → Prop) (r : Running) (w' : World) : Prop :=
  ∃ xs, w.Marked xs w' ∧ ∀ t' o ms, r.Takes w.now t' o ms → takes t' o (xs ++ ms)

/-- The same for several calls that are held at once, unless one has crashed. -/
def PassesAll (w : World) (takes : Nat → List Outcome → List (List Mark) → Prop)
    (rs? : Option (List Running)) (w' : World) : Prop :=
  ∃ xss, w.Marked xss.flatten w' ∧ ∀ rs, rs? = some rs → xss.length = rs.length ∧
    ∀ t' os mss, Running.TakesAll rs w.now t' os mss → takes t' os (List.zipWith (· ++ ·) xss mss)

/-- Nothing has happened. -/
theorem Passes.refl (w : World) (r : Running) : Passes w (r.Takes w.now) r w :=
  ⟨[], .refl w, fun _ _ _ h => h⟩

/-- Something that takes no time comes first. -/
theorem Passes.after {w w₁ w' : World} {takes takes₁ : Nat → Outcome → List Mark → Prop}
    {r : Running} {xs : List Mark} (hmarked : w.Marked xs w₁) (hnow : w₁.now = w.now)
    (htakes : ∀ t' o ms, takes₁ t' o ms → takes t' o (xs ++ ms)) (h : Passes w₁ takes₁ r w') :
    Passes w takes r w' := by
  obtain ⟨ys, hmarked', hrest⟩ := h
  refine ⟨xs ++ ys, hmarked.trans hmarked', fun t' o ms hr => ?_⟩
  rw [List.append_assoc]
  rw [hnow] at hrest
  exact htakes t' o (ys ++ ms) (hrest t' o ms hr)

theorem PassesAll.nil (w : World) :
    PassesAll w (fun t' os mss => t' = w.now ∧ os = [] ∧ mss = []) (some []) w := by
  refine ⟨[], .refl w, fun rs hrs => ?_⟩
  cases hrs
  exact ⟨rfl, fun t' os mss h => ⟨h.1, h.2.1, rfl⟩⟩

theorem PassesAll.cons {w w₁ w' : World} {takes : Nat → Outcome → List Mark → Prop}
    {takesAll : Nat → List Outcome → List (List Mark) → Prop} {r : Running}
    {rs? : Option (List Running)} (h : Passes w takes r w₁) (hnow : w₁.now = w.now)
    (hs : PassesAll w₁ takesAll rs? w') :
    PassesAll w (fun t' os mss => ∃ t₁ o ms t₂ os' mss', takes t₁ o ms ∧ takesAll t₂ os' mss' ∧
      t' = max t₁ t₂ ∧ os = o :: os' ∧ mss = ms :: mss') (rs?.map (r :: ·)) w' := by
  obtain ⟨xs, hmarked, htakes⟩ := h
  obtain ⟨xss, hmarked', htakes'⟩ := hs
  refine ⟨xs :: xss, hmarked.trans hmarked', fun rs hrs => ?_⟩
  obtain ⟨rs', hrs', rfl⟩ := Option.map_eq_some_iff.1 hrs
  obtain ⟨hlength, hrest⟩ := htakes' rs' hrs'
  rw [hnow] at hrest
  refine ⟨by rw [List.length_cons, hlength, List.length_cons], fun t' os mss hall => ?_⟩
  obtain ⟨t₁, o, ms, t₂, os', mss', hr, hrs, ht', rfl, rfl⟩ := hall
  exact ⟨t₁, o, xs ++ ms, t₂, os', _, htakes t₁ o ms hr, hrest t₂ os' mss' hrs, ht', rfl, rfl⟩

/-- One call has crashed, which ends the others. -/
theorem PassesAll.crashed {w w' : World} {takes : Nat → Outcome → List Mark → Prop}
    {takesAll : Nat → List Outcome → List (List Mark) → Prop} {r : Running}
    (h : Passes w takes r w') : PassesAll w takesAll none w' := by
  obtain ⟨xs, hmarked, -⟩ := h
  refine ⟨[xs], ?_, nofun⟩
  rwa [List.flatten_singleton]

/-- A call that holds several others, of which one has crashed. -/
theorem PassesAll.ends {w w' : World} {takesAll : Nat → List Outcome → List (List Mark) → Prop}
    (hs : PassesAll w takesAll none w') (takes : Nat → Outcome → List Mark → Prop) :
    Passes w takes .crashed w' := by
  obtain ⟨xss, hmarked, -⟩ := hs
  exact ⟨xss.flatten, hmarked, fun _ _ _ h => h.elim⟩

/-- How long a call takes that holds several others, which take as `takesAll` says. -/
def Joined (takesAll : Nat → List Outcome → List (List Mark) → Prop)
    (next : List Outcome → Dialogue) (t' : Nat) (o : Outcome) (ms : List Mark) : Prop :=
  ∃ t₁ os mss woven rest, takesAll t₁ os mss ∧ Woven mss woven ∧ ms = woven ++ rest ∧
    Dialogue.Takes (next os) t₁ t' o rest

/-- A call that holds several others waits for them. -/
theorem PassesAll.waits {w w' : World} {takesAll : Nat → List Outcome → List (List Mark) → Prop}
    {rs : List Running} (hs : PassesAll w takesAll (some rs) w') (next : List Outcome → Dialogue) :
    Passes w (Joined takesAll next) (.all rs next) w' := by
  obtain ⟨xss, hmarked, hrest⟩ := hs
  obtain ⟨hlength, htakes⟩ := hrest rs rfl
  refine ⟨xss.flatten, hmarked, fun t' o ms h => ?_⟩
  obtain ⟨t₁, os, mss, woven, rest, hall, hwoven, rfl, hnext⟩ := h
  have hsame : xss.length = mss.length := by rw [hlength, Running.length_takesAll hall]
  exact ⟨t₁, os, _, xss.flatten ++ woven, rest, htakes t₁ os mss hall, hwoven.ahead hsame,
    (List.append_assoc _ _ _).symm, hnext⟩

/-- All that a call holds have ended, and it goes on. -/
theorem PassesAll.joins {w w₁ w' : World}
    {takesAll : Nat → List Outcome → List (List Mark) → Prop} {rs : List Running}
    {os : List Outcome} {next : List Outcome → Dialogue} {r : Running}
    (hs : PassesAll w takesAll (some rs) w₁) (hos : Running.outcomes? rs = some os)
    (hnow : w₁.now = w.now) (h : Passes w₁ (Dialogue.Takes (next os) w₁.now) r w') :
    Passes w (Joined takesAll next) r w' := by
  obtain ⟨xss, hmarked, hrest⟩ := hs
  obtain ⟨hlength, htakes⟩ := hrest rs rfl
  obtain ⟨mss, hall, hwoven⟩ := Running.takesAll_of_outcomes hos w.now
  have hsame : xss.length = mss.length := by rw [hlength, Running.length_takesAll hall]
  refine h.after hmarked hnow fun t' o ms hnext => ?_
  have hahead := hwoven.ahead hsame
  rw [List.append_nil] at hahead
  rw [hnow] at hnext
  exact ⟨w.now, os, _, xss.flatten, ms, htakes w.now os mss hall, hahead, rfl, hnext⟩

mutual

/-- **A call runs until it ends or waits**, and what is left of it takes the rest. -/
theorem advance_passes : (d : Dialogue) → (w : World) →
    Passes w (Dialogue.Takes d w.now) (advance d w).1 (advance d w).2
  | .finish _, w => .refl w (.done _)
  | .crash, w => ⟨[], .refl w, fun _ _ _ h => h⟩
  | .look next, w =>
    (advance_passes (next w.usability) w).after (.refl w) rfl fun _ _ _ h => ⟨w.usability, h⟩
  | .clock next, w => advance_passes (next w.now) w
  | .note line next, w =>
    (advance_passes next (w.note line)).after (w.marked_note line) rfl fun _ _ _ h => h
  | .perform leaf batch next, w => by
    rw [advance_perform]
    refine (advance_passes _ _).after (w.marked_perform leaf batch) (w.now_perform leaf batch) ?_
    intro t' o ms h
    rw [w.now_perform leaf batch] at h
    exact ⟨_, ms, rfl, h⟩
  | .post endpoint batch next, w => by
    rw [advance_post]
    refine (advance_passes _ _).after (w.marked_post endpoint batch)
      (w.same_post endpoint batch).now ?_
    intro t' o ms h
    rw [(w.same_post endpoint batch).now] at h
    exact ⟨_, h⟩
  | .change changes next, w => by
    rw [advance]
    refine (advance_passes _ _).after (w.marked_change changes) (w.same_change changes).now ?_
    intro t' o ms h
    rw [(w.same_change changes).now] at h
    exact h
  | .record book attempt next, w =>
    (advance_passes next (w.record book attempt)).after (w.marked_record book attempt) rfl
      fun _ _ ms h => ⟨ms, rfl, h⟩
  | .enqueue queue events next, w => by
    rw [advance]
    refine (advance_passes _ _).after (w.marked_enqueue queue events)
      (w.now_enqueue queue events) ?_
    intro t' o ms h
    rw [w.now_enqueue queue events] at h
    exact ⟨_, h⟩
  | .pause span next, w => by
    rw [advance]
    split
    · rename_i hspan
      refine (advance_passes next w).after (.refl w) rfl fun t' o ms h => ?_
      show Dialogue.Takes next (w.now + span.onClock) t' o ms
      rwa [hspan, Nat.add_zero]
    · refine ⟨[], .of_aside rfl (fun _ => rfl) rfl, fun t' o ms h => ?_⟩
      have hlater : max w.now (w.now + span.onClock) = w.now + span.onClock := by omega
      show Dialogue.Takes next (w.now + span.onClock) t' o ms
      rw [← hlater]
      exact h
  | .all parts next, w => by
    have hparts := advanceAll_passes parts w
    have hnow := (advanceAll_drifts parts w).now
    rw [advance]
    split
    · rename_i w' hall
      rw [hall] at hparts
      exact hparts.ends _
    · rename_i rs w' hall
      rw [hall] at hparts hnow
      split
      · rename_i os hos
        exact hparts.joins hos hnow (advance_passes (next os) w')
      · exact hparts.waits next

theorem advanceAll_passes : (ds : List Dialogue) → (w : World) →
    PassesAll w (Dialogue.TakesAll ds w.now) (advanceAll ds w).1 (advanceAll ds w).2
  | [], w => .nil w
  | d :: ds, w => by
    have hd := advance_passes d w
    have hnow := (advance_drifts d w).now
    rw [advanceAll]
    split
    · rename_i w' hone
      rw [hone] at hd
      exact .crashed hd
    · rename_i r w' _ hone
      rw [hone] at hd hnow
      have hds := advanceAll_passes ds w'
      rw [hnow] at hds
      exact .cons hd hnow hds

end

mutual

/-- **The same for a call that goes on.** -/
theorem resume_passes : (r : Running) → (w : World) →
    Passes w (r.Takes w.now) (resume r w).1 (resume r w).2
  | .done _, w => .refl w (.done _)
  | .crashed, w => .refl w .crashed
  | .asleep alarm next, w => by
    rw [resume]
    split
    · rename_i hdue
      refine (advance_passes next w).after (.refl w) rfl fun t' o ms h => ?_
      show Dialogue.Takes next (max w.now alarm.instant) t' o ms
      rwa [Nat.max_eq_left hdue]
    · exact .refl w (.asleep alarm next)
  | .all parts next, w => by
    have hparts := resumeAll_passes parts w
    have hnow := (resumeAll_drifts parts w).now
    rw [resume]
    split
    · rename_i w' hall
      rw [hall] at hparts
      exact hparts.ends _
    · rename_i rs w' hall
      rw [hall] at hparts hnow
      split
      · rename_i os hos
        exact hparts.joins hos hnow (advance_passes (next os) w')
      · exact hparts.waits next

theorem resumeAll_passes : (rs : List Running) → (w : World) →
    PassesAll w (Running.TakesAll rs w.now) (resumeAll rs w).1 (resumeAll rs w).2
  | [], w => .nil w
  | r :: rs, w => by
    have hr := resume_passes r w
    have hnow := (resume_drifts r w).now
    rw [resumeAll]
    split
    · rename_i w' hone
      rw [hone] at hr
      exact .crashed hr
    · rename_i r' w' _ hone
      rw [hone] at hr hnow
      have hrs := resumeAll_passes rs w'
      rw [hnow] at hrs
      exact .cons hr hnow hrs

end

/-! ## Waiting for an alarm -/

namespace Running

mutual

/-- While no alarm of a call goes off, it takes the same; if it has ended, it has ended before. -/
theorem takes_sooner {t t₁ : Nat} (ht : t ≤ t₁) : (r : Running) → r.Sound →
    (∀ a, r.alarm? = some a → t₁ ≤ a.instant) → {t' : Nat} → {o : Outcome} → {ms : List Mark} →
    r.Takes t₁ t' o ms → ∃ s, r.Takes t s o ms ∧ t' = max s t₁
  | .done _, _, _, _, _, _, h => ⟨t, ⟨rfl, h.2⟩, by rw [h.1]; omega⟩
  | .asleep alarm next, _, halarm, t', o, ms, h => by
    have hat : t₁ ≤ alarm.instant := halarm alarm rfl
    have hnow : max t₁ alarm.instant = max t alarm.instant := by omega
    have hend : Dialogue.Takes next (max t₁ alarm.instant) t' o ms := h
    have hle := takes_le next hend
    rw [hnow] at hend
    exact ⟨t', hend, by omega⟩
  | .all parts next, hsound, halarm, t', o, ms, h => by
    obtain ⟨s₁, os, mss, woven, rest, hall, hwoven, hms, hnext⟩ := h
    obtain ⟨s, hall', hs⟩ := takesAll_sooner ht parts hsound.1 halarm hall
    -- one of the parts still waits, and ends after its alarm
    obtain ⟨a, ha⟩ := firstAlarm_of_sound parts hsound.1 hsound.2
    have hwaits := alarm_le_takesAll parts ha hall'
    have hfirst := halarm a ha
    have hsame : s₁ = s := by omega
    have hle := takes_le (next os) hnext
    rw [hsame] at hnext
    exact ⟨t', ⟨s, os, mss, woven, rest, hall', hwoven, hms, hnext⟩, by omega⟩

theorem takesAll_sooner {t t₁ : Nat} (ht : t ≤ t₁) : (rs : List Running) → SoundAll rs →
    (∀ a, firstAlarm? rs = some a → t₁ ≤ a.instant) → {t' : Nat} → {os : List Outcome} →
    {mss : List (List Mark)} → TakesAll rs t₁ t' os mss →
      ∃ s, TakesAll rs t s os mss ∧ t' = max s t₁
  | [], _, _, _, _, _, h => ⟨t, ⟨rfl, h.2⟩, by rw [h.1]; omega⟩
  | r :: rs, hsound, halarm, t', os, mss, h => by
    obtain ⟨s₁, o, ms, s₂, os', mss', hr, hrs, ht', hos, hmss⟩ := h
    have hfirst : ∀ a, r.alarm? = some a → t₁ ≤ a.instant := by
      intro a ha
      obtain ⟨b, hb, hle⟩ := Alarm.first?_le (y := firstAlarm? rs) (Or.inl ha)
      exact Nat.le_trans (halarm b hb) hle
    have hothers : ∀ a, firstAlarm? rs = some a → t₁ ≤ a.instant := by
      intro a ha
      obtain ⟨b, hb, hle⟩ := Alarm.first?_le (x := r.alarm?) (Or.inr ha)
      exact Nat.le_trans (halarm b hb) hle
    obtain ⟨s, hr', hs⟩ := takes_sooner ht r hsound.1 hfirst hr
    obtain ⟨s', hrs', hs'⟩ := takesAll_sooner ht rs hsound.2 hothers hrs
    exact ⟨max s s', ⟨s, o, ms, s', os', mss', hr', hrs', rfl, hos, hmss⟩, by omega⟩

/-- A call that waits does not end before its alarm. -/
theorem alarm_le_takes : (r : Running) → {a : Alarm} → r.alarm? = some a → {t t' : Nat} →
    {o : Outcome} → {ms : List Mark} → r.Takes t t' o ms → a.instant ≤ t'
  | .asleep _ next, _, ha, t, t', o, ms, h => by
    cases ha
    have hle := takes_le next (show Dialogue.Takes next _ t' o ms from h)
    omega
  | .all parts next, _, ha, _, _, _, _, h => by
    obtain ⟨_, os, _, _, _, hall, -, -, hnext⟩ := h
    exact Nat.le_trans (alarm_le_takesAll parts ha hall) (takes_le (next os) hnext)

theorem alarm_le_takesAll : (rs : List Running) → {a : Alarm} → firstAlarm? rs = some a →
    {t t' : Nat} → {os : List Outcome} → {mss : List (List Mark)} → TakesAll rs t t' os mss →
      a.instant ≤ t'
  | r :: rs, _, ha, _, _, _, _, h => by
    obtain ⟨_, _, _, _, _, _, hr, hrs, ht', -, -⟩ := h
    rcases Alarm.first?_eq_some ha with ha | ha
    · have hle := alarm_le_takes r ha hr
      omega
    · have hle := alarm_le_takesAll rs ha hrs
      omega

end

/-- **To wait until the first alarm changes nothing.** -/
theorem takes_of_later {r : Running} (hsound : r.Sound) {a : Alarm} (ha : r.alarm? = some a)
    {t t₁ : Nat} (ht : t ≤ t₁) (hle : t₁ ≤ a.instant) {t' : Nat} {o : Outcome} {ms : List Mark}
    (h : r.Takes t₁ t' o ms) : r.Takes t t' o ms := by
  have halarm : ∀ b, r.alarm? = some b → t₁ ≤ b.instant := by
    intro b hb
    rw [ha] at hb
    cases hb
    exact hle
  obtain ⟨s, hs, ht'⟩ := takes_sooner ht r hsound halarm h
  have hend := alarm_le_takes r ha hs
  have hsame : t' = s := by omega
  rwa [hsame]

end Running

/-! ## Seeing a call through -/

namespace World

/-- There are no queues and no tasks. -/
structure Alone (w : World) : Prop where
  /-- There are no queues. -/
  depots : w.depots = []
  /-- No task can go on. -/
  ready : w.ready = []
  /-- No task sleeps. -/
  sleeping : w.sleeping = []

theorem Steady.alone {w : World} (h : w.Steady) : w.Alone :=
  ⟨h.depots, h.ready, h.sleeping⟩

/-- Where there are no queues, every task is where it belongs. -/
theorem Alone.kept {w : World} (h : w.Alone) : ∃ cs, Kept w [] cs := by
  have hfresh : w.Fresh := by
    refine ⟨h.ready, h.sleeping, fun d hd => ?_⟩
    rw [h.depots] at hd
    cases hd
  obtain ⟨cs, hkept, -⟩ := hfresh.kept
  exact ⟨cs, hkept⟩

/-- A call brings no queues and no tasks with it. -/
theorem Alone.drifts {w w' : World} (h : w.Alone) (hd : Drifts w w') : w'.Alone := by
  induction hd with
  | aside hs =>
    exact ⟨hs.depots.trans h.depots, hs.ready.trans h.ready, hs.sleeping.trans h.sleeping⟩
  | enqueue w depot events =>
    have hnone : w.depots[depot]? = none := by rw [h.depots]; rfl
    simp only [World.enqueue, hnone]
    exact h
  | trans _ _ ih ih' => exact ih' (ih h)

theorem Alone.moveClock {w : World} (h : w.Alone) (instant : Nat) :
    (w.moveClock instant).Alone := by
  refine ⟨h.depots, ?_, ?_⟩
  · simp [World.moveClock, h.ready, h.sleeping]
  · simp [World.moveClock, h.sleeping]

theorem marked_moveClock (w : World) (instant : Nat) : w.Marked [] (w.moveClock instant) :=
  .of_aside rfl (fun _ => rfl) rfl

/-- What is left of a call has taken these marks to end, in a world that has come from `w` to `w'`; if
nothing else went on, all marks are its own. -/
def Took (w : World) (r : Running) (o : Outcome) (w' : World) : Prop :=
  ∃ ms, r.Takes w.now w'.now o ms ∧ (w.Alone → w.Marked ms w')

/-- A turn of the call comes first. -/
theorem Took.of_resume {w w' : World} {r : Running} {o : Outcome}
    (h : (resume r w).2.Took (resume r w).1 o w') : w.Took r o w' := by
  obtain ⟨ms, htakes, hmarked⟩ := h
  obtain ⟨xs, hturn, hrest⟩ := resume_passes r w
  have hdrifts := resume_drifts r w
  rw [hdrifts.now] at htakes
  exact ⟨xs ++ ms, hrest _ _ _ htakes, fun halone => hturn.trans (hmarked (halone.drifts hdrifts))⟩

/-- The clock moves first, and not past the alarm of the call. -/
theorem Took.of_clock {w w' : World} {r : Running} {o : Outcome} (hsound : r.Sound) {a : Alarm}
    (ha : r.alarm? = some a) {instant : Nat} (hnow : w.now ≤ instant) (hle : instant ≤ a.instant)
    (h : (w.moveClock instant).Took r o w') : w.Took r o w' := by
  obtain ⟨ms, htakes, hmarked⟩ := h
  refine ⟨ms, Running.takes_of_later hsound ha hnow hle htakes, fun halone => ?_⟩
  exact (w.marked_moveClock instant).trans (hmarked (halone.moveClock instant))

/-- What a turn of a call comes to: it has crashed, it has ended, or it waits for an alarm. -/
theorem turn_talk_ends (w : World) (r : Running) :
    (Errand.talk r).turn w = (.ok .crashed, (resume r w).2) ∨
    (∃ o, (resume r w).1 = .done o ∧ (Errand.talk r).turn w = (.ok (.ended o), (resume r w).2)) ∨
    ((resume r w).1.Sound ∧ (∃ a, (resume r w).1.alarm? = some a ∧ w.now < a.instant) ∧
      (Errand.talk r).turn w = (.error (.talk (resume r w).1), (resume r w).2)) := by
  rcases resume_waits r w with hcrashed | ⟨hsound, hlater⟩
  · left
    rw [Errand.turn, show resume r w = (.crashed, (resume r w).2) from Prod.ext hcrashed rfl]
  · rcases Running.alarm_of_sound _ hsound with ⟨o, hdone⟩ | ⟨a, ha⟩
    · refine Or.inr (Or.inl ⟨o, hdone, ?_⟩)
      rw [Errand.turn, show resume r w = (.done o, (resume r w).2) from Prod.ext hdone rfl]
    · have hlate := Running.lt_of_later _ hlater ha
      exact Or.inr (Or.inr ⟨hsound, ⟨a, ha, hlate⟩, turn_talk ha⟩)

/-- While a call waits the clock moves forward, and not past its alarm. -/
theorem clock_le_alarm {cs : Nat → Queue.Course} {w : World} (hk : Kept w [] cs) {r : Running}
    {a alarm : Alarm} (ha : r.alarm? = some a) (hmove : (Errand.talk r).canMove w = false)
    (hfirst : Alarm.first? (Errand.talk r).alarm? w.nextAlarm? = some alarm) :
    w.now < alarm.instant ∧ alarm.instant ≤ a.instant := by
  have hlate : w.now < a.instant := by simpa [canMove_talk ha] using hmove
  obtain ⟨b, hb, hle⟩ := Alarm.first?_le (y := w.nextAlarm?) (Or.inl ha)
  cases hb.symm.trans hfirst
  refine ⟨?_, hle⟩
  rcases Alarm.first?_eq_some hfirst with hown | hother
  · cases ha.symm.trans hown
    exact hlate
  · exact hk.lt_nextAlarm hother

/-- The turn of a call ends it, or it waits then and comes to its end later. -/
theorem exists_reaches_turn (w : World) (r : Running)
    (hwaits : ∀ a, (resume r w).1.Sound → (resume r w).1.alarm? = some a → w.now < a.instant →
      ∃ arrival w', Reaches (some arrival, w') false (resume r w).2 (.talk (resume r w).1)) :
    ∃ arrival w', Reaches (some arrival, w') true w (.talk r) := by
  rcases turn_talk_ends w r with hturn | ⟨o, -, hturn⟩ | ⟨hsound, ⟨a, ha, hlate⟩, hturn⟩
  · exact ⟨_, _, .last (by rw [awaitNext, hturn])⟩
  · exact ⟨_, _, .last (by rw [awaitNext, hturn])⟩
  · obtain ⟨arrival, w', hends⟩ := hwaits a hsound ha hlate
    exact ⟨arrival, w', .next (by rw [awaitNext, hturn]) hends⟩

/-- **A call that waits comes to its end**, whatever goes on meanwhile. -/
theorem exists_reaches {cs : Nat → Queue.Course} {w : World} (hk : Kept w [] cs) {r : Running}
    (hsound : r.Sound) {a : Alarm} (ha : r.alarm? = some a) :
    ∃ arrival w', Reaches (some arrival, w') false w (.talk r) := by
  -- the call goes on, or its alarm comes nearer, or there is less to be done before the clock moves
  induction r using Running.goes_wellFounded.induction generalizing w cs a with
  | _ r ihr =>
    have hdue : ∀ (w : World) cs, Kept w [] cs → (Errand.talk r).canMove w = true →
        ∃ arrival w', Reaches (some arrival, w') true w (.talk r) := by
      intro w cs hk hmove
      refine w.exists_reaches_turn r fun b hsound' hb hlate => ?_
      have hne : (resume r w).1 ≠ r := by
        intro heq
        rw [heq, ha] at hb
        cases hb
        rw [canMove_talk ha, decide_eq_true_eq] at hmove
        omega
      obtain ⟨cs', hkept⟩ := hk.talk r
      exact ihr _ ⟨hne, w, rfl⟩ hkept hsound' hb
    generalize hm : (w.wait r, w.bustle) = measure
    induction measure using
      (WellFounded.prod_lex Nat.lt_wfRel.wf Nat.lt_wfRel.wf).induction generalizing w cs with
    | _ measure ih =>
      subst hm
      generalize hres : awaitNext (false, w, .talk r) = next
      cases next_of_awaitNext hres with
      | task hready =>
        obtain ⟨cs', hkept, -⟩ := kept_happen (e := .turn) hk rfl
        obtain ⟨hnow, hless⟩ := bustle_turn hready
        have hwait : (w.happen .turn).wait r = w.wait r := by rw [wait, hnow, wait]
        obtain ⟨arrival, w', hends⟩ :=
          ih _ (by rw [← hwait]; exact Prod.Lex.right _ hless) hkept rfl
        exact ⟨arrival, w', .next hres hends⟩
      | wakes hready hmove =>
        obtain ⟨arrival, w', hends⟩ := hdue w cs hk hmove
        exact ⟨arrival, w', .next hres hends⟩
      | never hready hnone =>
        obtain ⟨b, hb, -⟩ := Alarm.first?_le (y := w.nextAlarm?) (Or.inl ha)
        cases hb.symm.trans hnone
      | @clock alarm hready hmove hfirst =>
        obtain ⟨cs', hkept, -⟩ := kept_happen hk (possible_clock hready hfirst)
        obtain ⟨hlt, hle⟩ := clock_le_alarm hk ha hmove hfirst
        cases hwoken : (Errand.talk r).canMove (w.happen (.clock alarm.instant)) with
        | true =>
          rw [hwoken] at hres
          obtain ⟨arrival, w', hends⟩ := hdue _ cs' hkept hwoken
          exact ⟨arrival, w', .next hres hends⟩
        | false =>
          rw [hwoken] at hres
          have hnearer : (w.happen (.clock alarm.instant)).wait r < w.wait r := by
            have hnow : (w.happen (.clock alarm.instant)).now = alarm.instant := rfl
            rw [wait, wait, hnow, ha, Option.elim_some]
            omega
          obtain ⟨arrival, w', hends⟩ := ih _ (Prod.Lex.left _ _ hnearer) hkept rfl
          exact ⟨arrival, w', .next hres hends⟩

/-- **Every call that begins comes to its end**, whatever goes on meanwhile. -/
theorem exists_sees {cs : Nat → Queue.Course} {w : World} (hk : Kept w [] cs) (d : Dialogue) :
    ∃ arrival w', w.Sees d arrival w' := by
  obtain ⟨arrival, w', hends⟩ := w.exists_reaches_turn (.ofDialogue d) fun a hsound ha _ => by
    obtain ⟨cs', hkept⟩ := hk.talk (.ofDialogue d)
    exact exists_reaches hkept hsound ha
  exact ⟨arrival, w', sees_iff_reaches.2 hends⟩

/-- **A call that is seen through has taken its time.** -/
theorem Reaches.takes {cs : Nat → Queue.Course} {w : World} (hk : Kept w [] cs) {woken : Bool}
    {r : Running} (hr : woken = false → r.Sound ∧ ∃ a, r.alarm? = some a) {o : Outcome} {w' : World}
    (h : Reaches (some (.ended o), w') woken w (.talk r)) : w.Took r o w' := by
  generalize he : Errand.talk r = e at h
  induction h generalizing r cs with
  | @last woken w e h =>
    subst he
    cases next_of_awaitNext h with
    | ends hlast =>
      rcases turn_talk_ends w r with hturn | ⟨o', hdone, hturn⟩ | ⟨hsound, halarm, hturn⟩
      · cases hturn.symm.trans hlast
      · cases hturn.symm.trans hlast
        refine .of_resume ?_
        rw [hdone]
        exact ⟨[], ⟨rfl, rfl, rfl⟩, fun _ => .refl _⟩
      · cases hturn.symm.trans hlast
  | @next woken woken' w w₁ e e' h _ ih =>
    subst he
    cases next_of_awaitNext h with
    | waits hwaits =>
      obtain ⟨cs', hkept⟩ := hk.talk r
      rcases turn_talk_ends w r with hturn | ⟨o', hdone, hturn⟩ | ⟨hsound, ⟨a, ha, -⟩, hturn⟩
      · cases hturn.symm.trans hwaits
      · cases hturn.symm.trans hwaits
      · cases hturn.symm.trans hwaits
        exact .of_resume (ih hkept (fun _ => ⟨hsound, a, ha⟩) rfl)
    | @task task rest hready =>
      -- another task takes its turn, which takes no time
      obtain ⟨cs', hkept, -⟩ := kept_happen (e := .turn) hk rfl
      obtain ⟨ms, htakes, -⟩ := ih hkept hr rfl
      rw [(bustle_turn hready).1] at htakes
      refine ⟨ms, htakes, fun halone => ?_⟩
      rw [halone.ready] at hready
      cases hready
    | wakes => exact ih hk (fun hwoken => by cases hwoken) rfl
    | @clock alarm hready hmove hfirst =>
      obtain ⟨hsound, a, ha⟩ := hr rfl
      obtain ⟨cs', hkept, -⟩ := kept_happen hk (possible_clock hready hfirst)
      obtain ⟨hlt, hle⟩ := clock_le_alarm hk ha hmove hfirst
      exact .of_clock hsound ha (Nat.le_of_lt hlt) hle (ih hkept (fun _ => ⟨hsound, a, ha⟩) rfl)

/-- The same for a call that begins. -/
theorem talk_takes {cs : Nat → Queue.Course} {w w' : World} (hk : Kept w [] cs) {d : Dialogue}
    {o : Outcome} (h : w.talk d = (some o, w')) :
    ∃ ms, Dialogue.Takes d w.now w'.now o ms ∧ (w.Alone → w.Marked ms w') := by
  have hends := sees_iff_reaches.1 (talk_eq_some_iff.1 h)
  obtain ⟨ms, htakes, hmarked⟩ := hends.takes hk fun hwoken => by cases hwoken
  have hbegun : Dialogue.Takes d (max w.now 0) w'.now o ms := htakes
  rw [Nat.max_zero] at hbegun
  exact ⟨ms, hbegun, hmarked⟩

/-- **A call that cannot crash comes to its end where nothing else goes on**, in its own time, and the
marks left are its own. -/
theorem seen_through {w : World} (hw : w.Steady) {d : Dialogue} (hd : Calm d) :
    ∃ o w' ms, w.talk d = (some o, w') ∧ Dialogue.Takes d w.now w'.now o ms ∧ w.Marked ms w' := by
  obtain ⟨xs, o, w', htalk, -, -⟩ := talk_leads hw hd
  obtain ⟨cs, hkept⟩ := hw.alone.kept
  obtain ⟨ms, htakes, hmarked⟩ := talk_takes hkept htalk
  exact ⟨o, w', ms, htalk, htakes, hmarked hw.alone⟩

end World

end EventRelay.Run
