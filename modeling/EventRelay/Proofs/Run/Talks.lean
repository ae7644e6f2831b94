import EventRelay.Proofs.Run.Onward
import EventRelay.Proofs.Run.Waiting

/-!
# Seeing a call through

`resume` goes on with a call that waits, and `await` moves the clock from one alarm to the next until
the call has ended.

* `resume_resumed` — going on with a call makes steps of it, and a call whose alarm has gone off gets
  further.
* `World.reaches_end` — **a call that cannot crash is seen through**: it comes to its end, by steps that
  the call can make, and the world has followed the exchanges made on the way.
* `World.talk_leads` — the same for a call that begins.
-/

namespace EventRelay.Run

open Dialogue Relation

/-! ## Going on with a call -/

/-- What it comes to to go on with the call `r`: `r'` is what is left of it. -/
structure Resumed (w : World) (r r' : Running) (w' : World) : Prop where
  /-- It has not crashed. -/
  sound : r'.Sound
  /-- The world is still steady. -/
  steady : w'.Steady
  /-- No time has passed. -/
  now : w'.now = w.now
  /-- It has made steps, and the world has followed the exchanges. -/
  run : ∃ xs, w.Follows xs w' ∧ Leads w.usability r.rest xs r'.rest
  /-- It is as it was, or has got further. -/
  moves : r' = r ∨ Running.Less w.usability r' r
  /-- It has got further if its alarm has gone off. -/
  due : ∀ a, r.alarm? = some a → a.instant ≤ w.now → Running.Less w.usability r' r

/-- The same for calls that are held at once. -/
structure ResumedAll (w : World) (rs rs' : List Running) (w' : World) : Prop where
  /-- None has crashed. -/
  sound : Running.SoundAll rs'
  /-- The world is still steady. -/
  steady : w'.Steady
  /-- No time has passed. -/
  now : w'.now = w.now
  /-- They have made steps, and the world has followed the exchanges. -/
  run : ∃ xs, w.Follows xs w' ∧ ∀ before next, Leads w.usability
    (.all (before ++ Running.rests rs) next) xs (.all (before ++ Running.rests rs') next)
  /-- They are as they were, or have got further. -/
  moves : rs' = rs ∨ Running.LessAll w.usability rs' rs
  /-- They have got further if one of their alarms has gone off. -/
  due : ∀ a, Running.firstAlarm? rs = some a → a.instant ≤ w.now →
    Running.LessAll w.usability rs' rs

theorem Resumed.refl {w : World} (hw : w.Steady) {r : Running} (hr : r.Sound)
    (hlate : ∀ a, r.alarm? = some a → ¬a.instant ≤ w.now) : Resumed w r r w :=
  ⟨hr, hw, rfl, ⟨[], .refl w, .refl _⟩, Or.inl rfl, fun a ha hle => absurd hle (hlate a ha)⟩

/-- A call that was asleep goes on. -/
theorem Onward.resumed {w w' : World} {alarm : Alarm} {d : Dialogue} {r' : Running}
    (h : Onward w d r' w') : Resumed w (.asleep alarm d) r' w' := by
  have hless : Running.Less w.usability r' (.asleep alarm d) := by
    rcases h.moves with ⟨o, rfl, rfl⟩ | hafter
    · exact Or.inr ⟨rfl, Nat.zero_lt_one⟩
    · exact Or.inl hafter
  exact ⟨h.sound, h.steady, h.now, h.run, Or.inr hless, fun _ _ _ => hless⟩

theorem ResumedAll.nil {w : World} (hw : w.Steady) : ResumedAll w [] [] w :=
  ⟨trivial, hw, rfl, ⟨[], .refl w, fun _ _ => .refl _⟩, Or.inl rfl, nofun⟩

theorem ResumedAll.cons {w w₁ w' : World} {r r' : Running} {rs rs' : List Running}
    (h : Resumed w r r' w₁) (hs : ResumedAll w₁ rs rs' w') :
    ResumedAll w (r :: rs) (r' :: rs') w' := by
  obtain ⟨xs, hfollows, hleads⟩ := h.run
  obtain ⟨ys, hfollows', hleads'⟩ := hs.run
  have husable := hfollows.usability
  rw [husable] at hleads'
  have hmoves : rs' = rs ∨ Running.LessAll w.usability rs' rs := by
    rw [← husable]
    exact hs.moves
  have hdue : ∀ a, Running.firstAlarm? rs = some a → a.instant ≤ w.now →
      Running.LessAll w.usability rs' rs := by
    rw [← husable, ← h.now]
    exact hs.due
  refine ⟨⟨h.sound, hs.sound⟩, hs.steady, hs.now.trans h.now,
    ⟨xs ++ ys, hfollows.trans hfollows', leads_cons hleads hleads'⟩, ?_, fun a ha hle => ?_⟩
  · rcases h.moves with rfl | hless
    · rcases hmoves with rfl | hlessAll
      · exact Or.inl rfl
      · exact Or.inr (.cons (Or.inl rfl) (Or.inr hlessAll) (Or.inr hlessAll))
    · exact Or.inr (.cons h.moves hmoves (Or.inl hless))
  · rcases Alarm.first?_eq_some ha with ha | ha
    · exact .cons h.moves hmoves (Or.inl (h.due a ha hle))
    · exact .cons h.moves hmoves (Or.inr (hdue a ha hle))

/-- All parts have ended, and the call goes on. -/
theorem Resumed.of_join {w w₁ w' : World} {rs rs' : List Running} {os : List Outcome}
    {next : List Outcome → Dialogue} {r' : Running} (hs : ResumedAll w rs rs' w₁)
    (hos : Running.outcomes? rs' = some os) (h : Onward w₁ (next os) r' w') :
    Resumed w (.all rs next) r' w' := by
  obtain ⟨xs, hfollows, hleads⟩ := hs.run
  obtain ⟨ys, hfollows', hleads'⟩ := h.run
  rw [hfollows.usability] at hleads'
  obtain ⟨hrun, hafter⟩ := leads_join hos (hleads [] next) hleads'
  exact ⟨h.sound, h.steady, h.now.trans hs.now, ⟨xs ++ ys, hfollows.trans hfollows', hrun⟩,
    Or.inr (Or.inl hafter), fun _ _ _ => Or.inl hafter⟩

theorem Resumed.of_parts {w w' : World} {rs rs' : List Running} (hs : ResumedAll w rs rs' w')
    (hos : Running.outcomes? rs' = none) (next : List Outcome → Dialogue) :
    Resumed w (.all rs next) (.all rs' next) w' := by
  obtain ⟨xs, hfollows, hleads⟩ := hs.run
  refine ⟨⟨hs.sound, hos⟩, hs.steady, hs.now, ⟨xs, hfollows, hleads [] next⟩, ?_, ?_⟩
  · rcases hs.moves with rfl | hless
    · exact Or.inl rfl
    · exact Or.inr (hless [] next)
  · exact fun a ha hle => hs.due a ha hle [] next

theorem resumeAll_cons {r : Running} {rs : List Running} {w : World} (h : (resume r w).1.Sound) :
    resumeAll (r :: rs) w = ((resumeAll rs (resume r w).2).1.map ((resume r w).1 :: ·),
      (resumeAll rs (resume r w).2).2) := by
  rw [resumeAll]
  generalize resume r w = result at h
  obtain ⟨r', w₁⟩ := result
  cases r' with
  | crashed => exact False.elim h
  | _ => rfl

mutual

/-- **Going on with a call makes steps of it.** -/
theorem resume_resumed : (r : Running) → r.Sound → Calm r.rest → (w : World) → w.Steady →
    Resumed w r (resume r w).1 (resume r w).2
  | .done _, hr, _, w, hw => .refl hw hr nofun
  | .asleep alarm next, hr, hd, w, hw => by
    rw [resume]
    split
    · exact (advance_onward next hd w hw).resumed
    · rename_i hlate
      refine .refl hw hr fun a ha => ?_
      cases ha
      exact hlate
  | .all parts next, hr, hd, w, hw => by
    obtain ⟨rs, hrs, hs⟩ := resumeAll_resumed parts hr.1 hd.1 w hw
    rw [resume]
    rw [show resumeAll parts w = (some rs, (resumeAll parts w).2) from Prod.ext hrs rfl]
    dsimp only
    cases hos : Running.outcomes? rs with
    | some os => exact .of_join hs hos (advance_onward (next os) (hd.2 os) _ hs.steady)
    | none => exact .of_parts hs hos next

theorem resumeAll_resumed : (rs : List Running) → Running.SoundAll rs →
    CalmAll (Running.rests rs) → (w : World) → w.Steady →
      ∃ rs', (resumeAll rs w).1 = some rs' ∧ ResumedAll w rs rs' (resumeAll rs w).2
  | [], _, _, w, hw => ⟨[], rfl, .nil hw⟩
  | r :: rs, hr, hd, w, hw => by
    have h := resume_resumed r hr.1 hd.1 w hw
    obtain ⟨rs', hrs', hs⟩ := resumeAll_resumed rs hr.2 hd.2 _ h.steady
    rw [resumeAll_cons h.sound, hrs']
    exact ⟨_, rfl, .cons h hs⟩

end

/-! ## Waiting for a call -/

namespace World

variable {w : World}

theorem Steady.moveClock (hw : w.Steady) (instant : Nat) :
    (w.moveClock instant).Steady ∧ w.Follows [] (w.moveClock instant) := by
  have hf : w.Follows [] (w.moveClock instant) := .of_aside rfl rfl (fun _ => rfl) rfl
  refine ⟨hw.of_follows hf rfl ?_ ?_, hf⟩
  · simp [World.moveClock, hw.sleeping]
  · simp [World.moveClock, hw.sleeping]

theorem canMove_talk {r : Running} {a : Alarm} (ha : r.alarm? = some a) (w : World) :
    (Errand.talk r).canMove w = decide (a.instant ≤ w.now) := by
  simp only [Errand.canMove, Errand.alarm?, ha]

/-- A call that waits for an alarm gets its turn: at once if the alarm has gone off, else when the
clock has moved there. -/
theorem awaitNext_alarm (hw : w.Steady) {r : Running} {a : Alarm} (ha : r.alarm? = some a) :
    ∃ w', w'.Steady ∧ w.Follows [] w' ∧ a.instant ≤ w'.now ∧
      awaitNext (false, w, .talk r) = .inl (true, w', .talk r) := by
  by_cases hdue : a.instant ≤ w.now
  · refine ⟨w, hw, .refl w, hdue, ?_⟩
    simp only [awaitNext, hw.ready, canMove_talk ha, hdue, decide_true, if_true]
  · obtain ⟨hw', hf⟩ := hw.moveClock a.instant
    refine ⟨w.moveClock a.instant, hw', hf, Nat.le_refl _, ?_⟩
    have hnext : Alarm.first? (Errand.talk r).alarm? w.nextAlarm? = some a := by
      simp [nextAlarm?, hw.sleeping, Errand.alarm?, ha, Alarm.first?]
    have hmoved : decide (a.instant ≤ (w.moveClock a.instant).now) = true :=
      decide_eq_true (Nat.le_refl _)
    simp only [awaitNext, hw.ready, canMove_talk ha, hdue, decide_false, hnext,
      if_neg Bool.false_ne_true, hmoved]

/-- A turn of a call that has to wait afterwards. -/
theorem turn_talk {r : Running} {a : Alarm} (ha : (resume r w).1.alarm? = some a) :
    (Errand.talk r).turn w = (.error (.talk (resume r w).1), (resume r w).2) := by
  rw [Errand.turn]
  generalize resume r w = result at ha
  obtain ⟨r', w'⟩ := result
  cases r' with
  | done o => cases ha
  | crashed => cases ha
  | _ => rfl

/-- **A call that cannot crash is seen through.** -/
theorem reaches_end {u : Usability} {r : Running} (hr : r.Sound) (hd : Calm r.rest) (hw : w.Steady)
    (hu : w.usability = u) {a : Alarm} (ha : r.alarm? = some a) (hdue : a.instant ≤ w.now) :
    ∃ xs o w', Reaches (some (.ended o), w') true w (.talk r) ∧ w.Follows xs w' ∧
      Leads u r.rest xs (.finish o) := by
  induction r using (Running.less_wellFounded u).induction generalizing w a with
  | _ r ih =>
    have hres := resume_resumed r hr hd w hw
    obtain ⟨xs, hfollows, hleads⟩ := hres.run
    have hless := hres.due a ha hdue
    rw [hu] at hleads hless
    rcases Running.alarm_of_sound _ hres.sound with ⟨o, hdone⟩ | ⟨b, hb⟩
    · rw [hdone] at hleads
      refine ⟨xs, o, (resume r w).2, .last ?_, hfollows, hleads⟩
      rw [awaitNext, Errand.turn]
      rw [show resume r w = (.done o, (resume r w).2) from Prod.ext hdone rfl]
    · obtain ⟨w₁, hw₁, hf₁, hdue₁, hwakes⟩ := awaitNext_alarm hres.steady hb
      have hu₁ : w₁.usability = u := by rw [hf₁.usability, hfollows.usability, hu]
      obtain ⟨ys, o, w', hends, hfollows', hleads'⟩ :=
        ih _ hless hres.sound (hd.leads hleads) hw₁ hu₁ hb hdue₁
      refine ⟨xs ++ ([] ++ ys), o, w', .next ?_ (.next hwakes hends),
        hfollows.trans (hf₁.trans hfollows'), hleads.trans hleads'⟩
      rw [awaitNext, turn_talk hb]

/-- **A call that begins is seen through**, by steps that it can make. -/
theorem talk_leads (hw : w.Steady) {d : Dialogue} (hd : Calm d) :
    ∃ xs o w', w.talk d = (some o, w') ∧ w.Follows xs w' ∧
      Leads w.usability d xs (.finish o) := by
  obtain ⟨xs, o, w', hends, hfollows, hleads⟩ :=
    reaches_end (r := .ofDialogue d) trivial hd hw rfl rfl (Nat.zero_le _)
  exact ⟨xs, o, w', talk_eq_some_iff.2 (sees_iff_reaches.2 hends), hfollows, hleads⟩

end World

end EventRelay.Run
