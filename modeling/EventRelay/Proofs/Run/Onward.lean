import EventRelay.Proofs.Run.Scripts
import EventRelay.Run.Await
import Mathlib.Logic.Relation
import Mathlib.Order.WellFounded

/-!
# Running a call until it waits

`advance` runs a call in a world until it ends or has to wait.  In a steady world this is one of the
ways in which the call can go.

* `Running.rest` — what is left of a call under way, as a dialogue.
* `Running.Less` — a call has got further than another; no call can get further for ever
  (`Running.less_wellFounded`).
* `advance_onward` — **running a call makes steps of it**, and the leaves follow their scripts.
-/

namespace EventRelay.Run

open Dialogue Relation

/-! ## What is left of a call -/

namespace Running

mutual

/-- What is left of a call, as a dialogue. -/
def rest : Running → Dialogue
  | .done outcome => .finish outcome
  | .crashed => .crash
  | .asleep _ next => next
  | .all parts next => .all (rests parts) next

/-- What is left of several calls. -/
def rests : List Running → List Dialogue
  | [] => []
  | r :: rs => rest r :: rests rs

end

mutual

/-- How many parts of the call sleep. -/
def sleepers : Running → Nat
  | .done _ => 0
  | .crashed => 0
  | .asleep _ _ => 1
  | .all parts _ => sleepersAll parts

/-- How many parts of several calls sleep. -/
def sleepersAll : List Running → Nat
  | [] => 0
  | r :: rs => sleepers r + sleepersAll rs

end

mutual

/-- No part has crashed, and what waits for its parts has to. -/
def Sound : Running → Prop
  | .done _ => True
  | .crashed => False
  | .asleep _ _ => True
  | .all parts _ => SoundAll parts ∧ outcomes? parts = none

/-- Several calls are sound. -/
def SoundAll : List Running → Prop
  | [] => True
  | r :: rs => Sound r ∧ SoundAll rs

end

theorem rests_append (rs rs' : List Running) : rests (rs ++ rs') = rests rs ++ rests rs' := by
  induction rs with
  | nil => rfl
  | cons r rs ih => simp [rests, ih]

theorem sleepersAll_append (rs rs' : List Running) :
    sleepersAll (rs ++ rs') = sleepersAll rs + sleepersAll rs' := by
  induction rs with
  | nil => simp [sleepersAll]
  | cons r rs ih => simp [sleepersAll, ih, Nat.add_assoc]

theorem rests_of_outcomes? {rs : List Running} {os : List Outcome} (h : outcomes? rs = some os) :
    rests rs = os.map .finish := by
  induction rs generalizing os with
  | nil =>
    cases h
    rfl
  | cons r rs ih =>
    cases r with
    | done o =>
      obtain ⟨os', hos', rfl⟩ := Option.map_eq_some_iff.1 h
      rw [rests, rest, ih hos', List.map_cons]
    | _ => cases h

end Running

/-! ## Alarms -/

theorem Alarm.first?_eq_some {x y : Option Alarm} {a : Alarm} (h : Alarm.first? x y = some a) :
    x = some a ∨ y = some a := by
  cases x with
  | none => exact Or.inr h
  | some b =>
    cases y with
    | none => exact Or.inl h
    | some c =>
      have hfirst : b.first c = a := Option.some.inj h
      unfold Alarm.first at hfirst
      split at hfirst
      · exact Or.inr (by rw [hfirst])
      · exact Or.inl (by rw [hfirst])

namespace Running

mutual

/-- A call under way has ended or waits for an alarm. -/
theorem alarm_of_sound : (r : Running) → r.Sound → (∃ o, r = .done o) ∨ ∃ a, r.alarm? = some a
  | .done o, _ => Or.inl ⟨o, rfl⟩
  | .asleep a _, _ => Or.inr ⟨a, rfl⟩
  | .all parts _, h => Or.inr (firstAlarm_of_sound parts h.1 h.2)

theorem firstAlarm_of_sound : (rs : List Running) → SoundAll rs → outcomes? rs = none →
    ∃ a, firstAlarm? rs = some a
  | r :: rs, hs, hnone => by
    rw [firstAlarm?]
    rcases alarm_of_sound r hs.1 with ⟨o, rfl⟩ | ⟨a, ha⟩
    · have hrest : outcomes? rs = none := Option.map_eq_none_iff.1 hnone
      obtain ⟨a, ha⟩ := firstAlarm_of_sound rs hs.2 hrest
      exact ⟨a, by rw [ha]; rfl⟩
    · rw [ha]
      cases firstAlarm? rs with
      | none => exact ⟨a, rfl⟩
      | some b => exact ⟨a.first b, rfl⟩

end

end Running

/-! ## Getting further -/

/-- What follows a step and more steps comes after the beginning. -/
theorem after_of_leads {u : Usability} {d d₁ d₂ : Dialogue} {xs ys : List Exchange}
    (hs : Step u d xs d₁) (hl : Leads u d₁ ys d₂) : TransGen (After u) d₂ d := by
  induction hl generalizing d xs with
  | refl d₁ => exact .single ⟨xs, hs⟩
  | head hs' _ ih => exact (ih hs').tail ⟨xs, hs⟩

theorem after_of_leads_after {u : Usability} {d d₁ d₂ : Dialogue} {xs : List Exchange}
    (hl : Leads u d xs d₁) (h : TransGen (After u) d₂ d₁) : TransGen (After u) d₂ d := by
  induction hl with
  | refl d => exact h
  | head hs _ ih => exact (ih h).tail ⟨_, hs⟩

/-- One of several calls goes on, and then the others. -/
theorem leads_cons {u : Usability} {d d' : Dialogue} {ds ds' : List Dialogue}
    {xs ys : List Exchange} (hd : Leads u d xs d')
    (hds : ∀ before next, Leads u (.all (before ++ ds) next) ys (.all (before ++ ds') next))
    (before : List Dialogue) (next : List Outcome → Dialogue) :
    Leads u (.all (before ++ d :: ds) next) (xs ++ ys) (.all (before ++ d' :: ds') next) := by
  refine (hd.part before ds next).trans ?_
  rw [List.append_cons before d' ds, List.append_cons before d' ds']
  exact hds (before ++ [d']) next

/-- All parts of a call have ended, and it goes on from there. -/
theorem leads_join {u : Usability} {d d' : Dialogue} {rs : List Running} {os : List Outcome}
    {next : List Outcome → Dialogue} {xs ys : List Exchange} (hos : Running.outcomes? rs = some os)
    (hparts : Leads u d xs (.all (Running.rests rs) next)) (hnext : Leads u (next os) ys d') :
    Leads u d (xs ++ ys) d' ∧ TransGen (After u) d' d := by
  rw [Running.rests_of_outcomes? hos] at hparts
  have hjoin : Step u (.all (os.map .finish) next) [] (next os) := .join os next
  exact ⟨hparts.trans (.head hjoin hnext), after_of_leads_after hparts (after_of_leads hjoin hnext)⟩

namespace Running

/-- The call `r'` has got further than `r`: it has made a step, or with nothing left to do a part has
woken up and ended. -/
def Less (u : Usability) (r' r : Running) : Prop :=
  TransGen (After u) r'.rest r.rest ∨ (r'.rest = r.rest ∧ r'.sleepers < r.sleepers)

/-- One of several calls has got further. -/
def LessAll (u : Usability) (rs' rs : List Running) : Prop :=
  ∀ before next, Less u (.all (before ++ rs') next) (.all (before ++ rs) next)

variable {u : Usability} {r r' r'' : Running} {rs rs' : List Running}

/-- A call cannot get further for ever. -/
theorem less_wellFounded (u : Usability) : WellFounded (Less u) := by
  have hrest : WellFounded (TransGen (After u)) := WellFounded.transGen ⟨fun d => acc d⟩
  have hlex := InvImage.wf (fun r : Running => (r.rest, r.sleepers))
    (WellFounded.prod_lex hrest Nat.lt_wfRel.wf)
  refine Subrelation.wf (fun {r' r} h => ?_) hlex
  rcases h with hafter | ⟨heq, hlt⟩
  · exact Prod.Lex.left _ _ hafter
  · show Prod.Lex _ _ (r'.rest, r'.sleepers) (r.rest, r.sleepers)
    rw [heq]
    exact Prod.Lex.right _ hlt

theorem Less.trans (h : Less u r'' r') (h' : Less u r' r) : Less u r'' r := by
  rcases h with hafter | ⟨heq, hlt⟩
  · rcases h' with hafter' | ⟨heq', -⟩
    · exact Or.inl (hafter.trans hafter')
    · exact Or.inl (heq' ▸ hafter)
  · rcases h' with hafter' | ⟨heq', hlt'⟩
    · exact Or.inl (heq ▸ hafter')
    · exact Or.inr ⟨heq.trans heq', Nat.lt_trans hlt hlt'⟩

/-- A part that gets further takes the whole with it. -/
theorem Less.part (h : Less u r' r) (before after : List Running) (next : List Outcome → Dialogue) :
    Less u (.all (before ++ r' :: after) next) (.all (before ++ r :: after) next) := by
  rcases h with hafter | ⟨heq, hlt⟩
  · refine Or.inl ?_
    simp only [rest, rests_append, rests]
    refine hafter.lift (fun d => Dialogue.all (rests before ++ d :: rests after) next) ?_
    rintro d' d ⟨xs, hs⟩
    exact ⟨xs, .part _ _ next hs⟩
  · refine Or.inr ⟨?_, ?_⟩
    · simp only [rest, rests_append, rests, heq]
    · simp only [sleepers, sleepersAll_append, sleepersAll]
      omega

theorem LessAll.cons (h : r' = r ∨ Less u r' r) (hs : rs' = rs ∨ LessAll u rs' rs)
    (hone : Less u r' r ∨ LessAll u rs' rs) : LessAll u (r' :: rs') (r :: rs) := by
  intro before next
  have htail : LessAll u rs' rs → Less u (.all (before ++ r' :: rs') next)
      (.all (before ++ r' :: rs) next) := by
    intro htail
    rw [List.append_cons before r' rs', List.append_cons before r' rs]
    exact htail (before ++ [r']) next
  rcases hone with hone | hone
  · rcases hs with rfl | hs
    · exact hone.part before rs' next
    · exact (htail hs).trans (hone.part before rs next)
  · rcases h with rfl | h
    · exact htail hone
    · exact (htail hone).trans (h.part before rs next)

end Running

/-! ## Running until the call waits -/

/-- What it comes to to run the call `d` until it waits: `r` is what is left of it. -/
structure Onward (w : World) (d : Dialogue) (r : Running) (w' : World) : Prop where
  /-- It has not crashed. -/
  sound : r.Sound
  /-- The world is still steady. -/
  steady : w'.Steady
  /-- No time has passed. -/
  now : w'.now = w.now
  /-- It has made steps, and the world has followed the exchanges. -/
  run : ∃ xs, w.Follows xs w' ∧ Leads w.usability d xs r.rest
  /-- Unless the call had ended already it has got further. -/
  moves : (∃ o, d = .finish o ∧ r = .done o) ∨ TransGen (After w.usability) r.rest d

/-- The same for calls that are held at once. -/
structure OnwardAll (w : World) (ds : List Dialogue) (rs : List Running) (w' : World) : Prop where
  /-- None has crashed. -/
  sound : Running.SoundAll rs
  /-- The world is still steady. -/
  steady : w'.Steady
  /-- No time has passed. -/
  now : w'.now = w.now
  /-- They have made steps, and the world has followed the exchanges. -/
  run : ∃ xs, w.Follows xs w' ∧ ∀ before next,
    Leads w.usability (.all (before ++ ds) next) xs (.all (before ++ Running.rests rs) next)
  /-- Unless all had ended already one has got further. -/
  moves : (∃ os : List Outcome, ds = os.map .finish ∧ Running.outcomes? rs = some os) ∨
    ∀ before next, TransGen (After w.usability)
      (.all (before ++ Running.rests rs) next) (.all (before ++ ds) next)

theorem Onward.of_step {w w₁ w' : World} {d d₁ : Dialogue} {r : Running} {xs : List Exchange}
    (h : Onward w₁ d₁ r w') (hs : Step w.usability d xs d₁) (hf : w.Follows xs w₁)
    (hnow : w₁.now = w.now) : Onward w d r w' := by
  obtain ⟨ys, hfollows, hleads⟩ := h.run
  rw [hf.usability] at hleads
  exact ⟨h.sound, h.steady, h.now.trans hnow, ⟨xs ++ ys, hf.trans hfollows, .head hs hleads⟩,
    Or.inr (after_of_leads hs hleads)⟩

theorem OnwardAll.nil {w : World} (hw : w.Steady) : OnwardAll w [] [] w :=
  ⟨trivial, hw, rfl, ⟨[], .refl w, fun _ _ => .refl _⟩, Or.inl ⟨[], rfl, rfl⟩⟩

theorem OnwardAll.cons {w w₁ w' : World} {d : Dialogue} {ds : List Dialogue} {r : Running}
    {rs : List Running} (h : Onward w d r w₁) (hs : OnwardAll w₁ ds rs w') :
    OnwardAll w (d :: ds) (r :: rs) w' := by
  obtain ⟨xs, hfollows, hleads⟩ := h.run
  obtain ⟨ys, hfollows', hleads'⟩ := hs.run
  have hmoves := hs.moves
  rw [hfollows.usability] at hleads' hmoves
  refine ⟨⟨h.sound, hs.sound⟩, hs.steady, hs.now.trans h.now,
    ⟨xs ++ ys, hfollows.trans hfollows', leads_cons hleads hleads'⟩, ?_⟩
  rcases hmoves with ⟨os, hds, hos⟩ | hafter
  · rcases h.moves with ⟨o, rfl, rfl⟩ | hafter
    · exact Or.inl ⟨o :: os, by rw [hds]; rfl, by rw [Running.outcomes?, hos]; rfl⟩
    · -- the others had ended, and this one has got further
      have hrests : Running.rests rs = ds := by rw [hds, Running.rests_of_outcomes? hos]
      refine Or.inr fun before next => ?_
      rw [Running.rests, hrests]
      refine hafter.lift (fun d => Dialogue.all (before ++ d :: ds) next) ?_
      rintro d' d ⟨zs, hstep⟩
      exact ⟨zs, .part before ds next hstep⟩
  · refine Or.inr fun before next => after_of_leads_after (hleads.part before ds next) ?_
    rw [Running.rests, List.append_cons before r.rest ds,
      List.append_cons before r.rest (Running.rests rs)]
    exact hafter (before ++ [r.rest]) next

/-- All parts have ended, and the call goes on. -/
theorem Onward.of_join {w w₁ w' : World} {ds : List Dialogue} {rs : List Running}
    {os : List Outcome} {next : List Outcome → Dialogue} {r : Running} (hs : OnwardAll w ds rs w₁)
    (hos : Running.outcomes? rs = some os) (h : Onward w₁ (next os) r w') :
    Onward w (.all ds next) r w' := by
  obtain ⟨xs, hfollows, hleads⟩ := hs.run
  obtain ⟨ys, hfollows', hleads'⟩ := h.run
  rw [hfollows.usability] at hleads'
  obtain ⟨hrun, hafter⟩ := leads_join hos (hleads [] next) hleads'
  exact ⟨h.sound, h.steady, h.now.trans hs.now, ⟨xs ++ ys, hfollows.trans hfollows', hrun⟩,
    Or.inr hafter⟩

theorem Onward.of_parts {w w' : World} {ds : List Dialogue} {rs : List Running}
    (hs : OnwardAll w ds rs w') (hos : Running.outcomes? rs = none)
    (next : List Outcome → Dialogue) : Onward w (.all ds next) (.all rs next) w' := by
  obtain ⟨xs, hfollows, hleads⟩ := hs.run
  refine ⟨⟨hs.sound, hos⟩, hs.steady, hs.now, ⟨xs, hfollows, hleads [] next⟩, Or.inr ?_⟩
  rcases hs.moves with ⟨os, -, hsome⟩ | hafter
  · rw [hos] at hsome
    cases hsome
  · exact hafter [] next

/-! ### Answers of a steady world -/

namespace World

variable {w : World}

theorem answers_heard (line : Log.Line) (i : Nat) : answers (heard line) i = [] := by
  unfold heard
  split <;> rfl

theorem heardOf_heard (w : World) (line : Log.Line) : (heard line).filterMap w.heardOf = [] := by
  unfold heard
  split <;> rfl

theorem follows_note (w : World) (line : Log.Line) : w.Follows (heard line) (w.note line) :=
  .of_aside rfl rfl (answers_heard line) (heardOf_heard w line)

theorem Steady.perform (hw : w.Steady) (leaf : Nat) (batch : Batch) :
    (w.perform leaf batch).1.Steady ∧ (w.perform leaf batch).2.Steady := by
  obtain ⟨leaves, calls, hq⟩ := w.perform_frame leaf batch
  constructor
  · cases hp : w.leaves[leaf]? with
    | none =>
      simp only [World.perform, hp]
      exact ⟨rfl, rfl⟩
    | some p =>
      rw [w.perform_cue hp]
      exact hw.cues p (List.mem_of_getElem? hp) 0
  · exact hw.of_follows (w.follows_perform leaf batch) (by rw [hq]) (by rw [hq]) (by rw [hq])

theorem now_perform (w : World) (leaf : Nat) (batch : Batch) :
    (w.perform leaf batch).2.now = w.now := by
  obtain ⟨leaves, calls, hq⟩ := w.perform_frame leaf batch
  rw [hq]

theorem follows_record (w : World) (book : Nat) (attempt : Retry.Attempt) :
    w.Follows [] (w.record book attempt) :=
  .of_aside rfl rfl (fun _ => rfl) rfl

theorem follows_setAlarm (w : World) (instant : Nat) : w.Follows [] (w.setAlarm instant).2 :=
  .of_aside rfl rfl (fun _ => rfl) rfl

/-- A post touches nothing but the collector. -/
theorem post_frame (w : World) (endpoint : String) (batch : Batch) :
    ∃ collector, (w.post endpoint batch).2 = { w with collector } := by
  unfold World.post
  split
  · exact ⟨_, rfl⟩
  · split
    · dsimp only
      split <;> exact ⟨_, rfl⟩
    · exact ⟨_, rfl⟩

theorem follows_post (w : World) (endpoint : String) (batch : Batch) :
    w.Follows [⟨.post endpoint batch, Transport.outcomeOfReply (w.post endpoint batch).1⟩]
      (w.post endpoint batch).2 := by
  obtain ⟨collector, hq⟩ := w.post_frame endpoint batch
  exact .of_aside (by rw [hq]) (by rw [hq]) (by simp [answers]) (by simp [heardOf])

theorem follows_enqueue (w : World) (queue : Nat) (events : List Event) (outcome : Outcome) :
    w.Follows [⟨.enqueue queue events, outcome⟩] w :=
  .of_aside rfl rfl (by simp [answers]) (by simp [heardOf])

theorem enqueue_of_steady (hw : w.Steady) (queue : Nat) (events : List Event) :
    w.enqueue queue events = (.ok (), w) := by
  simp [World.enqueue, hw.depots]

end World

theorem Onward.of_pause {w : World} (hw : w.Steady) (span : Span) (next : Dialogue) :
    Onward w (.pause span next) (.asleep (w.setAlarm (w.now + span.onClock)).1 next)
      (w.setAlarm (w.now + span.onClock)).2 := by
  have hf := w.follows_setAlarm (w.now + span.onClock)
  have hs : Step w.usability (.pause span next) [] next := .pause span next
  exact ⟨trivial, hw.of_follows hf rfl rfl rfl, rfl, ⟨[], hf, hs.leads⟩, Or.inr (.single ⟨[], hs⟩)⟩

theorem advance_perform (leaf : Nat) (batch : Batch) (next : Cue → Dialogue) (w : World) :
    advance (.perform leaf batch next) w =
      advance (next (w.perform leaf batch).1) (w.perform leaf batch).2 := by
  rw [advance]

theorem advance_post (endpoint : String) (batch : Batch) (next : Reply → Dialogue) (w : World) :
    advance (.post endpoint batch next) w =
      advance (next (w.post endpoint batch).1) (w.post endpoint batch).2 := by
  rw [advance]

theorem advanceAll_cons {d : Dialogue} {ds : List Dialogue} {w : World}
    (h : (advance d w).1.Sound) :
    advanceAll (d :: ds) w = ((advanceAll ds (advance d w).2).1.map ((advance d w).1 :: ·),
      (advanceAll ds (advance d w).2).2) := by
  rw [advanceAll]
  generalize advance d w = result at h
  obtain ⟨r, w₁⟩ := result
  cases r with
  | crashed => exact False.elim h
  | _ => rfl

mutual

/-- **Running a call makes steps of it.** -/
theorem advance_onward : (d : Dialogue) → Calm d → (w : World) → w.Steady →
    Onward w d (advance d w).1 (advance d w).2
  | .finish o, _, w, hw =>
    ⟨trivial, hw, rfl, ⟨[], .refl w, .refl _⟩, Or.inl ⟨o, rfl, rfl⟩⟩
  | .look next, hd, w, hw =>
    (advance_onward (next w.usability) (hd _) w hw).of_step (.look next) (.refl w) rfl
  | .clock next, hd, w, hw =>
    (advance_onward (next w.now) (hd _) w hw).of_step (.clock next w.now) (.refl w) rfl
  | .note line next, hd, w, hw => by
    have hf := w.follows_note line
    exact (advance_onward next hd (w.note line) (hw.of_follows hf rfl rfl rfl)).of_step
      (.note line next) hf rfl
  | .perform leaf batch next, hd, w, hw => by
    obtain ⟨hcue, hw₁⟩ := hw.perform leaf batch
    rw [advance_perform]
    exact (advance_onward _ (hd _ hcue) _ hw₁).of_step (.perform leaf batch next _ hcue)
      (w.follows_perform leaf batch) (w.now_perform leaf batch)
  | .post endpoint batch next, hd, w, hw => by
    obtain ⟨collector, hq⟩ := w.post_frame endpoint batch
    have hf := w.follows_post endpoint batch
    have hw₁ : (w.post endpoint batch).2.Steady :=
      hw.of_follows hf (by rw [hq]) (by rw [hq]) (by rw [hq])
    rw [advance_post]
    exact (advance_onward (next (w.post endpoint batch).1) (hd _) _ hw₁).of_step
      (.post endpoint batch next _) hf (by rw [hq])
  | .change changes next, hd, w, hw => by
    obtain ⟨rfl, hnext⟩ := hd
    exact (advance_onward next hnext w hw).of_step (.change [] next) (.refl w) rfl
  | .record book attempt next, hd, w, hw => by
    have hf := w.follows_record book attempt
    exact (advance_onward next hd _ (hw.of_follows hf rfl rfl rfl)).of_step
      (.record book attempt next) hf rfl
  | .enqueue queue events next, hd, w, hw => by
    rw [advance, w.enqueue_of_steady hw]
    exact (advance_onward (next (.ok ())) (hd _) w hw).of_step
      (.enqueue queue events next (.ok ())) (w.follows_enqueue queue events _) rfl
  | .pause span next, hd, w, hw => by
    rw [advance]
    split
    · exact (advance_onward next hd w hw).of_step (.pause span next) (.refl w) rfl
    · exact .of_pause hw span next
  | .all parts next, hd, w, hw => by
    obtain ⟨rs, hrs, hs⟩ := advanceAll_onward parts hd.1 w hw
    rw [advance]
    rw [show advanceAll parts w = (some rs, (advanceAll parts w).2) from Prod.ext hrs rfl]
    dsimp only
    cases hos : Running.outcomes? rs with
    | some os => exact .of_join hs hos (advance_onward (next os) (hd.2 os) _ hs.steady)
    | none => exact .of_parts hs hos next

theorem advanceAll_onward : (ds : List Dialogue) → CalmAll ds → (w : World) → w.Steady →
    ∃ rs, (advanceAll ds w).1 = some rs ∧ OnwardAll w ds rs (advanceAll ds w).2
  | [], _, w, hw => ⟨[], rfl, .nil hw⟩
  | d :: ds, hd, w, hw => by
    have h := advance_onward d hd.1 w hw
    obtain ⟨rs, hrs, hs⟩ := advanceAll_onward ds hd.2 _ h.steady
    rw [advanceAll_cons h.sound, hrs]
    exact ⟨_, rfl, .cons h hs⟩

end

end EventRelay.Run
