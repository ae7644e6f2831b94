import EventRelay.Proofs.Run.Onward

/-!
# What a call does on its way

A call of a transport runs until it ends or has to wait.  On its way it asks leaves and endpoints,
writes to the log, and may store events in other queues, which may start their runners.

* `World.Same` — two worlds have the same queues, tasks and time.
* `Drifts` — events are stored in queues, and nothing else is done to queues and tasks;
  `resume_drifts` says that a call does no more than that.
* `Running.Waits` — a call has ended or crashed, or waits for an alarm that has not gone off;
  `resume_waits` says that this is how every turn of a call ends.
-/

namespace EventRelay.Run

/-! ## What a call does to queues and tasks -/

/-- Two worlds have the same queues, tasks and time. -/
structure World.Same (w w' : World) : Prop where
  /-- The time. -/
  now : w'.now = w.now
  /-- The queues. -/
  depots : w'.depots = w.depots
  /-- The tasks that can go on. -/
  ready : w'.ready = w.ready
  /-- The tasks that sleep. -/
  sleeping : w'.sleeping = w.sleeping

theorem World.Same.refl (w : World) : w.Same w := ⟨rfl, rfl, rfl, rfl⟩

theorem World.Same.trans {w w' w'' : World} (h : w.Same w') (h' : w'.Same w'') : w.Same w'' :=
  ⟨h'.now.trans h.now, h'.depots.trans h.depots, h'.ready.trans h.ready,
    h'.sleeping.trans h.sleeping⟩

/-- Nothing is done to queues and tasks but that events are stored. -/
inductive Drifts : World → World → Prop
  /-- Something else happens. -/
  | aside {w w' : World} (h : w.Same w') : Drifts w w'
  /-- Events are stored in a queue. -/
  | enqueue (w : World) (depot : Nat) (events : List Event) : Drifts w (w.enqueue depot events).2
  /-- One thing after another. -/
  | trans {w w' w'' : World} (h : Drifts w w') (h' : Drifts w' w'') : Drifts w w''

namespace World

theorem same_perform (w : World) (leaf : Nat) (batch : Batch) :
    w.Same (w.perform leaf batch).2 := by
  obtain ⟨_, _, hq⟩ := w.perform_frame leaf batch
  rw [hq]
  exact ⟨rfl, rfl, rfl, rfl⟩

theorem same_post (w : World) (endpoint : String) (batch : Batch) :
    w.Same (w.post endpoint batch).2 := by
  obtain ⟨_, hq⟩ := w.post_frame endpoint batch
  rw [hq]
  exact ⟨rfl, rfl, rfl, rfl⟩

theorem same_note (w : World) (line : Log.Line) : w.Same (w.note line) := ⟨rfl, rfl, rfl, rfl⟩

theorem same_record (w : World) (book : Nat) (attempt : Retry.Attempt) :
    w.Same (w.record book attempt) := ⟨rfl, rfl, rfl, rfl⟩

theorem same_change (w : World) (changes : List (String × Bool)) : w.Same (w.change changes) := by
  unfold change
  induction changes generalizing w with
  | nil => exact .refl w
  | cons c changes ih =>
    rw [List.foldl_cons]
    refine .trans ?_ (ih _)
    dsimp only
    split <;> exact ⟨rfl, rfl, rfl, rfl⟩

end World

mutual

/-- **What a call does**, until it ends or waits. -/
theorem advance_drifts : (d : Dialogue) → (w : World) → Drifts w (advance d w).2
  | .finish _, w => .aside (.refl w)
  | .crash, w => .aside (.refl w)
  | .look next, w => advance_drifts (next w.usability) w
  | .clock next, w => advance_drifts (next w.now) w
  | .note line next, w =>
    .trans (.aside (w.same_note line)) (advance_drifts next (w.note line))
  | .perform leaf batch next, w => by
    rw [advance_perform]
    exact .trans (.aside (w.same_perform leaf batch)) (advance_drifts _ _)
  | .post endpoint batch next, w => by
    rw [advance_post]
    exact .trans (.aside (w.same_post endpoint batch)) (advance_drifts _ _)
  | .change changes next, w =>
    .trans (.aside (w.same_change changes)) (advance_drifts next (w.change changes))
  | .record book attempt next, w =>
    .trans (.aside (w.same_record book attempt)) (advance_drifts next (w.record book attempt))
  | .enqueue queue events next, w => by
    rw [advance]
    exact .trans (.enqueue w queue events) (advance_drifts _ _)
  | .pause span next, w => by
    rw [advance]
    split
    · exact advance_drifts next w
    · exact .aside ⟨rfl, rfl, rfl, rfl⟩
  | .all parts next, w => by
    have hparts := advanceAll_drifts parts w
    rw [advance]
    split
    · rename_i w' hall
      rw [hall] at hparts
      exact hparts
    · rename_i rs w' hall
      rw [hall] at hparts
      split
      · exact .trans hparts (advance_drifts _ _)
      · exact hparts

theorem advanceAll_drifts : (ds : List Dialogue) → (w : World) → Drifts w (advanceAll ds w).2
  | [], w => .aside (.refl w)
  | d :: ds, w => by
    have hd := advance_drifts d w
    rw [advanceAll]
    split
    · rename_i w' hone
      rw [hone] at hd
      exact hd
    · rename_i r w' _ hone
      rw [hone] at hd
      exact .trans hd (advanceAll_drifts ds w')

end

mutual

/-- What a call does when it goes on. -/
theorem resume_drifts : (r : Running) → (w : World) → Drifts w (resume r w).2
  | .done _, w => .aside (.refl w)
  | .crashed, w => .aside (.refl w)
  | .asleep alarm next, w => by
    rw [resume]
    split
    · exact advance_drifts next w
    · exact .aside (.refl w)
  | .all parts next, w => by
    have hparts := resumeAll_drifts parts w
    rw [resume]
    split
    · rename_i w' hall
      rw [hall] at hparts
      exact hparts
    · rename_i rs w' hall
      rw [hall] at hparts
      split
      · exact .trans hparts (advance_drifts _ _)
      · exact hparts

theorem resumeAll_drifts : (rs : List Running) → (w : World) → Drifts w (resumeAll rs w).2
  | [], w => .aside (.refl w)
  | r :: rs, w => by
    have hr := resume_drifts r w
    rw [resumeAll]
    split
    · rename_i w' hone
      rw [hone] at hr
      exact hr
    · rename_i r' w' _ hone
      rw [hone] at hr
      exact .trans hr (resumeAll_drifts rs w')

end

/-! ## What a call waits for -/

namespace Running

mutual

/-- None of its alarms has gone off at this time. -/
def Later (now : Nat) : Running → Prop
  | .done _ => True
  | .crashed => True
  | .asleep alarm _ => now < alarm.instant
  | .all parts _ => LaterAll now parts

/-- None of the alarms of several calls has gone off. -/
def LaterAll (now : Nat) : List Running → Prop
  | [] => True
  | r :: rs => Later now r ∧ LaterAll now rs

end

mutual

theorem lt_of_later {now : Nat} {a : Alarm} :
    (r : Running) → r.Later now → r.alarm? = some a → now < a.instant
  | .asleep _ _, h, ha => by
    cases ha
    exact h
  | .all parts _, h, ha => lt_of_laterAll parts h ha

theorem lt_of_laterAll {now : Nat} {a : Alarm} :
    (rs : List Running) → LaterAll now rs → firstAlarm? rs = some a → now < a.instant
  | r :: rs, h, ha => by
    rcases Alarm.first?_eq_some ha with hr | hrs
    · exact lt_of_later r h.1 hr
    · exact lt_of_laterAll rs h.2 hrs

end

/-- It has crashed, or it has ended or waits, for alarms that have not gone off. -/
def Waits (now : Nat) (r : Running) : Prop :=
  r = .crashed ∨ (r.Sound ∧ r.Later now)

/-- The same for several calls; nothing if one has crashed. -/
def WaitsAll (now : Nat) : Option (List Running) → Prop
  | none => True
  | some rs => SoundAll rs ∧ LaterAll now rs

theorem Waits.all {now : Nat} {rs : List Running} (h : WaitsAll now (some rs))
    (hrs : outcomes? rs = none) (next : List Outcome → Dialogue) : Waits now (.all rs next) :=
  Or.inr ⟨⟨h.1, hrs⟩, h.2⟩

theorem WaitsAll.cons {now : Nat} {r : Running} {rs : Option (List Running)} (h : Waits now r)
    (hr : r ≠ .crashed) (hrs : WaitsAll now rs) : WaitsAll now (rs.map (r :: ·)) := by
  cases rs with
  | none => trivial
  | some rs =>
    obtain ⟨hsound, hlater⟩ := h.resolve_left hr
    exact ⟨⟨hsound, hrs.1⟩, ⟨hlater, hrs.2⟩⟩

/-- A call that waits has an alarm, which has not gone off. -/
theorem Waits.alarm {now : Nat} {r : Running} (h : Waits now r) (hcrashed : r ≠ .crashed)
    (hdone : ∀ outcome, r ≠ .done outcome) : ∃ a, r.alarm? = some a ∧ now < a.instant := by
  obtain ⟨hsound, hlater⟩ := h.resolve_left hcrashed
  rcases alarm_of_sound r hsound with ⟨outcome, rfl⟩ | ⟨a, ha⟩
  · exact absurd rfl (hdone outcome)
  · exact ⟨a, ha, lt_of_later r hlater ha⟩

end Running

/-- No time passes while events are stored. -/
theorem World.now_startRunner (w : World) (depot : Nat) : (w.startRunner depot).now = w.now := by
  unfold startRunner
  split
  · rfl
  · split <;> rfl

theorem World.now_enqueue (w : World) (depot : Nat) (events : List Event) :
    (w.enqueue depot events).2.now = w.now := by
  unfold enqueue
  split
  · rfl
  · split
    · rfl
    · dsimp only
      split
      · rw [now_startRunner]
        rfl
      · rfl

theorem Drifts.now {w w' : World} (h : Drifts w w') : w'.now = w.now := by
  induction h with
  | aside h => exact h.now
  | enqueue w depot events => exact w.now_enqueue depot events
  | trans _ _ ih ih' => exact ih'.trans ih

mutual

/-- A call runs until it ends or has to wait. -/
theorem advance_waits : (d : Dialogue) → (w : World) → Running.Waits w.now (advance d w).1
  | .finish _, _ => Or.inr ⟨trivial, trivial⟩
  | .crash, _ => Or.inl rfl
  | .look next, w => advance_waits (next w.usability) w
  | .clock next, w => advance_waits (next w.now) w
  | .note line next, w => advance_waits next (w.note line)
  | .perform leaf batch next, w => by
    rw [advance_perform, ← w.now_perform leaf batch]
    exact advance_waits _ _
  | .post endpoint batch next, w => by
    rw [advance_post, ← (w.same_post endpoint batch).now]
    exact advance_waits _ _
  | .change changes next, w => by
    rw [advance, ← (w.same_change changes).now]
    exact advance_waits _ _
  | .record book attempt next, w => advance_waits next (w.record book attempt)
  | .enqueue queue events next, w => by
    rw [advance, ← w.now_enqueue queue events]
    exact advance_waits _ _
  | .pause span next, w => by
    rw [advance]
    split
    · exact advance_waits next w
    · rename_i hspan
      exact Or.inr ⟨trivial, Nat.lt_add_of_pos_right (Nat.pos_of_ne_zero hspan)⟩
  | .all parts next, w => by
    have hparts := advanceAll_waits parts w
    have hnow := (advanceAll_drifts parts w).now
    rw [advance]
    split
    · exact Or.inl rfl
    · rename_i rs w' hall
      rw [hall] at hparts hnow
      split
      · rw [← hnow]
        exact advance_waits _ w'
      · rename_i hnone
        exact .all hparts hnone next

theorem advanceAll_waits : (ds : List Dialogue) → (w : World) →
    Running.WaitsAll w.now (advanceAll ds w).1
  | [], _ => ⟨trivial, trivial⟩
  | d :: ds, w => by
    have hd := advance_waits d w
    have hnow := (advance_drifts d w).now
    rw [advanceAll]
    split
    · trivial
    · rename_i r w' hr hone
      rw [hone] at hd hnow
      refine .cons hd hr ?_
      rw [← hnow]
      exact advanceAll_waits ds w'

end

mutual

/-- **A call that goes on runs until it ends or has to wait.** -/
theorem resume_waits : (r : Running) → (w : World) → Running.Waits w.now (resume r w).1
  | .done _, _ => Or.inr ⟨trivial, trivial⟩
  | .crashed, _ => Or.inl rfl
  | .asleep alarm next, w => by
    rw [resume]
    split
    · exact advance_waits next w
    · rename_i hlate
      exact Or.inr ⟨trivial, Nat.lt_of_not_le hlate⟩
  | .all parts next, w => by
    have hparts := resumeAll_waits parts w
    have hnow := (resumeAll_drifts parts w).now
    rw [resume]
    split
    · exact Or.inl rfl
    · rename_i rs w' hall
      rw [hall] at hparts hnow
      split
      · rw [← hnow]
        exact advance_waits _ w'
      · rename_i hnone
        exact .all hparts hnone next

theorem resumeAll_waits : (rs : List Running) → (w : World) →
    Running.WaitsAll w.now (resumeAll rs w).1
  | [], _ => ⟨trivial, trivial⟩
  | r :: rs, w => by
    have hr := resume_waits r w
    have hnow := (resume_drifts r w).now
    rw [resumeAll]
    split
    · trivial
    · rename_i r' w' hr' hone
      rw [hone] at hr hnow
      refine .cons hr hr' ?_
      rw [← hnow]
      exact resumeAll_waits rs w'

end

end EventRelay.Run
