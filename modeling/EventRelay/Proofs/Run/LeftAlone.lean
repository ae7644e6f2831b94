import EventRelay.Proofs.Queue.Permits
import EventRelay.Proofs.Run.Upkeep
import Mathlib.Algebra.Ring.Nat

/-!
# A world that is left alone

When nobody calls on the world its tasks take their turns, and the clock moves to the next alarm when
they all wait.  Runners go on ticking for ever, but a delivery comes to its end.

* `Running.Goes` — a call has gone on; no call goes on for ever (`Running.goes_wellFounded`), whatever
  the world answers it.
* `World.bustle` — how much can be done before the clock has to move; every turn does some of it
  (`World.spares_turn`).
* `World.leave` — the world after it was left alone for so many turns; this is a history
  (`World.exists_history_leave`).
* `Kept.lands` — **every delivery comes to its end**: some time later the batch is out of flight.
-/

namespace EventRelay.Run

open Queue

/-! ## Calls that go on -/

namespace Running

/-- In some world the call goes on, and becomes another. -/
def Goes (r' r : Running) : Prop :=
  r' ≠ r ∧ ∃ w, (resume r w).1 = r'

/-- The same for several calls that are held at once. -/
def GoesAll (rs' rs : List Running) : Prop :=
  rs' ≠ rs ∧ ∃ w, (resumeAll rs w).1 = some rs'

theorem acc_done (o : Outcome) : Acc Goes (.done o) := by
  refine Acc.intro _ ?_
  rintro _ ⟨hne, w, rfl⟩
  exact absurd rfl hne

theorem acc_crashed : Acc Goes .crashed := by
  refine Acc.intro _ ?_
  rintro _ ⟨hne, w, rfl⟩
  exact absurd rfl hne

theorem acc_asleep (alarm : Alarm) {next : Dialogue} (h : ∀ w, Acc Goes (advance next w).1) :
    Acc Goes (.asleep alarm next) := by
  refine Acc.intro _ ?_
  rintro _ ⟨hne, w, rfl⟩
  rw [resume] at hne ⊢
  split
  · exact h w
  · rename_i hlate
    rw [if_neg hlate] at hne
    exact absurd rfl hne

theorem acc_cons {r : Running} (hr : Acc Goes r) {rs : List Running} (hrs : Acc GoesAll rs) :
    Acc GoesAll (r :: rs) := by
  induction hr generalizing rs with
  | intro r _ ihr =>
    induction hrs with
    | intro rs hrs ihrs =>
      refine Acc.intro _ ?_
      rintro rs'' ⟨hne, w, hgo⟩
      rw [resumeAll] at hgo
      split at hgo
      · cases hgo
      · rename_i r' w' _ hone
        obtain ⟨rs', hrest, rfl⟩ := Option.map_eq_some_iff.1 hgo
        have hr' : r' ≠ r → Goes r' r := fun h => ⟨h, w, by rw [hone]⟩
        have hrs' : rs' ≠ rs → GoesAll rs' rs := fun h => ⟨h, w', hrest⟩
        by_cases heq : rs' = rs
        · subst heq
          exact ihr r' (hr' fun h => hne (by rw [h])) (Acc.intro _ hrs)
        · by_cases heq' : r' = r
          · subst heq'
            exact ihrs rs' (hrs' heq)
          · exact ihr r' (hr' heq') (hrs rs' (hrs' heq))

theorem acc_all {parts : List Running} (hparts : Acc GoesAll parts)
    {next : List Outcome → Dialogue} (hnext : ∀ os w, Acc Goes (advance (next os) w).1) :
    Acc Goes (.all parts next) := by
  induction hparts with
  | intro parts _ ih =>
    refine Acc.intro _ ?_
    rintro _ ⟨hne, w, rfl⟩
    rw [resume] at hne ⊢
    split
    · exact acc_crashed
    · rename_i parts' w' hall
      cases hos : outcomes? parts' with
      | some os => exact hnext os w'
      | none =>
        rw [hall] at hne
        simp only [hos] at hne
        exact ih parts' ⟨fun h => hne (by rw [h]), w, by rw [hall]⟩

-- A call is a tree without infinite branches.  It goes on to a branch, or its parts go on.
mutual

theorem acc_advance : (d : Dialogue) → (w : World) → Acc Goes (advance d w).1
  | .finish o, _ => acc_done o
  | .crash, _ => acc_crashed
  | .look next, w => acc_advance (next w.usability) w
  | .clock next, w => acc_advance (next w.now) w
  | .note line next, w => acc_advance next (w.note line)
  | .perform leaf batch next, w => by
    rw [advance_perform]
    exact acc_advance _ _
  | .post endpoint batch next, w => by
    rw [advance_post]
    exact acc_advance _ _
  | .change changes next, w => acc_advance next (w.change changes)
  | .record book attempt next, w => acc_advance next (w.record book attempt)
  | .enqueue queue events next, w => by
    rw [advance]
    exact acc_advance _ _
  | .pause span next, w => by
    rw [advance]
    split
    · exact acc_advance next w
    · exact acc_asleep _ (acc_advance next)
  | .all parts next, w => by
    have hparts := acc_advanceAll parts w
    rw [advance]
    split
    · exact acc_crashed
    · rename_i rs w' hall
      split
      · exact acc_advance _ w'
      · exact acc_all (hparts rs (by rw [hall])) fun os => acc_advance (next os)

theorem acc_advanceAll : (ds : List Dialogue) → (w : World) →
    ∀ rs, (advanceAll ds w).1 = some rs → Acc GoesAll rs
  | [], _, rs, h => by
    cases h
    refine Acc.intro _ ?_
    rintro _ ⟨hne, w, h⟩
    cases h
    exact absurd rfl hne
  | d :: ds, w, rs, h => by
    have hd := acc_advance d w
    rw [advanceAll] at h
    split at h
    · cases h
    · rename_i r w' _ hone
      rw [hone] at hd
      obtain ⟨rs', hrest, rfl⟩ := Option.map_eq_some_iff.1 h
      exact acc_cons hd (acc_advanceAll ds w' rs' hrest)

end

mutual

theorem acc_goes : (r : Running) → Acc Goes r
  | .done o => acc_done o
  | .crashed => acc_crashed
  | .asleep alarm next => acc_asleep alarm (acc_advance next)
  | .all parts next => acc_all (acc_goesAll parts) fun os => acc_advance (next os)

theorem acc_goesAll : (rs : List Running) → Acc GoesAll rs
  | [] => acc_advanceAll [] {} [] rfl
  | r :: rs => acc_cons (acc_goes r) (acc_goesAll rs)

end

/-- **No call goes on for ever.** -/
theorem goes_wellFounded : WellFounded Goes := ⟨acc_goes⟩

end Running

/-! ## What can be done before the clock moves -/

/-- A runner may put a batch into flight when it ticks. -/
def Task.weight : Task → Nat
  | .runner _ _ _ => 2
  | .delivery _ _ _ => 1

namespace World

/-- How many queues do not run. -/
def idle (w : World) : Nat :=
  w.depots.countP fun d => !d.queue.running

/-- How much can be done before the clock has to move, at most.  A queue that does not run counts,
since a delivery may store events in it, which starts its runner. -/
def bustle (w : World) : Nat :=
  3 * w.idle + (w.ready.map Task.weight).sum

/-- No time passes from one world to the other, no task is lost, and not much more can be done. -/
structure Spares (w w' : World) (more : Nat) : Prop where
  /-- The time. -/
  now : w'.now = w.now
  /-- The number of queues. -/
  depots : w'.depots.length = w.depots.length
  /-- The tasks that can go on. -/
  ready : w.ready <+: w'.ready
  /-- The tasks that sleep. -/
  sleeping : w.sleeping <+: w'.sleeping
  /-- What can be done. -/
  bustle : w'.bustle ≤ w.bustle + more

variable {w w' w'' : World} {n : Nat} {d : Depot}

theorem Spares.trans {more more' : Nat} (h : w.Spares w' more) (h' : w'.Spares w'' more') :
    w.Spares w'' (more + more') := by
  refine ⟨h'.now.trans h.now, h'.depots.trans h.depots, h.ready.trans h'.ready,
    h.sleeping.trans h'.sleeping, ?_⟩
  have hle := h.bustle
  have hle' := h'.bustle
  omega

theorem Spares.refl (w : World) : w.Spares w 0 :=
  ⟨rfl, rfl, List.prefix_refl _, List.prefix_refl _, Nat.le_refl _⟩

theorem Spares.same {more : Nat} (h : w.Spares w' more) (hs : w'.Same w'') : w.Spares w'' more := by
  refine ⟨hs.now.trans h.now, ?_, ?_, ?_, ?_⟩
  · rw [hs.depots]
    exact h.depots
  · rw [hs.ready]
    exact h.ready
  · rw [hs.sleeping]
    exact h.sleeping
  · have hle := h.bustle
    rw [World.bustle, idle, ← hs.depots, ← hs.ready] at hle
    exact hle

/-- A queue is replaced, and tasks are started. -/
theorem spares_edit (hd : w.depots[n]? = some d) {q : Queue} {new : List Task} {more : Nat}
    (h : (if q.running then 0 else 3) + (new.map Task.weight).sum ≤
      (if d.queue.running then 0 else 3) + more) :
    w.Spares (w.edit n q new) more := by
  refine ⟨rfl, List.length_modify _ _ _, List.prefix_append _ _, List.prefix_refl _, ?_⟩
  have hidle : (w.edit n q new).idle + (if !d.queue.running then 1 else 0) =
      w.idle + (if !q.running then 1 else 0) :=
    countP_modify (p := fun d : Depot => !d.queue.running) hd fun d => { d with queue := q }
  have hready : ((w.edit n q new).ready.map Task.weight).sum =
      (w.ready.map Task.weight).sum + (new.map Task.weight).sum := by
    rw [← List.sum_append, ← List.map_append]
    rfl
  rw [World.bustle, World.bustle, hready]
  cases hr : q.running <;> cases hr' : d.queue.running <;> simp [hr, hr'] at h hidle <;> omega

/-- Storing events may start a runner, in a queue that did not run. -/
theorem spares_enqueue (w : World) (n : Nat) (events : List Event) :
    w.Spares (w.enqueue n events).2 0 := by
  cases hd : w.depots[n]? with
  | none =>
    simp only [enqueue, hd]
    exact .refl w
  | some d =>
    rcases enqueue_cases hd events with ⟨e, -, hstay⟩ | ⟨q, hpush, ⟨-, hsame⟩ | ⟨-, hsame⟩⟩
    · rw [hstay]
      exact .refl w
    · refine Spares.same (spares_edit hd ?_) hsame
      rw [← show q.running = d.queue.running from congrArg Crew.running (crew_push hpush).1]
      unfold Queue.start
      split
      · exact Nat.le_refl _
      · split
        · exact Nat.le_refl _
        · exact Nat.le_succ 2
    · refine Spares.same (spares_edit hd ?_) hsame
      rw [← show q.running = d.queue.running from congrArg Crew.running (crew_push hpush).1]
      exact Nat.le_refl _

theorem Drifts.spares (h : Drifts w w') : w.Spares w' 0 := by
  induction h with
  | aside h => exact (Spares.refl _).same h
  | enqueue w n events => exact w.spares_enqueue n events
  | trans _ _ ih ih' => exact ih.trans ih'

theorem spares_putToSleep (w : World) (task : Task) : w.Spares (w.putToSleep task) 0 :=
  ⟨rfl, rfl, List.prefix_refl _, List.prefix_append _ _, Nat.le_refl _⟩

/-- A tick puts at most one batch into flight. -/
theorem spares_turnRunner (w : World) (n id : Nat) : w.Spares (w.turnRunner n id) 1 := by
  have hstay : w.Spares w 1 := ⟨rfl, rfl, List.prefix_refl _, List.prefix_refl _, Nat.le_succ _⟩
  cases hd : w.depots[n]? with
  | none =>
    simp only [turnRunner, hd]
    exact hstay
  | some d =>
    cases hr : d.queue.runners.find? fun r => r.id == id with
    | none =>
      simp only [turnRunner, hd, hr]
      exact hstay
    | some runner =>
      obtain ⟨usable, order, hsame⟩ := same_turnRunner hd hr
      have hrunning : (d.queue.tick id w.now usable).2.running = d.queue.running :=
        congrArg Crew.running (d.queue.crew_tick id w.now usable)
      refine ((spares_edit hd ?_).trans (spares_putToSleep _ _)).same hsame
      rw [hrunning]
      refine Nat.add_le_add_left ?_ _
      cases (d.queue.tick id w.now usable).1 <;> simp [launching, Task.weight]

theorem spares_settleDelivery (w : World) (n ticket : Nat) (outcome : Outcome) :
    w.Spares (w.settleDelivery n ticket outcome) 0 := by
  cases hd : w.depots[n]? with
  | none =>
    simp only [settleDelivery, hd]
    exact .refl w
  | some d =>
    have hrunning : (d.queue.settle ticket outcome).2.running = d.queue.running :=
      congrArg Crew.running (d.queue.crew_settle ticket outcome)
    have hsame := same_settleDelivery hd ticket outcome
    have hedit : (w.edit n (d.queue.settle ticket outcome).2 []).Same
        (w.settleDelivery n ticket outcome) :=
      ⟨hsame.now, hsame.depots, hsame.ready.trans (List.append_nil _).symm, hsame.sleeping⟩
    refine Spares.same (spares_edit hd ?_) hedit
    rw [hrunning]
    exact Nat.le_refl _

/-- What is left of a delivery after its turn. -/
theorem turnDelivery_cases (w : World) (n ticket : Nat) (state : Running) :
    (∃ outcome, w.turnDelivery n ticket state =
      (resume state w).2.settleDelivery n ticket outcome) ∨
    w.turnDelivery n ticket state =
      (resume state w).2.putToSleep (.delivery n ticket (resume state w).1) := by
  unfold turnDelivery
  split
  · rename_i outcome w' h
    rw [h]
    exact Or.inl ⟨outcome, rfl⟩
  · rename_i w' h
    rw [h]
    exact Or.inl ⟨.error crashError, rfl⟩
  · rename_i state' w' _ _ h
    rw [h]
    exact Or.inr rfl

theorem spares_turnDelivery (w : World) (n ticket : Nat) (state : Running) :
    w.Spares (w.turnDelivery n ticket state) 0 := by
  have hdrift := Drifts.spares (resume_drifts state w)
  rcases w.turnDelivery_cases n ticket state with ⟨outcome, hturn⟩ | hturn
  · rw [hturn]
    exact hdrift.trans (spares_settleDelivery _ n ticket outcome)
  · rw [hturn]
    exact hdrift.trans (spares_putToSleep _ _)

/-- **A turn** takes no time, and leaves less to be done than the task that took it stood for. -/
theorem spares_turn (w : World) (task : Task) : w.Spares (w.turn task) (task.weight - 1) := by
  cases task with
  | runner n id order => exact w.spares_turnRunner n id
  | delivery n ticket state => exact w.spares_turnDelivery n ticket state

/-! ## Leaving the world alone -/

/-- What the world does next of its own accord: the task that is first in line takes its turn, or if
there is none the clock moves to the next alarm. -/
def own? (w : World) : Option Happening :=
  match w.ready with
  | _ :: _ => some .turn
  | [] => w.nextAlarm?.map fun a => .clock a.instant

/-- The world after so many things it does of its own accord. -/
def leave (w : World) : Nat → World
  | 0 => w
  | k + 1 =>
    match w.own? with
    | none => w
    | some e => (w.happen e).leave k

theorem possible_own {e : Happening} (h : w.own? = some e) : w.possible e = true := by
  unfold own? at h
  split at h
  · cases h
    rfl
  · rename_i hr
    obtain ⟨a, ha, rfl⟩ := Option.map_eq_some_iff.1 h
    exact possible_clock (x := none) hr ha

/-- To leave the world alone is to follow a history. -/
theorem exists_history_leave (w : World) (k : Nat) :
    ∃ hs, w.Possible hs ∧ w.leave k = w.follow hs := by
  induction k generalizing w with
  | zero => exact ⟨[], trivial, rfl⟩
  | succ k ih =>
    rw [leave]
    cases he : w.own? with
    | none => exact ⟨[], trivial, rfl⟩
    | some e =>
      obtain ⟨hs, hps, heq⟩ := ih (w.happen e)
      exact ⟨e :: hs, ⟨possible_own he, hps⟩, heq⟩

/-- How long the call has to wait. -/
def wait (w : World) (state : Running) : Nat :=
  (state.alarm?.elim 0 Alarm.instant) - w.now

end World

variable {w : World} {cs : Nat → Course} {n ticket : Nat} {state : Running}

/-- The first of many alarms is one of them. -/
theorem foldl_first?_mem {f : Task → Option Alarm} {a : Alarm} (tasks : List Task)
    (acc : Option Alarm)
    (h : tasks.foldl (fun acc t => Alarm.first? acc (f t)) acc = some a) :
    acc = some a ∨ ∃ t ∈ tasks, f t = some a := by
  induction tasks generalizing acc with
  | nil => exact Or.inl h
  | cons t tasks ih =>
    rcases ih _ h with hfirst | ⟨t', ht', ha⟩
    · rcases Alarm.first?_eq_some hfirst with hacc | ht
      · exact Or.inl hacc
      · exact Or.inr ⟨t, List.mem_cons_self, ht⟩
    · exact Or.inr ⟨t', List.mem_cons_of_mem t ht', ha⟩

/-- No alarm of a task that sleeps has gone off. -/
theorem Kept.lt_alarm (h : Kept w [] cs) {t : Task} (ht : t ∈ w.sleeping) {a : Alarm}
    (ha : w.alarm? t = some a) : w.now < a.instant := by
  cases t with
  | runner m id order =>
    simp only [World.alarm?, Option.bind_eq_bind, Option.bind_eq_some_iff] at ha
    obtain ⟨d, hd, r, hr, due, hdue, hsome⟩ := ha
    cases hsome
    have hid : r.id = id := by simpa using List.find?_some hr
    have hasleep : r.id ∈ w.sleeping.filterMap (Task.runnerOf m) :=
      List.mem_filterMap.2 ⟨_, ht, by simp [Task.runnerOf, hid]⟩
    obtain ⟨due', hdue', hlt⟩ := (h.tended m d hd).patient r (List.mem_of_find?_eq_some hr) hasleep
    rw [hdue] at hdue'
    cases hdue'
    exact hlt
  | delivery m ticket state =>
    obtain ⟨a', ha', hlt⟩ := h.alarms m ticket state ht
    rw [show state.alarm? = some a from ha] at ha'
    cases ha'
    exact hlt

/-- So the next alarm is in the future. -/
theorem Kept.lt_nextAlarm (h : Kept w [] cs) {a : Alarm} (ha : w.nextAlarm? = some a) :
    w.now < a.instant := by
  obtain ⟨t, ht, hat⟩ := (foldl_first?_mem w.sleeping none ha).resolve_left nofun
  exact h.lt_alarm ht hat

/-- The clock moves on, towards the alarm of a delivery. -/
theorem Kept.own_clock (h : Kept w [] cs) (hr : w.ready = [])
    (hmem : .delivery n ticket state ∈ w.sleeping) :
    ∃ instant, w.own? = some (.clock instant) ∧
      .delivery n ticket state ∈ (w.happen (.clock instant)).ready ++
        (w.happen (.clock instant)).sleeping ∧
      (w.happen (.clock instant)).wait state < w.wait state := by
  obtain ⟨a, ha, hlt⟩ := h.alarms n ticket state hmem
  obtain ⟨b, hb, hle⟩ := foldl_first?_le (f := w.alarm?) (b := a) w.sleeping none
    (Or.inr ⟨_, hmem, ha⟩)
  have hpast := h.lt_nextAlarm hb
  refine ⟨b.instant, ?_, ?_, ?_⟩
  · unfold World.own?
    rw [hr, show w.nextAlarm? = some b from hb]
    rfl
  · refine (World.woken_moveClock hr b.instant).tasks.mem_iff.2 (List.mem_filter.2 ⟨hmem, ?_⟩)
    rw [show w.alarm? (.delivery n ticket state) = some a from ha]
    rfl
  · have hnow : (w.happen (.clock b.instant)).now = b.instant := rfl
    rw [World.wait, World.wait, hnow, ha, Option.elim_some]
    omega

/-- A batch that has settled is not in flight. -/
theorem not_mem_settle (q : Queue) (ticket : Nat) (outcome : Outcome) :
    ticket ∉ (q.settle ticket outcome).2.flights.map Flight.ticket := by
  cases hf : q.flights.find? fun f => f.ticket == ticket with
  | none =>
    simp only [Queue.settle, hf]
    simpa using hf
  | some flight =>
    rw [flights_settle outcome hf]
    simp

/-- **A task that takes its turn takes no time**, and leaves less to be done. -/
theorem World.bustle_turn {task : Task} {rest : List Task} (hr : w.ready = task :: rest) :
    (w.happen .turn).now = w.now ∧ (w.happen .turn).bustle < w.bustle := by
  have hs := World.spares_turn { w with ready := rest } task
  have hle := hs.bustle
  have hweight : w.bustle = ({ w with ready := rest } : World).bustle + task.weight := by
    rw [World.bustle, World.bustle, hr, List.map_cons, List.sum_cons]
    simp only [World.idle]
    omega
  have hpos : 1 ≤ task.weight := by cases task <;> simp [Task.weight]
  rw [World.happen_turn hr]
  exact ⟨hs.now, by omega⟩

/-- A delivery gets its turn, and ends or goes on, or it is still there and less is left to do. -/
theorem own_turn {task : Task} {rest : List Task} (hr : w.ready = task :: rest)
    (hmem : .delivery n ticket state ∈ w.ready ++ w.sleeping) :
    (∀ d, (w.happen .turn).depots[n]? = some d → ticket ∉ d.queue.flights.map Flight.ticket) ∨
    ∃ state', .delivery n ticket state' ∈ (w.happen .turn).ready ++ (w.happen .turn).sleeping ∧
      (state' ≠ state → state'.Goes state) ∧
      (w.happen .turn).now = w.now ∧ (w.happen .turn).bustle < w.bustle := by
  obtain ⟨hnow, hbustle⟩ := World.bustle_turn hr
  have hturn := World.happen_turn hr
  have hs := World.spares_turn { w with ready := rest } task
  rw [hr, List.cons_append] at hmem
  rcases List.mem_cons.1 hmem with rfl | hmem
  · rcases World.turnDelivery_cases { w with ready := rest } n ticket state with ⟨outcome, hd⟩ | hd
    · left
      intro d hdepot
      rw [hturn, World.turn, hd] at hdepot
      generalize (resume state { w with ready := rest }).2 = w₁ at hdepot
      cases hd₁ : w₁.depots[n]? with
      | none =>
        simp only [World.settleDelivery, hd₁] at hdepot
        cases hdepot
      | some d₁ =>
        have hsame := World.same_settleDelivery hd₁ ticket outcome
        rw [hsame.depots] at hdepot
        have hedit : (w₁.setQueue n (d₁.queue.settle ticket outcome).2).depots[n]? = _ :=
          w₁.depots_edit n (d₁.queue.settle ticket outcome).2 [] n
        rw [hedit, if_pos rfl, hd₁, Option.map_some] at hdepot
        cases hdepot
        exact not_mem_settle d₁.queue ticket outcome
    · right
      refine ⟨(resume state { w with ready := rest }).1, ?_, fun hne => ⟨hne, _, rfl⟩, hnow, hbustle⟩
      rw [hturn, World.turn, hd]
      exact List.mem_append_right _ (List.mem_append_right _ (List.mem_singleton.2 rfl))
  · right
    refine ⟨state, ?_, fun hne => absurd rfl hne, hnow, hbustle⟩
    rw [hturn]
    rcases List.mem_append.1 hmem with hmem | hmem
    · exact List.mem_append_left _ (hs.ready.subset hmem)
    · exact List.mem_append_right _ (hs.sleeping.subset hmem)

/-- **Every delivery comes to its end**: when the world is left alone for long enough the batch is out
of flight. -/
theorem Kept.lands (h : Kept w [] cs) (hmem : .delivery n ticket state ∈ w.ready ++ w.sleeping) :
    ∃ k, ∀ d, (w.leave k).depots[n]? = some d → ticket ∉ d.queue.flights.map Flight.ticket := by
  -- the call goes on, or its alarm comes nearer, or there is less to be done before the clock moves
  induction state using Running.goes_wellFounded.induction generalizing w cs with
  | _ state ihstate =>
    generalize hm : (w.wait state, w.bustle) = measure
    induction measure using
      (WellFounded.prod_lex Nat.lt_wfRel.wf Nat.lt_wfRel.wf).induction generalizing w cs with
    | _ measure ih =>
      subst hm
      have hnext : ∀ e k, w.own? = some e → w.leave (k + 1) = (w.happen e).leave k := by
        intro e k he
        rw [World.leave, he]
      cases hr : w.ready with
      | nil =>
        rw [hr] at hmem
        obtain ⟨instant, hown, hthere, hnearer⟩ := h.own_clock hr hmem
        obtain ⟨cs', hkept, -⟩ := kept_happen h (World.possible_own hown)
        obtain ⟨k, hk⟩ := ih _ (Prod.Lex.left _ _ hnearer) hkept hthere rfl
        exact ⟨k + 1, by rw [hnext _ k hown]; exact hk⟩
      | cons task rest =>
        have hown : w.own? = some .turn := by rw [World.own?, hr]
        obtain ⟨cs', hkept, -⟩ := kept_happen h (World.possible_own hown)
        rcases own_turn hr hmem with hout | ⟨state', hthere, hgoes, hnow, hless⟩
        · exact ⟨1, by rw [hnext _ 0 hown]; exact hout⟩
        · by_cases heq : state' = state
          · subst heq
            have hwait : (w.happen .turn).wait state' = w.wait state' := by
              rw [World.wait, hnow, World.wait]
            obtain ⟨k, hk⟩ := ih _ (by rw [← hwait]; exact Prod.Lex.right _ hless) hkept hthere rfl
            exact ⟨k + 1, by rw [hnext _ k hown]; exact hk⟩
          · obtain ⟨k, hk⟩ := ihstate state' (hgoes heq) hkept hthere
            exact ⟨k + 1, by rw [hnext _ k hown]; exact hk⟩

end EventRelay.Run
