import EventRelay.Proofs.Queue.Books

/-!
# The runner of a queue

A runner is started by a call, or by storing events, and stopped by a call; in between it ticks.  All
that a queue knows of it are two flags, the number of the runner task started last, and the runner
tasks that live; no other action touches these.

* `Crew` — what a queue knows of its runners; `CrewMove` — everything that an action can do to it,
  and `crewMove_act` says that there is nothing else.
* `Manned` — one runner lives while the queue runs, and none otherwise; `manned_run` says so after
  every run.
* `off_run` — **a queue that was stopped stays stopped**, whatever is done to it, until its runner is
  started where tasks can be started.
-/

namespace EventRelay.Queue

/-! ## What an action does to runners -/

/-- What a queue knows of its runners. -/
structure Crew where
  /-- The runner was started and not stopped since. -/
  running : Bool
  /-- The runner was stopped explicitly and not started since. -/
  stopped : Bool
  /-- The runner task started last, unless it was stopped. -/
  current : Option Nat
  /-- The runner tasks that live. -/
  runners : List Runner
  /-- The number of runner tasks started so far. -/
  started : Nat

/-- What the queue knows of its runners. -/
def crew (q : Queue) : Crew :=
  ⟨q.running, q.stopped, q.current, q.runners, q.started⟩

/-- Everything that an action can do to the runners of a queue. -/
inductive CrewMove (q : Queue) : Action → Crew → Prop
  /-- Nothing. -/
  | rest {a : Action} : CrewMove q a q.crew
  /-- The runner is started. -/
  | start (tasks : Bool) : CrewMove q (.start tasks) (q.start tasks).2.crew
  /-- Events were stored, and the runner is started. -/
  | push (events : List Event) (tasks : Bool) (hw : q.wantsRunner = true) :
      CrewMove q (.push events tasks) (q.start tasks).2.crew
  /-- The runner is stopped. -/
  | stop : CrewMove q .stop q.stop.2.crew
  /-- A runner ticks. -/
  | tick (id now : Nat) : CrewMove q (.tick id now) { q.crew with
      runners := q.runners.map fun r =>
        if r.id = id then { r with due := some (now + q.interval) } else r }

theorem crew_release (q : Queue) : q.release.crew = q.crew := by
  obtain ⟨_, _, _, hq⟩ := q.release_frame
  rw [hq]
  rfl

/-- A dispatch leaves the runners and the settings alone. -/
theorem crew_dispatch (q : Queue) (usable : Bool) :
    (q.dispatch usable).2.crew = q.crew ∧ (q.dispatch usable).2.settings = q.settings := by
  obtain ⟨_, _, _, _, _, _, hq⟩ := q.dispatch_frame usable
  rw [hq]
  exact ⟨rfl, rfl⟩

theorem crew_tick (q : Queue) (id now : Nat) (usable : Bool) :
    (q.tick id now usable).2.crew = { q.crew with
      runners := q.runners.map fun r =>
        if r.id = id then { r with due := some (now + q.interval) } else r } := by
  obtain ⟨hcrew, hsettings⟩ := q.crew_dispatch usable
  have hinterval : (q.dispatch usable).2.interval = q.interval := by
    rw [interval, hsettings, interval]
  have hrunners : (q.dispatch usable).2.runners = q.runners := congrArg Crew.runners hcrew
  have htick : (q.tick id now usable).2.crew = { (q.dispatch usable).2.crew with
      runners := (q.dispatch usable).2.runners.map fun r =>
        if r.id = id then { r with due := some (now + (q.dispatch usable).2.interval) } else r } := rfl
  rw [htick, hcrew, hrunners, hinterval]

theorem crew_account (q : Queue) (batch : Batch) (outcome : Outcome) :
    (q.account batch outcome).2.crew = q.crew := by
  obtain ⟨_, _, _, -, hq⟩ := q.account_frame batch outcome
  rw [hq]
  rfl

theorem crew_land (q : Queue) (flight : Flight) (outcome : Outcome) :
    (q.land flight outcome).crew = q.crew := by
  obtain ⟨_, _, _, hq⟩ := q.land_frame flight outcome
  rw [hq]
  rfl

theorem crew_settle (q : Queue) (ticket : Nat) (outcome : Outcome) :
    (q.settle ticket outcome).2.crew = q.crew := by
  unfold settle
  split
  · rfl
  · exact (crew_land _ _ _).trans (crew_account _ _ _)

theorem FlushMove.crew {q q₀ : Queue} {id : Nat} {f : Flush} {p : Progress} {g : Flush → Flush}
    (hm : FlushMove q id f p q₀ g) : q₀.crew = q.crew := by
  cases hm with
  | exhaust hs hc => exact crew_release q
  | giveUp e hs hc => exact crew_release q
  | _ => rfl

/-- The store and what calls of it fail have nothing to do with runners. -/
theorem crew_start_store (q : Queue) (store : Store) (tasks : Bool) :
    (({ q with store } : Queue).start tasks).2.crew = (q.start tasks).2.crew := by
  unfold start
  cases tasks
  · rfl
  · cases hr : q.running <;> simp [crew]

/-- **What an action does to the runners.** -/
theorem crewMove_act? {c c' : Course} {a : Action} (hact : c.act? a = some c') :
    CrewMove c.queue a c'.queue.crew := by
  have hrest : c'.queue.crew = c.queue.crew → CrewMove c.queue a c'.queue.crew := by
    intro h
    rw [h]
    exact CrewMove.rest
  cases a with
  | push events tasks =>
    obtain ⟨-, -, rfl⟩ | ⟨store, -, ⟨hwants, rfl⟩ | ⟨-, rfl⟩⟩ := Course.act?_push hact
    · exact CrewMove.rest
    · rw [Course.next, crew_start_store]
      exact CrewMove.push events tasks hwants
    · exact CrewMove.rest
  | write events =>
    obtain ⟨-, -, rfl⟩ | ⟨store, -, rfl⟩ := Course.act?_write hact <;> exact CrewMove.rest
  | delete ids =>
    obtain ⟨-, -, rfl⟩ | ⟨store, -, rfl⟩ := Course.act?_delete hact <;> exact CrewMove.rest
  | clear | faults _ | usability _ =>
    cases hact
    exact hrest rfl
  | start tasks =>
    cases hact
    exact CrewMove.start tasks
  | stop =>
    cases hact
    exact CrewMove.stop
  | tick id now =>
    obtain ⟨-, rfl⟩ := Course.act?_tick hact
    rw [Course.next, crew_tick]
    exact CrewMove.tick id now
  | dispatch =>
    cases hact
    exact hrest (c.queue.crew_dispatch c.usable).1
  | callFlush =>
    cases hact
    exact hrest rfl
  | flushStep id =>
    obtain ⟨f, p, q₀, g, -, hm, rfl⟩ := Course.act?_flushStep hact
    exact hrest hm.crew
  | finish ticket ending =>
    obtain ⟨flight, -, -, -, rfl⟩ := Course.act?_finish hact
    exact hrest (crew_account c.queue flight.batch ending.outcome)
  | land ticket =>
    obtain ⟨flight, ending, -, -, -, rfl⟩ := Course.act?_land hact
    exact hrest (crew_land c.queue flight ending.outcome)

theorem crewMove_act (c : Course) (a : Action) : CrewMove c.queue a (c.act a).queue.crew := by
  rcases c.act_cases a with hact | hact
  · exact crewMove_act? hact
  · rw [hact]
    exact CrewMove.rest

/-! ## One runner or none -/

/-- One runner lives while the queue runs, the one started last; none lives otherwise. -/
inductive Crew.Manned : Crew → Prop
  /-- The runner lives. -/
  | on (stopped : Bool) (r : Runner) (started : Nat) (hid : r.id < started) :
      Manned ⟨true, stopped, some r.id, [r], started⟩
  /-- No runner lives. -/
  | off (stopped : Bool) (started : Nat) : Manned ⟨false, stopped, none, [], started⟩

/-- No runner lives of a queue that does not run. -/
theorem Crew.Manned.runners_eq_nil {k : Crew} (h : k.Manned) (hr : k.running = false) :
    k.runners = [] := by
  cases h with
  | on stopped r started hid => cases hr
  | off stopped started => rfl

theorem Crew.Manned.start {q : Queue} (h : q.crew.Manned) (tasks : Bool) :
    (q.start tasks).2.crew.Manned := by
  unfold Queue.start
  cases tasks with
  | false => exact h
  | true =>
    generalize hk : q.crew = k at h
    cases h with
    | on stopped r started hid =>
      injection hk with hrunning hstopped hcurrent hrunners hstarted
      simp only [hrunning, Bool.not_true, Bool.false_eq_true, if_false, if_true, crew, hcurrent,
        hrunners, hstarted]
      exact .on false r started hid
    | off stopped started =>
      injection hk with hrunning hstopped hcurrent hrunners hstarted
      simp only [hrunning, Bool.not_true, Bool.false_eq_true, if_false, crew, hcurrent, hrunners,
        hstarted, List.filter_nil, List.nil_append]
      exact .on false { id := started } (started + 1) (Nat.lt_succ_self started)

theorem Crew.Manned.stop {q : Queue} (h : q.crew.Manned) : q.stop.2.crew.Manned := by
  unfold Queue.stop
  generalize hk : q.crew = k at h
  cases h with
  | on stopped r started hid =>
    injection hk with hrunning hstopped hcurrent hrunners hstarted
    simp only [hrunning, if_true, crew, hcurrent, hrunners, hstarted, bne_self_eq_false,
      List.filter_cons, List.filter_nil, Bool.false_eq_true, if_false]
    exact .off true started
  | off stopped started =>
    injection hk with hrunning hstopped hcurrent hrunners hstarted
    simp only [hrunning, Bool.false_eq_true, if_false, crew, hcurrent, hrunners, hstarted]
    exact .off true started

theorem Crew.Manned.tick {k : Crew} (h : k.Manned) (id due : Nat) :
    ({ k with runners := k.runners.map fun r =>
        if r.id = id then { r with due := some due } else r } : Crew).Manned := by
  cases h with
  | on stopped r started hid =>
    rw [List.map_singleton]
    split
    · exact .on stopped { r with due := some due } started hid
    · exact .on stopped r started hid
  | off stopped started => exact .off stopped started

theorem manned_move {q : Queue} {a : Action} {k : Crew} (h : CrewMove q a k)
    (hq : q.crew.Manned) : k.Manned := by
  cases h with
  | rest => exact hq
  | start tasks => exact hq.start tasks
  | push events tasks hw => exact hq.start tasks
  | stop => exact hq.stop
  | tick id now => exact Crew.Manned.tick hq id (now + q.interval)

/-- **One runner or none**, after every run. -/
theorem manned_run (settings : Settings) (store : Store) (actions : List Action) :
    ((Course.begin settings store).run actions).queue.crew.Manned :=
  Course.run_induction (P := fun c => c.queue.crew.Manned) (c := Course.begin settings store)
    (.off false 0) (fun _ a ih => manned_move (crewMove_act _ a) ih) actions

theorem Course.Reached.manned {c : Course} (h : c.Reached) : c.queue.crew.Manned := by
  obtain ⟨settings, store, actions, rfl⟩ := h
  exact manned_run settings store actions

/-! ## Stopped -/

/-- The runner was stopped, and nothing but a call will start it again. -/
def Crew.Off (k : Crew) : Prop :=
  k.stopped = true ∧ k.running = false

theorem off_stop (q : Queue) : q.stop.2.crew.Off := by
  unfold Queue.stop
  split
  · exact ⟨rfl, rfl⟩
  · rename_i hr
    exact ⟨rfl, Bool.eq_false_iff.2 hr⟩

/-- Nothing but a start where tasks can be started ends the stop. -/
theorem off_move {q : Queue} {a : Action} {k : Crew} (h : CrewMove q a k) (ha : a ≠ .start true)
    (hq : q.crew.Off) : k.Off := by
  cases h with
  | rest => exact hq
  | start tasks =>
    cases tasks with
    | false => exact hq
    | true => exact absurd rfl ha
  | push events tasks hw =>
    have hstopped : q.stopped = true := hq.1
    rw [wantsRunner, hstopped] at hw
    cases hw
  | stop => exact off_stop q
  | tick id now => exact hq

/-- **A queue that was stopped stays stopped.** -/
theorem off_run {c : Course} (hc : c.queue.crew.Off) {actions : List Action}
    (ha : .start true ∉ actions) : (c.run actions).queue.crew.Off := by
  induction actions generalizing c with
  | nil => exact hc
  | cons a actions ih =>
    rw [List.mem_cons, not_or] at ha
    exact ih (off_move (crewMove_act c a) (Ne.symm ha.1) hc) ha.2

end EventRelay.Queue
