import EventRelay.Proofs.Queue.Runners
import EventRelay.Proofs.Run.Drift

/-!
# What is done to the queues of a world

Whatever is done to a queue of a world is an action of its course, and calls for the tasks that it
takes: a runner that was started gets a task, and so does the delivery of a batch that was claimed.

* `Performs` — an action leads from a queue to a queue, whatever the course so far.
* `Hires` — the tasks that a change of a queue calls for.
* `Stirs` — one queue after another performs actions, and the tasks that this calls for are started.
* `stirs_startRunner`, `stirs_enqueue`, `stirs_dispatchNext`, `stirs_turnFlush` and so on: **calls of
  queues stir the world**, each by its own actions.
-/

namespace EventRelay.Run

open Queue

/-- With the transport usable or not, the action leads from one queue to the other, whatever the
course so far. -/
def Performs (q : Queue) (a : Action) (q' : Queue) : Prop :=
  ∃ usable, ∀ c : Course, c.queue = q → ((c.act (.usability usable)).act a).queue = q'

/-- The tasks that a change of the queue `n` calls for. -/
inductive Hires (n : Nat) (q q' : Queue) : List Task → Prop
  /-- No runner was started and no batch claimed. -/
  | nobody (hr : ∀ r ∈ q'.runners, r ∈ q.runners) (hs : q'.started = q.started)
      (hf : q'.flights = q.flights) : Hires n q q' []
  /-- A runner was started. -/
  | runner (hr : ∀ r ∈ q'.runners, r ∈ q.runners ∨ r = { id := q.started })
      (hs : q'.started = q.started + 1) (hf : q'.flights = q.flights) (order : Nat) :
      Hires n q q' [.runner n q.started order]
  /-- A batch was claimed. -/
  | delivery (hr : ∀ r ∈ q'.runners, r ∈ q.runners) (hs : q'.started = q.started) (flight : Flight)
      (hf : q'.flights = q.flights ++ [flight]) (state : Running) :
      Hires n q q' [.delivery n flight.ticket state]

/-- A queue that knows the same of its runners. -/
theorem Hires.of_crew (n : Nat) {q q' : Queue} (hcrew : q'.crew = q.crew)
    (hf : q'.flights = q.flights) : Hires n q q' [] := by
  have hr : q'.runners = q.runners := congrArg Crew.runners hcrew
  exact .nobody (fun r h => by rwa [hr] at h) (congrArg Crew.started hcrew) hf

theorem Hires.of_claim (n : Nat) {q q' : Queue} (hcrew : q'.crew = q.crew) (flight : Flight)
    (hf : q'.flights = q.flights ++ [flight]) (state : Running) :
    Hires n q q' [.delivery n flight.ticket state] := by
  have hr : q'.runners = q.runners := congrArg Crew.runners hcrew
  exact .delivery (fun r h => by rwa [hr] at h) (congrArg Crew.started hcrew) flight hf state

/-- Tasks are called for by what is known of runners and by what is in flight, and nothing else. -/
theorem Hires.of_same {n : Nat} {q q₀ q' : Queue} {new : List Task} (h : Hires n q₀ q' new)
    (hcrew : q₀.crew = q.crew) (hflights : q₀.flights = q.flights) : Hires n q q' new := by
  have hrunners : q₀.runners = q.runners := congrArg Crew.runners hcrew
  have hstarted : q₀.started = q.started := congrArg Crew.started hcrew
  cases h with
  | nobody hr hs hf =>
    rw [hrunners] at hr
    exact .nobody hr (hs.trans hstarted) (hf.trans hflights)
  | runner hr hs hf order =>
    rw [hrunners, hstarted] at hr
    rw [hstarted] at hs ⊢
    exact .runner hr hs (hf.trans hflights) order
  | delivery hr hs flight hf state =>
    rw [hrunners] at hr
    rw [hflights] at hf
    exact .delivery hr (hs.trans hstarted) flight hf state

namespace World

/-- The world after a queue was replaced and tasks were started. -/
def edit (w : World) (n : Nat) (q : Queue) (new : List Task) : World :=
  { w.setQueue n q with ready := w.ready ++ new }

/-- What is known of a queue after some queue was replaced. -/
theorem depots_edit (w : World) (n : Nat) (q : Queue) (new : List Task) (m : Nat) :
    (w.edit n q new).depots[m]? =
      if n = m then (w.depots[m]?).map fun d => { d with queue := q } else w.depots[m]? := by
  simp only [edit, setQueue, List.getElem?_modify]
  split <;> simp

theorem same_setQueue_self {w : World} {n : Nat} {d : Depot} (hd : w.depots[n]? = some d) :
    w.Same (w.setQueue n d.queue) := by
  refine ⟨rfl, ?_, rfl, rfl⟩
  refine List.ext_getElem? fun m => ?_
  rw [setQueue, List.getElem?_modify]
  by_cases hm : n = m
  · subst hm
    simp [hd]
  · simp [hm]

/-- To replace a queue twice is to replace it once. -/
theorem same_edit_setQueue (w : World) (n : Nat) (q q' : Queue) (new : List Task) :
    ((w.setQueue n q).edit n q' new).Same (w.edit n q' new) := by
  refine ⟨rfl, ?_, rfl, rfl⟩
  simp only [edit, setQueue, List.modify_modify_eq]
  rfl

end World

/-- The queues of a world perform actions of a kind, one queue after another, and the tasks that this
calls for are started. -/
inductive Stirs (kind : Nat → Action → Prop) : World → World → Prop
  /-- Nothing is done to queues and tasks. -/
  | same {w w' : World} (h : w.Same w') : Stirs kind w w'
  /-- One queue performs an action. -/
  | work {w : World} {n : Nat} {d : Depot} {a : Action} {q : Queue} {new : List Task}
      (hd : w.depots[n]? = some d) (ha : kind n a) (hp : Performs d.queue a q)
      (hh : Hires n d.queue q new) : Stirs kind w (w.edit n q new)
  /-- One thing after another. -/
  | trans {w w' w'' : World} (h : Stirs kind w w') (h' : Stirs kind w' w'') : Stirs kind w w''

namespace Stirs

variable {kind kind' : Nat → Action → Prop} {w w' : World}

theorem mono (h : Stirs kind w w') (hk : ∀ n a, kind n a → kind' n a) : Stirs kind' w w' := by
  induction h with
  | same h => exact .same h
  | work hd ha hp hh => exact .work hd (hk _ _ ha) hp hh
  | trans _ _ ih ih' => exact .trans ih ih'

/-- No queue comes or goes. -/
theorem length_depots (h : Stirs kind w w') : w'.depots.length = w.depots.length := by
  induction h with
  | same h => rw [h.depots]
  | work => exact List.length_modify _ _ _
  | trans _ _ ih ih' => exact ih'.trans ih

end Stirs

/-! ## Starting and stopping runners -/

/-- The task of a runner that was started. -/
def hired (n : Nat) : Start → List Task
  | .started id => [.runner n id 0]
  | _ => []

theorem hires_start (n : Nat) (q : Queue) (tasks : Bool) :
    Hires n q (q.start tasks).2 (hired n (q.start tasks).1) := by
  unfold Queue.start
  split
  · exact .nobody (fun _ h => h) rfl rfl
  · split
    · exact .nobody (fun _ h => h) rfl rfl
    · refine Hires.runner ?_ ?_ ?_ 0
      · intro r hr
        rcases List.mem_append.1 hr with hr | hr
        · exact Or.inl (List.mem_of_mem_filter hr)
        · exact Or.inr (List.mem_singleton.1 hr)
      · rfl
      · rfl

namespace World

theorem same_startRunner {w : World} {n : Nat} {d : Depot} (hd : w.depots[n]? = some d) :
    (w.edit n (d.queue.start w.tasks).2 (hired n (d.queue.start w.tasks).1)).Same
      (w.startRunner n) := by
  simp only [startRunner, hd]
  cases hs : d.queue.start w.tasks with
  | mk started q =>
    cases started with
    | impossible =>
      -- no task can be started here, so nothing has changed
      have hq : q = d.queue := by
        unfold Queue.start at hs
        split at hs
        · cases hs
          rfl
        · split at hs <;> cases hs
      rw [hq]
      have hself := same_setQueue_self hd
      exact ⟨hself.now.symm, hself.depots.symm, (List.append_nil _).symm, hself.sleeping.symm⟩
    | already => exact ⟨rfl, rfl, (List.append_nil _).symm, rfl⟩
    | started id => exact ⟨rfl, rfl, rfl, rfl⟩

/-- **Starting a runner.** -/
theorem stirs_startRunner (w : World) (n : Nat) :
    Stirs (fun m a => m = n ∧ a = .start w.tasks) w (w.startRunner n) := by
  cases hd : w.depots[n]? with
  | none =>
    simp only [startRunner, hd]
    exact .same (.refl w)
  | some d =>
    refine .trans (.work hd ⟨rfl, rfl⟩ ⟨true, ?_⟩ (hires_start n d.queue w.tasks))
      (.same (same_startRunner hd))
    intro c hc
    rw [← hc]
    rfl

/-- **Stopping a runner.** -/
theorem stirs_stopRunner (w : World) (n : Nat) :
    Stirs (fun m a => m = n ∧ a = .stop) w (w.stopRunner n) := by
  cases hd : w.depots[n]? with
  | none =>
    simp only [stopRunner, hd]
    exact .same (.refl w)
  | some d =>
    have hh : Hires n d.queue d.queue.stop.2 [] := by
      unfold Queue.stop
      split
      · exact .nobody (fun _ hr => List.mem_of_mem_filter hr) rfl rfl
      · exact .nobody (fun _ hr => hr) rfl rfl
    have hp : Performs d.queue .stop d.queue.stop.2 := by
      refine ⟨true, fun c hc => ?_⟩
      rw [← hc]
      rfl
    refine .trans (.work hd ⟨rfl, rfl⟩ hp hh) (.same ?_)
    simp only [stopRunner, hd]
    cases hs : d.queue.stop with
    | mk ran q => cases ran <;> exact ⟨rfl, rfl, (List.append_nil _).symm, rfl⟩

/-! ## Storing events -/

theorem crew_push {q q' : Queue} {events : List Event} (h : q.push events = .ok q') :
    q'.crew = q.crew ∧ q'.flights = q.flights := by
  unfold Queue.push at h
  cases hw : q.store.write events with
  | error e =>
    rw [hw] at h
    cases h
  | ok store =>
    rw [hw] at h
    cases h
    exact ⟨rfl, rfl⟩

/-- To replace a queue and then start its runner is to replace it by the queue with the runner. -/
theorem same_startRunner_after {w : World} {n : Nat} {d : Depot} (hd : w.depots[n]? = some d)
    (q : Queue) (line : Log.Line) :
    (w.edit n (q.start w.tasks).2 (hired n (q.start w.tasks).1)).Same
      (((w.setQueue n q).note line).startRunner n) := by
  have hd' : ((w.setQueue n q).note line).depots[n]? = some { d with queue := q } := by
    simp [note, setQueue, hd]
  have hstart := same_startRunner hd'
  have htwice := same_edit_setQueue w n q (q.start w.tasks).2 (hired n (q.start w.tasks).1)
  exact ⟨hstart.now, hstart.depots.trans htwice.depots.symm, hstart.ready, hstart.sleeping⟩

/-- What storing events comes to: nothing if the store fails, else events are stored, and the runner
is started if it should be. -/
theorem enqueue_cases {w : World} {n : Nat} {d : Depot} (hd : w.depots[n]? = some d)
    (events : List Event) :
    (∃ e, d.queue.push events = .error e ∧ (w.enqueue n events).2 = w) ∨
    ∃ q, d.queue.push events = .ok q ∧
      ((q.wantsRunner = true ∧
        (w.edit n (q.start w.tasks).2 (hired n (q.start w.tasks).1)).Same (w.enqueue n events).2) ∨
      (q.wantsRunner = false ∧ (w.edit n q []).Same (w.enqueue n events).2)) := by
  simp only [enqueue, hd]
  cases hpush : d.queue.push events with
  | error e => exact Or.inl ⟨e, rfl, rfl⟩
  | ok q =>
    refine Or.inr ⟨q, rfl, ?_⟩
    dsimp only
    split
    · rename_i hwants
      exact Or.inl ⟨hwants, same_startRunner_after hd q _⟩
    · rename_i hwants
      exact Or.inr ⟨Bool.eq_false_iff.2 hwants, rfl, rfl, (List.append_nil _).symm, rfl⟩

/-- **Storing events**, which may start the runner. -/
theorem stirs_enqueue (w : World) (n : Nat) (events : List Event) :
    Stirs (fun m a => m = n ∧ a = .push events w.tasks) w (w.enqueue n events).2 := by
  cases hd : w.depots[n]? with
  | none =>
    simp only [enqueue, hd]
    exact .same (.refl w)
  | some d =>
    have hperforms : ∀ q, d.queue.push events = .ok q → Performs d.queue (.push events w.tasks)
        (if q.wantsRunner then (q.start w.tasks).2 else q) := by
      intro q hpush
      refine ⟨true, fun c hc => ?_⟩
      rw [← hc] at hpush
      simp only [Course.act, Course.act?, Option.getD_some, hpush]
      rfl
    rcases enqueue_cases hd events with ⟨e, -, hstay⟩ | ⟨q, hpush, hstart | hquiet⟩
    · rw [hstay]
      exact .same (.refl w)
    · obtain ⟨hcrew, hflights⟩ := crew_push hpush
      have hp := hperforms q hpush
      rw [if_pos hstart.1] at hp
      exact .trans (.work hd ⟨rfl, rfl⟩ hp ((hires_start n q w.tasks).of_same hcrew hflights))
        (.same hstart.2)
    · obtain ⟨hcrew, hflights⟩ := crew_push hpush
      have hp := hperforms q hpush
      rw [if_neg (Bool.eq_false_iff.1 hquiet.1)] at hp
      exact .trans (.work hd ⟨rfl, rfl⟩ hp (.of_crew n hcrew hflights)) (.same hquiet.2)

/-! ## Dispatching batches -/

/-- The task of a batch that was dispatched. -/
def launching (n : Nat) (delivery : Transport) : Dispatch → List Task
  | .sent flight => [.delivery n flight.ticket (.ofDialogue (.note (queueLine .debug
      "Dispatching batch" [Log.str "transport" delivery.name, Log.num "events" flight.batch.size])
      (delivery.handle flight.batch)))]
  | _ => []

theorem same_dispatched (w : World) (n : Nat) (delivery : Transport) (result : Dispatch) :
    ({ w with ready := w.ready ++ launching n delivery result } : World).Same
      (w.dispatched n delivery result) := by
  cases result with
  | sent flight => exact ⟨rfl, rfl, rfl, rfl⟩
  | _ => exact ⟨rfl, rfl, (List.append_nil _).symm, rfl⟩

/-- A dispatch puts a batch into flight, or none. -/
theorem flights_dispatch (q : Queue) (usable : Bool) :
    (∃ flight, (q.dispatch usable).1 = .sent flight ∧
      (q.dispatch usable).2.flights = q.flights ++ [flight]) ∨
    ((∀ flight, (q.dispatch usable).1 ≠ .sent flight) ∧
      (q.dispatch usable).2.flights = q.flights) := by
  rcases q.dispatch_cases usable with ⟨-, hq⟩ | ⟨-, -, hq⟩ | ⟨free, -, -, hq⟩
  · rw [hq]
    exact Or.inr ⟨nofun, rfl⟩
  · rw [hq]
    exact Or.inr ⟨nofun, rfl⟩
  · obtain ⟨_, _, _, hr⟩ := ({ q with free } : Queue).release_frame
    rcases ({ q with free } : Queue).claim_cases [] with ⟨e, -, hc⟩ | ⟨-, hc⟩ | ⟨batch, -, hc⟩
    · rw [hq, hc, hr]
      exact Or.inr ⟨nofun, rfl⟩
    · rw [hq, hc, hr]
      exact Or.inr ⟨nofun, rfl⟩
    · rw [hq, hc]
      exact Or.inl ⟨_, rfl, rfl⟩

/-- A dispatch calls for the delivery of the batch that it claims. -/
theorem hires_dispatch (n : Nat) (delivery : Transport) (q : Queue) (usable : Bool) :
    Hires n q (q.dispatch usable).2 (launching n delivery (q.dispatch usable).1) := by
  have hcrew := (q.crew_dispatch usable).1
  rcases flights_dispatch q usable with ⟨flight, hsent, hf⟩ | ⟨hnone, hf⟩
  · rw [hsent]
    exact .of_claim n hcrew flight hf _
  · have hno : launching n delivery (q.dispatch usable).1 = [] := by
      cases hresult : (q.dispatch usable).1 with
      | sent flight => exact absurd hresult (hnone flight)
      | _ => rfl
    rw [hno]
    exact .of_crew n hcrew hf

/-- **Dispatching a batch by hand.** -/
theorem stirs_dispatchNext (w : World) (n : Nat) :
    Stirs (fun m a => m = n ∧ a = .dispatch) w (w.dispatchNext n).2 := by
  cases hd : w.depots[n]? with
  | none =>
    simp only [dispatchNext, hd]
    exact .same (.refl w)
  | some d =>
    have hp : Performs d.queue .dispatch (d.queue.dispatch (d.delivery.usable w.usability)).2 := by
      refine ⟨d.delivery.usable w.usability, fun c hc => ?_⟩
      rw [← hc]
      rfl
    refine .trans (.work hd ⟨rfl, rfl⟩ hp (hires_dispatch n d.delivery d.queue _)) (.same ?_)
    have hsame := same_dispatched (w.setQueue n (d.queue.dispatch (d.delivery.usable w.usability)).2) n
      d.delivery (d.queue.dispatch (d.delivery.usable w.usability)).1
    simp only [dispatchNext, hd]
    split <;> exact hsame

/-! ## Flushing -/

/-- **Calling a flush.** -/
theorem stirs_callFlush (w : World) (n : Nat) :
    Stirs (fun m a => m = n ∧ a = .callFlush) w (w.callFlush n).2 := by
  cases hd : w.depots[n]? with
  | none =>
    simp only [callFlush, hd]
    exact .same (.refl w)
  | some d =>
    have hp : Performs d.queue .callFlush
        (d.queue.callFlush (d.delivery.usable w.usability)).2 := by
      refine ⟨d.delivery.usable w.usability, fun c hc => ?_⟩
      rw [← hc]
      rfl
    refine .trans (.work hd ⟨rfl, rfl⟩ hp (.of_crew n rfl rfl)) (.same ?_)
    simp only [callFlush, hd]
    split <;> exact ⟨rfl, rfl, (List.append_nil _).symm, rfl⟩

/-- A step of a flush calls for the delivery of the batch that it claims, and of no other. -/
theorem hires_flushStep (n : Nat) {q q' : Queue} {id : Nat} {progress : Progress}
    (h : q.flushStep id = some (progress, q')) (state : Running) :
    (∃ flight, progress = .sent flight ∧ Hires n q q' [.delivery n flight.ticket state]) ∨
    ((∀ flight, progress ≠ .sent flight) ∧ Hires n q q' []) := by
  obtain ⟨f, q₀, g, -, hm, rfl⟩ := flushMove_of_flushStep h
  obtain ⟨_, _, _, hr⟩ := q.release_frame
  have hcrew : (q₀.modifyFlush id g).crew = q.crew := hm.crew
  cases hm with
  | claim batch hs hc => exact Or.inl ⟨_, rfl, .of_claim n hcrew ⟨q.tickets, batch⟩ rfl state⟩
  | exhaust hs hc => exact Or.inr ⟨nofun, .of_crew n hcrew (by rw [hr]; rfl)⟩
  | giveUp e hs hc => exact Or.inr ⟨nofun, .of_crew n hcrew (by rw [hr]; rfl)⟩
  | _ => exact Or.inr ⟨nofun, .of_crew n hcrew rfl⟩

theorem performs_flushStep {q q' : Queue} {id : Nat} {progress : Progress}
    (h : q.flushStep id = some (progress, q')) : Performs q (.flushStep id) q' := by
  refine ⟨true, fun c hc => ?_⟩
  rw [← hc] at h
  simp only [Course.act, Course.act?, Option.getD_some, h, Option.map_some]
  rfl

/-- **A flush that goes on.** -/
theorem stirs_turnFlush (fuel : Nat) (w : World) (n id : Nat) :
    Stirs (fun m a => m = n ∧ a = .flushStep id) w (turnFlush fuel w n id) := by
  induction fuel generalizing w with
  | zero => exact .same (.refl w)
  | succ fuel ih =>
    cases hd : w.depots[n]? with
    | none =>
      simp only [turnFlush, hd]
      exact .same (.refl w)
    | some d =>
      simp only [turnFlush, hd]
      cases hstep : d.queue.flushStep id with
      | none => exact .same (.refl w)
      | some result =>
        obtain ⟨progress, q⟩ := result
        have hp := performs_flushStep hstep
        have hquiet : (∀ flight, progress ≠ .sent flight) →
            Stirs (fun m a => m = n ∧ a = .flushStep id) w (w.setQueue n q) := by
          intro hnot
          rcases hires_flushStep n hstep .crashed with ⟨flight, hsent, -⟩ | ⟨-, hh⟩
          · exact absurd hsent (hnot flight)
          · exact .trans (.work hd ⟨rfl, rfl⟩ hp hh)
              (.same ⟨rfl, rfl, (List.append_nil _).symm, rfl⟩)
        cases progress with
        | sent flight =>
          rcases hires_flushStep n hstep (.ofDialogue (.note (queueLine .debug "Dispatching batch"
            [Log.str "transport" d.delivery.name, Log.num "events" flight.batch.size])
            (d.delivery.handle flight.batch))) with ⟨_, hsent, hh⟩ | ⟨hnot, -⟩
          · cases hsent
            exact .trans (.work hd ⟨rfl, rfl⟩ hp hh) (ih _)
          · exact absurd rfl (hnot flight)
        | moved => exact .trans (hquiet nofun) (ih _)
        | unreadable e =>
          exact .trans (hquiet nofun) (.trans (.same (same_note _ _)) (ih _))
        | returned report => exact .trans (hquiet nofun) (.same (same_note _ _))

/-! ## The surroundings -/

/-- **Making calls of the store fail, or no longer.** -/
theorem stirs_faults (w : World) {n : Nat} {d : Depot} (hd : w.depots[n]? = some d)
    (faults : Store.Faults) :
    Stirs (fun m a => m = n ∧ a = .faults faults) w
      (w.setQueue n { d.queue with store := { d.queue.store with faults } }) := by
  have hp : Performs d.queue (.faults faults)
      { d.queue with store := { d.queue.store with faults } } := by
    refine ⟨true, fun c hc => ?_⟩
    rw [← hc]
    rfl
  exact .trans (.work hd ⟨rfl, rfl⟩ hp (.of_crew n rfl rfl))
    (.same ⟨rfl, rfl, (List.append_nil _).symm, rfl⟩)

end World

/-- **A call of a transport** stirs the world by storing events. -/
theorem Drifts.stirs {w w' : World} (h : Drifts w w') :
    Stirs (fun _ a => ∃ events tasks, a = .push events tasks) w w' := by
  induction h with
  | aside h => exact .same h
  | enqueue w n events => exact (w.stirs_enqueue n events).mono fun m a ha => ⟨events, w.tasks, ha.2⟩
  | trans _ _ ih ih' => exact .trans ih ih'

end EventRelay.Run
