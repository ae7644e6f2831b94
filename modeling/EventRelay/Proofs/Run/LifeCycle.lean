import EventRelay.Proofs.Queue.Settlement
import EventRelay.Proofs.Run.LeftAlone
import EventRelay.Proofs.Run.Pace

/-!
# The life of a runner

A runner is started by a call, or by storing events, if this is done where tasks can be started; it
is stopped by a call.  What holds of it in every history of a world:

* `length_liveRunners` — one runner task lives while the queue runs, and none otherwise.
* `running_after_start`, `running_after_push` — what makes a queue run.
* `stopped_follow` — after a stop nothing runs and nothing ticks, whatever is stored, until somebody
  starts the runner where tasks can be started.
* `aloft_or_accounted`, `exists_accounted` — a batch that was in flight at some moment is in flight
  or accounted for ever after, and settles when the world is left alone for long enough.
* `turn_runner` — a turn of a runner that lives is one tick, which puts at most one batch into flight;
  that of a runner that was stopped does nothing.
* `runner_life_cycle` — **the life cycle of a runner**, all of this and its pace.
-/

namespace EventRelay

/-! ## Batches that have settled -/

namespace Queue

/-- From one queue to a later one a batch has settled, and was accounted for; the notes tell what was
done on the way. -/
structure Accounted (q q' : Queue) (flight : Flight) (notes : List Note) : Prop where
  /-- The one queue leads to the other. -/
  course : ∃ (c : Course) (actions : List Action), c.Reached ∧ c.queue = q ∧
    (c.run actions).queue = q' ∧ (c.run actions).journal = c.journal ++ notes
  /-- The batch is out of flight. -/
  out : flight ∉ q'.flights
  /-- It was taken out of flight on the way. -/
  landed : .landed flight ∈ notes
  /-- So its call has ended on the way, and the outcome is on record. -/
  ended : ∃ ending failure, .handled flight ending failure ∈ notes ∧
    q'.outcome? flight.ticket = some ending.outcome
  /-- The events of the calls that have delivered are counted. -/
  delivered : q'.delivered = q.delivered + (deliveredIds notes).length
  /-- So are the calls that have failed. -/
  failures : q'.failedBatches = q.failedBatches + notes.countP Note.fails

/-- A batch whose call was under way and that is no longer in flight is accounted for. -/
theorem Course.Reached.accounted_of_out {c : Course} (hc : c.Reached) (ho : c.Open)
    {flight : Flight} (hf : flight ∈ c.queue.flights) {actions : List Action}
    (hout : flight ∉ (c.run actions).queue.flights) :
    ∃ notes, Accounted c.queue (c.run actions).queue flight notes := by
  have hc' := hc.run actions
  obtain ⟨notes, hnotes⟩ := c.journal_run actions
  obtain ⟨hclaimed, hnot⟩ := hc.tracked.mem_flights.1 hf
  have hclaimed' : flight ∈ claims (c.run actions).journal := by
    rw [← hnotes, claims_append]
    exact List.mem_append_left _ hclaimed
  have hlanded : hasLanded (c.run actions).journal flight.ticket = true := by
    by_contra hl
    exact hout (hc'.tracked.mem_flights.2 ⟨hclaimed', Bool.eq_false_iff.2 hl⟩)
  obtain ⟨hland, ending, failure, hhandled, houtcome⟩ := hc'.settled_of_landed hclaimed' hlanded
  rw [← hnotes] at hland hhandled
  refine ⟨notes, ⟨c, actions, hc, rfl, rfl, hnotes.symm⟩, hout, ?_, ?_, ?_, ?_⟩
  · -- it was in flight, so the note is new
    refine (List.mem_append.1 hland).resolve_left fun hold => ?_
    rw [show c.books.journal = c.journal from rfl,
      hasLanded_iff.2 ⟨flight, hold, rfl⟩] at hnot
    cases hnot
  · -- its call was under way, so this note is new as well
    refine ⟨ending, failure, (List.mem_append.1 hhandled).resolve_left fun hold => ?_, houtcome⟩
    have hnone := List.findSome?_eq_none_iff.1 (ho flight hf) _ hold
    simp [Note.ending?] at hnone
  · obtain ⟨settings, store, before, rfl⟩ := hc
    have hcounted := counted_run settings store before
    have hcounted' := counted_run settings store (before ++ actions)
    rw [Course.run_append] at hcounted'
    unfold Books.Counted at hcounted hcounted'
    rw [show ((Course.begin settings store).run before |>.run actions).books.journal = _ from
      hnotes.symm, deliveredIds_append, List.length_append] at hcounted'
    exact hcounted'.trans (congrArg (· + _) hcounted.symm)
  · obtain ⟨settings, store, before, rfl⟩ := hc
    have hcounted := failures_run settings store before
    have hcounted' := failures_run settings store (before ++ actions)
    dsimp only at hcounted hcounted'
    rw [Course.run_append, ← hnotes, List.countP_append, ← hcounted] at hcounted'
    exact hcounted'

end Queue

namespace Run

open Queue

variable {w : World} {cs : Nat → Course} {n : Nat}

/-! ## Queues stay -/

namespace World

/-- No queue comes or goes. -/
theorem length_depots_happen (w : World) (e : Happening) :
    (w.happen e).depots.length = w.depots.length := by
  cases e with
  | push n events inside => exact (stirs_enqueue { w with tasks := inside } n events).length_depots
  | start n inside => exact (stirs_startRunner { w with tasks := inside } n).length_depots
  | stop n => exact (w.stirs_stopRunner n).length_depots
  | faults n faults =>
    simp only [happen]
    split
    · rfl
    · exact List.length_modify _ _ _
  | leaves leaves => rfl
  | dispatch n => exact (w.stirs_dispatchNext n).length_depots
  | callFlush n => exact (w.stirs_callFlush n).length_depots
  | errand e =>
    cases e with
    | nap wake => rfl
    | talk state =>
      simp only [happen_talk]
      exact (resume_drifts state w).stirs.length_depots
    | flush n id =>
      simp only [happen_flush]
      exact (w.stirs_turnFlush (w.flushFuel n) n id).length_depots
    | join n ticket => simp only [happen_join]
  | turn =>
    simp only [happen]
    split
    · rfl
    · rename_i task rest hr
      exact (spares_turn { w with ready := rest } task).depots
  | clock instant => rfl

theorem length_depots_follow (w : World) (hs : List Happening) :
    (w.follow hs).depots.length = w.depots.length := by
  induction hs generalizing w with
  | nil => rfl
  | cons e hs ih => exact (ih (w.happen e)).trans (w.length_depots_happen e)

theorem exists_depot_follow (w : World) (hs : List Happening) (n : Nat) :
    (∃ d, (w.follow hs).depots[n]? = some d) ↔ ∃ d, w.depots[n]? = some d := by
  rw [← Option.isSome_iff_exists, ← Option.isSome_iff_exists]
  simp [length_depots_follow]

/-! ## One runner or none -/

theorem length_liveRunners_eq (w : World) (n : Nat) :
    (w.liveRunners n).length =
      ((w.ready ++ w.sleeping).filterMap (Task.runnerOf n)).countP (w.lives n) := by
  unfold liveRunners
  generalize w.ready ++ w.sleeping = tasks
  induction tasks with
  | nil => rfl
  | cons t tasks ih =>
    cases t with
    | runner m id order =>
      by_cases hm : m = n
      · subst hm
        simp only [List.filter_cons, List.filterMap_cons, Task.runnerOf, List.countP_cons,
          beq_self_eq_true, Bool.true_and, if_true]
        split <;> simp [ih]
      · simp [Task.runnerOf, hm, ih]
    | delivery m ticket state => exact ih

end World

/-- **One runner task lives while the queue runs, and none otherwise.** -/
theorem length_liveRunners (h : Kept w [] cs) {d : Depot} (hd : w.depots[n]? = some d) :
    (w.liveRunners n).length = if d.queue.running then 1 else 0 := by
  have ht := h.tended n d hd
  have hmanned : d.queue.crew.Manned := ht.queue ▸ ht.reached.manned
  rw [World.length_liveRunners_eq, List.filterMap_append]
  generalize hk : d.queue.crew = k at hmanned
  cases hmanned with
  | on stopped r started hid =>
    injection hk with hrunning hstopped hcurrent hrunners hstarted
    have hlives : w.lives n = fun id => id == r.id := by
      funext id
      rw [World.lives, hd, Option.any_some, hrunners]
      simp [BEq.comm]
    have hr : r ∈ d.queue.runners := by
      rw [hrunners]
      exact List.mem_singleton.2 rfl
    rw [hrunning, hlives, if_pos rfl]
    exact List.count_eq_one_of_mem ht.nodup (ht.present r hr)
  | off stopped started =>
    injection hk with hrunning hstopped hcurrent hrunners hstarted
    have hlives : w.lives n = fun _ => false := by
      funext id
      rw [World.lives, hd, Option.any_some, hrunners]
      rfl
    rw [hrunning, hlives]
    simp

/-! ## Starting -/

theorem running_start (q : Queue) (tasks : Bool) :
    (q.start tasks).2.running = (q.running || tasks) := by
  unfold Queue.start
  cases tasks with
  | false => simp
  | true => cases q.running <;> simp

/-- A queue that was replaced. -/
theorem World.depot_edit {w w' : World} {d : Depot} (hd : w.depots[n]? = some d) {q : Queue}
    {new : List Task} (hs : (w.edit n q new).Same w') :
    w'.depots[n]? = some { d with queue := q } := by
  rw [hs.depots, World.depots_edit, if_pos rfl, hd, Option.map_some]

/-- A start makes the queue run, where tasks can be started. -/
theorem running_after_start {d d' : Depot} (hd : w.depots[n]? = some d) {inside : Bool}
    (hd' : (w.happen (.start n inside)).depots[n]? = some d') :
    d'.queue.running = (d.queue.running || inside) := by
  have hstarted := World.depot_edit (w := { w with tasks := inside }) hd (World.same_startRunner hd)
  rw [show (w.happen (.start n inside)).depots[n]? = _ from hstarted] at hd'
  cases hd'
  exact running_start d.queue inside

/-- Storing events makes the queue run if the store accepts them, tasks can be started there, and the
runner was not stopped. -/
theorem running_after_push {d d' : Depot} (hd : w.depots[n]? = some d) {events : List Event}
    {inside : Bool} (hd' : (w.happen (.push n events inside)).depots[n]? = some d') :
    d'.queue.running = (d.queue.running ||
      (inside && !d.queue.stopped && (d.queue.push events).toBool)) := by
  replace hd' : (World.enqueue { w with tasks := inside } n events).2.depots[n]? = some d' := hd'
  rcases World.enqueue_cases (w := { w with tasks := inside }) hd events with
    ⟨e, hpush, hstay⟩ | ⟨q, hpush, hstored⟩
  · rw [hstay, show ({ w with tasks := inside } : World).depots[n]? = some d from hd] at hd'
    cases hd'
    simp [hpush, Except.toBool]
  · obtain ⟨hcrew, -⟩ := World.crew_push hpush
    have hrunning : q.running = d.queue.running := congrArg Crew.running hcrew
    have hstopped : q.stopped = d.queue.stopped := congrArg Crew.stopped hcrew
    rcases hstored with ⟨hwants, hsame⟩ | ⟨hwants, hsame⟩
    · rw [World.depot_edit (w := { w with tasks := inside }) hd hsame] at hd'
      cases hd'
      rw [Queue.wantsRunner, hstopped, hrunning] at hwants
      rw [running_start, hrunning, hpush]
      cases hs : d.queue.stopped <;> simp_all [Except.toBool]
    · rw [World.depot_edit (w := { w with tasks := inside }) hd hsame] at hd'
      cases hd'
      rw [Queue.wantsRunner, hstopped, hrunning] at hwants
      rw [hrunning]
      cases hs : d.queue.stopped <;> simp_all

/-! ## After a stop -/

theorem World.depots_stopRunner {d : Depot} (hd : w.depots[n]? = some d) :
    (w.stopRunner n).depots[n]? = some { d with queue := d.queue.stop.2 } := by
  have hset : ∀ q, (w.setQueue n q).depots[n]? = some { d with queue := q } := by
    intro q
    simp [World.setQueue, hd]
  simp only [World.stopRunner, hd]
  cases hs : d.queue.stop with
  | mk ran q => cases ran <;> exact hset q

/-- Nothing but a start where tasks can be started ends a stop, and until then no runner ticks. -/
theorem stopped_happen (h : Kept w [] cs) (hoff : (cs n).queue.crew.Off) {e : Happening}
    {c' : Course} (hacc : Accounts w e n (cs n) c') (hstart : e ≠ .start n true) :
    c'.queue.crew.Off ∧ w.ticksIn n e = [] := by
  obtain ⟨actions, rfl, hstarts, htick⟩ := hacc
  refine ⟨off_run hoff fun hmem => hstart (hstarts hmem), ?_⟩
  rcases htick with ⟨hnil, -⟩ | ⟨usable, id, hone, -⟩
  · exact hnil
  · -- a runner that ticks lives, but none does
    obtain ⟨_, _, -, -, -, hlives⟩ := World.ticksIn_eq_cons hone
    obtain ⟨d, hd, hany⟩ := World.exists_of_lives hlives
    have ht := h.tended n d hd
    have hnobody : (cs n).queue.runners = [] := ht.reached.manned.runners_eq_nil hoff.2
    rw [← ht.queue, hnobody] at hany
    cases hany

/-- **A runner that was stopped stays stopped**, and does not tick. -/
theorem stopped_follow (h : Kept w [] cs) (hoff : (cs n).queue.crew.Off) {hs : List Happening}
    (hp : w.Possible hs) (hstart : .start n true ∉ hs) {d : Depot}
    (hd : (w.follow hs).depots[n]? = some d) :
    d.queue.running = false ∧ w.ticks n hs = [] := by
  have hstep : ∀ hs e (cs₁ cs₂ : Nat → Course), Kept (w.follow hs) [] cs₁ →
      (.start n true ∉ hs → (cs₁ n).queue.crew.Off ∧ w.ticks n hs = []) →
      (∀ m, Accounts (w.follow hs) e m (cs₁ m) (cs₂ m)) →
      .start n true ∉ hs ++ [e] → (cs₂ n).queue.crew.Off ∧ w.ticks n (hs ++ [e]) = [] := by
    intro hs e cs₁ cs₂ hkept ih hacc hnone
    rw [List.mem_append, List.mem_singleton, not_or] at hnone
    obtain ⟨hoff₁, hticks⟩ := ih hnone.1
    obtain ⟨hoff₂, hquiet⟩ := stopped_happen hkept hoff₁ (hacc n) (Ne.symm hnone.2)
    exact ⟨hoff₂, by rw [World.ticks_concat, hticks, hquiet, List.nil_append]⟩
  obtain ⟨cs', hkept, hP⟩ := kept_follow h (fun _ => ⟨hoff, rfl⟩) hstep hp
  obtain ⟨hoff', hticks⟩ := hP hstart
  rw [(hkept.tended n d hd).queue] at hoff'
  exact ⟨hoff'.2, hticks⟩

/-- The same from the stop on. -/
theorem stopped_since (h : Kept w [] cs) {after : List Happening}
    (hp : w.Possible (.stop n :: after)) (hstart : .start n true ∉ after) {d : Depot}
    (hd : (w.follow (.stop n :: after)).depots[n]? = some d) :
    d.queue.running = false ∧ (w.happen (.stop n)).ticks n after = [] := by
  obtain ⟨d₀, hd₀⟩ := (w.exists_depot_follow (.stop n :: after) n).1 ⟨d, hd⟩
  obtain ⟨cs', hkept, -⟩ := kept_happen h hp.1
  have hqueue := (hkept.tended n _ (World.depots_stopRunner hd₀)).queue
  refine stopped_follow hkept ?_ hp.2 hstart hd
  rw [hqueue]
  exact off_stop d₀.queue

/-! ## Batches in flight settle -/

/-- The courses go on. -/
theorem kept_run (h : Kept w [] cs) {hs : List Happening} (hp : w.Possible hs) :
    ∃ cs', Kept (w.follow hs) [] cs' ∧ ∀ n, ∃ actions, cs' n = (cs n).run actions := by
  refine kept_follow (P := fun _ cs' => ∀ n, ∃ actions, cs' n = (cs n).run actions) h
    (fun _ => ⟨[], rfl⟩) (fun _ _ cs₁ cs₂ _ ih hacc n => ?_) hp
  obtain ⟨actions, hrun⟩ := ih n
  obtain ⟨more, hmore, -⟩ := hacc n
  exact ⟨actions ++ more, by rw [hmore, hrun, Course.run_append]⟩

/-- A batch that was in flight is in flight still, or has settled and is accounted for. -/
theorem aloft_or_accounted (h : Kept w [] cs) {d d' : Depot} (hd : w.depots[n]? = some d)
    {flight : Flight} (hf : flight ∈ d.queue.flights) {hs : List Happening} (hp : w.Possible hs)
    (hd' : (w.follow hs).depots[n]? = some d') :
    flight ∈ d'.queue.flights ∨ ∃ notes, Accounted d.queue d'.queue flight notes := by
  obtain ⟨cs', hkept, hrun⟩ := kept_run h hp
  obtain ⟨actions, hactions⟩ := hrun n
  have ht := h.tended n d hd
  have hqueue := (hkept.tended n d' hd').queue
  rw [hactions] at hqueue
  rw [← ht.queue, ← hqueue]
  rw [← ht.queue] at hf
  by_cases hin : flight ∈ ((cs n).run actions).queue.flights
  · exact Or.inl hin
  · exact Or.inr (ht.reached.accounted_of_out ht.calls hf hin)

/-- When the world is left alone for long enough a batch is out of flight. -/
theorem exists_out (h : Kept w [] cs) {d : Depot} (hd : w.depots[n]? = some d) (flight : Flight) :
    ∃ k, ∀ d', (w.leave k).depots[n]? = some d' → flight ∉ d'.queue.flights := by
  by_cases hin : flight ∈ d.queue.flights
  · -- it is being delivered
    have hticket := (h.tended n d hd).loads.mem_iff.2 (List.mem_map_of_mem hin)
    obtain ⟨t, htask, hof⟩ := List.mem_filterMap.1 hticket
    obtain ⟨state, rfl⟩ := Task.eq_delivery hof
    obtain ⟨k, hk⟩ := h.lands htask
    exact ⟨k, fun d' hd' hmem => hk d' hd' (List.mem_map_of_mem hmem)⟩
  · refine ⟨0, fun d' hd' => ?_⟩
    rw [World.leave, hd] at hd'
    cases hd'
    exact hin

/-- **A batch in flight settles.**  Whatever happens after a moment at which a batch is in flight,
when the world is then left alone for long enough the batch has settled, and is accounted for. -/
theorem exists_accounted (h : Kept w [] cs) {d : Depot} (hd : w.depots[n]? = some d)
    {flight : Flight} (hf : flight ∈ d.queue.flights) {hs : List Happening} (hp : w.Possible hs) :
    ∃ k d' notes, ((w.follow hs).leave k).depots[n]? = some d' ∧
      Accounted d.queue d'.queue flight notes := by
  obtain ⟨cs', hkept, -⟩ := kept_run h hp
  obtain ⟨d₁, hd₁⟩ := (w.exists_depot_follow hs n).2 ⟨d, hd⟩
  obtain ⟨k, hk⟩ := exists_out hkept hd₁ flight
  obtain ⟨own, hown, hleave⟩ := (w.follow hs).exists_history_leave k
  rw [← World.follow_append] at hleave
  obtain ⟨d', hd'⟩ := (w.exists_depot_follow (hs ++ own) n).2 ⟨d, hd⟩
  have hall : w.Possible (hs ++ own) := World.possible_append.2 ⟨hp, hown⟩
  rcases aloft_or_accounted h hd hf hall hd' with haloft | ⟨notes, hacc⟩
  · exact absurd haloft (hk d' (by rw [hleave]; exact hd'))
  · exact ⟨k, d', notes, by rw [hleave]; exact hd', hacc⟩

/-! ## A turn of a runner -/

/-- One tick has taken one queue to the other, and has put at most one batch into flight. -/
structure Ticked (q q' : Queue) (id now : Nat) : Prop where
  /-- It is a tick of the runner. -/
  tick : ∃ usable, q' = (q.tick id now usable).2
  /-- At most one batch went into flight. -/
  launched : ∃ flights, q'.flights = q.flights ++ flights ∧ flights.length ≤ 1

theorem ticked_tick (q : Queue) (id now : Nat) (usable : Bool) :
    Ticked q (q.tick id now usable).2 id now := by
  refine ⟨⟨usable, rfl⟩, ?_⟩
  have hflights : (q.tick id now usable).2.flights = (q.dispatch usable).2.flights := rfl
  rw [hflights]
  rcases World.flights_dispatch q usable with ⟨flight, -, hsent⟩ | ⟨-, hnone⟩
  · exact ⟨[flight], hsent, Nat.le_refl 1⟩
  · exact ⟨[], by rw [hnone, List.append_nil], Nat.zero_le 1⟩

/-- **A turn of a runner.**  If it lives it ticks, and otherwise it does nothing. -/
theorem turn_runner {id order : Nat} {rest : List Task} (hr : w.ready = .runner n id order :: rest)
    {d : Depot} (hd : w.depots[n]? = some d) :
    ∃ d', (w.happen .turn).depots[n]? = some d' ∧
      if w.lives n id then w.ticksIn n .turn = [⟨id, w.now⟩] ∧ Ticked d.queue d'.queue id w.now
      else w.ticksIn n .turn = [] ∧ d' = d := by
  have hticks : w.ticksIn n .turn = if w.lives n id then [⟨id, w.now⟩] else [] := by
    simp only [World.ticksIn, hr, true_and]
  rw [World.happen_turn hr, World.turn, hticks, World.lives_eq hd]
  cases hfind : d.queue.runners.find? fun r => r.id == id with
  | none =>
    refine ⟨d, ?_, rfl, rfl⟩
    simp only [World.turnRunner, hd, hfind]
  | some runner =>
    obtain ⟨usable, order', hsame⟩ := World.same_turnRunner (w := { w with ready := rest }) hd hfind
    refine ⟨{ d with queue := (d.queue.tick id w.now usable).2 }, ?_, rfl, ticked_tick _ _ _ usable⟩
    have hedit := World.depots_edit { w with ready := rest } n (d.queue.tick id w.now usable).2
      (World.launching n d.delivery (d.queue.tick id w.now usable).1) n
    rw [if_pos rfl, hd, Option.map_some] at hedit
    rw [hsame.depots]
    exact hedit

/-! ## The life cycle -/

/-- The ticks of a history are evenly spaced. -/
theorem paced_follow (h : w.Fresh) {hs : List Happening} (hp : w.Possible hs) (n : Nat) :
    ∃ cs, Kept (w.follow hs) [] cs ∧ Paced (cs n).queue (w.ticks n hs) := by
  obtain ⟨cs, hkept, hnone⟩ := h.kept
  refine kept_follow (P := fun hs cs => Paced (cs n).queue (w.ticks n hs)) hkept ?_ ?_ hp
  · exact ⟨nofun, fun _ => ⟨0, rfl⟩, fun r hr => by rw [hnone n] at hr; cases hr⟩
  · intro hs e cs₁ cs₂ hkept₁ hpaced hacc
    rw [World.ticks_concat]
    exact paced_happen hkept₁ (hacc n) hpaced

/-- **The life cycle of a runner.**  Take any world in which nothing has happened yet, whatever its
queues, transports and leaves are, and any history of it: events are stored, runners started and
stopped, where tasks can be started or elsewhere, stores fail or do not, batches are dispatched by
hand, flushes called, and time passes.  Of every queue, where `span` is the interval of its runner:

* One runner task lives if the queue runs, and none if it does not.
* A start makes it run, where tasks can be started.  So does storing events, where tasks can be
  started, if the store accepts them and the runner was not stopped.
* If its runner was stopped, and nobody has started it since where tasks can be started, the queue
  does not run and has not ticked since; and every batch that was in flight at the stop is in flight
  or accounted for, and settles when the world is left alone for long enough.
* A turn of a runner that lives is a tick, which puts at most one batch into flight; a turn of a
  runner that was stopped does nothing.
* The ticks of a runner are exactly the interval apart, from the first on.
* None is missing: when no task can go on, the runner that lives has ticked, and its next tick is in
  the future. -/
theorem runner_life_cycle {w : World} (hw : w.Fresh) {hs : List Happening} (hp : w.Possible hs)
    {n : Nat} {d : Depot} (hd : (w.follow hs).depots[n]? = some d) :
    let span := max d.queue.settings.batchDelay 1
    ((w.follow hs).liveRunners n).length = (if d.queue.running then 1 else 0) ∧
    (∀ before inside d₀, hs = before ++ [.start n inside] →
      (w.follow before).depots[n]? = some d₀ → d.queue.running = (d₀.queue.running || inside)) ∧
    (∀ before events inside d₀, hs = before ++ [.push n events inside] →
      (w.follow before).depots[n]? = some d₀ → d.queue.running = (d₀.queue.running ||
        (inside && !d₀.queue.stopped && (d₀.queue.push events).toBool))) ∧
    (∀ before after, hs = before ++ .stop n :: after → .start n true ∉ after →
      d.queue.running = false ∧ (w.follow (before ++ [.stop n])).ticks n after = [] ∧
      ∀ d₀, (w.follow before).depots[n]? = some d₀ → ∀ flight ∈ d₀.queue.flights,
        (flight ∈ d.queue.flights ∨ ∃ notes, Accounted d₀.queue d.queue flight notes) ∧
        ∃ k d' notes, ((w.follow hs).leave k).depots[n]? = some d' ∧
          Accounted d₀.queue d'.queue flight notes) ∧
    (∀ before after, hs = before ++ .turn :: after → ∀ id order rest,
      (w.follow before).ready = .runner n id order :: rest →
      ∀ d₀, (w.follow before).depots[n]? = some d₀ →
        ∃ d', (w.follow (before ++ [.turn])).depots[n]? = some d' ∧
          if (w.follow before).lives n id then
            (w.follow before).ticksIn n .turn = [⟨id, (w.follow before).now⟩] ∧
              Ticked d₀.queue d'.queue id (w.follow before).now
          else (w.follow before).ticksIn n .turn = [] ∧ d' = d₀) ∧
    (∀ id, ∃ first, tickTimes id (w.ticks n hs) =
      evenly first span (tickTimes id (w.ticks n hs)).length) ∧
    ((w.follow hs).ready = [] → ∀ r ∈ d.queue.runners, ∃ first count,
      tickTimes r.id (w.ticks n hs) = evenly first span (count + 1) ∧
        (w.follow hs).now < first + (count + 1) * span) := by
  intro span
  obtain ⟨cs, hkept, hpaced⟩ := paced_follow hw hp n
  have ht := hkept.tended n d hd
  rw [ht.queue] at hpaced
  refine ⟨length_liveRunners hkept hd, ?_, ?_, ?_, ?_, hpaced.even, ?_⟩
  · rintro before inside d₀ rfl hd₀
    rw [World.follow_concat] at hd
    exact running_after_start hd₀ hd
  · rintro before events inside d₀ rfl hd₀
    rw [World.follow_concat] at hd
    exact running_after_push hd₀ hd
  · rintro before after rfl hstart
    obtain ⟨hbefore, hafter⟩ := World.possible_append.1 hp
    obtain ⟨cs₀, hkept₀, -⟩ := paced_follow hw hbefore n
    rw [World.follow_append] at hd
    obtain ⟨hidle, hquiet⟩ := stopped_since hkept₀ hafter hstart hd
    rw [World.follow_concat, World.follow_append]
    exact ⟨hidle, hquiet, fun d₀ hd₀ flight hf =>
      ⟨aloft_or_accounted hkept₀ hd₀ hf hafter hd, exists_accounted hkept₀ hd₀ hf hafter⟩⟩
  · rintro before after rfl id order rest hready d₀ hd₀
    rw [World.follow_concat]
    exact turn_runner hready hd₀
  · intro hready r hr
    rw [hready] at ht
    exact hpaced.on_time ht hr

/-- A queue that delivers one event at a time, by a leaf that takes longer than the interval. -/
def slowWorld : World :=
  { leaves := [{ scripted := true, name := "slow", fallback := { delay := 7 } }]
    depots := [{ queue := .ofStore { batchSize := 1, batchDelay := 5, concurrency := 2 } {}
                 delivery := .sink 0 "slow" }] }

/-- Events are stored where no task can be started, and the runner is started elsewhere; it has ticked
twice, and both batches are under way. -/
def busyStart : List Happening :=
  [.push 0 [sampleEvent 1, sampleEvent 2, sampleEvent 3] false, .start 0 true, .turn, .turn, .clock 5,
    .turn, .turn]

/-- An event is stored where tasks can be started, and the first batch lands. -/
def quietEnd : List Happening :=
  [.push 0 [sampleEvent 4] true, .clock 7, .turn]

/-- The runner is stopped while two batches are in flight: it has ticked twice, five milliseconds
apart, and does not live again when an event is stored; both batches settle. -/
theorem life_cycle_of_slow_delivery :
    let hs := busyStart ++ .stop 0 :: quietEnd
    slowWorld.Fresh ∧ slowWorld.Possible hs ∧
    ((slowWorld.follow busyStart).liveRunners 0).length = 1 ∧
    slowWorld.ticks 0 hs = [⟨0, 0⟩, ⟨0, 5⟩] ∧
    ∃ d₀ d, (slowWorld.follow busyStart).depots[0]? = some d₀ ∧
      (slowWorld.follow hs).depots[0]? = some d ∧
      d₀.queue.flights.map Flight.ticket = [0, 1] ∧ d.queue.flights.map Flight.ticket = [1] ∧
      d.queue.running = false ∧ ((slowWorld.follow hs).liveRunners 0).length = 0 ∧
      ∀ flight ∈ d₀.queue.flights,
        (flight ∈ d.queue.flights ∨ ∃ notes, Accounted d₀.queue d.queue flight notes) ∧
        ∃ k d' notes, ((slowWorld.follow hs).leave k).depots[0]? = some d' ∧
          Accounted d₀.queue d'.queue flight notes := by
  intro hs
  have hw : slowWorld.Fresh := by
    refine ⟨rfl, rfl, fun d hd => ?_⟩
    cases List.mem_singleton.1 hd
    exact ⟨_, _, rfl⟩
  have hp : slowWorld.Possible hs := by
    refine ⟨?_, ?_, ?_, ?_, ?_, ?_, ?_, ?_, ?_, ?_, ?_, trivial⟩ <;> decide +kernel
  obtain ⟨d₀, hd₀⟩ : ∃ d, (slowWorld.follow busyStart).depots[0]? = some d :=
    Option.isSome_iff_exists.1 (by decide +kernel)
  obtain ⟨d, hd⟩ : ∃ d, (slowWorld.follow hs).depots[0]? = some d :=
    Option.isSome_iff_exists.1 (by decide +kernel)
  have htickets₀ : ((slowWorld.follow busyStart).depots[0]?).map
      (fun d => d.queue.flights.map Flight.ticket) = some [0, 1] := by decide +kernel
  have htickets : ((slowWorld.follow hs).depots[0]?).map
      (fun d => d.queue.flights.map Flight.ticket) = some [1] := by decide +kernel
  rw [hd₀] at htickets₀
  rw [hd] at htickets
  obtain ⟨hlive, -, -, hstop, -⟩ := runner_life_cycle hw hp hd
  obtain ⟨hidle, -, hsettles⟩ := hstop busyStart quietEnd rfl (by simp [quietEnd])
  rw [hidle] at hlive
  exact ⟨hw, hp, by decide +kernel, by decide +kernel, d₀, d, hd₀, hd, Option.some.inj htickets₀,
    Option.some.inj htickets, hidle, hlive, hsettles d₀ hd₀⟩

end Run

end EventRelay
