import EventRelay.Queue.Flush
import EventRelay.Queue.Runner
import EventRelay.Run.Tasks

/-!
# The course of a queue

Everything that can be done to a queue, one action at a time and in any order: the actions of its
producers, of its runner, of flushes, of deliveries, of those who use its store directly, and of the
surroundings, which make calls of the store fail and the transport usable or not.

* `Action` — one thing that can be done.  The end of a delivery is two actions: the call of the
  transport ends and is accounted for (`finish`), and later its batch is taken out of flight
  (`land`).  Between the two anything else may happen.
* `Note` and `Course` — a queue together with a journal of what has come of the actions so far: what
  the store has accepted and removed, which batches were claimed, handled and landed.
* `Course.act`, `Course.run` — one action, and many.  An action that cannot happen changes nothing;
  `Course.Unhindered` says that none of them is of that kind.  `Course.Reached` says that a course
  can come about at all.
-/

namespace EventRelay.Queue

/-! ## Actions and notes -/

/-- How the call of a transport for a batch ends. -/
inductive Ending where
  /-- It returns. -/
  | returned (outcome : Outcome)
  /-- It crashes. -/
  | crashed

/-- What a delivery makes of the end of its call. -/
def Ending.outcome : Ending → Outcome
  | .returned outcome => outcome
  | .crashed => .error Run.crashError

/-- Was the batch delivered? -/
def Ending.delivers (e : Ending) : Bool :=
  match e.outcome with
  | .ok () => true
  | .error _ => false

/-- Something that can be done to a queue. -/
inductive Action where
  /-- Stores events through the queue; `tasks` says whether tasks can be started there. -/
  | push (events : List Event) (tasks : Bool)
  /-- Stores events directly. -/
  | write (events : List Event)
  /-- Removes events directly. -/
  | delete (ids : List EventId)
  /-- Removes all events directly. -/
  | clear
  /-- From now on these calls of the store fail. -/
  | faults (faults : Store.Faults)
  /-- From now on the transport is usable, or is not. -/
  | usability (usable : Bool)
  /-- Starts the runner. -/
  | start (tasks : Bool)
  /-- Stops the runner. -/
  | stop
  /-- A tick of a runner that lives. -/
  | tick (runner now : Nat)
  /-- Dispatches the next batch by hand. -/
  | dispatch
  /-- Calls a flush. -/
  | callFlush
  /-- A step of a flush that does not wait. -/
  | flushStep (id : Nat)
  /-- The call of the transport for a batch ends. -/
  | finish (ticket : Nat) (ending : Ending)
  /-- A batch whose call has ended is taken out of flight. -/
  | land (ticket : Nat)

namespace Action

/-- The events that an action offers to the store. -/
def offers? : Action → Option (List Event)
  | .push events _ => some events
  | .write events => some events
  | _ => none

/-- Does the action leave batches, permits and flushes alone?  It uses the store directly or through
the queue, starts or stops the runner, or changes the surroundings. -/
def isAside : Action → Bool
  | .push _ _ => true
  | .write _ => true
  | .delete _ => true
  | .clear => true
  | .faults _ => true
  | .usability _ => true
  | .start _ => true
  | .stop => true
  | _ => false

/-- Can the action claim a batch? -/
def mayClaim : Action → Bool
  | .tick _ _ => true
  | .dispatch => true
  | .flushStep _ => true
  | _ => false

end Action

/-- What has come of an action. -/
inductive Note where
  /-- The store has accepted events. -/
  | accepted (events : List Event)
  /-- A batch went into flight. -/
  | claimed (flight : Flight)
  /-- The call for a batch has ended; `failure` is the failure to remove its events. -/
  | handled (flight : Flight) (ending : Ending) (failure : Option StorageError)
  /-- A batch was taken out of flight. -/
  | landed (flight : Flight)
  /-- Events were removed directly. -/
  | deleted (ids : List EventId)
  /-- All events were removed directly. -/
  | cleared

namespace Note

/-- The events that were accepted. -/
def accepts : Note → List Event
  | .accepted events => events
  | _ => []

/-- The batch that was claimed. -/
def claims? : Note → Option Flight
  | .claimed flight => some flight
  | _ => none

/-- Were the events of an id removed? -/
def removes (id : EventId) : Note → Bool
  | .handled flight ending none => ending.delivers && flight.batch.ids.contains id
  | .deleted ids => ids.contains id
  | .cleared => true
  | _ => false

/-- The end of the call for a batch. -/
def ending? (ticket : Nat) : Note → Option Ending
  | .handled flight ending _ => if flight.ticket = ticket then some ending else none
  | _ => none

/-- Was the batch taken out of flight? -/
def lands (ticket : Nat) : Note → Bool
  | .landed flight => flight.ticket == ticket
  | _ => false

/-- The batch that was delivered. -/
def delivered? : Note → Option Batch
  | .handled flight ending _ => if ending.delivers then some flight.batch else none
  | _ => none

/-- The failure to remove a delivered batch from the store. -/
def failure? : Note → Option StorageError
  | .handled _ _ failure => failure
  | _ => none

/-- Were events removed directly? -/
def isDirectRemoval : Note → Bool
  | .deleted _ => true
  | .cleared => true
  | _ => false

end Note

/-- The note on an attempt to dispatch a batch. -/
def Dispatch.notes : Dispatch → List Note
  | .sent flight => [.claimed flight]
  | _ => []

/-- The note on a step of a flush. -/
def Progress.notes : Progress → List Note
  | .sent flight => [.claimed flight]
  | _ => []

/-! ## Courses -/

/-- A queue, its surroundings, and what has come of all actions so far. -/
structure Course where
  /-- The queue. -/
  queue : Queue
  /-- Is the transport usable? -/
  usable : Bool := true
  /-- What has happened, in order. -/
  journal : List Note

namespace Course

/-- A new queue; what its store holds already was accepted before. -/
def begin (settings : Settings) (store : Store) : Course :=
  { queue := ofStore settings store, journal := [.accepted store.events] }

/-- The course after an action has led to a queue. -/
def next (c : Course) (queue : Queue) (notes : List Note) : Course :=
  { c with queue, journal := c.journal ++ notes }

/-- The end of the call for a batch, if it has ended. -/
def ending? (c : Course) (ticket : Nat) : Option Ending :=
  c.journal.findSome? (·.ending? ticket)

/-- The batch in flight that a ticket belongs to. -/
def flight? (c : Course) (ticket : Nat) : Option Flight :=
  c.queue.flights.find? fun f => f.ticket == ticket

/-- The course after an action; nothing if the action cannot happen. -/
def act? (c : Course) : Action → Option Course
  | .push events tasks =>
    match c.queue.push events with
    | .error _ => some c
    | .ok queue =>
      some (c.next (if queue.wantsRunner then (queue.start tasks).2 else queue) [.accepted events])
  | .write events =>
    match c.queue.store.write events with
    | .error _ => some c
    | .ok store => some (c.next { c.queue with store } [.accepted events])
  | .delete ids =>
    match c.queue.store.delete ids with
    | .error _ => some c
    | .ok store => some (c.next { c.queue with store } [.deleted ids])
  | .clear => some (c.next { c.queue with store := c.queue.store.clear } [.cleared])
  | .faults faults => some (c.next { c.queue with store := { c.queue.store with faults } } [])
  | .usability usable => some { c with usable }
  | .start tasks => some (c.next (c.queue.start tasks).2 [])
  | .stop => some (c.next c.queue.stop.2 [])
  | .tick runner now =>
    if c.queue.runners.any (·.id == runner) then
      let result := c.queue.tick runner now c.usable
      some (c.next result.2 result.1.notes)
    else none
  | .dispatch =>
    let result := c.queue.dispatch c.usable
    some (c.next result.2 result.1.notes)
  | .callFlush => some (c.next (c.queue.callFlush c.usable).2 [])
  | .flushStep id =>
    (c.queue.flushStep id).map fun result => c.next result.2 result.1.notes
  | .finish ticket ending =>
    match c.flight? ticket, c.ending? ticket with
    | some flight, none =>
      let result := c.queue.account flight.batch ending.outcome
      some (c.next result.2 [.handled flight ending result.1])
    | _, _ => none
  | .land ticket =>
    match c.flight? ticket, c.ending? ticket with
    | some flight, some ending =>
      some (c.next (c.queue.land flight ending.outcome) [.landed flight])
    | _, _ => none

/-- The course after an action. -/
def act (c : Course) (a : Action) : Course :=
  (c.act? a).getD c

/-- The course after several actions. -/
def run (c : Course) (actions : List Action) : Course :=
  actions.foldl act c

/-- Every action can happen when its turn comes. -/
def Unhindered (c : Course) : List Action → Prop
  | [] => True
  | a :: actions => (c.act? a).isSome = true ∧ (c.act a).Unhindered actions

@[simp] theorem run_nil (c : Course) : c.run [] = c := rfl

@[simp] theorem run_cons (c : Course) (a : Action) (actions : List Action) :
    c.run (a :: actions) = (c.act a).run actions := rfl

theorem run_append (c : Course) (as bs : List Action) : c.run (as ++ bs) = (c.run as).run bs :=
  List.foldl_append

theorem act_of_act? {c c' : Course} {a : Action} (h : c.act? a = some c') : c.act a = c' := by
  rw [act, h, Option.getD_some]

/-- An action either happens or changes nothing. -/
theorem act_cases (c : Course) (a : Action) : c.act? a = some (c.act a) ∨ c.act a = c := by
  cases h : c.act? a with
  | none => exact Or.inr (by rw [act, h, Option.getD_none])
  | some c' => exact Or.inl (by rw [act, h, Option.getD_some])

theorem run_concat (c : Course) (actions : List Action) (a : Action) :
    c.run (actions ++ [a]) = (c.run actions).act a := by
  rw [run_append, run_cons, run_nil]

/-- What holds at the start and is kept by each action of a run holds after the run. -/
theorem run_induction {P : Course → Prop} {c : Course} (hc : P c)
    (hstep : ∀ actions a, P (c.run actions) → P ((c.run actions).act a)) (actions : List Action) :
    P (c.run actions) := by
  have hfrom : ∀ before, P (c.run before) → P (c.run (before ++ actions)) := by
    induction actions with
    | nil =>
      intro before hb
      rwa [List.append_nil]
    | cons a actions ih =>
      intro before hb
      rw [List.append_cons]
      refine ih _ ?_
      rw [run_concat]
      exact hstep before a hb
  exact hfrom [] hc

/-- A run of some new queue leads to this course. -/
def Reached (c : Course) : Prop :=
  ∃ settings store actions, c = (begin settings store).run actions

theorem Reached.act {c : Course} (h : c.Reached) (a : Action) : (c.act a).Reached := by
  obtain ⟨settings, store, actions, rfl⟩ := h
  exact ⟨settings, store, actions ++ [a], (run_concat _ actions a).symm⟩

theorem Reached.run {c : Course} (h : c.Reached) (actions : List Action) :
    (c.run actions).Reached := by
  obtain ⟨settings, store, before, rfl⟩ := h
  exact ⟨settings, store, before ++ actions, (run_append _ before actions).symm⟩

theorem Reached.act? {c c' : Course} (h : c.Reached) {a : Action} (hact : c.act? a = some c') :
    c'.Reached := by
  rw [← act_of_act? hact]
  exact h.act a

end Course

/-! ## Events for examples -/

/-- A plain event, known by a number. -/
def sampleEvent (n : Nat) : Event :=
  { eventType := "PressEvent", id := .ofNat n, time := 0, locationStack := [], globalContexts := [] }

end EventRelay.Queue
