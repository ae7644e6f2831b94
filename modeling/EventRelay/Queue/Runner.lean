import EventRelay.Queue.Basic

/-!
# The runner

A runner is a task that ticks at regular intervals and tries to dispatch one batch per tick.  Storing
events starts it, unless it was stopped explicitly.  It can only be started where tasks can be
started at all; elsewhere starting it does nothing.  Stopping it leaves batches in flight alone.
-/

namespace EventRelay.Queue

/-- What an attempt to start the runner came to. -/
inductive Start where
  /-- Tasks cannot be started here. -/
  | impossible
  /-- It runs already. -/
  | already
  /-- A new runner task, by its number. -/
  | started (id : Nat)
  deriving DecidableEq

/-- Starts the runner; a runner task started before is stopped. -/
def start (q : Queue) (tasks : Bool) : Start × Queue :=
  if !tasks then (.impossible, q)
  else if q.running then (.already, { q with stopped := false })
  else
    let id := q.started
    (.started id,
      { q with
        stopped := false
        running := true
        started := id + 1
        current := some id
        runners := (q.runners.filter fun r => q.current != some r.id) ++ [{ id }] })

/-- Stops the runner; tells whether it ran. -/
def stop (q : Queue) : Bool × Queue :=
  if q.running then
    (true,
      { q with
        stopped := true
        running := false
        current := none
        runners := q.runners.filter fun r => q.current != some r.id })
  else (false, { q with stopped := true })

/-- Should storing events start the runner? -/
def wantsRunner (q : Queue) : Bool :=
  !q.stopped && !q.running

/-- The interval between two ticks: at least a millisecond. -/
def interval (q : Queue) : Nat :=
  max q.settings.batchDelay 1

/-- A tick of a runner: it dispatches the next batch if it can, and the next tick becomes due. -/
def tick (q : Queue) (id now : Nat) (usable : Bool) : Dispatch × Queue :=
  let (dispatched, q) := q.dispatch usable
  (dispatched, { q with runners := q.runners.map fun r =>
    if r.id = id then { r with due := some (now + q.interval) } else r })

end EventRelay.Queue
