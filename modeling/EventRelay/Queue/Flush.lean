import EventRelay.Queue.Basic

/-!
# Flushing

A flush dispatches everything stored, one batch per permit, each event at most once, and then waits:
first for its own batches, in the order of dispatch, and then until nothing at all is in flight.  Its
report counts its own batches only.

`flushStep` makes one step; it gives nothing while the flush has to wait.  Between two steps anything
else may happen to the queue.
-/

namespace EventRelay.Queue

/-- Calls a flush and gives its number.  With an unusable transport it returns at once. -/
def callFlush (q : Queue) (usable : Bool) : Nat × Queue :=
  (q.flushes.length,
    { q with flushes := q.flushes ++ [{ stage := if usable then .asking else .returned }] })

/-- What a step of a flush did. -/
inductive Progress where
  /-- It went on. -/
  | moved
  /-- It dispatched a batch. -/
  | sent (flight : Flight)
  /-- It could not read the store, and goes on to wait. -/
  | unreadable (e : StorageError)
  /-- It returned. -/
  | returned (report : Report)

/-- A report that counts one more batch. -/
def Report.add (r : Report) (events : Nat) (outcome : Outcome) : Report :=
  match outcome with
  | .ok () => { r with batches := r.batches + 1, delivered := r.delivered + events }
  | .error _ => { r with batches := r.batches + 1, failed := r.failed + events }

/-- Asks for a permit: takes a free one, or joins the line. -/
def askPermit (q : Queue) (id : Nat) : Queue :=
  match q.free with
  | 0 => { q with line := q.line ++ [id] }.modifyFlush id fun f => { f with stage := .inLine }
  | free + 1 => { q with free }.modifyFlush id fun f => { f with stage := .holding }

/-- Claims a batch with the permit in hand, or gives it back and goes on to wait. -/
def flushClaim (q : Queue) (id : Nat) (f : Flush) : Progress × Queue :=
  let wait (q : Queue) : Queue := q.modifyFlush id fun f => { f with stage := .joining f.sent }
  match q.claim f.attempted with
  | (.sent flight, q) =>
    (.sent flight, q.modifyFlush id fun f =>
      { f with stage := .asking, sent := f.sent ++ [⟨flight.ticket, flight.batch.ids⟩] })
  | (.unreadable e, q) => (.unreadable e, wait q)
  | (_, q) => (.moved, wait q)

/-- One step of a flush, or nothing while it waits. -/
def flushStep (q : Queue) (id : Nat) : Option (Progress × Queue) :=
  match q.flushes[id]? with
  | none => none
  | some f =>
    match f.stage with
    | .asking => some (.moved, q.askPermit id)
    | .inLine => none
    | .holding => some (q.flushClaim id f)
    | .joining [] =>
      if q.processing.isEmpty then
        some (.returned f.report, q.modifyFlush id fun f => { f with stage := .returned })
      else some (.moved, q.modifyFlush id fun f => { f with stage := .parked })
    | .joining (s :: rest) =>
      (q.outcome? s.ticket).map fun outcome =>
        (.moved, q.modifyFlush id fun f =>
          { f with stage := .joining rest, report := f.report.add s.ids.length outcome })
    | .parked => none
    | .returned => none

/-- The report of a flush that has returned. -/
def flushResult? (q : Queue) (id : Nat) : Option Report :=
  match q.flushes[id]? with
  | some { stage := .returned, report, .. } => some report
  | _ => none

end EventRelay.Queue
