import EventRelay.Event
import EventRelay.Failure
import EventRelay.Log
import EventRelay.Retry

/-!
# Calls in progress

Handling a batch takes time and touches things outside the transport: the clock, leaves, queues, the
log.  A `Dialogue` is such a call as data: what it does next, and how it goes on from the answer.
It ends with an outcome, or it crashes, which ends the whole call it is part of.

Several dialogues can be held at once (`all`); they take turns whenever one of them has to wait.
-/

namespace EventRelay

/-- How handling a batch ended. -/
abbrev Outcome := Except TransportError Unit

/-- What a scripted leaf does in one call: wait, change the usability of leaves, crash, or end. -/
structure Cue where
  /-- How long it waits first. -/
  delay : Nat := 0
  /-- Which leaves, by name, become usable or unusable. -/
  changes : List (String × Bool) := []
  /-- It crashes. -/
  crashes : Bool := false
  /-- How it ends otherwise. -/
  outcome : Outcome := .ok ()

/-- What came of posting to a collector. -/
inductive Reply where
  /-- A response; the body is missing if it could not be read to its end. -/
  | response (status : Nat) (body : Option String)
  /-- A time limit of the client ran out. -/
  | timedOut (detail : String)
  /-- No connection could be made. -/
  | unreachable (detail : String)
  /-- The exchange broke off, or was not possible at all. -/
  | broken (detail : String)

/-- A call in progress. -/
inductive Dialogue where
  /-- The call has ended. -/
  | finish (outcome : Outcome)
  /-- The call has crashed. -/
  | crash
  /-- Asks which leaves are usable. -/
  | look (next : (Nat → Bool) → Dialogue)
  /-- Asks what time it is. -/
  | clock (next : Nat → Dialogue)
  /-- Writes a log line. -/
  | note (line : Log.Line) (next : Dialogue)
  /-- Hands the batch to a scripted leaf and gets its cue. -/
  | perform (leaf : Nat) (batch : Batch) (next : Cue → Dialogue)
  /-- Posts the batch to a collector. -/
  | post (endpoint : String) (batch : Batch) (next : Reply → Dialogue)
  /-- Changes the usability of leaves, by name. -/
  | change (changes : List (String × Bool)) (next : Dialogue)
  /-- Enters an attempt in a book. -/
  | record (book : Nat) (attempt : Retry.Attempt) (next : Dialogue)
  /-- Stores events in a queue. -/
  | enqueue (queue : Nat) (events : List Event) (next : Except StorageError Unit → Dialogue)
  /-- Waits. -/
  | pause (span : Span) (next : Dialogue)
  /-- Holds several dialogues at once until all have ended. -/
  | all (parts : List Dialogue) (next : List Outcome → Dialogue)

namespace Dialogue

/-- One dialogue after another. -/
def bind (d : Dialogue) (k : Outcome → Dialogue) : Dialogue :=
  match d with
  | .finish outcome => k outcome
  | .crash => .crash
  | .look next => .look fun u => (next u).bind k
  | .clock next => .clock fun t => (next t).bind k
  | .note line next => .note line (next.bind k)
  | .perform leaf batch next => .perform leaf batch fun cue => (next cue).bind k
  | .post endpoint batch next => .post endpoint batch fun reply => (next reply).bind k
  | .change changes next => .change changes (next.bind k)
  | .record book attempt next => .record book attempt (next.bind k)
  | .enqueue queue events next => .enqueue queue events fun r => (next r).bind k
  | .pause span next => .pause span (next.bind k)
  | .all parts next => .all parts fun outcomes => (next outcomes).bind k

/-- Several log lines in order. -/
def notes (lines : List Log.Line) (next : Dialogue) : Dialogue :=
  lines.foldr .note next

/-- A scripted leaf follows its cue. -/
def follow (cue : Cue) : Dialogue :=
  .pause (.ms cue.delay) (.change cue.changes (if cue.crashes then .crash else .finish cue.outcome))

end Dialogue

end EventRelay
