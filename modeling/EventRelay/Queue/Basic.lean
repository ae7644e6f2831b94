import EventRelay.Store.Basic
import EventRelay.Transport.Dialogue

/-!
# The delivery queue

A queue drains a store into a transport in batches.  A batch is *claimed* from the front of the
store, past events that are in flight already, and stays in flight until its delivery has *settled*:
a delivered batch is deleted from the store, a failed one is only released and claimed again later.

The number of batches in flight is bounded by permits.  A permit is taken before a claim and given
back when the batch has settled, or at once if there was nothing to claim; it goes to the flush that
has waited longest, if one waits.

This module holds the state and the operations on it; each is atomic.  What a flush does step by
step is in `Queue.Flush`, the runner's life cycle in `Queue.Runner`.
-/

namespace EventRelay

namespace Queue

/-- How a queue works. -/
structure Settings where
  /-- The most events per batch. -/
  batchSize : Nat := 10
  /-- Milliseconds between two ticks of the runner. -/
  batchDelay : Nat := 1000
  /-- The most batches in flight. -/
  concurrency : Nat := 4
  deriving Repr, DecidableEq

/-- Batches hold at least one event, and at least one may be in flight. -/
def Settings.normalized (s : Settings) : Settings :=
  { s with batchSize := max s.batchSize 1, concurrency := max s.concurrency 1 }

/-- A batch in flight, known by its ticket. -/
structure Flight where
  /-- The number of the batch, counted from zero in the order of dispatch. -/
  ticket : Nat
  /-- The batch. -/
  batch : Batch

/-- A batch that a flush has dispatched. -/
structure Sent where
  /-- Its ticket. -/
  ticket : Nat
  /-- The ids of its events. -/
  ids : List EventId
  deriving DecidableEq

/-- What a flush did. -/
structure Report where
  /-- The number of batches it dispatched. -/
  batches : Nat := 0
  /-- The number of events in those that were delivered. -/
  delivered : Nat := 0
  /-- The number of events in the others. -/
  failed : Nat := 0
  deriving Repr, DecidableEq

/-- How far a flush has come. -/
inductive Stage where
  /-- It will ask for a permit. -/
  | asking
  /-- It waits for a permit. -/
  | inLine
  /-- It has a permit and will claim a batch. -/
  | holding
  /-- It waits for its batches to settle, in order. -/
  | joining (left : List Sent)
  /-- It waits until nothing is in flight. -/
  | parked
  /-- It has returned. -/
  | returned
  deriving DecidableEq

/-- A flush call. -/
structure Flush where
  /-- How far it has come. -/
  stage : Stage := .asking
  /-- The batches it has dispatched, in order. -/
  sent : List Sent := []
  /-- What it has counted so far. -/
  report : Report := {}

/-- The ids that a flush has dispatched already. -/
def Flush.attempted (f : Flush) : List EventId :=
  f.sent.flatMap Sent.ids

/-- A runner task that was started and not stopped. -/
structure Runner where
  /-- Its number, counted from zero. -/
  id : Nat
  /-- When its next tick is due; at once as long as it has made none. -/
  due : Option Nat := none
  deriving DecidableEq

end Queue

/-- A delivery queue. -/
structure Queue where
  /-- How it works. -/
  settings : Queue.Settings
  /-- The pending events, those in flight included. -/
  store : Store
  /-- The ids of the events in flight, each once. -/
  processing : List EventId := []
  /-- The batches in flight, in dispatch order. -/
  flights : List Queue.Flight := []
  /-- The outcomes of settled batches by ticket, the latest first. -/
  outcomes : List (Nat × Outcome) := []
  /-- The number of batches dispatched so far. -/
  tickets : Nat := 0
  /-- Permits that nobody holds. -/
  free : Nat
  /-- The flushes that wait for a permit, the longest waiting first. -/
  line : List Nat := []
  /-- All flush calls, in the order of the calls. -/
  flushes : List Queue.Flush := []
  /-- The number of delivered events. -/
  delivered : Nat := 0
  /-- The number of batches that failed. -/
  failedBatches : Nat := 0
  /-- The runner was started and not stopped since. -/
  running : Bool := false
  /-- The runner was stopped explicitly and not started since. -/
  stopped : Bool := false
  /-- The runner task started last, unless it was stopped. -/
  current : Option Nat := none
  /-- The runner tasks that live. -/
  runners : List Queue.Runner := []
  /-- The number of runner tasks started so far. -/
  started : Nat := 0

namespace Queue

/-- A new queue over a store. -/
def ofStore (settings : Settings) (store : Store) : Queue :=
  { settings := settings.normalized, store, free := settings.normalized.concurrency }

/-- Counts of a queue. -/
structure Stats where
  /-- Events in the store. -/
  pending : Nat
  /-- Ids in flight. -/
  inFlight : Nat
  /-- Events delivered. -/
  delivered : Nat
  /-- Batches failed. -/
  failedBatches : Nat
  deriving Repr, DecidableEq

/-- The counts. -/
def stats (q : Queue) : Stats :=
  ⟨q.store.size, q.processing.length, q.delivered, q.failedBatches⟩

/-- The outcome of a batch, once it has settled. -/
def outcome? (q : Queue) (ticket : Nat) : Option Outcome :=
  q.outcomes.lookup ticket

/-- Changes one flush. -/
def modifyFlush (q : Queue) (id : Nat) (f : Flush → Flush) : Queue :=
  { q with flushes := q.flushes.modify id f }

/-! ## Permits -/

/-- Gives a permit back: the flush that has waited longest gets it. -/
def release (q : Queue) : Queue :=
  match q.line with
  | [] => { q with free := q.free + 1 }
  | id :: rest => { q with line := rest }.modifyFlush id fun f => { f with stage := .holding }

/-! ## Claiming -/

/-- Reads what can be claimed: stored events that are neither in flight nor excluded. -/
def claimable (q : Queue) (exclude : List EventId) : Except StorageError (List Event) :=
  q.store.read (some q.settings.batchSize) fun e =>
    !q.processing.contains e.id && !exclude.contains e.id

/-- The result of an attempt to dispatch a batch. -/
inductive Dispatch where
  /-- The transport is not usable. -/
  | unusable
  /-- No permit is free. -/
  | noPermit
  /-- The store could not be read. -/
  | unreadable (e : StorageError)
  /-- There is nothing to claim. -/
  | nothing
  /-- A batch is in flight now. -/
  | sent (flight : Flight)

/-- Claims a batch with a permit in hand; the permit is given back if there is none. -/
def claim (q : Queue) (exclude : List EventId) : Dispatch × Queue :=
  match q.claimable exclude with
  | .error e => (.unreadable e, q.release)
  | .ok events =>
    match Batch.ofList? events with
    | none => (.nothing, q.release)
    | some batch =>
      let flight : Flight := ⟨q.tickets, batch⟩
      (.sent flight,
        { q with
          processing := q.processing ++ batch.ids.eraseDups
          flights := q.flights ++ [flight]
          tickets := q.tickets + 1 })

/-- Dispatches the next batch, if the transport is usable, a permit free and something claimable. -/
def dispatch (q : Queue) (usable : Bool) : Dispatch × Queue :=
  if !usable then (.unusable, q)
  else
    match q.free with
    | 0 => (.noPermit, q)
    | free + 1 => { q with free }.claim []

/-! ## Settling -/

/-- Wakes the flushes that wait until nothing is in flight. -/
def wakeParked (q : Queue) : Queue :=
  { q with flushes := q.flushes.map fun f =>
      if f.stage = .parked then { f with stage := .joining [] } else f }

/-- Accounts for the outcome of a batch: delivered events leave the store.  Gives the failure of the
store to remove them, which is not counted against the delivery. -/
def account (q : Queue) (batch : Batch) (outcome : Outcome) : Option StorageError × Queue :=
  match outcome with
  | .ok () =>
    let q := { q with delivered := q.delivered + batch.size }
    match q.store.delete batch.ids with
    | .ok store => (none, { q with store })
    | .error e => (some e, q)
  | .error _ => (none, { q with failedBatches := q.failedBatches + 1 })

/-- Takes a settled batch out of flight. -/
def land (q : Queue) (flight : Flight) (outcome : Outcome) : Queue :=
  let left := q.processing.filter fun id => !flight.batch.ids.contains id
  let q := { q with
    processing := left
    flights := q.flights.filter fun f => f.ticket != flight.ticket
    outcomes := (flight.ticket, outcome) :: q.outcomes }
  (if left.isEmpty then q.wakeParked else q).release

/-- The delivery of a batch in flight has ended. -/
def settle (q : Queue) (ticket : Nat) (outcome : Outcome) : Option StorageError × Queue :=
  match q.flights.find? fun f => f.ticket == ticket with
  | none => (none, q)
  | some flight =>
    let (failure, q) := q.account flight.batch outcome
    (failure, q.land flight outcome)

/-! ## Storing -/

/-- Stores events in order. -/
def push (q : Queue) (events : List Event) : Except StorageError Queue := do
  return { q with store := ← q.store.write events }

end Queue

end EventRelay
