import EventRelay.Run.Track
import EventRelay.Store.Disk

/-!
# The configured pipeline

With a collector configured, events go both to a queue, which delivers them to the collector with
retries, and to the debug sink; without one, to the debug sink only.

The queue keeps its events in memory or in the tracker's slot of a database.  Its permits are counted
in words of which three bits are taken, so more of them than `mostPermits` cannot be made at all, and
asking for them is a crash and not an error.
-/

namespace EventRelay

/-- Why a pipeline or tracker could not be made. -/
inductive BuildError where
  /-- For a reason that is reported. -/
  | refused (e : TrackerError)
  /-- By a crash: more permits than there can be. -/
  | tooManyPermits

namespace Pipeline

/-- The most permits that there can be. -/
def mostPermits : Nat := 2305843009213693951

/-- The way to the collector: `retry(switch(http))`.  It needs a client for web requests, and is taken to
have one: no setting has a say in whether such a client can be made, only the machine has, and where it
cannot be made nothing is built or flushed. -/
def delivery? (s : Config.Settings) : Option Transport :=
  s.tracker.endpoint.map fun endpoint => .retry 0 s.retry.policy (.switch [.http 0 endpoint])

/-- The world that the transports of a pipeline refer to. -/
def world (depots : List Run.Depot) : Run.World :=
  { leaves := [{ scripted := false, name := "http" }], books := [[]], depots }

/-- Surroundings that a pipeline is built in. -/
structure Place where
  /-- The databases. -/
  disk : Store.Disk := {}
  /-- The user's data directory. -/
  dataDirectory : Option String

/-- Opens the slot of the configured tracker: the path of its database, the database and the slot. -/
def openSlot (s : Config.Settings) (place : Place) (path : String) :
    Except StorageError (Store.Database × Store.Slot) := do
  let db ← place.disk.database path
  return (db, ← Store.Slot.load db s.tracker.trackerId)

/-- Opens the configured store, with the lines about it. -/
def openStore (s : Config.Settings) (place : Place) : Except StorageError (Store × List Log.Line) :=
  match s.queue.store with
  | .memory => .ok ({}, [])
  | .persistent =>
    match s.queue.place? place.dataDirectory with
    | none => .error (.invalidSlot "no store path configured")
    | some path => do
      let (db, slot) ← openSlot s place path
      return (Store.ofSlot db slot, slot.loadLines db)

/-- Makes a queue, if there can be as many permits. -/
def makeQueue (settings : Queue.Settings) (store : Store) : Except BuildError Queue :=
  if settings.normalized.concurrency ≤ mostPermits then .ok (.ofStore settings store)
  else .error .tooManyPermits

/-- A pipeline: what the tracker hands events to, and the queue behind it. -/
structure Built where
  /-- The transport. -/
  transport : Transport
  /-- The queue, if there is one. -/
  depot : Option Run.Depot
  /-- The lines about building it. -/
  lines : List Log.Line

/-- A line about the pipeline. -/
def pipelineLine (message : String) (fields : List Log.Field) : Log.Line :=
  { source := .tracker, level := .info, message, fields }

/-- Builds the configured pipeline. -/
def build (s : Config.Settings) (place : Place) : Except BuildError Built :=
  match delivery? s with
  | none => .ok
      { transport := .debug, depot := none
        lines := [pipelineLine
          "No collector endpoint configured, events go to the debug sink only" []] }
  | some delivery =>
    match openStore s place with
    | .error e => .error (.refused (.storage e))
    | .ok (store, lines) => do
      let queue ← makeQueue s.queue.delivery store
      let transport := Transport.group [.queued 0 delivery, .debug]
      return {
        transport
        depot := some ⟨queue, delivery⟩
        lines := lines ++ [pipelineLine "Assembled tracker pipeline"
          [Log.str "transport" transport.name, Log.num "pending" store.size]] }

end Pipeline

/-- A tracker with its queue. -/
structure Tracker.Built where
  /-- The tracker. -/
  tracker : Tracker
  /-- Its queue, if there is one. -/
  depot : Option Run.Depot
  /-- The lines about building it. -/
  lines : List Log.Line

/-- Builds the configured tracker; a configuration with violations is refused. -/
def Tracker.build (s : Config.Settings) (place : Pipeline.Place) : Except BuildError Tracker.Built :=
  match s.violations place.dataDirectory with
  | [] => do
    let p ← Pipeline.build s place
    return { tracker := .ofSettings s.tracker p.transport, depot := p.depot, lines := p.lines }
  | violations => .error (.refused (.config ("Configuration validation failed:\n" ++
      "\n".intercalate (violations.map Config.Violation.message))))

end EventRelay
