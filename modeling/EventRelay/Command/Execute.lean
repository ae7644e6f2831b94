import EventRelay.Command.Arguments
import EventRelay.Command.Report
import EventRelay.Pipeline

/-!
# Carrying out a command

The commands about the queue act on the slot of the configured tracker in its database, whatever kind
of store is configured; each command opens the slot anew.  `queue flush` sends the pending events
once.  `track` builds the configured tracker, sends one event through it and then flushes its queue,
if it has one.

What a command prints is its result; what it leaves behind is the changed `Surroundings`.
-/

namespace EventRelay.Command

/-- What commands act on: the databases, the collector, and the log. -/
structure Surroundings where
  /-- Where databases are. -/
  place : Pipeline.Place
  /-- The collector. -/
  collector : Run.Collector := {}
  /-- The log, the latest line first. -/
  lines : List Log.Line := []

namespace Surroundings

/-- Writes log lines. -/
def notes (s : Surroundings) (lines : List Log.Line) : Surroundings :=
  { s with lines := lines.reverse ++ s.lines }

/-- Keeps a database as it is now. -/
def save (s : Surroundings) (path : String) (db : Store.Database) : Surroundings :=
  { s with place := { s.place with disk := s.place.disk.save path db } }

/-- A world in which a pipeline works. -/
def world (s : Surroundings) (depots : List Run.Depot) : Run.World :=
  { Pipeline.world depots with collector := s.collector, lines := s.lines }

/-- The surroundings after the world has done its work; the database of the queue's store, if it has
one, is kept. -/
def afterWorld (s : Surroundings) (path : Option String) (w : Run.World) : Surroundings :=
  let s := { s with collector := w.collector, lines := w.lines }
  match path, w.depots.head?.bind fun d => d.queue.store.database? with
  | some path, some db => s.save path db
  | _, _ => s

end Surroundings

/-- Why a command has no result. -/
inductive ExecuteError where
  /-- It failed. -/
  | failed (e : TrackerError)
  /-- It crashed, because there cannot be as many permits. -/
  | crashed
  /-- A flush does not come back. -/
  | stuck
  deriving Repr, DecidableEq

/-- The failure to build something. -/
def ExecuteError.ofBuild : BuildError → ExecuteError
  | .refused e => .failed e
  | .tooManyPermits => .crashed

/-- What a command prints, or why it has no result. -/
abbrev Result := Except ExecuteError String

/-- A command that failed for a configured reason. -/
def misconfigured (text : String) : Result :=
  .error (.failed (.config text))

/-- The failure without a place for the queue. -/
def noPlace : Result :=
  misconfigured "No queue store path configured"

/-- The failure without a collector. -/
def noCollector : Result :=
  misconfigured "No collector endpoint configured (tracker.endpoint)"

/-- The line about a queue that was cleared. -/
def clearedLine (slot : String) (count : Nat) : Log.Line :=
  { source := .route, level := .info, message := "Cleared queue",
    fields := [Log.str "slot" slot, Log.num "cleared" count] }

/-- The number of events left in the queue of a world. -/
def remaining (w : Run.World) : Nat :=
  (w.depots.head?.map fun d => d.queue.store.size).getD 0

/-- Flushes the queue of a world. -/
def flushWorld (w : Run.World) : Result × Run.World :=
  match w.flush 0 with
  | (some report, w) => (.ok (Report.flush report (remaining w)), w)
  | (none, w) => (.error .stuck, w)

/-- Sends the pending events of an opened slot once. -/
def flushSlot (config : Config.Settings) (s : Surroundings) (path : String) (db : Store.Database)
    (slot : Store.Slot) : Result × Surroundings :=
  match Pipeline.delivery? config with
  | none => (noCollector, s)
  | some delivery =>
    match Pipeline.makeQueue config.queue.delivery (Store.ofSlot db slot) with
    | .error e => (.error (.ofBuild e), s)
    | .ok queue =>
      let (result, w) := flushWorld (s.world [⟨queue, delivery⟩])
      (result, s.afterWorld (some path) w)

/-- Drops the pending events of an opened slot. -/
def clearSlot (s : Surroundings) (path : String) (db : Store.Database) (slot : Store.Slot) :
    Result × Surroundings :=
  let pending := slot.events.length
  match slot.clear .good db with
  | (.ok _, db) => (.ok (Report.cleared pending), (s.save path db).notes [clearedLine slot.name pending])
  | (.error e, db) => (.error (.failed (.storage e)), s.save path db)

/-- Carries out a command about the queue. -/
def runQueue (config : Config.Settings) (s : Surroundings) (action : QueueAction) :
    Result × Surroundings :=
  match config.queue.place? s.place.dataDirectory with
  | none => (noPlace, s)
  | some path =>
    match Pipeline.openSlot config s.place path with
    | .error e => (.error (.failed (.storage e)), s)
    | .ok (db, slot) =>
      let s := (s.save path db).notes (slot.loadLines db)
      match action with
      | .stats => (.ok (Report.stats slot.name slot.events.length), s)
      | .list limit =>
        (.ok (Report.list (Store.select limit (fun _ => true) slot.events) slot.events.length), s)
      | .flush => flushSlot config s path db slot
      | .clear => clearSlot s path db slot

/-- The draft that `track` sends. -/
def draftOf (eventType : String) (locations globals : List Context) : Draft :=
  { eventType, locations := locations.map .value, globals := globals.map .value }

/-- Tracks an event in a world and flushes the queue there.  The runner of the queue is stopped first,
so that only the flush sends events. -/
def trackInWorld (t : Tracker) (queued : Bool) (w : Run.World) (id : EventId) (time : UInt64)
    (d : Draft) : Result × Run.World :=
  let w := if queued then w.stopRunner 0 else w
  match w.track t id time d with
  | (.error e, w) => (.error (.failed e), w)
  | (.ok none, w) => (.ok Report.inactive, w)
  | (.ok (some event), w) =>
    if queued then
      match flushWorld w with
      | (.ok report, w) => (.ok (Report.tracked event ++ "\n" ++ report), w)
      | (.error e, w) => (.error e, w)
    else (.ok (Report.tracked event), w)

/-- Carries out `track`; the event gets the given id and time. -/
def runTrack (config : Config.Settings) (s : Surroundings) (id : EventId) (time : UInt64) (d : Draft) :
    Result × Surroundings :=
  match Tracker.build config s.place with
  | .error e => (.error (.ofBuild e), s)
  | .ok b =>
    let s := s.notes b.lines
    let (result, w) := trackInWorld b.tracker b.depot.isSome (s.world b.depot.toList) id time d
    (result, s.afterWorld (config.queue.place? s.place.dataDirectory) w)

/-- Carries out a request; an event made for it gets the given id and time. -/
def execute (config : Config.Settings) (s : Surroundings) (id : EventId) (time : UInt64) :
    Request → Result × Surroundings
  | .queue action => runQueue config s action
  | .track eventType locations globals =>
    runTrack config s id time (draftOf eventType locations globals)

end EventRelay.Command
