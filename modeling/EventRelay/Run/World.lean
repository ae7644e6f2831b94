import EventRelay.Queue.Runner
import EventRelay.Run.Running
import EventRelay.Transport.Address
import EventRelay.Transport.Basic

/-!
# The world around transports

Everything that transports refer to by number, and what has been observed of them: leaves with
their usability and scripts, attempt books, queues, the clock, the tasks, the log.
-/

namespace EventRelay.Run

/-- A leaf. -/
structure Leaf where
  /-- It follows a script, and can be addressed by name. -/
  scripted : Bool
  /-- Its name. -/
  name : String
  /-- Is it usable? -/
  usable : Bool := true
  /-- The cues of the next calls. -/
  script : List Cue := []
  /-- The cue of every further call. -/
  fallback : Cue := {}

/-- A call that a scripted leaf received. -/
structure Call where
  /-- The leaf. -/
  name : String
  /-- When. -/
  time : Nat
  /-- The events. -/
  ids : List EventId

/-- The collector as far as the network shows it. -/
structure Collector where
  /-- Where it listens, whatever the target; without a door nobody answers. -/
  door : Option Address := none
  /-- What it does with the next requests; after that it accepts all. -/
  replies : List Reply := []
  /-- The requests it received, as target and batch, the latest first. -/
  received : List (String × Batch) := []

/-- A queue with the transport it delivers by. -/
structure Depot where
  /-- The queue. -/
  queue : Queue
  /-- The transport. -/
  delivery : Transport

/-- A task that runs on its own. -/
inductive Task where
  /-- A queue's runner; `order` numbers the alarm it has set. -/
  | runner (depot id order : Nat)
  /-- The delivery of a batch. -/
  | delivery (depot ticket : Nat) (state : Running)

/-- The world. -/
structure World where
  /-- Milliseconds since the start. -/
  now : Nat := 0
  /-- Can tasks be started? -/
  tasks : Bool := true
  /-- The leaves. -/
  leaves : List Leaf := []
  /-- The attempt books. -/
  books : List (List Retry.Attempt) := []
  /-- The queues. -/
  depots : List Depot := []
  /-- The collector. -/
  collector : Collector := {}
  /-- Tasks that can go on, in the order in which they will. -/
  ready : List Task := []
  /-- Tasks that sleep. -/
  sleeping : List Task := []
  /-- The number of alarms set so far. -/
  alarms : Nat := 0
  /-- The calls that scripted leaves received, the latest first. -/
  calls : List Call := []
  /-- The log, the latest line first. -/
  lines : List Log.Line := []

namespace World

/-! ## Leaves, books and the log -/

/-- Which leaves are usable now. -/
def usability (w : World) : Usability :=
  fun leaf => (w.leaves[leaf]?.map Leaf.usable).getD false

/-- Writes a log line. -/
def note (w : World) (line : Log.Line) : World :=
  { w with lines := line :: w.lines }

/-- Writes log lines. -/
def notes (w : World) (lines : List Log.Line) : World :=
  lines.foldl note w

/-- The scripted leaf of a name: of several the last one. -/
def leafNamed? (w : World) (name : String) : Option Nat :=
  (w.leaves.zipIdx.filter fun (p, _) => p.scripted && p.name == name).getLast?.map Prod.snd

/-- Changes one leaf. -/
def modifyLeaf (w : World) (leaf : Nat) (f : Leaf → Leaf) : World :=
  { w with leaves := w.leaves.modify leaf f }

/-- Makes scripted leaves usable or unusable; unknown names change nothing. -/
def change (w : World) (changes : List (String × Bool)) : World :=
  changes.foldl (fun w (name, usable) =>
    match w.leafNamed? name with
    | none => w
    | some leaf => w.modifyLeaf leaf fun p => { p with usable }) w

/-- A scripted leaf receives a batch: its cue. -/
def perform (w : World) (leaf : Nat) (batch : Batch) : Cue × World :=
  match w.leaves[leaf]? with
  | none => ({}, w)
  | some p =>
    let w := { w with calls := ⟨p.name, w.now, batch.ids⟩ :: w.calls }
    match p.script with
    | [] => (p.fallback, w)
    | cue :: script => (cue, w.modifyLeaf leaf fun p => { p with script })

/-- Posts a batch to an endpoint: what came of it. -/
def post (w : World) (endpoint : String) (batch : Batch) : Reply × World :=
  match Address.parse? endpoint with
  | none => (.broken "the endpoint is no address", w)
  | some a =>
    if w.collector.door.any a.sameDoor then
      let received := (a.target, batch) :: w.collector.received
      match w.collector.replies with
      | reply :: replies => (reply, { w with collector := { w.collector with replies, received } })
      | [] => (.response 200 (some ""), { w with collector := { w.collector with received } })
    else (.unreachable "nobody listens at the endpoint", w)

/-- Enters an attempt in a book. -/
def record (w : World) (book : Nat) (attempt : Retry.Attempt) : World :=
  { w with books := w.books.modify book fun b => b ++ [attempt] }

/-- Sets an alarm. -/
def setAlarm (w : World) (instant : Nat) : Alarm × World :=
  (⟨instant, w.alarms⟩, { w with alarms := w.alarms + 1 })

/-- Starts a task. -/
def spawn (w : World) (task : Task) : World :=
  { w with ready := w.ready ++ [task] }

/-! ## Queues -/

/-- Replaces the queue of a depot. -/
def setQueue (w : World) (depot : Nat) (queue : Queue) : World :=
  { w with depots := w.depots.modify depot fun d => { d with queue } }

/-- A line of a queue. -/
def queueLine (level : Log.Level) (message : String) (fields : List Log.Field) : Log.Line :=
  { source := .queue, level, message, fields }

/-- Starts the runner of a queue. -/
def startRunner (w : World) (depot : Nat) : World :=
  match w.depots[depot]? with
  | none => w
  | some d =>
    match d.queue.start w.tasks with
    | (.impossible, _) =>
      w.note (queueLine .warn "No async runtime available, queued events wait for an explicit start" [])
    | (.already, queue) => w.setQueue depot queue
    | (.started id, queue) =>
      ((w.setQueue depot queue).spawn (.runner depot id 0)).note
        (queueLine .info "Started tracker queue runner" [])

/-- Stops the runner of a queue. -/
def stopRunner (w : World) (depot : Nat) : World :=
  match w.depots[depot]? with
  | none => w
  | some d =>
    match d.queue.stop with
    | (true, queue) => (w.setQueue depot queue).note (queueLine .info "Stopped tracker queue runner" [])
    | (false, queue) => w.setQueue depot queue

/-- Stores events in a queue, which may start its runner. -/
def enqueue (w : World) (depot : Nat) (events : List Event) : Except StorageError Unit × World :=
  match w.depots[depot]? with
  | none => (.ok (), w)
  | some d =>
    match d.queue.push events with
    | .error e => (.error e, w)
    | .ok queue =>
      let w := (w.setQueue depot queue).note (queueLine .debug "Queued events"
        [Log.num "events" events.length, Log.num "pending" queue.store.size])
      (.ok (), if queue.wantsRunner then w.startRunner depot else w)

end World

end EventRelay.Run
