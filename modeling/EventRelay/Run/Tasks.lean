import EventRelay.Queue.Flush
import EventRelay.Run.Advance
import EventRelay.Transport.Handle

/-!
# Tasks

Two kinds of task run on their own: runners, which tick, and deliveries, which hand one batch to a
transport and account for its outcome.  A delivery survives a crash of the transport: the crash counts
as a failure of the batch.
-/

namespace EventRelay.Run

/-- How the crash of a transport is accounted for. -/
def crashError : TransportError :=
  .sendFailed "transport panicked while handling batch"

namespace World

/-- The line about a store that cannot be read. -/
def unreadableLine (e : StorageError) : Log.Line :=
  queueLine .error "Failed to read queued events" [Log.str "error" e.message]

/-- A batch went into flight: its delivery becomes a task. -/
def launch (w : World) (depot : Nat) (delivery : Transport) (flight : Queue.Flight) : World :=
  let opening := queueLine .debug "Dispatching batch"
    [Log.str "transport" delivery.name, Log.num "events" flight.batch.size]
  w.spawn (.delivery depot flight.ticket
    (.ofDialogue (.note opening (delivery.handle flight.batch))))

/-- What follows from an attempt to dispatch a batch. -/
def dispatched (w : World) (depot : Nat) (delivery : Transport) : Queue.Dispatch → World
  | .unusable => w.note (queueLine .debug "Transport not usable, skipping tick"
      [Log.str "transport" delivery.name])
  | .unreadable e => w.note (unreadableLine e)
  | .sent flight => w.launch depot delivery flight
  | .noPermit => w
  | .nothing => w

/-- Dispatches the next batch of a queue by hand. -/
def dispatchNext (w : World) (depot : Nat) : Option Queue.Flight × World :=
  match w.depots[depot]? with
  | none => (none, w)
  | some d =>
    let (result, queue) := d.queue.dispatch (d.delivery.usable w.usability)
    let w := (w.setQueue depot queue).dispatched depot d.delivery result
    match result with
    | .sent flight => (some flight, w)
    | _ => (none, w)

/-- A turn of a runner. -/
def turnRunner (w : World) (depot id : Nat) : World :=
  match w.depots[depot]? with
  | none => w
  | some d =>
    match d.queue.runners.find? fun r => r.id == id with
    | none => w
    | some runner =>
      let settings := d.queue.settings
      let w := if runner.due.isNone then
          w.note (queueLine .debug "Queue runner started"
            [Log.num "batch_size" settings.batchSize, Log.num "batch_delay_ms" settings.batchDelay,
             Log.num "concurrency" settings.concurrency])
        else w
      let (result, queue) := d.queue.tick id w.now (d.delivery.usable w.usability)
      let w := (w.setQueue depot queue).dispatched depot d.delivery result
      let (alarm, w) := w.setAlarm (w.now + queue.interval)
      { w with sleeping := w.sleeping ++ [.runner depot id alarm.order] }

/-- Accounts for the outcome of a delivery. -/
def settleDelivery (w : World) (depot ticket : Nat) (outcome : Outcome) : World :=
  match w.depots[depot]? with
  | none => w
  | some d =>
    let events := match d.queue.flights.find? fun f => f.ticket == ticket with
      | some flight => flight.batch.size
      | none => 0
    let (failure, queue) := d.queue.settle ticket outcome
    let w := w.setQueue depot queue
    match outcome, failure with
    | .ok (), none => w
    | .ok (), some e =>
      w.note (queueLine .error "Delivered batch could not be removed from the store"
        [Log.str "error" e.message, Log.num "events" events])
    | .error e, _ =>
      w.note (queueLine .warn "Batch delivery failed, events kept for a later run"
        [Log.str "transport" d.delivery.name, Log.num "events" events, Log.str "error" e.message])

/-- A turn of a delivery. -/
def turnDelivery (w : World) (depot ticket : Nat) (state : Running) : World :=
  match resume state w with
  | (.done outcome, w) => w.settleDelivery depot ticket outcome
  | (.crashed, w) => w.settleDelivery depot ticket (.error crashError)
  | (state, w) => { w with sleeping := w.sleeping ++ [.delivery depot ticket state] }

/-- A turn of a task. -/
def turn (w : World) : Task → World
  | .runner depot id _ => w.turnRunner depot id
  | .delivery depot ticket state => w.turnDelivery depot ticket state

/-- The alarm that wakes a task; none for a runner that was stopped. -/
def alarm? (w : World) : Task → Option Alarm
  | .runner depot id order => do
    let d ← w.depots[depot]?
    let r ← d.queue.runners.find? fun r => r.id == id
    return ⟨← r.due, order⟩
  | .delivery _ _ state => state.alarm?

/-! ## Flushing -/

/-- Goes on with a flush as far as it gets. -/
def turnFlush : Nat → World → Nat → Nat → World
  | 0, w, _, _ => w
  | fuel + 1, w, depot, id =>
    match w.depots[depot]? with
    | none => w
    | some d =>
      match d.queue.flushStep id with
      | none => w
      | some (progress, queue) =>
        let w := w.setQueue depot queue
        match progress with
        | .moved => turnFlush fuel w depot id
        | .sent flight => turnFlush fuel (w.launch depot d.delivery flight) depot id
        | .unreadable e => turnFlush fuel (w.note (unreadableLine e)) depot id
        | .returned r =>
          w.note (queueLine .info "Flushed tracker queue"
            [Log.num "batches" r.batches, Log.num "delivered" r.delivered, Log.num "failed" r.failed])

/-- More steps than a flush can make in one turn: two per batch, one per batch joined, and the
last ones. -/
def flushFuel (w : World) (depot : Nat) : Nat :=
  match w.depots[depot]? with
  | none => 0
  | some d => 3 * d.queue.store.size + d.queue.tickets + 8

/-- Calls a flush and gives its number. -/
def callFlush (w : World) (depot : Nat) : Nat × World :=
  match w.depots[depot]? with
  | none => (0, w)
  | some d =>
    let usable := d.delivery.usable w.usability
    let (id, queue) := d.queue.callFlush usable
    let w := w.setQueue depot queue
    (id, if usable then w
      else w.note (queueLine .warn "Transport not usable, nothing flushed"
        [Log.str "transport" d.delivery.name]))

end World

end EventRelay.Run
