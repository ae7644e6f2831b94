import EventRelay.Run.Tasks

/-!
# Waiting

Someone who calls on the world has an errand: a nap, a call, a flush, a batch to wait for.  While the
errand waits, tasks take turns, first come first served; the errand goes on when they all wait and it
can.  The clock moves only when nothing can go on, to the next alarm, and of everything that this
alarm's instant wakes the errand goes first.

A turn that does not wait lets nothing else run.
-/

namespace EventRelay.Run

/-- What someone waits for. -/
inductive Errand where
  /-- An instant. -/
  | nap (wake : Nat)
  /-- A call. -/
  | talk (state : Running)
  /-- A flush. -/
  | flush (depot id : Nat)
  /-- A batch in flight. -/
  | join (depot ticket : Nat)

/-- The end of an errand. -/
inductive Arrival where
  /-- The instant has come. -/
  | rested
  /-- The call or the batch has ended. -/
  | ended (outcome : Outcome)
  /-- The call has crashed. -/
  | crashed
  /-- The flush has returned. -/
  | flushed (report : Queue.Report)

namespace Errand

/-- The alarm that wakes the errand. -/
def alarm? : Errand → Option Alarm
  | .nap wake => some ⟨wake, 0⟩
  | .talk state => state.alarm?
  | .flush _ _ => none
  | .join _ _ => none

/-- Can the errand go on? -/
def canMove (w : World) : Errand → Bool
  | .flush depot id =>
    match w.depots[depot]? with
    | none => false
    | some d => (d.queue.flushStep id).isSome
  | .join depot ticket =>
    match w.depots[depot]? with
    | none => false
    | some d => (d.queue.outcome? ticket).isSome
  | e =>
    match e.alarm? with
    | none => false
    | some alarm => decide (alarm.instant ≤ w.now)

/-- A turn of the errand: its end, or what is left of it. -/
def turn (w : World) : Errand → Except Errand Arrival × World
  | .nap wake => (if wake ≤ w.now then .ok .rested else .error (.nap wake), w)
  | .talk state =>
    match resume state w with
    | (.done outcome, w) => (.ok (.ended outcome), w)
    | (.crashed, w) => (.ok .crashed, w)
    | (state, w) => (.error (.talk state), w)
  | .flush depot id =>
    let w := World.turnFlush (w.flushFuel depot) w depot id
    match w.depots[depot]? >>= fun d => d.queue.flushResult? id with
    | some report => (.ok (.flushed report), w)
    | none => (.error (.flush depot id), w)
  | .join depot ticket =>
    match w.depots[depot]? >>= fun d => d.queue.outcome? ticket with
    | some outcome => (.ok (.ended outcome), w)
    | none => (.error (.join depot ticket), w)

end Errand

namespace World

/-- The next alarm of a sleeping task. -/
def nextAlarm? (w : World) : Option Alarm :=
  w.sleeping.foldl (fun acc t => Alarm.first? acc (w.alarm? t)) none

/-- Moves the clock and wakes the tasks whose alarms have gone off, in the order of the alarms. -/
def moveClock (w : World) (instant : Nat) : World :=
  let tagged := w.sleeping.filterMap fun t => (w.alarm? t).map fun a => (a, t)
  let (due, later) := tagged.partition fun (a, _) => decide (a.instant ≤ instant)
  let due := due.mergeSort fun (a, _) (b, _) => decide (a.order ≤ b.order)
  { w with now := instant, sleeping := later.map Prod.snd, ready := w.ready ++ due.map Prod.snd }

/-- What happens next while someone waits: the wait goes on, or it is over, with no arrival if nothing
will ever happen.  The `Bool` says that the errand goes next. -/
def awaitNext : Bool × World × Errand → (Bool × World × Errand) ⊕ (Option Arrival × World)
  | (true, w, e) =>
    match e.turn w with
    | (.ok arrival, w) => .inr (some arrival, w)
    | (.error e, w) => .inl (false, w, e)
  | (false, w, e) =>
    match w.ready with
    | task :: rest => .inl (false, { w with ready := rest }.turn task, e)
    | [] =>
      if e.canMove w then .inl (true, w, e)
      else
        match Alarm.first? e.alarm? w.nextAlarm? with
        | none => .inr (none, w)
        | some alarm =>
          let w := w.moveClock alarm.instant
          .inl (e.canMove w, w, e)

/-- Lets the world run until the errand has ended, for as long as it takes.  Gives nothing if that is
for ever, and no arrival if nothing will ever happen. -/
def await (woken : Bool) (w : World) (e : Errand) : Option (Option Arrival × World) :=
  match awaitNext (woken, w, e) with
  | .inl (woken, w, e) => w |>.await woken e
  | .inr result => some result
partial_fixpoint

/-- Sees an errand through.  There is no arrival if it is never over. -/
def run (w : World) (e : Errand) : Option Arrival × World :=
  (await true w e).getD (none, w)

/-! ## Errands -/

/-- Lets time pass. -/
def sleep (w : World) (span : Nat) : World :=
  (w.run (.nap (w.now + span))).2

/-- Sees a dialogue through; none if it crashed. -/
def talk (w : World) (d : Dialogue) : Option Outcome × World :=
  match w.run (.talk (.ofDialogue d)) with
  | (some (.ended outcome), w) => (some outcome, w)
  | (_, w) => (none, w)

/-- Hands a batch to a transport. -/
def handle (w : World) (t : Transport) (b : Batch) : Option Outcome × World :=
  w.talk (t.handle b)

/-- Flushes a queue. -/
def flush (w : World) (depot : Nat) : Option Queue.Report × World :=
  let (id, w) := w.callFlush depot
  match w.run (.flush depot id) with
  | (some (.flushed report), w) => (some report, w)
  | (_, w) => (none, w)

/-- Waits for a batch in flight. -/
def join (w : World) (depot ticket : Nat) : Option Outcome × World :=
  match w.run (.join depot ticket) with
  | (some (.ended outcome), w) => (some outcome, w)
  | (_, w) => (none, w)

end World

end EventRelay.Run
