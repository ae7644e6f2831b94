import EventRelay.Location.Path
import EventRelay.Transport.Basic
import EventRelay.Transport.Dialogue
import EventRelay.Transport.Status

/-!
# Handling a batch

`Transport.handle` is the call that a transport makes for a batch, as a dialogue.

* A switch asks for usability and hands on to its first usable child; with none it fails.
* A group hands on to all usable children at once and fails if one of them does.
* A retry calls its inner transport, and after a failure waits and calls it again, until the number
  of attempts is used up or the time since the first call has reached the limit.
* A queued transport succeeds when the events are stored.
-/

namespace EventRelay.Transport

/-! ## Leaves -/

/-- The line about an event that reached the debug sink. -/
def debugLine (e : Event) : Log.Line :=
  { source := .debugSink, level := .debug, message := "Tracked event",
    fields := [Log.str "event_type" e.eventType, Log.str "event_id" e.id.text,
      Log.str "location" (Location.path e.locationStack),
      Log.num "global_contexts" e.globalContexts.length] }

/-- What a reply of the collector comes to. -/
def outcomeOfReply : Reply → Outcome
  | .response status body =>
    if Status.isSuccess status then .ok ()
    else
      let said := if Status.carriesBody status then body.getD "Unknown error" else ""
      .error (.http (s!"Collector responded with status {Status.text status}: " ++ said))
  | .timedOut detail => .error (.http ("Request timeout: " ++ detail))
  | .unreachable detail => .error (.http ("Connection error: " ++ detail))
  | .broken detail => .error (.http ("HTTP error: " ++ detail))

/-- The end of a call to the collector. -/
def settleReply (endpoint : String) (b : Batch) (reply : Reply) : Dialogue :=
  match outcomeOfReply reply with
  | .ok () =>
    .note { source := .http, level := .debug, message := "Delivered batch to collector",
            fields := [Log.str "endpoint" endpoint, Log.num "events" b.size] }
      (.finish (.ok ()))
  | .error e => .finish (.error e)

/-! ## Retry -/

/-- Gives up: the budget is spent. -/
def giveUp (name : String) (attempt elapsed : Nat) (e : TransportError) : Dialogue :=
  .note { source := .retry, level := .warn, message := "Retry budget exhausted",
          fields := [Log.str "transport" name, Log.num "attempts" attempt,
            Log.num "elapsed_ms" elapsed, Log.str "error" e.message] }
    (.finish (.error (.retryExhausted attempt e.message)))

/-- The line before another attempt. -/
def againLine (name : String) (attempt : Nat) (delay : Span) (e : TransportError) : Log.Line :=
  { source := .retry, level := .debug, message := "Delivery failed, retrying",
    fields := [Log.str "transport" name, Log.num "attempt" attempt, Log.num "delay_ms" delay.inLog,
      Log.str "error" e.message] }

/-- The line about a success that was not the first attempt. -/
def recoveredLines (name : String) (attempt events : Nat) : List Log.Line :=
  if attempt ≤ 1 then []
  else [{ source := .retry, level := .info, message := "Batch delivered after retry",
          fields := [Log.str "transport" name, Log.num "attempt" attempt, Log.num "events" events] }]

/-- Is the time since the first call used up? -/
def budgetSpent (policy : Retry.Policy) (elapsed : Nat) : Bool :=
  match policy.maxRetry with
  | none => false
  | some limit => decide (limit ≤ elapsed)

/-- Attempt number `attempt`, made after a wait of `delay`, and those that follow it.  `left` is the
number of attempts allowed after this one. -/
def attempts (call : Dialogue) (name : String) (events book : Nat) (policy : Retry.Policy)
    (started : Nat) : Nat → Nat → Span → Dialogue
  | left, attempt, delay =>
    call.bind fun
      | .ok () =>
        .record book ⟨attempt, delay, none⟩
          (.notes (recoveredLines name attempt events) (.finish (.ok ())))
      | .error e =>
        .record book ⟨attempt, delay, some e.message⟩ <| .clock fun now =>
          match left with
          | 0 => giveUp name attempt (now - started) e
          | left + 1 =>
            if budgetSpent policy (now - started) then giveUp name attempt (now - started) e
            else
              let delay := policy.delay (attempt - 1)
              .note (againLine name attempt delay e)
                (.pause delay
                  (attempts call name events book policy started left (attempt + 1) delay))

/-! ## Composites -/

/-- The line about the choice of a switch. -/
def selectedLine (t : Transport) (b : Batch) : Log.Line :=
  { source := .switch, level := .debug, message := "Switch selected transport",
    fields := [Log.str "transport" t.name, Log.num "events" b.size] }

/-- The members of a group that failed, with their names. -/
def failures : List String → List Outcome → List (String × TransportError)
  | name :: names, .error e :: outcomes => (name, e) :: failures names outcomes
  | _ :: names, .ok () :: outcomes => failures names outcomes
  | _, _ => []

/-- The end of a group's call. -/
def settleGroup (names : List String) (b : Batch) (outcomes : List Outcome) : Dialogue :=
  let failed := failures names outcomes
  let warnings := failed.map fun (name, e) =>
    { source := .group, level := .warn, message := "Grouped transport failed",
      fields := [Log.str "transport" name, Log.str "error" e.message] }
  if failed.isEmpty then
    .note { source := .group, level := .debug, message := "Group delivered batch",
            fields := [Log.num "sinks" names.length, Log.num "events" b.size] }
      (.finish (.ok ()))
  else
    .notes warnings (.finish (.error (.groupFailed failed.length names.length
      (failed.map fun (name, e) => name ++ ": " ++ e.message))))

mutual

/-- Handles a batch. -/
def handle (b : Batch) : Transport → Dialogue
  | .sink leaf _ => .perform leaf b .follow
  | .debug => .notes (b.events.map debugLine) (.finish (.ok ()))
  | .http _ endpoint => .post endpoint b (settleReply endpoint b)
  | .retry book policy inner =>
    .clock fun started =>
      attempts (handle b inner) inner.name b.size book policy started
        (policy.attemptsAllowed - 1) 1 (.ms 0)
  | .switch children => .look fun u => handleFirst u b children
  | .group children => .look fun u =>
    match usableNames u children with
    | [] => .finish (.error .notUsable)
    | name :: names => .all (handleUsable u b children) (settleGroup (name :: names) b)
  | .queued queue _ => .enqueue queue b.events fun
    | .ok () => .finish (.ok ())
    | .error e => .finish (.error (.ofStorage e))

/-- The call of the first usable child. -/
def handleFirst (u : Usability) (b : Batch) : List Transport → Dialogue
  | [] => .finish (.error .notUsable)
  | t :: ts =>
    if t.usable u then .note (selectedLine t b) (handle b t) else handleFirst u b ts

/-- The calls of the usable children. -/
def handleUsable (u : Usability) (b : Batch) : List Transport → List Dialogue
  | [] => []
  | t :: ts => if t.usable u then handle b t :: handleUsable u b ts else handleUsable u b ts

/-- The names of the usable children. -/
def usableNames (u : Usability) : List Transport → List String
  | [] => []
  | t :: ts => if t.usable u then t.name :: usableNames u ts else usableNames u ts

end

end EventRelay.Transport
