import EventRelay.Config.Settings
import EventRelay.Json.Decode

/-!
# Settings as JSON

The written form of a configuration, and how it is read: every section and every value may be left
out, and unknown ones are ignored.
-/

namespace EventRelay.Config

open Json (Read Tree)

/-! ## Writing -/

/-- A text or `null`. -/
def optionText (s : Option String) : Json :=
  match s with
  | none => .null
  | some s => .str s

/-- A number or `null`. -/
def optionNat (n : Option Nat) : Json :=
  match n with
  | none => .null
  | some n => Json.nat n

/-- A float; `null` if it is not finite. -/
def floatJson (x : Float) : Json :=
  match FiniteFloat.ofFloat? x with
  | none => .null
  | some x => .num (.real x)

/-- The written form of a configuration. -/
def Settings.toJson (s : Settings) : Json :=
  .obj
    [("tracker", .obj
      [("tracker_id", .str s.tracker.trackerId), ("application_id", .str s.tracker.applicationId),
       ("endpoint", optionText s.tracker.endpoint),
       ("promise_timeout_ms", Json.nat s.tracker.promiseTimeout)]),
     ("queue", .obj
      [("batch_size", Json.nat s.queue.batchSize), ("batch_delay_ms", Json.nat s.queue.batchDelay),
       ("concurrency", Json.nat s.queue.concurrency), ("store", .str s.queue.store.name),
       ("store_path", optionText s.queue.storePath)]),
     ("retry", .obj
      [("max_attempts", Json.nat s.retry.maxAttempts), ("min_timeout_ms", Json.nat s.retry.minTimeout),
       ("max_timeout_ms", optionNat s.retry.maxTimeout), ("max_retry_ms", optionNat s.retry.maxRetry),
       ("retry_factor", floatJson s.retry.factor)]),
     ("logging", .obj
      [("level", .str s.logging.level), ("format", .str s.logging.format),
       ("output", .str s.logging.output), ("file", .str s.logging.file),
       ("color", .bool s.logging.color),
       ("modules", .obj (s.logging.modules.map fun (k, v) => (k, .str v)))])]

/-! ## Reading -/

/-- An unsigned number of 64 bits. -/
def word64 (t : Tree) : Read Nat :=
  t.asWord 0x10000000000000000 "u64"

/-- A size. -/
def size (t : Tree) : Read Nat :=
  t.asWord 0x10000000000000000 "usize"

/-- A path. -/
def path (t : Tree) : Read String :=
  t.asText "path string"

/-- The kind of store of a name. -/
def StoreKind.ofName (name : String) : Read StoreKind :=
  if name = "memory" then .ok .memory
  else if name = "persistent" then .ok .persistent
  else .error (.mismatch (.unknownChoice name "`memory` or `persistent`"))

/-- A kind of store: its name, or an object with the name as its only key and nothing behind it. -/
def StoreKind.ofTree (room : Nat) (t : Tree) : Read StoreKind :=
  match t with
  | .str s => do StoreKind.ofName (← Json.Quoted.read s)
  | .obj [] stop => do
    let _ ← Json.openBracket room
    Json.closing stop
    Json.fail .valueExpected
  | .obj ((key, value) :: rest) stop => do
    let _ ← Json.openBracket room
    let kind ← StoreKind.ofName (← Json.Quoted.read key)
    match value with
    | .null => pure ()
    | other => other.refuse "unit"
    if rest.isEmpty then do
      Json.closing stop
      return kind
    else Json.fail .valueExpected
  | .broken f => Json.fail f
  | _ => Json.fail .valueExpected

/-- The fields of the tracker section. -/
def TrackerSettings.fields : List (Tree.Field TrackerSettings) :=
  [ ⟨"tracker_id", fun _ t s => do return { s with trackerId := ← t.asString }⟩,
    ⟨"application_id", fun _ t s => do return { s with applicationId := ← t.asString }⟩,
    ⟨"endpoint", fun _ t s => do return { s with endpoint := ← t.asOption Tree.asString }⟩,
    ⟨"promise_timeout_ms", fun _ t s => do return { s with promiseTimeout := ← word64 t }⟩ ]

/-- The fields of the queue section. -/
def QueueSettings.fields : List (Tree.Field QueueSettings) :=
  [ ⟨"batch_size", fun _ t s => do return { s with batchSize := ← size t }⟩,
    ⟨"batch_delay_ms", fun _ t s => do return { s with batchDelay := ← word64 t }⟩,
    ⟨"concurrency", fun _ t s => do return { s with concurrency := ← size t }⟩,
    ⟨"store", fun room t s => do return { s with store := ← StoreKind.ofTree room t }⟩,
    ⟨"store_path", fun _ t s => do return { s with storePath := ← t.asOption path }⟩ ]

/-- The fields of the retry section. -/
def RetrySettings.fields : List (Tree.Field RetrySettings) :=
  [ ⟨"max_attempts", fun _ t s => do return { s with maxAttempts := ← t.asWord 0x100000000 "u32" }⟩,
    ⟨"min_timeout_ms", fun _ t s => do return { s with minTimeout := ← word64 t }⟩,
    ⟨"max_timeout_ms", fun _ t s => do return { s with maxTimeout := ← t.asOption word64 }⟩,
    ⟨"max_retry_ms", fun _ t s => do return { s with maxRetry := ← t.asOption word64 }⟩,
    ⟨"retry_factor", fun _ t s => do return { s with factor := ← t.asFloat }⟩ ]

/-- The fields of the logging section. -/
def LoggingSettings.fields : List (Tree.Field LoggingSettings) :=
  [ ⟨"level", fun _ t s => do return { s with level := ← t.asString }⟩,
    ⟨"format", fun _ t s => do return { s with format := ← t.asString }⟩,
    ⟨"output", fun _ t s => do return { s with output := ← t.asString }⟩,
    ⟨"file", fun _ t s => do return { s with file := ← path t }⟩,
    ⟨"color", fun _ t s => do return { s with color := ← t.asBool }⟩,
    ⟨"modules", fun room t s => do return { s with modules := ← t.asTable room Tree.asString }⟩ ]

/-- Reads the logging section. -/
def LoggingSettings.ofTree (room : Nat) (t : Tree) : Read LoggingSettings :=
  t.asRecord room "LoggingConfig" fields {} []

/-- The sections. -/
def Settings.fields : List (Tree.Field Settings) :=
  [ ⟨"tracker", fun room t s => do
      return { s with tracker := ← t.asRecord room "TrackerSettings" TrackerSettings.fields {} [] }⟩,
    ⟨"queue", fun room t s => do
      return { s with queue := ← t.asRecord room "QueueSettings" QueueSettings.fields {} [] }⟩,
    ⟨"retry", fun room t s => do
      return { s with retry := ← t.asRecord room "RetrySettings" RetrySettings.fields {} [] }⟩,
    ⟨"logging", fun room t s => do return { s with logging := ← LoggingSettings.ofTree room t }⟩ ]

/-- Reads a configuration. -/
def Settings.ofTree (room : Nat) (t : Tree) : Read Settings :=
  t.asRecord room "WaypostConfig" fields {} []

/-- Reads the text of a configuration. -/
def Settings.parse (s : String) : Read Settings :=
  Json.decode ofTree s

/-- Reads the text of a logging section. -/
def LoggingSettings.parse (s : String) : Read LoggingSettings :=
  Json.decode ofTree s

end EventRelay.Config
