import EventRelay.Config.Settings
import EventRelay.Config.Value

/-!
# Layers of configuration

A configuration is put together from layers: defaults, the user's file, a file given explicitly, and
variables of the environment.  Of two layers that set a value the later one wins, key by key.

A variable sets a value if its name starts with `WAYPOST_`, in any case; what follows is the path of
the value, with two underscores between its segments.  Its text is taken as a truth value, a whole
number or a float if it reads as one.
-/

namespace EventRelay.Config

/-- What is set where no source sets it. -/
def defaultValues : Fields :=
  [("tracker.tracker_id", .text none "waypost"),
   ("tracker.application_id", .text none "waypost-app"),
   ("tracker.promise_timeout_ms", .int none 5000),
   ("queue.batch_size", .int none 10),
   ("queue.batch_delay_ms", .int none 1000),
   ("queue.concurrency", .int none 4),
   ("queue.store", .text none "memory"),
   ("retry.max_attempts", .int none 10),
   ("retry.min_timeout_ms", .int none 1000),
   ("retry.retry_factor", .float none 2.0)]

/-- The layer below all others. -/
def defaultLayer : Fields :=
  setAll [] defaultValues

/-! ## Variables -/

/-- What names the variables that count. -/
def variableStart : String := "waypost_"

/-- The source of variables in messages. -/
def variableOrigin : Option String := some "the environment"

/-- The value of a variable's text. -/
def variableValue (s : String) : Value :=
  let word := Text.lower s
  if word = "true" then .bool variableOrigin true
  else if word = "false" then .bool variableOrigin false
  else
    match (Decimal.readInt? s.toList).filter fun n => -0x8000000000000000 ≤ n ∧ n < 0x8000000000000000 with
    | some n => .int variableOrigin n
    | none =>
      match Decimal.readFloat? s.toList with
      | some x => .float variableOrigin x
      | none => .text variableOrigin s

/-- The characters after a given beginning. -/
def afterStart? : List Char → List Char → Option (List Char)
  | [], cs => some cs
  | p :: ps, c :: cs => if p = c then afterStart? ps cs else none
  | _ :: _, [] => none

/-- Two underscores in a row become a dot. -/
def dotSeparators : List Char → List Char
  | '_' :: '_' :: cs => '.' :: dotSeparators cs
  | c :: cs => c :: dotSeparators cs
  | [] => []

/-- The key that a variable sets. -/
def variableKey? (name : String) : Option String :=
  (afterStart? variableStart.toList (Text.lower name).toList).map fun cs =>
    String.ofList (dotSeparators cs)

/-- The layer of the environment. -/
def variableLayer (env : List (String × String)) : Fields :=
  env.filterMap fun (name, s) => (variableKey? name).map fun key => (key, variableValue s)

/-! ## Settings from layers -/

/-- A kind of store by its name, in any case. -/
def StoreKind.ofWord (name : String) : Except LoadError StoreKind :=
  let word := Text.lower name
  if word = "memory" then .ok .memory
  else if word = "persistent" then .ok .persistent
  else .error (.wrongShape ("enum StoreKind does not have variant constructor " ++ name))

/-- A kind of store: its name, or a table with the name as its only key. -/
def StoreKind.ofValue (v : Value) : Except LoadError StoreKind :=
  match v with
  | .text _ s => StoreKind.ofWord s
  | .table _ [(k, _)] => StoreKind.ofWord k
  | _ => .error (.wrongShape
      "value of enum StoreKind should be represented by either string or table with exactly one key")

/-- The fields of the tracker section. -/
def trackerValues : List (Value.Field TrackerSettings) :=
  [ ⟨"tracker_id", fun v s => do return { s with trackerId := ← v.toText }⟩,
    ⟨"application_id", fun v s => do return { s with applicationId := ← v.toText }⟩,
    ⟨"endpoint", fun v s => do return { s with endpoint := ← v.toOption Value.toText }⟩,
    ⟨"promise_timeout_ms", fun v s => do return { s with promiseTimeout := ← v.toWord }⟩ ]

/-- The fields of the queue section. -/
def queueValues : List (Value.Field QueueSettings) :=
  [ ⟨"batch_size", fun v s => do return { s with batchSize := ← v.toWord }⟩,
    ⟨"batch_delay_ms", fun v s => do return { s with batchDelay := ← v.toWord }⟩,
    ⟨"concurrency", fun v s => do return { s with concurrency := ← v.toWord }⟩,
    ⟨"store", fun v s => do return { s with store := ← StoreKind.ofValue v }⟩,
    ⟨"store_path", fun v s => do return { s with storePath := ← v.toOption Value.toText }⟩ ]

/-- The fields of the retry section. -/
def retryValues : List (Value.Field RetrySettings) :=
  [ ⟨"max_attempts", fun v s => do return { s with maxAttempts := ← v.toWord32 }⟩,
    ⟨"min_timeout_ms", fun v s => do return { s with minTimeout := ← v.toWord }⟩,
    ⟨"max_timeout_ms", fun v s => do return { s with maxTimeout := ← v.toOption Value.toWord }⟩,
    ⟨"max_retry_ms", fun v s => do return { s with maxRetry := ← v.toOption Value.toWord }⟩,
    ⟨"retry_factor", fun v s => do return { s with factor := ← v.toFloat }⟩ ]

/-- The fields of the logging section. -/
def loggingValues : List (Value.Field LoggingSettings) :=
  [ ⟨"level", fun v s => do return { s with level := ← v.toText }⟩,
    ⟨"format", fun v s => do return { s with format := ← v.toText }⟩,
    ⟨"output", fun v s => do return { s with output := ← v.toText }⟩,
    ⟨"file", fun v s => do return { s with file := ← v.toText }⟩,
    ⟨"color", fun v s => do return { s with color := ← v.toBool }⟩,
    ⟨"modules", fun v s => do return { s with modules := ← v.toTextTable }⟩ ]

/-- The sections. -/
def sectionValues : List (Value.Field Settings) :=
  [ ⟨"tracker", fun v s => do
      return { s with tracker := ← v.toRecord "TrackerSettings" trackerValues {} }⟩,
    ⟨"queue", fun v s => do return { s with queue := ← v.toRecord "QueueSettings" queueValues {} }⟩,
    ⟨"retry", fun v s => do return { s with retry := ← v.toRecord "RetrySettings" retryValues {} }⟩,
    ⟨"logging", fun v s => do
      return { s with logging := ← v.toRecord "LoggingConfig" loggingValues {} }⟩ ]

/-- The configuration that merged layers describe. -/
def Settings.ofFields (fs : Fields) : Except LoadError Settings :=
  (Value.table none fs).toRecord "WaypostConfig" sectionValues {}

/-- The configuration that layers describe, the lowest first. -/
def Settings.ofLayers (layers : List Fields) : Except LoadError Settings :=
  Settings.ofFields (layers.foldl setAll defaultLayer)

end EventRelay.Config
