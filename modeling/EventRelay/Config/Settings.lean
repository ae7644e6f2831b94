import EventRelay.Decimal.Notation
import EventRelay.Queue.Basic
import EventRelay.Text.Blank

/-!
# Settings

What can be configured, in four sections, each value with its default; and what makes a configuration
unusable.  `Settings.violations` lists every violation, in a fixed order.
-/

namespace EventRelay.Config

/-- Identity of the tracker and address of the collector. -/
structure TrackerSettings where
  /-- Names the tracker and its slot. -/
  trackerId : String := "waypost"
  /-- The id of the application context. -/
  applicationId : String := "waypost-app"
  /-- The collector; without one, events only reach the debug sink. -/
  endpoint : Option String := none
  /-- The time limit of deferred contexts, in milliseconds. -/
  promiseTimeout : Nat := 5000
  deriving Repr, DecidableEq

/-- Where pending events are kept. -/
inductive StoreKind where
  /-- In memory. -/
  | memory
  /-- In a database. -/
  | persistent
  deriving Repr, DecidableEq

/-- The name of a kind of store. -/
def StoreKind.name : StoreKind → String
  | .memory => "memory"
  | .persistent => "persistent"

/-- Batching and storage. -/
structure QueueSettings where
  /-- The most events per batch. -/
  batchSize : Nat := 10
  /-- Milliseconds between two ticks of the runner. -/
  batchDelay : Nat := 1000
  /-- The most batches in flight. -/
  concurrency : Nat := 4
  /-- Where pending events are kept. -/
  store : StoreKind := .memory
  /-- Where the database is. -/
  storePath : Option String := none
  deriving Repr, DecidableEq

/-- The settings of the delivery queue. -/
def QueueSettings.delivery (s : QueueSettings) : Queue.Settings :=
  { batchSize := s.batchSize, batchDelay := s.batchDelay, concurrency := s.concurrency }

/-- The place of the database: the configured one, or `queue` in the user's data directory. -/
def QueueSettings.place? (s : QueueSettings) (dataDirectory : Option String) : Option String :=
  match s.storePath with
  | some path => some path
  | none => dataDirectory.map (· ++ "/queue")

/-- Backoff of deliveries. -/
structure RetrySettings where
  /-- The number of attempts. -/
  maxAttempts : Nat := 10
  /-- The wait before the first retry. -/
  minTimeout : Nat := 1000
  /-- The longest wait. -/
  maxTimeout : Option Nat := none
  /-- The time after which no attempt is made. -/
  maxRetry : Option Nat := none
  /-- The growth of the wait. -/
  factor : Float := 2.0

/-- The retry policy. -/
def RetrySettings.policy (s : RetrySettings) : Retry.Policy :=
  { maxAttempts := s.maxAttempts, minTimeout := s.minTimeout, maxTimeout := s.maxTimeout
    maxRetry := s.maxRetry, factor := s.factor }

/-- Logging. -/
structure LoggingSettings where
  /-- What is logged. -/
  level : String := "info"
  /-- How a line is written. -/
  format : String := "text"
  /-- Where lines go. -/
  output : String := "stderr"
  /-- The log file. -/
  file : String := "waypost.log"
  /-- Are lines coloured? -/
  color : Bool := true
  /-- What is logged of single parts of the program, in key order. -/
  modules : List (String × String) := []
  deriving Repr, DecidableEq

/-- A whole configuration. -/
structure Settings where
  /-- The tracker. -/
  tracker : TrackerSettings := {}
  /-- The queue. -/
  queue : QueueSettings := {}
  /-- Backoff. -/
  retry : RetrySettings := {}
  /-- Logging. -/
  logging : LoggingSettings := {}

/-! ## Logging choices -/

/-- How a log line is written. -/
inductive LogFormat where
  /-- As text. -/
  | text
  /-- As a JSON object. -/
  | json
  deriving Repr, DecidableEq

/-- The format of a name. -/
def LogFormat.parse (name : String) : Except String LogFormat :=
  if name = "text" then .ok .text
  else if name = "json" then .ok .json
  else .error s!"Invalid log format: {name} (must be 'json' or 'text')"

/-- Where log lines go. -/
inductive LogOutput where
  /-- To the standard output. -/
  | stdout
  /-- To the standard error. -/
  | stderr
  /-- To a file. -/
  | file
  deriving Repr, DecidableEq

/-- The destination of a name. -/
def LogOutput.parse (name : String) : Except String LogOutput :=
  if name = "stdout" then .ok .stdout
  else if name = "stderr" then .ok .stderr
  else if name = "file" then .ok .file
  else .error s!"Invalid log output: {name} (must be 'stdout', 'stderr', or 'file')"

/-! ## Validation -/

/-- A reason why a configuration cannot be used. -/
inductive Violation where
  /-- The tracker id is blank. -/
  | blankTrackerId
  /-- The application id is blank. -/
  | blankApplicationId
  /-- The endpoint is no web address. -/
  | badEndpoint (endpoint : String)
  /-- Batches would be empty. -/
  | zeroBatchSize
  /-- Nothing could be in flight. -/
  | zeroConcurrency
  /-- There is no place for the database. -/
  | noStorePath
  /-- No attempt would be made. -/
  | zeroAttempts
  /-- The wait would shrink, or is no number. -/
  | badFactor (factor : Float)
  /-- The longest wait is shorter than the first. -/
  | crossedTimeouts (longest first : Nat)
  /-- Logging cannot be set up. -/
  | badLogging (text : String)

/-- The wording of a violation. -/
def Violation.message : Violation → String
  | .blankTrackerId => "Tracker: tracker_id cannot be empty"
  | .blankApplicationId => "Tracker: application_id cannot be empty"
  | .badEndpoint endpoint => s!"Tracker: endpoint must be an http(s) URL, got '{endpoint}'"
  | .zeroBatchSize => "Queue: batch_size must be at least 1"
  | .zeroConcurrency => "Queue: concurrency must be at least 1"
  | .noStorePath =>
    "Queue: persistent store requires store_path (no platform data directory found)"
  | .zeroAttempts => "Retry: max_attempts must be at least 1"
  | .badFactor factor => "Retry: retry_factor must be >= 1.0, got " ++ Decimal.floatMessage factor
  | .crossedTimeouts longest first =>
    s!"Retry: max_timeout_ms ({longest}) is below min_timeout_ms ({first})"
  | .badLogging text => "Logging: " ++ text

/-- One entry if the condition holds. -/
def violationIf (condition : Bool) (v : Violation) : List Violation :=
  if condition then [v] else []

/-- Does the text begin like a web address? -/
def isWebAddress (endpoint : String) : Bool :=
  "http://".isPrefixOf endpoint || "https://".isPrefixOf endpoint

/-- Violations in the tracker section. -/
def TrackerSettings.violations (s : TrackerSettings) : List Violation :=
  violationIf (Text.isBlankText s.trackerId) .blankTrackerId ++
  violationIf (Text.isBlankText s.applicationId) .blankApplicationId ++
  match s.endpoint with
  | none => []
  | some endpoint => violationIf (!isWebAddress endpoint) (.badEndpoint endpoint)

/-- Violations in the queue section. -/
def QueueSettings.violations (s : QueueSettings) (dataDirectory : Option String) : List Violation :=
  violationIf (s.batchSize == 0) .zeroBatchSize ++
  violationIf (s.concurrency == 0) .zeroConcurrency ++
  violationIf (s.store == .persistent && (s.place? dataDirectory).isNone) .noStorePath

/-- Violations in the retry section. -/
def RetrySettings.violations (s : RetrySettings) : List Violation :=
  violationIf (s.maxAttempts == 0) .zeroAttempts ++
  violationIf (!s.factor.isFinite || s.factor < 1.0) (.badFactor s.factor) ++
  match s.maxTimeout with
  | none => []
  | some longest => violationIf (decide (longest < s.minTimeout)) (.crossedTimeouts longest s.minTimeout)

/-- Violations in the logging section: at most one. -/
def LoggingSettings.violations (s : LoggingSettings) : List Violation :=
  match LogFormat.parse s.format, LogOutput.parse s.output with
  | .error text, _ => [.badLogging text]
  | .ok _, .error text => [.badLogging text]
  | .ok _, .ok _ => []

/-- Every violation. -/
def Settings.violations (s : Settings) (dataDirectory : Option String) : List Violation :=
  s.tracker.violations ++ s.queue.violations dataDirectory ++ s.retry.violations ++
    s.logging.violations

end EventRelay.Config
