/-!
# Log lines

Every part of the pipeline reports what it does as log lines: a level, a message, named fields, and
the part of the program that speaks (its `Source`, which filters select by).  Lines are plain data,
returned by the functions that cause them; writing them out is a matter for the outer layer.
-/

namespace EventRelay.Log

/-- How important a line is. -/
inductive Level where
  /-- Something was lost or cannot work. -/
  | error
  /-- Something failed and was dealt with. -/
  | warn
  /-- A milestone. -/
  | info
  /-- Details of normal work. -/
  | debug
  deriving Repr, DecidableEq

/-- The name of a level. -/
def Level.name : Level → String
  | .error => "ERROR"
  | .warn => "WARN"
  | .info => "INFO"
  | .debug => "DEBUG"

/-- How much a level lets through: the larger, the more. -/
def Level.rank : Level → Nat
  | .error => 1
  | .warn => 2
  | .info => 3
  | .debug => 4

/-- The part of the program that a line comes from. -/
inductive Source where
  /-- The command line. -/
  | command
  /-- Running a command. -/
  | route
  /-- The user's configuration file. -/
  | userFile
  /-- Resolution of contexts. -/
  | resolver
  /-- The location tree. -/
  | tree
  /-- Durable slots. -/
  | slot
  /-- The delivery queue. -/
  | queue
  /-- The tracker. -/
  | tracker
  /-- The debug sink. -/
  | debugSink
  /-- The collector client. -/
  | http
  /-- Switches. -/
  | switch
  /-- Groups. -/
  | group
  /-- Retries. -/
  | retry
  deriving Repr, DecidableEq

/-- The path by which filters name a source. -/
def Source.path : Source → String
  | .command => "waypost"
  | .route => "waypost::cli::route"
  | .userFile => "waypost::config::sources::global_file"
  | .resolver => "waypost::context::resolver"
  | .tree => "waypost::location::tree"
  | .slot => "waypost::queue::persistent"
  | .queue => "waypost::queue::tracker_queue"
  | .tracker => "waypost::tracker"
  | .debugSink => "waypost::transport::debug"
  | .http => "waypost::transport::http"
  | .switch => "waypost::transport::switch"
  | .group => "waypost::transport::group"
  | .retry => "waypost::transport::retry"

/-- The value of a field. -/
inductive Value where
  /-- A text. -/
  | text (s : String)
  /-- A number. -/
  | count (n : Nat)
  deriving Repr, DecidableEq

/-- A value as text. -/
def Value.shown : Value → String
  | .text s => s
  | .count n => toString n

/-- A named detail of a line. -/
abbrev Field := String × Value

/-- A field that holds a text. -/
def str (name text : String) : Field :=
  (name, .text text)

/-- A field that holds a number. -/
def num (name : String) (n : Nat) : Field :=
  (name, .count n)

/-- One log line. -/
structure Line where
  /-- Who speaks. -/
  source : Source
  /-- How important it is. -/
  level : Level
  /-- What happened. -/
  message : String
  /-- Named details. -/
  fields : List Field := []
  deriving Repr, DecidableEq

end EventRelay.Log
