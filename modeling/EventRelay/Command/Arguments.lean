import EventRelay.Command.Spec
import EventRelay.Command.Usage
import EventRelay.Decimal.Reading

/-!
# The command line

`queue stats`, `queue list`, `queue flush` and `queue clear` act on the queue kept on disk, and
`track` sends one event.  The options of the program stand before the command.
-/

namespace EventRelay.Command

/-- What to do with the queue. -/
inductive QueueAction where
  /-- Count the pending events. -/
  | stats
  /-- List the pending events, at most as many as the limit says. -/
  | list (limit : Option Nat)
  /-- Send the pending events once. -/
  | flush
  /-- Drop the pending events. -/
  | clear
  deriving Repr, DecidableEq

/-- What a command line asks for. -/
inductive Request where
  /-- Something about the queue. -/
  | queue (action : QueueAction)
  /-- Track one event. -/
  | track (eventType : String) (locations globals : List Context)

/-- The options of the program. -/
structure Options where
  /-- The configuration file. -/
  config : Option String := none
  /-- Whether to log in detail. -/
  verbose : Bool := false
  /-- The log level. -/
  logLevel : Option String := none
  /-- The log format. -/
  logFormat : Option String := none
  deriving Repr, DecidableEq

/-- A command line that was understood. -/
structure Invocation where
  /-- What it asks for. -/
  request : Request
  /-- How. -/
  options : Options

/-- Fills a place that takes one value only. -/
def fillOnce {α : Type} (place : Option α) (value : α) : Except UsageError (Option α) :=
  match place with
  | none => .ok (some value)
  | some _ => .error .repeated

/-! ## The levels -/

/-- The options of the program, and its commands. -/
def programLevel : Level Options where
  option?
    | "config" => some (.value fun v s => do
        let config ← fillOnce s.config v
        if v.isEmpty then throw .noValue
        return { s with config })
    | "verbose" => some (.switch fun s => if s.verbose then .error .repeated else .ok { s with verbose := true })
    | "log-level" => some (.value fun v s => return { s with logLevel := ← fillOnce s.logLevel v })
    | "log-format" => some (.value fun v s => return { s with logFormat := ← fillOnce s.logFormat v })
    | _ => none
  commands := ["queue", "track", "help"]

/-- The commands about the queue. -/
def queueLevel : Level Unit where
  commands := ["stats", "list", "flush", "clear", "help"]

/-- A command without options. -/
def bareLevel : Level Unit := {}

/-- A limit is a machine word of 64 bits. -/
def readLimit (text : String) : Except UsageError Nat :=
  match Decimal.readPlusNat? text.toList with
  | some n => if n < 0x10000000000000000 then .ok n else .error .badValue
  | none => .error .badValue

/-- The options of `queue list`. -/
def listLevel : Level (Option Nat) where
  option?
    | "limit" => some (.value fun v s => do
        if s.isSome then throw .repeated
        return some (← readLimit v))
    | _ => none

/-- The arguments of `track` read so far. -/
structure TrackArguments where
  /-- The type of the event. -/
  eventType : Option String := none
  /-- The location stack, outermost first. -/
  locations : List Context := []
  /-- The global contexts. -/
  globals : List Context := []

/-- Reads a context given on the command line. -/
def readContext (v : String) : Except UsageError Context :=
  match parseSpec v with
  | .ok c => .ok c
  | .error _ => .error .badValue

/-- The options of `track`, and the type of the event. -/
def trackLevel : Level TrackArguments where
  option?
    | "location" => some (.value fun v s => return { s with locations := s.locations ++ [← readContext v] })
    | "global" => some (.value fun v s => return { s with globals := s.globals ++ [← readContext v] })
    | _ => none
  plain? s := if s.eventType.isSome then none else some fun v s => .ok { s with eventType := some v }

/-! ## Reading -/

/-- The level under a name that `help` may be asked about. -/
inductive HelpTopic where
  /-- The program. -/
  | program
  /-- The commands about the queue. -/
  | queue
  /-- A command without commands below it. -/
  | command

/-- The topic that a word leads to. -/
def HelpTopic.under : HelpTopic → String → Option HelpTopic
  | .program, "queue" => some .queue
  | .program, word => if word ∈ programLevel.commands then some .command else none
  | .queue, word => if word ∈ queueLevel.commands then some .command else none
  | .command, _ => none

/-- The command `help` asks for the help on the words after it, which must be commands. -/
def helpOn : HelpTopic → List String → UsageError
  | _, [] => .helpAsked
  | topic, word :: words =>
    match topic.under word with
    | some topic => helpOn topic words
    | none => .unknownCommand

/-- Reads a level that has no commands below it, to its end. -/
def Level.readAll {σ : Type} (l : Level σ) (s : σ) (words : List String) : Except UsageError σ := do
  let r ← l.read false .nothing s words
  r.pending.settle r.gathered

/-- Reads the words after `queue`. -/
def readQueue (words : List String) : Except UsageError QueueAction := do
  let r ← queueLevel.read false .nothing () words
  match r.command with
  | some ("help", rest) => throw (helpOn .queue rest)
  | some ("list", rest) => return .list (← listLevel.readAll none rest)
  | some ("stats", rest) => let _ ← bareLevel.readAll () rest; return .stats
  | some ("flush", rest) => let _ ← bareLevel.readAll () rest; return .flush
  | some ("clear", rest) => let _ ← bareLevel.readAll () rest; return .clear
  | _ => throw .nothingGiven

/-- Reads the words after `track`. -/
def readTrack (words : List String) : Except UsageError Request := do
  let s ← trackLevel.readAll {} words
  match s.eventType with
  | none => throw .missingArgument
  | some eventType => return .track eventType s.locations s.globals

/-- Reads a command line, without the name of the program.  What follows the command is read before
the last option in front of it is settled. -/
def Invocation.parse (words : List String) : Except UsageError Invocation := do
  let r ← programLevel.read false .nothing {} words
  match r.command with
  | some ("help", rest) => throw (helpOn .program rest)
  | some ("queue", rest) =>
    let action ← readQueue rest
    return ⟨.queue action, ← r.pending.settle r.gathered⟩
  | some (_, rest) =>
    let request ← readTrack rest
    return ⟨request, ← r.pending.settle r.gathered⟩
  | none =>
    let options ← r.pending.settle r.gathered
    throw (if options = {} then .nothingGiven else .missingCommand)

end EventRelay.Command
