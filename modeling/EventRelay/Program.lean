import EventRelay.Command.Execute
import EventRelay.Config.Load
import EventRelay.Log.Render

/-!
# The program

One run of the program, from the command line to the exit code: the configuration is loaded, the log
set up with the options of the command line, and the command carried out.

A configuration that cannot be loaded is reported only after the log has been set up, by default
settings.
-/

namespace EventRelay.Program

open EventRelay.Command

/-- The machine as the program finds it. -/
structure Machine where
  /-- The variables of the environment. -/
  env : List (String × String) := []
  /-- The path of the user's configuration file. -/
  userPath : String
  /-- The user's configuration file. -/
  user : Option Config.SourceFile := none
  /-- Looks up a configuration file by name. -/
  file : String → Config.Explicit
  /-- The working directory. -/
  folder : Log.Folder := {}
  /-- What commands act on. -/
  surroundings : Surroundings
  /-- The id of an event made in this run. -/
  id : EventId
  /-- The time of such an event. -/
  time : UInt64
  /-- The time stamp of log lines. -/
  stamp : String

/-- What a run leaves behind. -/
structure Ending where
  /-- The exit code. -/
  code : Nat
  /-- What was printed. -/
  out : String := ""
  /-- What was printed as errors. -/
  err : String := ""
  /-- The log file that was written, and what was put at its end. -/
  log : Option (String × String) := none
  /-- What the command left behind. -/
  surroundings : Surroundings

/-- The exit code of a crash. -/
def crashCode : Nat := 101

/-- A line of the program itself. -/
def ownLine (level : Log.Level) (message : String) : Log.Line :=
  { source := .command, level, message }

/-- The logging settings with the options of the command line; a level wins over `--verbose`. -/
def adjustLogging (o : Options) (s : Config.LoggingSettings) : Config.LoggingSettings :=
  let level := if o.verbose then "debug" else s.level
  { s with level := o.logLevel.getD level, format := o.logFormat.getD s.format }

/-- Loads the configuration. -/
def Machine.load (m : Machine) (o : Options) : Except Config.LoadError Config.Settings :=
  Config.Settings.load m.user ((o.config.map m.file).getD .none) m.env

/-- The lines about loading the configuration. -/
def Machine.loadLines (m : Machine) : List Log.Line :=
  if m.user.isNone then [Config.noUserFileLine m.userPath] else []

/-- A run that came to its end with the log set up. -/
def Machine.finish (m : Machine) (setup : Log.Setup) (code : Nat) (s : Surroundings)
    (out err : String) : Ending :=
  let written := setup.write m.stamp s.lines.reverse
  match setup.output with
  | .stdout => { code, out := written ++ out, err, surroundings := s }
  | .stderr => { code, out, err := written ++ err, surroundings := s }
  | .file => { code, out, err, log := some (setup.file, written), surroundings := s }

/-- A run that failed: the log says what failed, and the error is printed. -/
def Machine.fail (m : Machine) (setup : Log.Setup) (s : Surroundings) (what : String)
    (e : TrackerError) : Ending :=
  m.finish setup 1 (s.notes [ownLine .error (what ++ ": " ++ e.message)]) "" (e.message ++ "\n")

/-- Carries out the command of an invocation, with the log set up. -/
def Machine.carryOut (m : Machine) (setup : Log.Setup) (i : Invocation) : Ending :=
  let s := { m.surroundings with lines := [] }.notes (ownLine .info "Waypost CLI starting" :: m.loadLines)
  match m.load i.options with
  | .error e => m.fail setup s "Error loading configuration" (.config e.message)
  | .ok config =>
    match execute config s m.id m.time i.request with
    | (.ok text, s) =>
      m.finish setup 0 (s.notes [ownLine .info "Command completed successfully"]) (text ++ "\n") ""
    | (.error (.failed e), s) => m.fail setup s "Command failed" e
    | (.error _, s) => m.finish setup crashCode s "" ""

/-- Runs the program on the words after its name. -/
def Machine.run (m : Machine) (words : List String) : Except UsageError Ending := do
  let i ← Invocation.parse words
  let configured := match m.load i.options with
    | .ok config => config.logging
    | .error _ => {}
  match Log.setUp m.env (some (adjustLogging i.options configured)) m.folder with
  | (.ok setup, _) => return m.carryOut setup i
  | (.error e, _) =>
    return { code := 1, surroundings := m.surroundings
             err := "Failed to initialize logging: " ++ (TrackerError.config e.message).message ++ "\n" }

/-- The exit code for a command line that was not understood: help that was asked for is a success. -/
def usageCode : UsageError → Nat
  | .helpAsked => 0
  | _ => 2

/-- The database that the command line leads to. -/
def Machine.databasePath? (m : Machine) (words : List String) : Option String :=
  match Invocation.parse words with
  | .error _ => none
  | .ok i =>
    match m.load i.options with
    | .error _ => none
    | .ok config => config.queue.place? m.surroundings.place.dataDirectory

end EventRelay.Program
