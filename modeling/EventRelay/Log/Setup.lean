import EventRelay.Config.Settings
import EventRelay.Log.Filter
import EventRelay.Text.Quoted

/-!
# Setting up the log

The log is set up from four variables of the environment and the logging section of the configuration;
variables win.  First the filter is put together, then the format and the destination are chosen, and
for a file its directory is made and the file opened.
-/

namespace EventRelay.Log

open EventRelay.Config (LoggingSettings LogFormat LogOutput)

/-- Why the log could not be set up. -/
inductive SetupError where
  /-- A configured directive is malformed. -/
  | badDirective (directive : String)
  /-- A directive of the environment is malformed. -/
  | badVariable (directive : String)
  /-- The format or the destination is not known. -/
  | badChoice (text : String)
  /-- The directory of the log file cannot be made. -/
  | noDirectory (path : String)
  /-- The log file cannot be opened. -/
  | noFile (path : String)
  deriving Repr, DecidableEq

/-- The wording of a failure. -/
def SetupError.message : SetupError → String
  | .badDirective d => "Invalid log directive: " ++ d
  | .badVariable d => "Invalid log directive from env: " ++ d
  | .badChoice text => text
  | .noDirectory path => "Failed to create log directory: " ++ path
  | .noFile path => s!"Failed to open log file {Text.quote path}: it cannot be written"

/-- Variables of the environment. -/
abbrev Variables := List (String × String)

/-- The directives of the configured modules. -/
def moduleDirectives (modules : List (String × String)) : Except SetupError Filter :=
  modules.mapM fun (name, level) =>
    let text := s!"{name}={level}"
    match Directive.parse text.toList with
    | some d => .ok d
    | none => .error (.badDirective text)

/-- The two sides of the first equals sign. -/
def splitEquals (cs : List Char) : Option (List Char × List Char) :=
  let before := cs.takeWhile (· != '=')
  match cs.drop before.length with
  | [] => none
  | _ :: after => some (before, after)

/-- The directives of the variable for modules; entries without an equals sign are passed over. -/
def variableDirectives (text : String) : Except SetupError Filter :=
  ((text.splitOn ",").filterMap fun entry => splitEquals entry.toList).mapM fun (name, level) =>
    let directive := Text.trimChars name ++ '=' :: Text.trimChars level
    match Directive.parse directive with
    | some d => .ok d
    | none => .error (.badVariable (String.ofList directive))

/-- The filter: that of the environment if it is well formed, else the configured one. -/
def chooseFilter (env : Variables) (config : Option LoggingSettings) :
    Except SetupError Filter :=
  match (env.lookup "WAYPOST_LOG").bind Filter.parse with
  | some filter => .ok filter
  | none =>
    let level := (config.map (·.level)).getD "info"
    if level = "off" then .ok [{ rank := 0 }]
    else do
      let configured ← moduleDirectives ((config.map (·.modules)).getD [])
      let fromVariable ← match env.lookup "WAYPOST_LOG_MODULES" with
        | none => pure []
        | some text => variableDirectives text
      let base := Filter.parseLoosely level
      let base := if base.isEmpty then [{ rank := Level.error.rank }] else base
      return base ++ configured ++ fromVariable

/-- The format: that of the environment if there is such a format, else the configured one. -/
def chooseFormat (env : Variables) (config : Option LoggingSettings) :
    Except SetupError LogFormat :=
  match (env.lookup "WAYPOST_LOG_FORMAT").map LogFormat.parse with
  | some (.ok format) => .ok format
  | _ => (LogFormat.parse ((config.map (·.format)).getD "text")).mapError .badChoice

/-- The destination. -/
def chooseOutput (env : Variables) (config : Option LoggingSettings) :
    Except SetupError LogOutput :=
  let name := (env.lookup "WAYPOST_LOG_OUTPUT").getD ((config.map (·.output)).getD "stderr")
  (LogOutput.parse name).mapError .badChoice

/-- How lines are logged. -/
structure Setup where
  /-- Which lines. -/
  filter : Filter
  /-- How they are written. -/
  format : LogFormat
  /-- Where they go. -/
  output : LogOutput
  /-- Are they coloured? -/
  color : Bool
  /-- The log file. -/
  file : String

/-- Makes the choices. -/
def Setup.choose (env : Variables) (config : Option LoggingSettings) :
    Except SetupError Setup := do
  let filter ← chooseFilter env config
  let format ← chooseFormat env config
  let output ← chooseOutput env config
  return { filter, format, output
           color := (config.map (·.color)).getD true && output != .file
           file := (config.map (·.file)).getD ({} : LoggingSettings).file }

/-! ## The log file -/

/-- The working directory, as far as a log file shows it. -/
structure Folder where
  /-- Paths of directories. -/
  directories : List String := []
  /-- Paths of plain files. -/
  files : List String := []

/-- The segments of a path; those that stay in place are dropped. -/
def segments (path : String) : List String :=
  (path.splitOn "/").filter fun s => !s.isEmpty && s != "."

/-- All beginnings of a path, the shortest first. -/
def beginnings (parts : List String) : List String :=
  (List.range parts.length).map fun n => "/".intercalate (parts.take (n + 1))

/-- Makes a directory and those above it. -/
def Folder.makeDirectory (f : Folder) (parts : List String) : Option Folder :=
  let paths := beginnings parts
  if paths.any fun p => f.files.contains p then none
  else some { f with directories := f.directories ++ paths.filter fun p => !f.directories.contains p }

/-- Opens a file for writing at its end, making it if needed. -/
def Folder.openFile (f : Folder) (path : String) : Option Folder :=
  let parts := segments path
  let plain := "/".intercalate parts
  if parts.isEmpty || parts.getLast? = some ".." || path.toList.getLast? = some '/' ||
      f.directories.contains plain then none
  else if f.files.contains plain then some f
  else some { f with files := f.files ++ [plain] }

/-- Opens the log file: the folder afterwards, and what went wrong. -/
def Folder.openLog (f : Folder) (path : String) : Option SetupError × Folder :=
  match f.makeDirectory (segments path).dropLast with
  | none => (some (.noDirectory path), f)
  | some f =>
    match f.openFile path with
    | none => (some (.noFile path), f)
    | some f => (none, f)

/-- Sets up the log: how, or why not, and the folder afterwards. -/
def setUp (env : Variables) (config : Option LoggingSettings) (f : Folder) :
    Except SetupError Setup × Folder :=
  match Setup.choose env config with
  | .error e => (.error e, f)
  | .ok setup =>
    if setup.output = .file then
      match f.openLog setup.file with
      | (some e, f) => (.error e, f)
      | (none, f) => (.ok setup, f)
    else (.ok setup, f)

/-- The names directly in the folder, in order. -/
def Folder.names (f : Folder) : List String :=
  (((f.directories ++ f.files).map fun p => (segments p).headD "").eraseDups).mergeSort
    fun a b => decide (a ≤ b)

end EventRelay.Log
