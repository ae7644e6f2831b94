import EventRelay.Program
import Std.Time.DateTime.Timestamp

/-!
# The executable

Reads what a run needs from the machine, runs the program and puts its results back.  There is no
network here, so nobody listens at any endpoint.
-/

namespace EventRelay.Main

open EventRelay.Program

/-- The content of a file that can be read. -/
def readFile? (path : String) : IO (Option String) := do
  try return some (← IO.FS.readFile path)
  catch _ => return none

/-- The names of the variables that the program looks at. -/
def variableNames : List String :=
  let keys (part : String) (names : List String) : List String :=
    names.map fun name => ("waypost_" ++ part ++ "__" ++ name).toUpper
  ["WAYPOST_LOG", "WAYPOST_LOG_FORMAT", "WAYPOST_LOG_OUTPUT", "WAYPOST_LOG_MODULES"] ++
    keys "tracker" (Config.trackerValues.map (·.name)) ++
    keys "queue" (Config.queueValues.map (·.name)) ++
    keys "retry" (Config.retryValues.map (·.name)) ++
    keys "logging" (Config.loggingValues.map (·.name))

/-- The variables that are set. -/
def readVariables : IO (List (String × String)) :=
  variableNames.filterMapM fun name => do return (← IO.getEnv name).map fun value => (name, value)

/-- A directory of the user: that of a variable, or one in the home directory. -/
def userDirectory (key inHome : String) : IO String := do
  match ← IO.getEnv key with
  | some path => return path ++ "/waypost"
  | none => return (← IO.getEnv "HOME").getD "" ++ "/" ++ inHome ++ "/waypost"

/-- The file that holds a database. -/
def databaseFile (path : String) : String :=
  path ++ "/slots.json"

/-- A fresh id, of the random kind. -/
def freshId : IO EventId := do
  let high ← IO.rand 0 0xFFFFFFFFFFFF
  let middle ← IO.rand 0 0xFFF
  let low ← IO.rand 0 0x3FFFFFFFFFFFFFFF
  return .ofNat (((high * 16 + 4) * 0x1000 + middle) * 0x10000000000000000 + 0x8000000000000000 + low)

/-- The machine for a command line: its configuration file, and the database that it leads to. -/
def readMachine (words : List String) : IO Machine := do
  let userPath := (← userDirectory "XDG_CONFIG_HOME" ".config") ++ "/config.toml"
  let user := (← readFile? userPath).map fun text => (⟨userPath, userPath, text⟩ : Config.SourceFile)
  let name := match Command.Invocation.parse words with
    | .ok i => i.options.config
    | .error _ => none
  let text ← match name with
    | none => pure none
    | some path => readFile? path
  let now := (← Std.Time.Timestamp.now).toMillisecondsSinceUnixEpoch.val.toNat
  let machine : Machine :=
    { env := ← readVariables, userPath, user
      file := fun path =>
        match text with
        | some text => .file ⟨path, path, text⟩
        | none => .missing path
      surroundings := { place := { dataDirectory := some (← userDirectory "XDG_DATA_HOME" ".local/share") } }
      id := ← freshId, time := UInt64.ofNat now, stamp := Calendar.instantText now }
  match machine.databasePath? words with
  | none => return machine
  | some path =>
    match ← readFile? (databaseFile path) with
    | none => return machine
    | some text =>
      return { machine with surroundings := machine.surroundings.save path (.ofText text) }

/-- Keeps the databases of a run. -/
def writeDatabases (s : Command.Surroundings) : IO Unit :=
  s.place.disk.databases.forM fun (path, db) => do
    IO.FS.createDirAll path
    IO.FS.writeFile (databaseFile path) db.text

/-- Puts a text at the end of a file, in a directory that is made if needed. -/
def appendFile (path text : String) : IO Unit := do
  let parent := "/".intercalate (path.splitOn "/").dropLast
  if !parent.isEmpty then IO.FS.createDirAll parent
  (← IO.FS.Handle.mk path .append).putStr text

/-- Puts the results of a run back. -/
def putBack (e : Ending) : IO UInt32 := do
  if let some (path, text) := e.log then appendFile path text
  writeDatabases e.surroundings
  (← IO.getStdout).putStr e.out
  (← IO.getStderr).putStr e.err
  return UInt32.ofNat e.code

/-- What is printed for a command line that was not understood. -/
def usage : String :=
  "Usage: waypost [--config PATH] [--verbose] [--log-level LEVEL] [--log-format FORMAT] COMMAND\n\n" ++
  "Commands:\n" ++
  "  queue stats                 Show the number of pending events\n" ++
  "  queue list [--limit N]      List pending events in queue order\n" ++
  "  queue flush                 Deliver pending events once\n" ++
  "  queue clear                 Drop every pending event\n" ++
  "  track TYPE [--location Type:id]... [--global Type:id]...\n" ++
  "                              Track one event, then flush\n"

end EventRelay.Main

/-- Runs the program. -/
def main (words : List String) : IO UInt32 := do
  match (← EventRelay.Main.readMachine words).run words with
  | .ok ending => EventRelay.Main.putBack ending
  | .error e =>
    let code := EventRelay.Program.usageCode e
    (← if code = 0 then IO.getStdout else IO.getStderr).putStr EventRelay.Main.usage
    return UInt32.ofNat code
