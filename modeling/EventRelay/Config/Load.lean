import EventRelay.Config.Format.Ini
import EventRelay.Config.Format.Json5
import EventRelay.Config.Format.Toml
import EventRelay.Config.Format.Yaml
import EventRelay.Config.Layers
import EventRelay.Json.Decode
import EventRelay.Log

/-!
# Loading a configuration

Reads the files and puts the layers together.  The format of a file follows from its extension, and a
file whose format is not known is refused.  An explicit file must be there; the user's file need not.
-/

namespace EventRelay.Config

/-- A file format. -/
inductive FileFormat where
  /-- TOML. -/
  | toml
  /-- JSON. -/
  | json
  /-- YAML. -/
  | yaml
  /-- INI. -/
  | ini
  /-- Relaxed JSON. -/
  | json5
  deriving Repr, DecidableEq

/-- The format of an extension. -/
def FileFormat.ofExtension (extension : String) : Option FileFormat :=
  match extension with
  | "toml" => some .toml
  | "json" => some .json
  | "yaml" => some .yaml
  | "yml" => some .yaml
  | "ini" => some .ini
  | "json5" => some .json5
  | _ => none

/-- The last segment of a path. -/
def fileName (path : String) : String :=
  ((Text.split '/' path).filter fun s => !s.isEmpty).getLast?.getD ""

/-- The extension of a path: what follows the last dot of its last segment, unless that dot is the
segment's first character. -/
def extension (path : String) : String :=
  match Text.split '.' (fileName path) with
  | [] => ""
  | [_] => ""
  | ["", _] => ""
  | parts => parts.getLast?.getD ""

mutual

/-- A JSON value; whole numbers that do not fit 64 signed bits become floats. -/
def Value.ofJson (origin : Option String) : Json → Value
  | .null => .null origin
  | .bool b => .bool origin b
  | .num n =>
    match n.toInt? with
    | some i => if i < 0x8000000000000000 then .int origin i else .float origin n.toFloat
    | none => .float origin n.toFloat
  | .str s => .text origin s
  | .arr items => .list origin (itemsOfJson origin items)
  | .obj fields => .table origin (fieldsOfJson origin fields)

/-- JSON items. -/
def itemsOfJson (origin : Option String) : List Json → List Value
  | [] => []
  | j :: js => Value.ofJson origin j :: itemsOfJson origin js

/-- JSON fields. -/
def fieldsOfJson (origin : Option String) : List (String × Json) → List (String × Value)
  | [] => []
  | (k, j) :: rest => (k, Value.ofJson origin j) :: fieldsOfJson origin rest

end

/-- The fields of a value that must be a table. -/
def rootFields : Value → Option Fields
  | .table _ fs => some fs
  | _ => none

/-- The fields of a file's text. -/
def FileFormat.parse (format : FileFormat) (origin : Option String) (text : String) : Option Fields :=
  match format with
  | .toml => Format.Toml.parse origin text
  | .json => (Json.parse text).toOption.bind fun j => rootFields (Value.ofJson origin j)
  | .yaml => (Format.Yaml.parse origin text).bind rootFields
  | .ini => Format.Ini.parse origin text
  | .json5 => (Format.Json5.parse origin text).bind rootFields

/-- A configuration file that is there. -/
structure SourceFile where
  /-- Its path as given, by which messages name it. -/
  name : String
  /-- Its whole path. -/
  path : String
  /-- Its content. -/
  text : String

/-- A path as messages name it: without segments that stay in place. -/
def plainName (name : String) : String :=
  "/".intercalate ((Text.split '/' name).filter fun s => s != ".")

/-- The layer of a file. -/
def SourceFile.layer (f : SourceFile) : Except LoadError Fields :=
  match FileFormat.ofExtension (extension f.name) with
  | none => .error (.unknownFormat f.path)
  | some format =>
    match format.parse (some (plainName f.name)) f.text with
    | none => .error .unparsed
    | some fields => .ok fields

/-- An explicitly given file. -/
inductive Explicit where
  /-- None is given. -/
  | none
  /-- The file is not there. -/
  | missing (name : String)
  /-- The file. -/
  | file (f : SourceFile)

/-- Loads a configuration from the user's file, an explicit file and the environment. -/
def Settings.load (user : Option SourceFile) (explicit : Explicit)
    (env : List (String × String)) : Except LoadError Settings := do
  let files ← match explicit with
    | .none => pure user.toList
    | .missing name => .error (.notFound name)
    | .file f => pure (user.toList ++ [f])
  let layers ← files.mapM SourceFile.layer
  Settings.ofLayers (layers ++ [variableLayer env])

/-- The line about a user's file that is not there. -/
def noUserFileLine (path : String) : Log.Line :=
  { source := .userFile, level := .debug, message := "No user configuration file",
    fields := [Log.str "config_path" path] }

/-- Loads a configuration from one file alone. -/
def Settings.loadFile (explicit : Explicit) : Except LoadError Settings :=
  match explicit with
  | .none => Settings.ofLayers []
  | .missing name => .error (.notFound name)
  | .file f => do Settings.ofLayers [← f.layer]

end EventRelay.Config
