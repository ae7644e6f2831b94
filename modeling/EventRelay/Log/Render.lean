import EventRelay.Json.Writer
import EventRelay.Log.Setup

/-!
# Written log lines

A line is written as text, with or without colour, or as a JSON object.  The time stamp is given.
-/

namespace EventRelay.Log

/-- A text between terminal codes: the given style, and back to normal. -/
def styled (style : Nat) (s : String) : String :=
  let escape := String.singleton (Char.ofNat 27)
  s!"{escape}[{style}m{s}{escape}[0m"

/-- The colour of a level. -/
def Level.color : Level → Nat
  | .error => 31
  | .warn => 33
  | .info => 32
  | .debug => 34

/-- The name of a level, aligned to the right. -/
def Level.aligned (l : Level) : String :=
  "".pushn ' ' (5 - l.name.length) ++ l.name

namespace Line

/-- The line as plain text. -/
def plainText (stamp : String) (l : Line) : String :=
  s!"{stamp} {l.level.aligned} {l.source.path}: {l.message}" ++
    String.join (l.fields.map fun (name, value) => s!" {name}={value.shown}")

/-- The line as coloured text: details are dimmed and field names are slanted. -/
def colorText (stamp : String) (l : Line) : String :=
  s!"{styled 2 stamp} {styled l.level.color l.level.aligned} " ++
    styled 2 l.source.path ++ styled 2 ":" ++ s!" {l.message}" ++
    String.join (l.fields.map fun (name, value) =>
      " " ++ styled 3 name ++ styled 2 "=" ++ value.shown)

/-- A value in a JSON object. -/
def valueJson : Value → Json
  | .text s => .str s
  | .count n => Json.nat n

/-- The line as a JSON object. -/
def jsonText (stamp : String) (l : Line) : String :=
  (Json.obj [("timestamp", .str stamp), ("level", .str l.level.name),
    ("fields", .obj (("message", .str l.message) ::
      l.fields.map fun (name, value) => (name, valueJson value))),
    ("target", .str l.source.path)]).text

end Line

/-- The line as the log writes it. -/
def Setup.lineText (s : Setup) (stamp : String) (l : Line) : String :=
  match s.format with
  | .json => l.jsonText stamp
  | .text => if s.color then l.colorText stamp else l.plainText stamp

/-- What the log writes for some lines. -/
def Setup.write (s : Setup) (stamp : String) (lines : List Line) : String :=
  String.join ((lines.filter s.filter.allows).map fun l => s.lineText stamp l ++ "\n")

end EventRelay.Log
