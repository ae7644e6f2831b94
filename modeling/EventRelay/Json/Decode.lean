import EventRelay.Json.Tree
import EventRelay.Json.Writer
import EventRelay.Text.Quoted

/-!
# Decoding laid-out JSON

A decoder takes a tree to a value of some type and walks it in text order, so that the first
thing wrong in the text decides the error.  There are two kinds of error: a `Fault` of the text
itself, and a `Mismatch` between a well-formed text and the type asked for.

Decoders count open brackets: `room` is the number of brackets that may still be opened
(`nestingLimit` at the start), and a value that needs one more is refused.

* `Tree.toJson` — any value.
* `Tree.skip` — a value nobody looks at.
* `Tree.asString`, `Tree.asWord`, `Tree.asList` and so on — one type each.
* `Fields` — the members of an object, sorted into the fields of a record.
* `decode` — a whole text.
-/

namespace EventRelay.Json

/-- What a text holds where something else was expected. -/
inductive Found where
  /-- The word `null`. -/
  | null
  /-- A truth value. -/
  | bool (b : Bool)
  /-- An integer. -/
  | integer (n : Int)
  /-- A float. -/
  | float (x : FiniteFloat)
  /-- A text. -/
  | text (s : String)
  /-- An array. -/
  | sequence
  /-- An object. -/
  | map
  deriving DecidableEq

/-- How a message names what was found. -/
def Found.message : Found → String
  | .null => "null"
  | .bool b => s!"boolean `{b}`"
  | .integer n => s!"integer `{n}`"
  | .float x => "floating point `" ++ String.ofList (Number.real x).chars ++ "`"
  | .text s => "string " ++ Text.quote s
  | .sequence => "sequence"
  | .map => "map"

/-- Why a well-formed text is not a value of the type asked for. -/
inductive Mismatch where
  /-- A value of another type. -/
  | wrongType (found : Found) (expected : String)
  /-- An integer out of range. -/
  | wrongValue (n : Int) (expected : String)
  /-- An array with too few items. -/
  | wrongLength (length : Nat) (expected : String)
  /-- A field that is not there. -/
  | missing (field : String)
  /-- A field that is there twice. -/
  | repeated (field : String)
  /-- A name that is none of the choices. -/
  | unknownChoice (name : String) (choices : String)
  /-- A malformed event id. -/
  | badId
  deriving DecidableEq

/-- The wording of a mismatch. -/
def Mismatch.message : Mismatch → String
  | .wrongType found expected => s!"invalid type: {found.message}, expected {expected}"
  | .wrongValue n expected => s!"invalid value: integer `{n}`, expected {expected}"
  | .wrongLength n expected => s!"invalid length {n}, expected {expected}"
  | .missing field => s!"missing field `{field}`"
  | .repeated field => s!"duplicate field `{field}`"
  | .unknownChoice name choices => s!"unknown variant `{name}`, expected {choices}"
  | .badId => "UUID parsing failed"

/-- Why a text could not be read as a value of some type. -/
inductive ReadError where
  /-- The text is not JSON. -/
  | fault (f : Fault)
  /-- The text is JSON of another shape. -/
  | mismatch (m : Mismatch)
  deriving DecidableEq

/-- The wording of a read error. -/
def ReadError.message : ReadError → String
  | .fault f => f.message
  | .mismatch m => m.message

/-- The result of a decoder. -/
abbrev Read := Except ReadError

/-- Fails with a fault. -/
def fail {α : Type} (f : Fault) : Read α :=
  .error (.fault f)

/-- How many brackets may be open at once, plus one. -/
def nestingLimit : Nat := 128

/-- Room left after opening a bracket. -/
def openBracket (room : Nat) : Read Nat :=
  if room ≤ 1 then fail .tooDeep else .ok (room - 1)

/-- A fault at the end of an array or object. -/
def closing : Option Fault → Read Unit
  | none => .ok ()
  | some f => fail f

/-- A quoted text that someone looks at. -/
def Quoted.read : Quoted → Read String
  | .ok s => .ok s
  | .error f => fail f

/-- A number that someone looks at. -/
def Literal.read (l : Literal) : Read Number :=
  match l.value with
  | .number n => .ok n
  | .outOfRange => fail .numberOutOfRange

namespace Tree

/-! ## Values nobody looks at -/

mutual

/-- A value nobody looks at only has to be readable. -/
def skip : Tree → Read Unit
  | .broken f => fail f
  | .arr items stop => do skipItems items; closing stop
  | .obj members stop => do skipMembers members; closing stop
  | _ => .ok ()

/-- Items nobody looks at. -/
def skipItems : List Tree → Read Unit
  | [] => .ok ()
  | t :: ts => do skip t; skipItems ts

/-- Members nobody looks at. -/
def skipMembers : List (Quoted × Tree) → Read Unit
  | [] => .ok ()
  | (_, t) :: ms => do skip t; skipMembers ms

end

/-! ## Any value -/

mutual

/-- Any value; repeated keys of an object keep the last value. -/
def toJson (room : Nat) : Tree → Read Json
  | .null => .ok .null
  | .bool b => .ok (.bool b)
  | .num l => Json.num <$> l.read
  | .str s => Json.str <$> Quoted.read s
  | .arr items stop => do
    let room ← openBracket room
    let vs ← itemsToJson room items
    closing stop
    return .arr vs
  | .obj members stop => do
    let room ← openBracket room
    let fs ← membersToJson room [] members
    closing stop
    return .obj fs
  | .broken f => fail f

/-- The items of an array. -/
def itemsToJson (room : Nat) : List Tree → Read (List Json)
  | [] => .ok []
  | t :: ts => do
    let v ← toJson room t
    let vs ← itemsToJson room ts
    return v :: vs

/-- The members of an object, added to the fields read so far. -/
def membersToJson (room : Nat) (acc : List (String × Json)) :
    List (Quoted × Tree) → Read (List (String × Json))
  | [] => .ok acc
  | (k, t) :: ms => do
    let k ← Quoted.read k
    let v ← toJson room t
    membersToJson room (insertField k v acc) ms

end

/-! ## One type each -/

/-- Fails because a value of another type was expected; arrays and objects are not looked into. -/
def refuse {α : Type} (expected : String) (t : Tree) : Read α :=
  let wrong (found : Found) : Read α := .error (.mismatch (.wrongType found expected))
  match t with
  | .null => wrong .null
  | .bool b => wrong (.bool b)
  | .num l => do
    match ← l.read with
    | .natural n => wrong (.integer (Int.ofNat n.toNat))
    | .negative n => wrong (.integer (Int.negSucc n.val))
    | .real x => wrong (.float x)
  | .str s => do wrong (.text (← Quoted.read s))
  | .arr _ _ => wrong .sequence
  | .obj _ _ => wrong .map
  | .broken f => fail f

/-- A text; `expected` names what it stands for. -/
def asText (expected : String) (t : Tree) : Read String :=
  match t with
  | .str s => Quoted.read s
  | _ => t.refuse expected

/-- A text that stands for itself. -/
def asString (t : Tree) : Read String :=
  t.asText "a string"

/-- A truth value. -/
def asBool (t : Tree) : Read Bool :=
  match t with
  | .bool b => .ok b
  | _ => t.refuse "a boolean"

/-- An integer below `bound`; `expected` names the type. -/
def asWord (bound : Nat) (expected : String) (t : Tree) : Read Nat :=
  match t with
  | .num l => do
    match ← l.read with
    | .natural n =>
      if n.toNat < bound then .ok n.toNat
      else .error (.mismatch (.wrongValue (Int.ofNat n.toNat) expected))
    | .negative n => .error (.mismatch (.wrongValue (Int.negSucc n.val) expected))
    | .real x => .error (.mismatch (.wrongType (.float x) expected))
  | _ => t.refuse expected

/-- A number as a float. -/
def asFloat (t : Tree) : Read Float :=
  match t with
  | .num l => Number.toFloat <$> l.read
  | _ => t.refuse "f64"

/-- `null` or a value. -/
def asOption {α : Type} (decoder : Tree → Read α) (t : Tree) : Read (Option α) :=
  match t with
  | .null => .ok none
  | _ => some <$> decoder t

/-- Decodes items in order. -/
def items {α : Type} (decoder : Tree → Read α) : List Tree → Read (List α)
  | [] => .ok []
  | t :: ts => do
    let v ← decoder t
    let vs ← items decoder ts
    return v :: vs

/-- An array of values of one type. -/
def asList {α : Type} (room : Nat) (decoder : Nat → Tree → Read α) (t : Tree) : Read (List α) :=
  match t with
  | .arr ts stop => do
    let room ← openBracket room
    let vs ← items (decoder room) ts
    closing stop
    return vs
  | _ => t.refuse "a sequence"

/-- The members of an object as a table, added to the fields read so far. -/
def tableMembers {α : Type} (decoder : Tree → Read α) (acc : List (String × α)) :
    List (Quoted × Tree) → Read (List (String × α))
  | [] => .ok acc
  | (k, t) :: ms => do
    let k ← Quoted.read k
    let v ← decoder t
    tableMembers decoder (insertField k v acc) ms

/-- An object as a table from keys to values of one type; of a repeated key the last counts. -/
def asTable {α : Type} (room : Nat) (decoder : Tree → Read α) (t : Tree) :
    Read (List (String × α)) :=
  match t with
  | .obj members stop => do
    let _ ← openBracket room
    let fields ← tableMembers decoder [] members
    closing stop
    return fields
  | _ => t.refuse "a map"

/-! ## Records -/

/-- A field of a record: its key, and how its value changes the record read so far. -/
structure Field (α : Type) where
  /-- The key. -/
  name : String
  /-- Reads the value into the partial record. -/
  read : Nat → Tree → α → Read α

/-- The members of an object, field by field; keys of no field are skipped. -/
def recordMembers {α : Type} (room : Nat) (fields : List (Field α)) (seen : List String) (acc : α) :
    List (Quoted × Tree) → Read (α × List String)
  | [] => .ok (acc, seen)
  | (k, t) :: ms => do
    let k ← Quoted.read k
    match fields.find? (·.name = k) with
    | none => do
      t.skip
      recordMembers room fields seen acc ms
    | some f => do
      if seen.contains k then .error (.mismatch (.repeated k))
      else
        let acc ← f.read room t acc
        recordMembers room fields (k :: seen) acc ms

/-- The items of an array, read into the fields in declaration order. Gives the fields left. -/
def recordItems {α : Type} (room : Nat) (acc : α) :
    List (Field α) → List Tree → Read (α × List (Field α) × List Tree)
  | [], ts => .ok (acc, [], ts)
  | fs, [] => .ok (acc, fs, [])
  | f :: fs, t :: ts => do
    let acc ← f.read room t acc
    recordItems room acc fs ts

/-- A record given as an object or as an array of its fields.

`required` lists the fields without a default, and `name` is the record's name in messages. -/
def asRecord {α : Type} (room : Nat) (name : String) (fields : List (Field α)) (start : α)
    (required : List String) (t : Tree) : Read α :=
  match t with
  | .obj members stop => do
    let room ← openBracket room
    let (acc, seen) ← recordMembers room fields [] start members
    closing stop
    match required.find? fun f => !seen.contains f with
    | some f => .error (.mismatch (.missing f))
    | none => return acc
  | .arr ts stop => do
    let room ← openBracket room
    let (acc, left, rest) ← recordItems room start fields ts
    match left, rest with
    | [], [] =>
      -- after the last field only the closing bracket may follow
      match stop with
      | none => return acc
      | some .endInList => fail .endInList
      | some .trailingComma => fail .trailingComma
      | some _ => fail .trailingCharacters
    | [], _ :: _ => fail .trailingCharacters
    | f :: _, _ =>
      closing stop
      if required.contains f.name then
        .error (.mismatch (.wrongLength ts.length s!"struct {name} with {fields.length} elements"))
      else return acc
  | _ => t.refuse s!"struct {name}"

end Tree

/-- Decodes a whole text; something after the value is a fault. -/
def decode {α : Type} (decoder : Nat → Tree → Read α) (s : String) : Read α := do
  let layout := layOut s.toList
  let v ← decoder nestingLimit layout.root
  if layout.trailing then fail .trailingCharacters else return v

/-- Any JSON value. -/
def parse (s : String) : Read Json :=
  decode (fun room t => t.toJson room) s

end EventRelay.Json
