import EventRelay.Json.Decode

/-!
# Contexts

A context is a typed, identified record attached to events.  Whether it is global or part of a
location stack is decided by where an event holds it, not by the record.

The written form is flat: `_type` and `id` first, then the attributes in key order.  These two keys
are reserved: an attribute of such a name is not taken, so the flat form can be read back.
-/

namespace EventRelay

/-- A context: a type name, an id and further attributes in strictly increasing key order. -/
structure Context where
  /-- What kind of thing the context describes. -/
  typeName : String
  /-- Which one of its kind. -/
  id : String
  /-- Further data. -/
  attributes : List (String × Json) := []

namespace Context

/-- The type name of contexts that stand in for failed ones. -/
def errorType : String := "ErrorContext"

/-- The type name of the context that describes the tracked application. -/
def applicationType : String := "ApplicationContext"

/-- The message of a context that missed its time limit. -/
def timeoutMessage : String := "timeout"

/-- The attribute that holds the message of an error context. -/
def messageAttribute : String := "message"

/-- Keys that no attribute may have. -/
def isReserved (key : String) : Bool :=
  key == "_type" || key == "id"

/-- Sets an attribute; a reserved key changes nothing. -/
def withAttribute (c : Context) (key : String) (value : Json) : Context :=
  if isReserved key then c
  else { c with attributes := Json.insertField key value c.attributes }

/-- The context that stands in for a failed one. -/
def error (message : String) : Context :=
  { typeName := errorType, id := "error", attributes := [(messageAttribute, .str message)] }

/-- The context that describes the tracked application. -/
def application (id : String) : Context :=
  { typeName := applicationType, id }

/-- Does the context stand in for a failed one? -/
def isError (c : Context) : Bool :=
  c.typeName == errorType

/-- The value of an attribute. -/
def attribute? (c : Context) (key : String) : Option Json :=
  c.attributes.lookup key

/-- The message of an error context, if it is a text. -/
def errorMessage? (c : Context) : Option String :=
  if c.isError then
    match c.attribute? messageAttribute with
    | some (.str s) => some s
    | _ => none
  else none

/-- Same type and same id. -/
def sameIdentity (a b : Context) : Bool :=
  a.typeName == b.typeName && a.id == b.id

/-- Equality of the whole records, with `1` and `1.0` different. -/
def same (a b : Context) : Bool :=
  a.sameIdentity b && Json.sameFields a.attributes b.attributes

/-- The context as one step of a path. -/
def segment (c : Context) : String :=
  c.typeName ++ ":" ++ c.id

/-! ## Written form -/

/-- The flat written form. -/
def toJson (c : Context) : Json :=
  .obj (("_type", .str c.typeName) :: ("id", .str c.id) :: c.attributes)

/-- The compact text. -/
def text (c : Context) : String :=
  c.toJson.text

/-- A context of which some members have been read. -/
structure Partial where
  /-- The type name, once read. -/
  typeName : Option String := none
  /-- The id, once read. -/
  id : Option String := none
  /-- The attributes so far. -/
  attributes : List (String × Json) := []

/-- Reads one member. -/
def Partial.add (room : Nat) (p : Partial) (key : String) (t : Json.Tree) : Json.Read Partial :=
  if key = "_type" then
    if p.typeName.isSome then .error (.mismatch (.repeated key))
    else do return { p with typeName := some (← t.asString) }
  else if key = "id" then
    if p.id.isSome then .error (.mismatch (.repeated key))
    else do return { p with id := some (← t.asString) }
  else do return { p with attributes := Json.insertField key (← t.toJson room) p.attributes }

/-- Reads members in text order. -/
def Partial.addAll (room : Nat) (p : Partial) :
    List (Json.Quoted × Json.Tree) → Json.Read Partial
  | [] => .ok p
  | (k, t) :: ms => do
    let k ← Json.Quoted.read k
    let p ← p.add room k t
    p.addAll room ms

/-- The finished context. -/
def Partial.finish (p : Partial) : Json.Read Context :=
  match p.typeName, p.id with
  | none, _ => .error (.mismatch (.missing "_type"))
  | some _, none => .error (.mismatch (.missing "id"))
  | some typeName, some id => .ok { typeName, id, attributes := p.attributes }

/-- Reads a context; only an object will do. -/
def ofTree (room : Nat) (t : Json.Tree) : Json.Read Context :=
  match t with
  | .obj members stop => do
    let room ← Json.openBracket room
    let p ← Partial.addAll room {} members
    Json.closing stop
    p.finish
  | _ => t.refuse "struct Context"

/-- Reads the text of a context. -/
def parse (s : String) : Json.Read Context :=
  Json.decode ofTree s

end Context

end EventRelay
