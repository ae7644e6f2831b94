import EventRelay.Context
import EventRelay.EventId

/-!
# Events and batches

An event has a type, an id, a time and two lists of contexts: the stack of locations it happened
in, outermost first, and the global contexts.  Its written form is an object of these five fields;
it is read from such an object, with the fields in any order and unknown ones ignored, or from an
array of the five values.

A batch is a group of events handed on together; it is never empty.
-/

namespace EventRelay

/-- A resolved event. -/
structure Event where
  /-- What happened. -/
  eventType : String
  /-- The id. -/
  id : EventId
  /-- When it happened, in milliseconds since 1970. -/
  time : UInt64
  /-- Where it happened, outermost first. -/
  locationStack : List Context
  /-- Contexts that hold independently of the location. -/
  globalContexts : List Context

namespace Event

/-- The contexts that stand in for failed ones, of both lists. -/
def errorContexts (e : Event) : List Context :=
  (e.locationStack ++ e.globalContexts).filter Context.isError

/-- The written form. -/
def toJson (e : Event) : Json :=
  .obj [("_type", .str e.eventType), ("id", .str e.id.text), ("time", .num (.natural e.time)),
    ("location_stack", .arr (e.locationStack.map Context.toJson)),
    ("global_contexts", .arr (e.globalContexts.map Context.toJson))]

/-- The compact text. -/
def text (e : Event) : String :=
  e.toJson.text

/-- The compact text of a list of events. -/
def listText (es : List Event) : String :=
  (Json.arr (es.map toJson)).text

/-- The name of the record in messages. -/
def recordName : String := "TrackerEvent"

/-- The fields, in declaration order. -/
def fields : List (Json.Tree.Field Event) :=
  [ ⟨"_type", fun _ t e => do return { e with eventType := ← t.asString }⟩,
    ⟨"id", fun _ t e => do return { e with id := ← EventId.ofTree t }⟩,
    ⟨"time", fun _ t e => do return { e with time := UInt64.ofNat (← t.asWord 0x10000000000000000 "u64") }⟩,
    ⟨"location_stack", fun room t e => do
      return { e with locationStack := ← t.asList room Context.ofTree }⟩,
    ⟨"global_contexts", fun room t e => do
      return { e with globalContexts := ← t.asList room Context.ofTree }⟩ ]

/-- Reads an event from an object or an array of its fields. -/
def ofTree (room : Nat) (t : Json.Tree) : Json.Read Event :=
  t.asRecord room recordName fields
    { eventType := "", id := default, time := 0, locationStack := [], globalContexts := [] }
    (fields.map (·.name))

/-- Reads the text of an event. -/
def parse (s : String) : Json.Read Event :=
  Json.decode ofTree s

/-- Reads the text of a list of events. -/
def parseList (s : String) : Json.Read (List Event) :=
  Json.decode (fun room t => t.asList room ofTree) s

end Event

/-- A group of events handed on together. -/
structure Batch where
  /-- The events, in order. -/
  events : List Event
  /-- There is at least one. -/
  nonempty : events ≠ []

namespace Batch

/-- A batch of the given events, if there are any. -/
def ofList? (es : List Event) : Option Batch :=
  match es with
  | [] => none
  | e :: es => some ⟨e :: es, by simp⟩

/-- A batch of one event. -/
def single (e : Event) : Batch :=
  ⟨[e], by simp⟩

/-- The number of events. -/
def size (b : Batch) : Nat :=
  b.events.length

/-- The ids of the events, in order. -/
def ids (b : Batch) : List EventId :=
  b.events.map Event.id

end Batch

end EventRelay
