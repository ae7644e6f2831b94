import EventRelay.Failure
import EventRelay.Log
import EventRelay.Store.Database
import EventRelay.Store.Pending
import EventRelay.Text.Blank

/-!
# Slots

A slot keeps the pending events of one tracker in a database, as the text of the whole list.  It is
loaded when the slot is opened and written again with every change; between the two the list is held
in memory, and changes there only once the database has accepted the change.

Content that cannot be read counts as an empty list.
-/

namespace EventRelay.Store

/-- A slot that has been opened: its name and the events held in memory. -/
structure Slot where
  /-- The name in the database. -/
  name : String
  /-- The pending events. -/
  events : List Event

namespace Slot

/-- The name of a tracker's slot. -/
def nameOf (tracker : String) : String :=
  "waypost-queue-" ++ tracker

/-- The events that a text holds. -/
def decode (text : Option String) : Json.Read (List Event) :=
  match text with
  | none => .ok []
  | some s => Event.parseList s

/-- The events that opening the slot would give. -/
def stored (db : Database) (name : String) : List Event :=
  match decode (db.get? name) with
  | .ok events => events
  | .error _ => []

/-- Opens the slot of a tracker, whose id must not be blank. -/
def load (db : Database) (tracker : String) : Except StorageError Slot :=
  if Text.isBlankText tracker then .error (.invalidSlot "tracker id cannot be empty")
  else .ok { name := nameOf tracker, events := stored db (nameOf tracker) }

/-- Replaces the list, if the database accepts its text. -/
def replace (health : Health) (db : Database) (s : Slot) (events : List Event) :
    Except StorageError Slot × Database :=
  match Database.change health db (db.put s.name (Event.listText events)) with
  | (db, none) => (.ok { s with events }, db)
  | (db, some reason) => (.error (.io reason), db)

/-- Puts events at the end. -/
def write (health : Health) (db : Database) (s : Slot) (events : List Event) :
    Except StorageError Slot × Database :=
  s.replace health db (s.events ++ events)

/-- Removes events by id; the database is left alone if there are none of them. -/
def delete (health : Health) (db : Database) (s : Slot) (ids : List EventId) :
    Except StorageError Slot × Database :=
  let left := without ids s.events
  if left.length = s.events.length then (.ok s, db) else s.replace health db left

/-- Removes everything, the slot in the database included. -/
def clear (health : Health) (db : Database) (s : Slot) : Except StorageError Slot × Database :=
  match Database.change health db (db.drop s.name) with
  | (db, none) => (.ok { s with events := [] }, db)
  | (db, some reason) => (.error (.io reason), db)

/-! ## Log lines -/

/-- The lines about opening a slot. -/
def loadLines (db : Database) (s : Slot) : List Log.Line :=
  (match decode (db.get? s.name) with
    | .ok _ => []
    | .error e =>
      [{ source := .slot, level := .warn, message := "Persisted queue is corrupt, starting empty",
         fields := [Log.str "slot" s.name, Log.str "error" e.message] }]) ++
  [{ source := .slot, level := .debug, message := "Loaded persistent queue",
     fields := [Log.str "slot" s.name, Log.num "pending" s.events.length] }]

end Slot

end EventRelay.Store
