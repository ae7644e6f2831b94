import EventRelay.Store.Slot

/-!
# Stores

A store holds the pending events of one queue, either in memory only or in a slot of a database as
well.  Calls can be made to fail from outside (`Faults`); a call that fails changes nothing.
-/

namespace EventRelay

/-- Where a store keeps its events. -/
inductive Store.Keeping where
  /-- In memory only. -/
  | memory
  /-- In memory and in a slot of a database. -/
  | durable (db : Store.Database) (slot : String)

/-- The calls that are made to fail. -/
structure Store.Faults where
  /-- Writing fails. -/
  write : Bool := false
  /-- Reading fails. -/
  read : Bool := false
  /-- Deleting fails. -/
  delete : Bool := false

/-- The pending events of one queue. -/
structure Store where
  /-- Where they are kept. -/
  keeping : Store.Keeping := .memory
  /-- The events, in the order in which they were accepted. -/
  events : List Event := []
  /-- The calls that are made to fail. -/
  faults : Store.Faults := {}

namespace Store

/-- An opened slot as a store. -/
def ofSlot (db : Database) (s : Slot) : Store :=
  { keeping := .durable db s.name, events := s.events }

/-- What the durable copy becomes when the list becomes `events`. -/
def Keeping.follow (events : List Event) : Keeping → Keeping
  | .memory => .memory
  | .durable db slot => .durable (db.put slot (Event.listText events)) slot

/-- What the durable copy becomes when everything is removed. -/
def Keeping.empty : Keeping → Keeping
  | .memory => .memory
  | .durable db slot => .durable (db.drop slot) slot

/-- The number of pending events. -/
def size (s : Store) : Nat :=
  s.events.length

/-- The failure of a call that is made to fail. -/
def injected (call : String) : StorageError :=
  .invalidSlot ("injected " ++ call)

/-- Puts events at the end. -/
def write (s : Store) (events : List Event) : Except StorageError Store :=
  if s.faults.write then .error (injected "write")
  else
    let all := s.events ++ events
    .ok { s with events := all, keeping := s.keeping.follow all }

/-- Reads the first events that pass the filter. -/
def read (s : Store) (limit : Option Nat) (keep : Event → Bool) : Except StorageError (List Event) :=
  if s.faults.read then .error (injected "read")
  else .ok (select limit keep s.events)

/-- Removes events by id. -/
def delete (s : Store) (ids : List EventId) : Except StorageError Store :=
  if s.faults.delete then .error (injected "delete")
  else
    let left := without ids s.events
    if left.length = s.events.length then .ok s
    else .ok { s with events := left, keeping := s.keeping.follow left }

/-- Removes everything. -/
def clear (s : Store) : Store :=
  { s with events := [], keeping := s.keeping.empty }

/-- The database behind the store, if there is one. -/
def database? (s : Store) : Option Database :=
  match s.keeping with
  | .memory => none
  | .durable db _ => some db

end Store

end EventRelay
