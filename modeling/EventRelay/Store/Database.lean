import EventRelay.Json.Basic

/-!
# The durable medium

A database is a map from slot names to texts that outlives the program.  A change is first applied
and then synced; either step can fail.  A change that fails leaves the map as it was, a sync that
fails leaves it as the change made it.
-/

namespace EventRelay.Store

/-- A durable map from slot names to texts. -/
structure Database where
  /-- The slots in name order. -/
  slots : List (String × String) := []

/-- How the medium answers one operation: a text is the reason of a failure. -/
structure Health where
  /-- The answer to the change. -/
  change : Option String := none
  /-- The answer to the sync. -/
  sync : Option String := none

/-- Nothing fails. -/
def Health.good : Health := {}

namespace Database

/-- The text in a slot. -/
def get? (db : Database) (slot : String) : Option String :=
  db.slots.lookup slot

/-- The map with a text in a slot. -/
def put (db : Database) (slot text : String) : Database :=
  { slots := Json.insertField slot text db.slots }

/-- The map without a slot. -/
def drop (db : Database) (slot : String) : Database :=
  { slots := db.slots.filter fun s => s.1 != slot }

/-- Goes from a map to the next one: the map that is left, and the reason of a failure. -/
def change (health : Health) (old new : Database) : Database × Option String :=
  match health.change with
  | some reason => (old, some reason)
  | none => (new, health.sync)

end Database

end EventRelay.Store
