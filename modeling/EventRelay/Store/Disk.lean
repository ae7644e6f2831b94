import EventRelay.Failure
import EventRelay.Json.Decode
import EventRelay.Json.Writer
import EventRelay.Store.Database

/-!
# Where databases are

A disk holds databases by path.  A database that is not there is made when it is opened; that fails
where a plain file is in the way.

On a real disk a database is a JSON object of its slots.
-/

namespace EventRelay.Store

/-- The text of a database. -/
def Database.text (db : Database) : String :=
  (Json.obj (db.slots.map fun (name, content) => (name, .str content))).text

/-- The database that a text holds; anything else in the text is passed over. -/
def Database.ofText (s : String) : Database :=
  match Json.parse s with
  | .ok (.obj fields) =>
    { slots := fields.filterMap fun
        | (name, .str content) => some (name, content)
        | _ => none }
  | _ => {}

/-- Databases by path, and the paths of plain files. -/
structure Disk where
  /-- The databases. -/
  databases : List (String × Database) := []
  /-- The plain files. -/
  files : List String := []

namespace Disk

/-- Is the path that of a file, or does it lead through one? -/
def isBlocked (d : Disk) (path : String) : Bool :=
  d.files.any fun f => path == f || (f ++ "/").isPrefixOf path

/-- Opens the database at a path. -/
def database (d : Disk) (path : String) : Except StorageError Database :=
  if d.isBlocked path then .error (.io "the database cannot be opened")
  else .ok ((d.databases.lookup path).getD {})

/-- The disk with a database as it is now. -/
def save (d : Disk) (path : String) (db : Database) : Disk :=
  { d with databases := Json.insertField path db d.databases }

end Disk

end EventRelay.Store
