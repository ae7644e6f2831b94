import EventRelay.Calendar
import EventRelay.Event
import EventRelay.Location.Path
import EventRelay.Queue.Basic
import EventRelay.Text.Table

/-!
# What the commands print

One function per command, from what the command found or did to the text.
-/

namespace EventRelay.Command.Report

/-- The number of pending events of a slot. -/
def stats (slot : String) (pending : Nat) : String :=
  s!"Queue {slot}: {pending} pending event(s)"

/-- A title, underlined. -/
def heading (title : String) : String :=
  title ++ "\n" ++ "".pushn '-' title.utf8ByteSize

/-- The columns of the list of events. -/
def listHeading : List String := ["Id", "Type", "Time", "Location", "Globals"]

/-- The row of an event. -/
def listRow (e : Event) : List String :=
  [e.id.text, e.eventType, Calendar.instantText e.time.toNat, Location.path e.locationStack,
    toString e.globalContexts.length]

/-- The note under a list that leaves events out. -/
def shownNote (shown pending : Nat) : String :=
  s!"Showing {shown} of {pending} pending event(s)\n"

/-- The first pending events, oldest first, of a number of pending events. -/
def list (events : List Event) (pending : Nat) : String :=
  heading "Pending events" ++ "\n\n" ++
    (if events.isEmpty then "Queue is empty.\n"
    else Text.Table.render listHeading (events.map listRow) ++ "\n" ++
      (if events.length < pending then shownNote events.length pending else ""))

/-- What a flush did, and how many events are left. -/
def flush (r : Queue.Report) (remaining : Nat) : String :=
  s!"Flushed {r.batches} batch(es): {r.delivered} delivered, {r.failed} failed, {remaining} remaining"

/-- How many events were dropped. -/
def cleared (count : Nat) : String :=
  s!"Cleared {count} pending event(s)"

/-- The event that was tracked: where it happened, and how many of its contexts failed. -/
def tracked (e : Event) : String :=
  let path := Location.path e.locationStack
  let failed := e.errorContexts.length
  s!"Tracked {e.eventType} {e.id.text}" ++ (if path.isEmpty then "" else s!" at {path}") ++
    (if failed = 0 then "" else s!" ({failed} unresolved context(s))")

/-- The answer to `track` while the tracker is switched off. -/
def inactive : String := "Tracker inactive, nothing tracked"

end EventRelay.Command.Report
