import EventRelay.Event

/-!
# Pending events

What every store holds: events in the order in which they were accepted, repetitions included.
Events are read from the front, past those the reader does not want, and removed by id.
-/

namespace EventRelay.Store

/-- The first events that pass the filter, up to the limit if there is one. -/
def select (limit : Option Nat) (keep : Event → Bool) (events : List Event) : List Event :=
  match limit with
  | none => events.filter keep
  | some n => (events.filter keep).take n

/-- The events whose id is not listed. -/
def without (ids : List EventId) (events : List Event) : List Event :=
  events.filter fun e => !ids.contains e.id

end EventRelay.Store
