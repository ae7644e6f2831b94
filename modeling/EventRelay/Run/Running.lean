import EventRelay.Transport.Dialogue

/-!
# Calls under way

While a dialogue waits, what is left of it is a `Running`: it sleeps until an alarm, or it holds
several others of which at least one sleeps.  Alarms of one instant go off in the order in which they
were set.
-/

namespace EventRelay.Run

/-- An alarm: its instant, and its number among all alarms. -/
structure Alarm where
  /-- When it goes off. -/
  instant : Nat
  /-- How many alarms were set before it. -/
  order : Nat
  deriving DecidableEq

/-- The alarm that goes off first. -/
def Alarm.first (a b : Alarm) : Alarm :=
  if b.instant < a.instant ∨ (b.instant = a.instant ∧ b.order < a.order) then b else a

/-- The first of two alarms that may not be set. -/
def Alarm.first? : Option Alarm → Option Alarm → Option Alarm
  | none, b => b
  | a, none => a
  | some a, some b => some (a.first b)

/-- What is left of a dialogue. -/
inductive Running where
  /-- Nothing: it has ended. -/
  | done (outcome : Outcome)
  /-- Nothing: it has crashed. -/
  | crashed
  /-- It sleeps. -/
  | asleep (alarm : Alarm) (next : Dialogue)
  /-- It waits for its parts. -/
  | all (parts : List Running) (next : List Outcome → Dialogue)

namespace Running

/-- A call that has not begun. -/
def ofDialogue (d : Dialogue) : Running :=
  .asleep ⟨0, 0⟩ d

mutual

/-- The alarm that wakes it. -/
def alarm? : Running → Option Alarm
  | .done _ => none
  | .crashed => none
  | .asleep alarm _ => some alarm
  | .all parts _ => firstAlarm? parts

/-- The first alarm of several. -/
def firstAlarm? : List Running → Option Alarm
  | [] => none
  | r :: rs => Alarm.first? (alarm? r) (firstAlarm? rs)

end

/-- The outcomes of the parts, if all have ended. -/
def outcomes? : List Running → Option (List Outcome)
  | [] => some []
  | .done o :: rs => (outcomes? rs).map (o :: ·)
  | _ :: _ => none

end Running

end EventRelay.Run
