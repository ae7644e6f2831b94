/-!
# Backoff

How long to wait before trying again: the first wait, multiplied by a growth factor for every
further retry, and capped.  The growth is computed in floating point by repeated squaring; a wait
that does not fit an unsigned 64-bit number of milliseconds is the longest there is.
-/

namespace EventRelay

/-- A length of time. -/
inductive Span where
  /-- A number of milliseconds. -/
  | ms (n : Nat)
  /-- Longer than any number of milliseconds. -/
  | longest
  deriving Repr, DecidableEq

namespace Span

/-- The shorter of two. -/
def min : Span → Span → Span
  | .ms a, .ms b => .ms (Nat.min a b)
  | .longest, b => b
  | a, .longest => a

/-- The length as log lines state it. -/
def inLog : Span → Nat
  | .ms n => n
  | .longest => 0xFFFFFFFFFFFFFFFF

/-- The longest pause that a clock makes: thirty years of 365 days. -/
def longestPause : Nat := 30 * 365 * 86400 * 1000

/-- How far a pause of this length moves the clock. -/
def onClock : Span → Nat
  | .ms n => n
  | .longest => longestPause

end Span

namespace Retry

/-- When and how often to try again. -/
structure Policy where
  /-- The number of attempts, the first included. -/
  maxAttempts : Nat := 10
  /-- The wait before the first retry, in milliseconds. -/
  minTimeout : Nat := 1000
  /-- The longest single wait. -/
  maxTimeout : Option Nat := none
  /-- The time after which no further attempt is made. -/
  maxRetry : Option Nat := none
  /-- The growth of the wait from one retry to the next. -/
  factor : Float := 2.0

/-- A power by repeated squaring; the exponent is below `2 ^ fuel`. -/
def powerLoop : Nat → Float → Float → Nat → Float
  | 0, result, _, _ => result
  | fuel + 1, result, base, exponent =>
    let result := if exponent % 2 = 1 then result * base else result
    if exponent / 2 = 0 then result else powerLoop fuel result (base * base) (exponent / 2)

/-- The float `base ^ exponent`, for exponents up to `2 ^ 31 - 1`. -/
def power (base : Float) (exponent : Nat) : Float :=
  powerLoop 32 1.0 base exponent

/-- The growth factor in use: never below one, and one for not-a-number. -/
def Policy.growth (p : Policy) : Float :=
  if p.factor > 1.0 then p.factor else 1.0

/-- Milliseconds as a span; not a finite number below `2 ^ 64` means the longest one. -/
def spanOf (millis : Float) : Span :=
  if millis < 18446744073709551616.0 && millis.isFinite then .ms millis.toUInt64.toNat else .longest

/-- The wait before retry number `index`, counted from zero. -/
def Policy.delay (p : Policy) (index : Nat) : Span :=
  let wait := spanOf (Float.ofNat p.minTimeout * power p.growth (min index 0x7FFFFFFF))
  match p.maxTimeout with
  | none => wait
  | some cap => wait.min (.ms cap)

/-- At least one attempt is always made. -/
def Policy.attemptsAllowed (p : Policy) : Nat :=
  max p.maxAttempts 1

/-- One attempt on the record. -/
structure Attempt where
  /-- Its number within its call, from one. -/
  number : Nat
  /-- The wait before it. -/
  delay : Span
  /-- The text of its failure; none for success. -/
  error : Option String
  deriving Repr, DecidableEq

end Retry

end EventRelay
