import EventRelay.Json.Basic

/-!
# Number literals

A JSON number is read in two steps: its digits are collected as they are written, and then given
a value.  Integers keep their value exactly as long as they fit 64 bits.  All other numbers become
floats from the digits that fit an unsigned 64-bit word and one power of ten: further digits only
move the decimal point, and a float out of range is refused.

The value of a literal is therefore fixed by three rules, each a function here: `accumulate`
(digits into a word), `exponentOf` (the written exponent) and `scale` (word and power of ten into
a float).
-/

namespace EventRelay.Json

/-- A number as it is written. -/
structure Literal where
  /-- Is there a minus sign? -/
  negative : Bool
  /-- The digits before the point. -/
  whole : List Nat
  /-- The digits after the point, if there is one. -/
  fraction : Option (List Nat)
  /-- The sign of the exponent (`true` for minus) and its digits, if there is one. -/
  exponent : Option (Bool × List Nat)
  deriving Repr, DecidableEq

/-- What a literal can stand for. -/
inductive LiteralValue where
  /-- A number. -/
  | number (n : Number)
  /-- A magnitude beyond the largest float. -/
  | outOfRange
  deriving DecidableEq

/-- Appends digits to `acc` while the result stays below `2 ^ 64`; gives back the digits left. -/
def accumulate : Nat → List Nat → Nat × List Nat
  | acc, [] => (acc, [])
  | acc, d :: ds =>
    if acc * 10 + d < 0x10000000000000000 then accumulate (acc * 10 + d) ds else (acc, d :: ds)

/-- The value of exponent digits, unless it exceeds `2 ^ 31 - 1`. -/
def exponentOf (ds : List Nat) : Option Nat :=
  let n := ds.foldl (fun acc d => acc * 10 + d) 0
  if n < 0x80000000 then some n else none

/-- The float nearest to `10 ^ k`. -/
def powerOfTen (k : Nat) : Float :=
  Float.ofScientific 1 false k

/-- Divides by `10 ^ 308` until the rest of a negative exponent is at most `308`. -/
def scaleDown (f : Float) : Nat → Nat → Float
  | _, 0 => f
  | k, fuel + 1 =>
    if k ≤ 308 then f / powerOfTen k
    else if f == 0.0 then f
    else scaleDown (f / powerOfTen 308) (k - 308) fuel

/-- The float `significand · 10 ^ exponent`, or `none` when it is too large. -/
def scale (significand : Nat) (exponent : Int) : Option Float :=
  let f := Float.ofNat significand
  match exponent with
  | .ofNat k =>
    if k ≤ 308 then
      let g := f * powerOfTen k
      if g.isInf then none else some g
    else if f == 0.0 then some f else none
  -- after three divisions any word has become zero
  | .negSucc k => some (scaleDown f (k + 1) 4)

/-- A float with its sign as the value of a literal. -/
def signed (negative : Bool) (f : Float) : LiteralValue :=
  match FiniteFloat.ofFloat? (if negative then -f else f) with
  | some x => .number (.real x)
  | none => .outOfRange

/-- The value of an integer literal: `-0` and what fits no 64-bit range are floats. -/
def integerValue (negative : Bool) (n : Nat) : LiteralValue :=
  if negative then
    match n with
    | 0 => signed true 0.0
    | k + 1 => if h : k < 0x8000000000000000 then .number (.negative ⟨k, h⟩) else signed true (Float.ofNat (k + 1))
  else .number (.natural (UInt64.ofNat n))

/-- The value of a literal. -/
def Literal.value (l : Literal) : LiteralValue :=
  let (word, left) := accumulate 0 l.whole
  let (word, point) := match l.fraction with
    | none => (word, Int.ofNat left.length)
    | some ds =>
      let (word', left') := accumulate word ds
      (word', Int.ofNat left.length - Int.ofNat (ds.length - left'.length))
  match l.exponent with
  | none =>
    if l.fraction.isNone && left.isEmpty then integerValue l.negative word
    else
      match scale word point with
      | some f => signed l.negative f
      | none => .outOfRange
  | some (down, ds) =>
    match exponentOf ds with
    | none => if word ≠ 0 && !down then .outOfRange else signed l.negative 0.0
    | some e =>
      match scale word (if down then point - Int.ofNat e else point + Int.ofNat e) with
      | some f => signed l.negative f
      | none => .outOfRange

end EventRelay.Json
