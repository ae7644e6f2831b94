/-!
# The fewest decimal digits that read back

A finite binary64 value is `m · 2 ^ q` for a whole `m`.  Every real number closer to it than to
its two neighbours reads back as that value, and among the decimals in that interval there is a
shortest one; of several equally short ones the nearest is taken.

* `Binary.ofBits` splits the 64 bits into the sign, `m` and `q`.
* `shortest` finds the digits: for one digit, two digits and so on it looks at the two grid points
  around the value, and stops at the first grid that has a point inside the interval.

All arithmetic is exact, on natural numbers: the value and the ends of its interval are kept as
fractions over one common denominator.
-/

namespace EventRelay.Decimal

/-- A binary64 value taken apart: `± significand · 2 ^ exponent`, or not a finite number. -/
inductive Binary where
  /-- A finite value. -/
  | finite (negative : Bool) (significand : Nat) (exponent : Int)
  /-- An infinity. -/
  | infinite (negative : Bool)
  /-- Not a number. -/
  | nan
  deriving Repr, DecidableEq

/-- The exponent field: eleven bits. -/
def exponentField (bits : UInt64) : Nat :=
  bits.toNat / 0x10000000000000 % 0x800

/-- The fraction field: fifty-two bits. -/
def fractionField (bits : UInt64) : Nat :=
  bits.toNat % 0x10000000000000

/-- The sign bit. -/
def signField (bits : UInt64) : Bool :=
  bits.toNat / 0x8000000000000000 % 2 == 1

/-- Splits 64 bits into sign, significand and exponent. -/
def Binary.ofBits (bits : UInt64) : Binary :=
  let e := exponentField bits
  let f := fractionField bits
  if e = 2047 then
    if f = 0 then .infinite (signField bits) else .nan
  else if e = 0 then .finite (signField bits) f (-1074)
  else .finite (signField bits) (f + 0x10000000000000) (Int.ofNat e - 1075)

/-- The positive decimal `0.d₁d₂…dₙ · 10 ^ point`, with `d₁` not zero (no digits at all for zero). -/
structure Digits where
  /-- The digits, the leading one first. -/
  digits : List Nat
  /-- Where the decimal point stands, counted from the left of the digits. -/
  point : Int
  deriving Repr, DecidableEq

/-- The decimal digits of a number, the leading one first. -/
def natDigits (n : Nat) : List Nat :=
  (Nat.toDigits 10 n).map fun c => c.toNat - 48

/-- A fraction scaled by a power of ten: `num / den · 10 ^ k` over whole numbers. -/
def scaled (num den : Nat) (k : Int) : Nat × Nat :=
  match k with
  | .ofNat k => (num * Nat.pow 10 k, den)
  | .negSucc k => (num, den * Nat.pow 10 (k + 1))

/-- The least `e` with `num / den < 10 ^ e`, found by moving a first guess by single steps. -/
def magnitude (num den : Nat) : Int :=
  let guess := Int.ofNat (Nat.toDigits 10 num).length - Int.ofNat (Nat.toDigits 10 den).length
  -- the guess is at most one too low
  let fits (e : Int) : Bool :=
    let (n, d) := scaled num den (-e)
    decide (n < d)
  if fits guess then guess else guess + 1

/-- Drops the zeros at the end of a list of digits. -/
def dropTrailingZeros (ds : List Nat) : List Nat :=
  (ds.reverse.dropWhile (· == 0)).reverse

/-- The point nearest to the value on the grid of `count` digits, if one lies in the interval.

`lo`, `mid` and `hi` are the interval's lower end, the value and the upper end, all over `den`;
`closed` says whether the ends belong to the interval; `mag` is the value's magnitude. -/
def onGrid (lo mid hi den : Nat) (closed : Bool) (mag : Int) (count : Nat) : Option Nat :=
  let shift := Int.ofNat count - mag
  let (m, d) := scaled mid den shift
  let (l, _) := scaled lo den shift
  let (h, _) := scaled hi den shift
  let below := m / d
  let above := below + 1
  let inside (x : Nat) : Bool :=
    if closed then decide (l ≤ x * d) && decide (x * d ≤ h)
    else decide (l < x * d) && decide (x * d < h)
  let down := m - below * d
  let up := above * d - m
  if inside below && inside above then
    if down < up then some below
    else if up < down then some above
    else if below % 2 = 0 then some below else some above
  else if inside below then some below
  else if inside above then some above
  else none

/-- The first grid, from `count` digits on, that has a point in the interval. -/
def firstGrid (lo mid hi den : Nat) (closed : Bool) (mag : Int) : Nat → Nat → Option (Nat × Nat)
  | 0, _ => none
  | fuel + 1, count =>
    match onGrid lo mid hi den closed mag count with
    | some x => some (x, count)
    | none => firstGrid lo mid hi den closed mag fuel (count + 1)

/-- The shortest digits for `significand · 2 ^ exponent`; seventeen digits always suffice. -/
def shortest (significand : Nat) (exponent : Int) : Digits :=
  if significand = 0 then { digits := [], point := 0 }
  else
    -- quarters of the last place, so that the midpoints to both neighbours are whole
    let den := 4 * Nat.pow 2 (-exponent).toNat
    let unit := Nat.pow 2 exponent.toNat
    let mid := 4 * significand * unit
    let hi := mid + 2 * unit
    let lo := if significand = 0x10000000000000 ∧ exponent > -1074 then mid - unit else mid - 2 * unit
    let mag := magnitude mid den
    match firstGrid lo mid hi den (significand % 2 == 0) mag 17 1 with
    | some (x, count) =>
      let ds := natDigits x
      { digits := dropTrailingZeros ds
        point := mag + (Int.ofNat ds.length - Int.ofNat count) }
    | none => { digits := natDigits (mid / den), point := mag }

end EventRelay.Decimal
