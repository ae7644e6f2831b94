/-!
# Reading numbers

Numbers inside configuration texts.  Whole numbers are a sign and decimal digits; a float is a sign,
digits with at most one point and an exponent, or one of the words `inf`, `infinity` and `nan` in any
case, and is rounded to the nearest binary64 value.
-/

namespace EventRelay.Decimal

/-- The value of a decimal digit. -/
def digitValue (c : Char) : Nat :=
  c.toNat - 48

/-- The number spelt by decimal digits. -/
def digitsValue (cs : List Char) : Nat :=
  cs.foldl (fun acc c => acc * 10 + digitValue c) 0

/-- A minus sign and what follows the sign. -/
def splitSign : List Char → Bool × List Char
  | '-' :: cs => (true, cs)
  | '+' :: cs => (false, cs)
  | cs => (false, cs)

/-- A natural number: digits, and nothing else. -/
def readNat? (cs : List Char) : Option Nat :=
  if cs.isEmpty || !cs.all Char.isDigit then none else some (digitsValue cs)

/-- A natural number that may carry a plus sign. -/
def readPlusNat? (cs : List Char) : Option Nat :=
  match cs with
  | '+' :: rest => readNat? rest
  | _ => readNat? cs

/-- A whole number with or without a sign. -/
def readInt? (cs : List Char) : Option Int :=
  let (negative, rest) := splitSign cs
  (readNat? rest).map fun n => if negative then -Int.ofNat n else Int.ofNat n

/-- The float nearest to `significand · 10 ^ exponent`.  Outside the range of floats the size alone
decides, so that no large power is computed. -/
def nearest (significand : Nat) (exponent : Int) : Float :=
  let size : Int := exponent + (Nat.toDigits 10 significand).length
  if significand = 0 then 0.0
  else if size > 400 then 1.0 / 0.0
  else if size < -400 then 0.0
  else
    match exponent with
    | .ofNat e => Float.ofScientific significand false e
    | .negSucc e => Float.ofScientific significand true (e + 1)

/-- The exponent after the digits: nothing, or `e` and a whole number. -/
def readExponent? : List Char → Option Int
  | [] => some 0
  | c :: cs => if c = 'e' ∨ c = 'E' then readInt? cs else none

/-- A float without its sign. -/
def readMagnitude? (cs : List Char) : Option Float :=
  let word := cs.map Char.toLower
  if word = "inf".toList ∨ word = "infinity".toList then some (1.0 / 0.0)
  else if word = "nan".toList then some (0.0 / 0.0)
  else
    let whole := cs.takeWhile Char.isDigit
    let rest := cs.dropWhile Char.isDigit
    let (fraction, rest) := match rest with
      | '.' :: more => (more.takeWhile Char.isDigit, more.dropWhile Char.isDigit)
      | _ => ([], rest)
    if whole.isEmpty && fraction.isEmpty then none
    else (readExponent? rest).map fun e =>
      nearest (digitsValue (whole ++ fraction)) (e - Int.ofNat fraction.length)

/-- A float. -/
def readFloat? (cs : List Char) : Option Float :=
  let (negative, rest) := splitSign cs
  (readMagnitude? rest).map fun x => if negative then -x else x

end EventRelay.Decimal
