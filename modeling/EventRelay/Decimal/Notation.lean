import EventRelay.Decimal.Shortest

/-!
# How a float is written

The shortest digits of a value can be laid out in more than one way.  A `Style` collects the
decisions: for which decimal exponents the number is written positionally, whether a whole number
keeps `.0`, and how the exponent is marked.

* `Style.json` — floats inside JSON text.
* `Style.plain` — floats inside messages, never with an exponent.
-/

namespace EventRelay.Decimal

/-- The layout of a float. -/
structure Style where
  /-- Least decimal exponent written positionally; `none` writes every number positionally. -/
  positional : Option (Int × Int)
  /-- Does a whole number keep `.0`? -/
  keepsPoint : Bool

/-- JSON text: an exponent below `10 ^ -5` and from `10 ^ 16` on, and a whole number keeps `.0`. -/
def Style.json : Style where
  positional := some (-5, 16)
  keepsPoint := true

/-- Message text: positional always, and a whole number has no point. -/
def Style.plain : Style where
  positional := none
  keepsPoint := false

/-- The character of a decimal digit. -/
def digitChar (d : Nat) : Char :=
  Char.ofNat (48 + d)

/-- Digits with the decimal point at its place, padded with zeros where it lies outside them. -/
def positionalText (keepsPoint : Bool) (d : Digits) : List Char :=
  let cs := d.digits.map digitChar
  match d.point with
  | .ofNat p =>
    let whole := cs.take p ++ List.replicate (p - cs.length) '0'
    let frac := cs.drop p
    let whole := if whole.isEmpty then ['0'] else whole
    if frac.isEmpty then whole ++ (if keepsPoint then ['.', '0'] else [])
    else whole ++ '.' :: frac
  | .negSucc p => '0' :: '.' :: (List.replicate (p + 1) '0' ++ cs)

/-- One digit before the point, the rest after it, and a signed exponent. -/
def exponentText (d : Digits) : List Char :=
  let e := d.point - 1
  let mantissa := match d.digits.map digitChar with
    | [] => ['0']
    | [c] => [c]
    | c :: cs => c :: '.' :: cs
  let sign := if e < 0 then '-' else '+'
  mantissa ++ 'e' :: sign :: Nat.toDigits 10 e.natAbs

/-- Digits laid out in a style. -/
def Digits.text (style : Style) (d : Digits) : List Char :=
  match style.positional with
  | none => positionalText style.keepsPoint d
  | some (least, bound) =>
    let e := d.point - 1
    if d.digits.isEmpty ∨ (least ≤ e ∧ e < bound) then positionalText style.keepsPoint d
    else exponentText d

/-- A binary64 value laid out in a style. -/
def Binary.text (style : Style) : Binary → List Char
  | .nan => "NaN".toList
  | .infinite negative => (if negative then ['-'] else []) ++ "inf".toList
  | .finite negative significand exponent =>
    (if negative then ['-'] else []) ++ (shortest significand exponent).text style

/-- The text of a float in messages. -/
def floatMessage (x : Float) : String :=
  String.ofList ((Binary.ofBits x.toBits).text .plain)

end EventRelay.Decimal
