import EventRelay.Decimal.Shortest

/-!
# JSON values

Attribute values, stored queues and configuration all pass through JSON.  Integers and floats are
kept apart, so `1` and `1.0` stay two values; integers cover the signed and the unsigned 64-bit
range together, and floats are finite by construction.

Objects are lists of fields in strictly increasing key order (`SortedKeys`), built with
`insertField`, so that one set of fields has one representation.
-/

namespace EventRelay

/-- A finite binary64 value, held as its bits. -/
structure FiniteFloat where
  /-- The 64 bits. -/
  bits : UInt64
  /-- The exponent field is not the one of infinities and of not-a-number. -/
  finite : Decimal.exponentField bits ≠ 2047
  deriving DecidableEq

namespace FiniteFloat

/-- The float with these bits. -/
def toFloat (x : FiniteFloat) : Float :=
  Float.ofBits x.bits

/-- A float, if it is finite. -/
def ofFloat? (x : Float) : Option FiniteFloat :=
  if h : Decimal.exponentField x.toBits ≠ 2047 then some ⟨x.toBits, h⟩ else none

/-- One of the two zeros. -/
def isZero (x : FiniteFloat) : Bool :=
  Decimal.exponentField x.bits == 0 && Decimal.fractionField x.bits == 0

/-- Numerical equality: the two zeros are equal, all else differs as the bits do. -/
def same (x y : FiniteFloat) : Bool :=
  decide (x = y) || (x.isZero && y.isZero)

end FiniteFloat

namespace Json

/-- A number: an integer of the 64-bit ranges or a finite float. -/
inductive Number where
  /-- The integer `n`. -/
  | natural (n : UInt64)
  /-- The integer `-1 - n`. -/
  | negative (n : Fin 0x8000000000000000)
  /-- A float. -/
  | real (x : FiniteFloat)
  deriving DecidableEq

namespace Number

/-- The whole number, unless it is a float. -/
def toInt? : Number → Option Int
  | .natural n => some (Int.ofNat n.toNat)
  | .negative n => some (Int.negSucc n.val)
  | .real _ => none

/-- The value as a float. -/
def toFloat : Number → Float
  | .natural n => Float.ofNat n.toNat
  | .negative n => - Float.ofNat (n.val + 1)
  | .real x => x.toFloat

/-- Equality of numbers: integers and floats differ, floats compare numerically. -/
def same : Number → Number → Bool
  | .real x, .real y => x.same y
  | a, b => decide (a = b)

end Number

end Json

/-- A JSON value. -/
inductive Json where
  /-- The value `null`. -/
  | null
  /-- A truth value. -/
  | bool (b : Bool)
  /-- A number. -/
  | num (n : Json.Number)
  /-- A text. -/
  | str (s : String)
  /-- A sequence. -/
  | arr (items : List Json)
  /-- An object, as its fields. -/
  | obj (fields : List (String × Json))

namespace Json

instance : Inhabited Json := ⟨.null⟩

/-- A whole number below `2 ^ 64`; larger ones wrap, so callers pass words. -/
def nat (n : Nat) : Json :=
  .num (.natural (UInt64.ofNat n))

/-- Sets a field: replaces the value of a key that is there, or inserts the key in order. -/
def insertField {α : Type} (key : String) (value : α) : List (String × α) → List (String × α)
  | [] => [(key, value)]
  | (k, v) :: rest =>
    if key = k then (key, value) :: rest
    else if key < k then (key, value) :: (k, v) :: rest
    else (k, v) :: insertField key value rest

/-- Keys strictly increasing, hence without repetition. -/
def SortedKeys {α : Type} (fields : List (String × α)) : Prop :=
  fields.Pairwise fun a b => a.1 < b.1

/-- An object from fields in any order; of a repeated key the last value counts. -/
def object (fields : List (String × Json)) : Json :=
  .obj (fields.foldl (fun acc kv => insertField kv.1 kv.2 acc) [])

/-- The value of a field of an object. -/
def field? (key : String) : Json → Option Json
  | .obj fields => fields.lookup key
  | _ => none

mutual

/-- Equality of values, with numbers compared by `Number.same`. -/
def same : Json → Json → Bool
  | .null, .null => true
  | .bool a, .bool b => a == b
  | .num a, .num b => a.same b
  | .str a, .str b => a == b
  | .arr a, .arr b => sameItems a b
  | .obj a, .obj b => sameFields a b
  | _, _ => false

/-- Equality of sequences, item by item. -/
def sameItems : List Json → List Json → Bool
  | [], [] => true
  | a :: as, b :: bs => same a b && sameItems as bs
  | _, _ => false

/-- Equality of fields, key by key. -/
def sameFields : List (String × Json) → List (String × Json) → Bool
  | [], [] => true
  | (k, a) :: as, (l, b) :: bs => k == l && same a b && sameFields as bs
  | _, _ => false

end

end Json

end EventRelay
