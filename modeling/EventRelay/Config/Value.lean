import EventRelay.Decimal.Notation
import EventRelay.Decimal.Reading
import EventRelay.Json.Basic
import EventRelay.Text.Lowercase
import EventRelay.Text.Quoted
import EventRelay.Text.Split

/-!
# Values from configuration sources

Every source of configuration, whatever its format, gives a table of values.  A value remembers the
source it comes from, for messages; a table that was put together from sources has none.

Sources are laid over each other with `mergeFields`: tables merge key by key, in any depth, and any
other value replaces what was there.  Keys are taken in lower case.  An empty table changes nothing.

Values are converted generously: a number may be given as a text or a truth value, a truth value as a
number or a word, and any scalar stands for its text.
-/

namespace EventRelay.Config

/-- A value with the name of its source. -/
inductive Value where
  /-- Nothing. -/
  | null (origin : Option String)
  /-- A truth value. -/
  | bool (origin : Option String) (b : Bool)
  /-- A whole number of 64 bits. -/
  | int (origin : Option String) (n : Int)
  /-- A float. -/
  | float (origin : Option String) (x : Float)
  /-- A text. -/
  | text (origin : Option String) (s : String)
  /-- A sequence. -/
  | list (origin : Option String) (items : List Value)
  /-- A table. -/
  | table (origin : Option String) (fields : List (String × Value))

instance : Inhabited Value := ⟨.null none⟩

/-- Named values in key order. -/
abbrev Fields := List (String × Value)

namespace Value

/-- The source. -/
def origin : Value → Option String
  | .null o => o
  | .bool o _ => o
  | .int o _ => o
  | .float o _ => o
  | .text o _ => o
  | .list o _ => o
  | .table o _ => o

/-- The fields of a table; what is not a table has none. -/
def fields : Value → Fields
  | .table _ fs => fs
  | _ => []

end Value

/-! ## Layers -/

mutual

/-- What a value becomes when another one is laid over it. -/
def overlay (below : Option Value) : Value → Value
  | .table _ [] => below.getD (.table none [])
  | .table _ (f :: fs) => .table none (mergeFields ((below.map Value.fields).getD []) (f :: fs))
  | v => v

/-- Fields with others laid over them. -/
def mergeFields (below : Fields) : Fields → Fields
  | [] => below
  | (k, v) :: rest =>
    let k := Text.lower k
    mergeFields (Json.insertField k (overlay (below.lookup k) v) below) rest

end

/-- One value laid over the value at a path; tables are made on the way as needed. -/
def setPath (below : Fields) (v : Value) : List String → Fields
  | [] => below
  | [k] => mergeFields below [(k, v)]
  | k :: path =>
    let k := Text.lower k
    let inner := ((below.lookup k).map Value.fields).getD []
    Json.insertField k (.table none (setPath inner v path)) below

/-- Characters of a path's names. -/
def isNameChar (c : Char) : Bool :=
  c.isAlphanum || c = '_' || c = '-' || c = ' '

/-- The names of a dotted path; nothing if it is not made of names. -/
def pathOf (key : String) : Option (List String) :=
  let names := Text.splitChars '.' key.toList
  if names.all fun n => !n.isEmpty && n.all isNameChar then some (names.map String.ofList) else none

/-- A named value of a source, laid over the fields so far.  The name is a path if it can be read as
one, and a plain key otherwise. -/
def setKey (below : Fields) (key : String) (v : Value) : Fields :=
  setPath below v ((pathOf key).getD [key])

/-- A source laid over the fields so far. -/
def setAll (below : Fields) (source : Fields) : Fields :=
  source.foldl (fun acc (k, v) => setKey acc k v) below

/-! ## Failures -/

/-- Why a configuration could not be loaded. -/
inductive LoadError where
  /-- A file is not there. -/
  | notFound (name : String)
  /-- A file is not of its format. -/
  | unparsed
  /-- The format of a file is not known. -/
  | unknownFormat (path : String)
  /-- A value cannot be converted. -/
  | wrongType (found expected : String) (key : Option String) (origin : Option String)
  /-- A value has the wrong shape. -/
  | wrongShape (text : String)
  deriving Repr, DecidableEq

/-- The wording of a failure; what is wrong inside a file is not worded. -/
def LoadError.message : LoadError → String
  | .notFound name => s!"configuration property \"{name}\" not found"
  | .unparsed => ""
  | .unknownFormat path => s!"configuration file \"{path}\" is not of a registered file format"
  | .wrongType found expected key origin =>
    s!"invalid type: {found}, expected {expected}" ++
      (match key with
        | none => ""
        | some k => s!" for key `{k}`") ++
      (match origin with
        | none => ""
        | some o => s!" in {o}")
  | .wrongShape text => text

/-- The key of a failure with a segment in front. -/
def joinKey (segment : String) (dotted : Bool) (key : Option String) : String :=
  match key with
  | none => segment
  | some k => segment ++ (if dotted && k.toList.head? != some '[' && !k.isEmpty then "." else "") ++ k

/-- A failure below a key. -/
def LoadError.below (key : String) : LoadError → LoadError
  | .wrongType found expected inner origin =>
    .wrongType found expected (some (joinKey key true inner)) origin
  | e => e

/-- A failure in an item of a sequence. -/
def LoadError.belowIndex (index : Nat) : LoadError → LoadError
  | .wrongType found expected inner origin =>
    .wrongType found expected (some (joinKey s!"[{index}]" false inner)) origin
  | e => e

/-! ## Conversions -/

namespace Value

/-- Fails for a value of another kind. -/
def refuse {α : Type} (v : Value) (found expected : String) : Except LoadError α :=
  .error (.wrongType found expected none v.origin)

/-- Fails for a value that is no scalar. -/
def refuseShape {α : Type} (v : Value) (expected : String) : Except LoadError α :=
  match v with
  | .list _ _ => v.refuse "sequence" expected
  | .table _ _ => v.refuse "map" expected
  | _ => v.refuse "unit value" expected

/-- Fails for a text that does not spell a value. -/
def refuseText {α : Type} (v : Value) (s expected : String) : Except LoadError α :=
  v.refuse ("string " ++ Text.quote s) expected

/-- Words for one and zero. -/
def wordBit? (s : String) : Option Bool :=
  if ["true", "on", "yes"].contains s then some true
  else if ["false", "off", "no"].contains s then some false
  else none

/-- A float rounded, halves away from zero, and held between zero and `2 ^ 64 - 1`. -/
def roundToWord (x : Float) : Nat :=
  let n := x.toUInt64
  -- From `2 ^ 52` on a float is whole.
  if x < 4503599627370496.0 && x - n.toFloat >= 0.5 then n.toNat + 1 else n.toNat

/-- An unsigned number of 64 bits. -/
def toWord (v : Value) : Except LoadError Nat :=
  match v with
  | .int _ (.ofNat n) => .ok n
  | .int _ n => v.refuse s!"64-bit integer `{n}`" "an unsigned 64 bit or less integer"
  | .float _ x => .ok (roundToWord x)
  | .bool _ b => .ok b.toNat
  | .text _ s =>
    match wordBit? (Text.lower s) with
    | some b => .ok b.toNat
    | none =>
      match (Decimal.readPlusNat? s.toList).filter (· < 0x10000000000000000) with
      | some n => .ok n
      | none => v.refuseText s "an integer"
  | _ => v.refuseShape "an integer"

/-- An unsigned number of 32 bits. -/
def toWord32 (v : Value) : Except LoadError Nat := do
  let n ← v.toWord
  if n < 0x100000000 then return n
  else .error (.wrongType s!"64-bit unsigned integer `{n}`" "an unsigned 32 bit integer" none none)

/-- A float. -/
def toFloat (v : Value) : Except LoadError Float :=
  match v with
  | .float _ x => .ok x
  | .int _ n => .ok (if n < 0 then -(Float.ofNat n.natAbs) else Float.ofNat n.natAbs)
  | .bool _ b => .ok (if b then 1.0 else 0.0)
  | .text _ s =>
    match wordBit? (Text.lower s) with
    | some b => .ok (if b then 1.0 else 0.0)
    | none =>
      match Decimal.readFloat? s.toList with
      | some x => .ok x
      | none => v.refuseText s "a floating point"
  | _ => v.refuseShape "a floating point"

/-- A truth value. -/
def toBool (v : Value) : Except LoadError Bool :=
  match v with
  | .bool _ b => .ok b
  | .int _ n => .ok (n != 0)
  | .float _ x => .ok (x != 0.0)
  | .text _ s =>
    let word := Text.lower s
    if word = "1" then .ok true
    else if word = "0" then .ok false
    else
      match wordBit? word with
      | some b => .ok b
      | none => v.refuseText word "a boolean"
  | _ => v.refuseShape "a boolean"

/-- A text: that of a scalar. -/
def toText (v : Value) : Except LoadError String :=
  match v with
  | .text _ s => .ok s
  | .bool _ b => .ok (toString b)
  | .int _ n => .ok (toString n)
  | .float _ x => .ok (Decimal.floatMessage x)
  | _ => v.refuseShape "a string"

/-- Nothing, or a value. -/
def toOption {α : Type} (convert : Value → Except LoadError α) (v : Value) :
    Except LoadError (Option α) :=
  match v with
  | .null _ => .ok none
  | _ => some <$> convert v

/-- How a value of the wrong shape is named. -/
def shape : Value → String
  | .null _ => "unit value"
  | .bool _ b => s!"boolean `{b}`"
  | .int _ n => s!"integer `{n}`"
  | .float _ x =>
    let text := Decimal.floatMessage x
    "floating point `" ++ (if x.isFinite && !text.toList.contains '.' then text ++ ".0" else text) ++ "`"
  | .text _ s => "string " ++ Text.quote s
  | .list _ _ => "sequence"
  | .table _ _ => "map"

/-- Fails because a value of another shape was expected. -/
def refuseFor {α : Type} (v : Value) (expected : String) : Except LoadError α :=
  .error (.wrongShape s!"invalid type: {v.shape}, expected {expected}")

/-- A table of texts. -/
def toTextTable (v : Value) : Except LoadError (List (String × String)) :=
  match v with
  | .table _ fs => fs.mapM fun (k, v) =>
      match v.toText with
      | .ok s => .ok (k, s)
      | .error e => .error (e.below k)
  | _ => v.refuseFor "a map"

/-- How a field of a record is converted. -/
structure Field (α : Type) where
  /-- Its key. -/
  name : String
  /-- Converts the value into the record so far. -/
  read : Value → α → Except LoadError α

/-- The items of a sequence as the fields of a record, in order. -/
def recordItems {α : Type} (acc : α) (index : Nat) : List (Field α) → List Value → Except LoadError α
  | f :: fs, v :: vs =>
    match f.read v acc with
    | .ok acc => recordItems acc (index + 1) fs vs
    | .error e => .error (e.belowIndex index)
  | _, _ => .ok acc

/-- The fields of a table as those of a record; other keys are ignored. -/
def recordFields {α : Type} (fields : List (Field α)) (acc : α) : Fields → Except LoadError α
  | [] => .ok acc
  | (k, v) :: rest =>
    match fields.find? fun f => f.name = k with
    | none => recordFields fields acc rest
    | some f =>
      match f.read v acc with
      | .ok acc => recordFields fields acc rest
      | .error e => .error (e.below k)

/-- A record: a table of its fields, or a sequence of them in order. -/
def toRecord {α : Type} (name : String) (fields : List (Field α)) (start : α) (v : Value) :
    Except LoadError α :=
  match v with
  | .table _ fs => recordFields fields start fs
  | .list _ vs => recordItems start 0 fields vs
  | _ => v.refuseFor ("struct " ++ name)

end Value

end EventRelay.Config
