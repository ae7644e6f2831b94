import EventRelay.Json.Decode

/-!
# Event ids

An event id is a 128-bit number.  It is written as 32 hexadecimal digits in five groups joined by
hyphens, in lower case, and read in four notations and any case: hyphenated, bare digits, hyphenated
in braces, and hyphenated after `urn:uuid:`.
-/

namespace EventRelay

/-- A 128-bit event id. -/
structure EventId where
  /-- The number. -/
  val : Fin 0x100000000000000000000000000000000
  deriving DecidableEq, Ord

namespace EventId

/-- The id with a given number, modulo `2 ^ 128`. -/
def ofNat (n : Nat) : EventId :=
  ⟨Fin.ofNat 0x100000000000000000000000000000000 n⟩

/-- The number of an id. -/
def toNat (id : EventId) : Nat :=
  id.val.val

instance : Inhabited EventId := ⟨ofNat 0⟩

/-- The last `count` hexadecimal digits of a number. -/
def hexDigits : Nat → Nat → List Char
  | 0, _ => []
  | count + 1, n => hexDigits count (n / 16) ++ [Json.hexChar (n % 16)]

/-- The hyphenated form. -/
def chars (id : EventId) : List Char :=
  let ds := hexDigits 32 id.toNat
  ds.take 8 ++ '-' :: ((ds.drop 8).take 4 ++ '-' :: ((ds.drop 12).take 4 ++
    '-' :: ((ds.drop 16).take 4 ++ '-' :: ds.drop 20)))

/-- The hyphenated text. -/
def text (id : EventId) : String :=
  String.ofList id.chars

/-- The number spelt by hexadecimal digits. -/
def hexNumber? (cs : List Char) : Option Nat :=
  cs.foldlM (fun acc c => (Json.hexValue? c).map (acc * 16 + ·)) 0

/-- Bare digits: exactly 32. -/
def ofBare? (cs : List Char) : Option EventId :=
  if cs.length = 32 then (hexNumber? cs).map ofNat else none

/-- Five groups of 8, 4, 4, 4 and 12 digits with hyphens between them. -/
def ofHyphenated? (cs : List Char) : Option EventId :=
  if cs.length = 36 then
    match cs.drop 8, cs.drop 13, cs.drop 18, cs.drop 23 with
    | '-' :: _, '-' :: _, '-' :: _, '-' :: last =>
      ofBare? (cs.take 8 ++ (cs.drop 9).take 4 ++ (cs.drop 14).take 4 ++ (cs.drop 19).take 4 ++ last)
    | _, _, _, _ => none
  else none

/-- Any of the four notations. -/
def ofChars? (cs : List Char) : Option EventId :=
  if cs.length = 32 then ofBare? cs
  else if cs.length = 38 ∧ cs.head? = some '{' ∧ cs.getLast? = some '}' then
    ofHyphenated? (cs.drop 1).dropLast
  else if cs.length = 45 ∧ (cs.take 9).map Char.toLower = "urn:uuid:".toList then
    ofHyphenated? (cs.drop 9)
  else ofHyphenated? cs

/-- Reads an id from a quoted text. -/
def ofTree (t : Json.Tree) : Json.Read EventId := do
  let s ← t.asText "a formatted UUID string"
  match ofChars? s.toList with
  | some id => return id
  | none => .error (.mismatch .badId)

end EventId

end EventRelay
