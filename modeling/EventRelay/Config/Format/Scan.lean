/-!
# Scanning

Small readers that the file formats share.  A reader takes the characters that are left and gives a
result with what is left then, or nothing if the text is malformed.
-/

namespace EventRelay.Config.Format

/-- A reader of characters. -/
abbrev Scan (α : Type) := List Char → Option (α × List Char)

/-- Spaces and tabs. -/
def isSpace (c : Char) : Bool :=
  c = ' ' || c = '\t'

/-- What follows spaces and tabs. -/
def skipSpaces (cs : List Char) : List Char :=
  cs.dropWhile isSpace

/-- What follows one line break. -/
def lineBreak? : List Char → Option (List Char)
  | '\n' :: cs => some cs
  | '\r' :: '\n' :: cs => some cs
  | _ => none

/-- A control character other than a tab. -/
def isControl (c : Char) : Bool :=
  (c.toNat < 0x20 && c != '\t') || c.toNat = 0x7F

/-- The value of a hexadecimal digit. -/
def hexValue (c : Char) : Nat :=
  if c.isDigit then c.toNat - 48 else if c.toNat < 97 then c.toNat - 55 else c.toNat - 87

/-- Is it a hexadecimal digit? -/
def isHex (c : Char) : Bool :=
  c.isDigit || ('a' ≤ c && c ≤ 'f') || ('A' ≤ c && c ≤ 'F')

/-- The number spelt by digits of a base. -/
def numberIn (base : Nat) (cs : List Char) : Nat :=
  cs.foldl (fun acc c => acc * base + hexValue c) 0

/-- A character given by a fixed count of hexadecimal digits. -/
def scanCode (count : Nat) : Scan Char := fun cs =>
  let digits := cs.take count
  let n := numberIn 16 digits
  if digits.length = count ∧ digits.all isHex ∧ n.isValidChar then
    some (Char.ofNat n, cs.drop count)
  else none

end EventRelay.Config.Format
