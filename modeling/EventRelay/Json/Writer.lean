import EventRelay.Decimal.Notation
import EventRelay.Json.Basic

/-!
# Compact JSON text

The writer puts no white space between tokens, writes fields in their order, and escapes in a
text only the quote, the backslash and the control characters below `U+0020`.

Every function takes the characters that follow, so that the text of a large value is built in
one pass and a reader can be run on `write v rest`.
-/

namespace EventRelay.Json

/-- A hexadecimal digit in lower case. -/
def hexChar (n : Nat) : Char :=
  if n < 10 then Char.ofNat (48 + n) else Char.ofNat (87 + n)

/-- One character of a text, escaped where the format asks for it. -/
def escapeChar (c : Char) : List Char :=
  if c = '"' then ['\\', '"']
  else if c = '\\' then ['\\', '\\']
  else if c.toNat < 0x20 then
    if c = '\x08' then ['\\', 'b']
    else if c = '\t' then ['\\', 't']
    else if c = '\n' then ['\\', 'n']
    else if c = '\x0c' then ['\\', 'f']
    else if c = '\r' then ['\\', 'r']
    else ['\\', 'u', '0', '0', hexChar (c.toNat / 16), hexChar (c.toNat % 16)]
  else [c]

/-- The escaped characters of a text, then its closing quote. -/
def writeChars : List Char → List Char → List Char
  | [], rest => '"' :: rest
  | c :: cs, rest => escapeChar c ++ writeChars cs rest

/-- A quoted text. -/
def writeString (s : String) (rest : List Char) : List Char :=
  '"' :: writeChars s.toList rest

/-- The text of a number. -/
def Number.chars : Number → List Char
  | .natural n => Nat.toDigits 10 n.toNat
  | .negative n => '-' :: Nat.toDigits 10 (n.val + 1)
  | .real x => (Decimal.Binary.ofBits x.bits).text .json

mutual

/-- The text of a value, followed by `rest`. -/
def write : Json → List Char → List Char
  | .null, rest => "null".toList ++ rest
  | .bool true, rest => "true".toList ++ rest
  | .bool false, rest => "false".toList ++ rest
  | .num n, rest => n.chars ++ rest
  | .str s, rest => writeString s rest
  | .arr items, rest => '[' :: writeItems items (']' :: rest)
  | .obj fields, rest => '{' :: writeFields fields ('}' :: rest)

/-- Items with commas between them. -/
def writeItems : List Json → List Char → List Char
  | [], rest => rest
  | [v], rest => write v rest
  | v :: w :: vs, rest => write v (',' :: writeItems (w :: vs) rest)

/-- Fields with commas between them. -/
def writeFields : List (String × Json) → List Char → List Char
  | [], rest => rest
  | [(k, v)], rest => writeString k (':' :: write v rest)
  | (k, v) :: f :: fs, rest => writeString k (':' :: write v (',' :: writeFields (f :: fs) rest))

end

/-- The compact text of a value. -/
def text (v : Json) : String :=
  String.ofList (v.write [])

end EventRelay.Json
