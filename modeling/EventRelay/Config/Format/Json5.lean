import EventRelay.Config.Format.Scan
import EventRelay.Config.Value
import EventRelay.Text.Blank

/-!
# Relaxed JSON

JSON with comments, keys without quotes, single quotes, commas before a closing bracket, signs,
hexadecimal numbers, decimal points at either end, and the words `Infinity` and `NaN`.
-/

namespace EventRelay.Config.Format.Json5

/-- What follows a comment between slashes and stars. -/
def afterStar : List Char → Option (List Char)
  | '*' :: '/' :: cs => some cs
  | _ :: cs => afterStar cs
  | [] => none

/-- White space and comments. -/
def skip : Nat → List Char → Option (List Char)
  | 0, _ => none
  | fuel + 1, cs =>
    match cs with
    | '/' :: '/' :: rest => skip fuel (rest.dropWhile fun c => c != '\n' && c != '\r')
    | '/' :: '*' :: rest => do skip fuel (← afterStar rest)
    | c :: rest => if Text.isBlank c || c = '\uFEFF' then skip fuel rest else some cs
    | [] => some []

/-- White space and comments, as many as there are. -/
def skipAll (cs : List Char) : Option (List Char) :=
  skip (cs.length + 1) cs

/-- The character behind a backslash; none for a line break, which is dropped. -/
def scanEscape : Scan (Option Char)
  | 'b' :: cs => some (some '\x08', cs)
  | 't' :: cs => some (some '\t', cs)
  | 'n' :: cs => some (some '\n', cs)
  | 'f' :: cs => some (some '\x0c', cs)
  | 'r' :: cs => some (some '\r', cs)
  | 'v' :: cs => some (some '\x0b', cs)
  | '0' :: cs => some (some '\x00', cs)
  | 'x' :: cs => (scanCode 2 cs).map fun (c, cs) => (some c, cs)
  | 'u' :: cs => (scanCode 4 cs).map fun (c, cs) => (some c, cs)
  | '\r' :: '\n' :: cs => some (none, cs)
  | '\n' :: cs => some (none, cs)
  | '\r' :: cs => some (none, cs)
  | c :: cs => if c.isDigit then none else some (some c, cs)
  | [] => none

/-- The rest of a quoted text. -/
def scanText (quote : Char) : Nat → List Char → Scan String
  | 0, _, _ => none
  | _ + 1, _, [] => none
  | fuel + 1, acc, '\\' :: cs => do
    let (c, cs) ← scanEscape cs
    scanText quote fuel (c.toList ++ acc) cs
  | fuel + 1, acc, c :: cs =>
    if c = quote then some (String.ofList acc.reverse, cs)
    else if c = '\n' ∨ c = '\r' then none
    else scanText quote fuel (c :: acc) cs

/-- Characters of a key without quotes. -/
def isNameStart (c : Char) : Bool :=
  c.isAlpha || c = '_' || c = '$' || 0x80 ≤ c.toNat

/-- A key. -/
def scanKey (cs : List Char) : Option (String × List Char) :=
  match cs with
  | '"' :: rest => scanText '"' (rest.length + 1) [] rest
  | '\'' :: rest => scanText '\'' (rest.length + 1) [] rest
  | c :: _ =>
    if isNameStart c then
      let name := cs.takeWhile fun c => isNameStart c || c.isDigit
      some (String.ofList name, cs.drop name.length)
    else none
  | [] => none

/-- The value of an unquoted word. -/
def readWord (origin : Option String) (word : List Char) : Option Value :=
  if word = "null".toList then some (.null origin)
  else if word = "true".toList then some (.bool origin true)
  else if word = "false".toList then some (.bool origin false)
  else
    let (negative, digits) := Decimal.splitSign word
    let sign (x : Float) : Value := .float origin (if negative then -x else x)
    if digits = "Infinity".toList then some (sign (1.0 / 0.0))
    else if digits = "NaN".toList then some (sign (0.0 / 0.0))
    else
      match digits with
      | '0' :: x :: hex =>
        if x = 'x' ∨ x = 'X' then
          if hex.isEmpty || !hex.all isHex || 0x100000000 ≤ numberIn 16 hex then none
          else some (.int origin (if negative then -(numberIn 16 hex : Int) else numberIn 16 hex))
        else if x.isDigit then none
        else (Decimal.readMagnitude? digits).map sign
      | c :: _ =>
        if c.isDigit || c = '.' then
          match Decimal.readNat? digits with
          | some n =>
            let n : Int := if negative then -(n : Int) else n
            if -0x8000000000000000 ≤ n ∧ n < 0x8000000000000000 then some (.int origin n) else none
          | none => (Decimal.readMagnitude? digits).map sign
        else none
      | [] => none

mutual

/-- A value. -/
def scanValue (origin : Option String) : Nat → Scan Value
  | 0, _ => none
  | fuel + 1, cs =>
    match cs with
    | '"' :: rest => (scanText '"' (rest.length + 1) [] rest).map fun (s, rest) => (.text origin s, rest)
    | '\'' :: rest => (scanText '\'' (rest.length + 1) [] rest).map fun (s, rest) => (.text origin s, rest)
    | '[' :: rest => (scanItems origin fuel rest).map fun (vs, rest) => (.list origin vs, rest)
    | '{' :: rest => (scanFields origin fuel rest).map fun (fs, rest) => (.table origin fs, rest)
    | _ =>
      let word := cs.takeWhile fun c => c.isAlphanum || c = '+' || c = '-' || c = '.'
      (readWord origin word).map fun v => (v, cs.drop word.length)

/-- The items of an array. -/
def scanItems (origin : Option String) : Nat → Scan (List Value)
  | 0, _ => none
  | fuel + 1, cs => do
    match ← skipAll cs with
    | ']' :: rest => return ([], rest)
    | cs =>
      let (v, cs) ← scanValue origin fuel cs
      match ← skipAll cs with
      | ',' :: rest =>
        let (vs, rest) ← scanItems origin fuel rest
        return (v :: vs, rest)
      | ']' :: rest => return ([v], rest)
      | _ => none

/-- The fields of an object; of a repeated key the last value counts. -/
def scanFields (origin : Option String) : Nat → Scan Fields
  | 0, _ => none
  | fuel + 1, cs => do
    match ← skipAll cs with
    | '}' :: rest => return ([], rest)
    | cs =>
      let (k, cs) ← scanKey cs
      match ← skipAll cs with
      | ':' :: cs =>
        let (v, cs) ← scanValue origin fuel (← skipAll cs)
        match ← skipAll cs with
        | ',' :: rest =>
          let (fs, rest) ← scanFields origin fuel rest
          return ((k, v) :: fs, rest)
        | '}' :: rest => return ([(k, v)], rest)
        | _ => none
      | _ => none

end

/-- The value of a text. -/
def parse (origin : Option String) (s : String) : Option Value := do
  let cs := s.toList
  let (v, rest) ← scanValue origin (cs.length + 1) (← skipAll cs)
  match ← skipAll rest with
  | [] => return v
  | _ => none

end EventRelay.Config.Format.Json5
