import EventRelay.Json.Literal

/-!
# Reading JSON text

A text is first laid out as a `Tree`: what it says, in the order in which it says it, as far as it
can be read.  Where the format is broken, the tree ends in the cause (`Fault`); decoders walk the
tree in text order, so the first fault or mismatch in the text is the one that is reported.

The layout checks only what every reader needs: brackets, separators, quotes, the shape of
numbers and escapes.  Whether a number is in range, a surrogate pair is complete or the nesting is
too deep is decided by the decoder, because a field that nobody looks at may break those rules.

* `Fault` — the causes, with their wording in `Fault.message`.
* `Tree` — a text laid out.
* `layOut` — the whole text, with what follows its first value.
-/

namespace EventRelay.Json

/-- Why a text is not JSON. -/
inductive Fault where
  /-- The text ends inside an array. -/
  | endInList
  /-- The text ends inside an object. -/
  | endInObject
  /-- The text ends inside a quoted text. -/
  | endInString
  /-- The text ends where a value should stand. -/
  | endInValue
  /-- No colon after a key. -/
  | colonExpected
  /-- Neither a comma nor the end of the array. -/
  | listCommaExpected
  /-- Neither a comma nor the end of the object. -/
  | objectCommaExpected
  /-- A misspelt `true`, `false` or `null`. -/
  | wordExpected
  /-- No value starts with this character. -/
  | valueExpected
  /-- An unknown escape. -/
  | badEscape
  /-- A malformed number. -/
  | badNumber
  /-- A number beyond the largest float. -/
  | numberOutOfRange
  /-- A control character inside a quoted text. -/
  | controlCharacter
  /-- A key that is not a text. -/
  | keyExpected
  /-- Half of a surrogate pair. -/
  | loneSurrogate
  /-- The second half of a surrogate pair is missing. -/
  | pairCutShort
  /-- A comma before a closing bracket. -/
  | trailingComma
  /-- Something after the value. -/
  | trailingCharacters
  /-- Too many open brackets. -/
  | tooDeep
  deriving Repr, DecidableEq

/-- The wording of a fault. -/
def Fault.message : Fault → String
  | .endInList => "EOF while parsing a list"
  | .endInObject => "EOF while parsing an object"
  | .endInString => "EOF while parsing a string"
  | .endInValue => "EOF while parsing a value"
  | .colonExpected => "expected `:`"
  | .listCommaExpected => "expected `,` or `]`"
  | .objectCommaExpected => "expected `,` or `\x7d`"
  | .wordExpected => "expected ident"
  | .valueExpected => "expected value"
  | .badEscape => "invalid escape"
  | .badNumber => "invalid number"
  | .numberOutOfRange => "number out of range"
  | .controlCharacter => "control character (\\u0000-\\u001F) found while parsing a string"
  | .keyExpected => "key must be a string"
  | .loneSurrogate => "lone leading surrogate in hex escape"
  | .pairCutShort => "unexpected end of hex escape"
  | .trailingComma => "trailing comma"
  | .trailingCharacters => "trailing characters"
  | .tooDeep => "recursion limit exceeded"

/-- A quoted text: its characters, or the first surrogate fault inside it. -/
abbrev Quoted := Except Fault String

/-- A text laid out, as far as it can be read. -/
inductive Tree where
  /-- The word `null`. -/
  | null
  /-- The word `true` or `false`. -/
  | bool (b : Bool)
  /-- A number. -/
  | num (l : Literal)
  /-- A quoted text. -/
  | str (s : Quoted)
  /-- An array; `stop` says why it could not be read to its end. -/
  | arr (items : List Tree) (stop : Option Fault)
  /-- An object with its members in text order; `stop` as for arrays. -/
  | obj (members : List (Quoted × Tree)) (stop : Option Fault)
  /-- Nothing readable. -/
  | broken (f : Fault)

instance : Inhabited Tree := ⟨.null⟩

/-- White space between tokens. -/
def isSpace (c : Char) : Bool :=
  c = ' ' || c = '\n' || c = '\t' || c = '\r'

/-- The characters after white space. -/
def skipSpace (cs : List Char) : List Char :=
  cs.dropWhile isSpace

/-- The value of a hexadecimal digit. -/
def hexValue? (c : Char) : Option Nat :=
  if '0' ≤ c ∧ c ≤ '9' then some (c.toNat - 48)
  else if 'a' ≤ c ∧ c ≤ 'f' then some (c.toNat - 87)
  else if 'A' ≤ c ∧ c ≤ 'F' then some (c.toNat - 55)
  else none

/-! ## Quoted texts -/

/-- What a quoted text is made of: a character, or a 16-bit unit from a `\u` escape. -/
inductive Unit16 where
  /-- A character written as itself or as a short escape. -/
  | char (c : Char)
  /-- The unit of a `\u` escape. -/
  | unit (n : Nat)

/-- The unit of four hexadecimal digits. -/
def hexUnit? (a b c d : Char) : Option Nat := do
  let a ← hexValue? a
  let b ← hexValue? b
  let c ← hexValue? c
  let d ← hexValue? d
  return ((a * 16 + b) * 16 + c) * 16 + d

/-- The character of a short escape. -/
def shortEscape? (c : Char) : Option Char :=
  if c = '"' then some '"'
  else if c = '\\' then some '\\'
  else if c = '/' then some '/'
  else if c = 'b' then some '\x08'
  else if c = 'f' then some '\x0c'
  else if c = 'n' then some '\n'
  else if c = 'r' then some '\r'
  else if c = 't' then some '\t'
  else none

/-- Puts a unit in front of what has been read of a quoted text. -/
def putUnit (u : Unit16) (r : Except Fault (List Unit16 × List Char)) :
    Except Fault (List Unit16 × List Char) :=
  r.map fun (us, rest) => (u :: us, rest)

/-- The units up to the closing quote, and what follows it. -/
def quotedUnits : List Char → Except Fault (List Unit16 × List Char)
  | [] => .error .endInString
  | c :: cs =>
    if c = '"' then .ok ([], cs)
    else if c = '\\' then
      match cs with
      | [] => .error .endInString
      | e :: rest =>
        if e = 'u' then
          match rest with
          | h₁ :: h₂ :: h₃ :: h₄ :: rest =>
            match hexUnit? h₁ h₂ h₃ h₄ with
            | none => .error .badEscape
            | some n => putUnit (.unit n) (quotedUnits rest)
          | _ => .error .endInString
        else
          match shortEscape? e with
          | none => .error .badEscape
          | some d => putUnit (.char d) (quotedUnits rest)
    else if c.toNat < 0x20 then .error .controlCharacter
    else putUnit (.char c) (quotedUnits cs)

/-- Pairs up surrogates; a half without its other half is a fault. -/
def joinUnits : List Unit16 → Except Fault (List Char)
  | [] => .ok []
  | .char c :: us => (c :: ·) <$> joinUnits us
  | .unit n :: us =>
    if 0xDC00 ≤ n ∧ n ≤ 0xDFFF then .error .loneSurrogate
    else if 0xD800 ≤ n ∧ n ≤ 0xDBFF then
      match us with
      | .unit m :: us =>
        if 0xDC00 ≤ m ∧ m ≤ 0xDFFF then
          (Char.ofNat ((n - 0xD800) * 0x400 + (m - 0xDC00) + 0x10000) :: ·) <$> joinUnits us
        else .error .loneSurrogate
      | _ => .error .pairCutShort
    else (Char.ofNat n :: ·) <$> joinUnits us

/-- A quoted text after its opening quote. -/
def quoted (cs : List Char) : Except Fault (Quoted × List Char) := do
  let (us, rest) ← quotedUnits cs
  return (String.ofList <$> joinUnits us, rest)

/-! ## Numbers -/

/-- The value of a decimal digit. -/
def digitValue (c : Char) : Nat :=
  c.toNat - 48

/-- The digits at the front, and what follows them. -/
def digitRun (cs : List Char) : List Nat × List Char :=
  ((cs.takeWhile Char.isDigit).map digitValue, cs.dropWhile Char.isDigit)

/-- The exponent part, if one starts here. -/
def exponentPart (cs : List Char) : Except Fault (Option (Bool × List Nat) × List Char) :=
  match cs with
  | [] => .ok (none, [])
  | c :: rest =>
    if c = 'e' ∨ c = 'E' then
      let (down, rest) := match rest with
        | '+' :: r => (false, r)
        | '-' :: r => (true, r)
        | r => (false, r)
      match digitRun rest with
      | ([], []) => .error .endInValue
      | ([], _ :: _) => .error .badNumber
      | (ds, rest) => .ok (some (down, ds), rest)
    else .ok (none, cs)

/-- The fraction part, if one starts here. -/
def fractionPart (cs : List Char) : Except Fault (Option (List Nat) × List Char) :=
  match cs with
  | '.' :: rest =>
    match digitRun rest with
    | ([], []) => .error .endInValue
    | ([], _ :: _) => .error .badNumber
    | (ds, rest) => .ok (some ds, rest)
  | _ => .ok (none, cs)

/-- A number after its sign. -/
def literal (negative : Bool) (cs : List Char) : Except Fault (Literal × List Char) := do
  let (whole, rest) := digitRun cs
  match whole, cs with
  | [], [] => .error .endInValue
  | [], _ => .error .badNumber
  | 0 :: _ :: _, _ => .error .badNumber
  | _, _ =>
    let (fraction, rest) ← fractionPart rest
    let (exponent, rest) ← exponentPart rest
    return ({ negative, whole, fraction, exponent }, rest)

/-! ## Values -/

/-- A word whose first character has been seen: the rest of its spelling. -/
def spelled : List Char → List Char → Except Fault (List Char)
  | [], cs => .ok cs
  | _ :: _, [] => .error .endInValue
  | w :: ws, c :: cs => if w = c then spelled ws cs else .error .wordExpected

/-- A value read up to a fault, or completely and with what follows it. -/
abbrev Laid := Tree × Option (List Char)

/-- Turns a fault into a tree that stops there. -/
def stopOr (r : Except Fault Laid) : Laid :=
  match r with
  | .ok laid => laid
  | .error f => (.broken f, none)

mutual

/-- The value at the front of the text. -/
def layValue : Nat → List Char → Laid
  | 0, _ => (.broken .endInValue, none)
  | fuel + 1, cs =>
    match skipSpace cs with
    | [] => (.broken .endInValue, none)
    | c :: rest =>
      if c = 'n' then stopOr do return (.null, some (← spelled "ull".toList rest))
      else if c = 't' then stopOr do return (.bool true, some (← spelled "rue".toList rest))
      else if c = 'f' then stopOr do return (.bool false, some (← spelled "alse".toList rest))
      else if c = '-' then stopOr do
        let (l, rest) ← literal true rest
        return (.num l, some rest)
      else if c.isDigit then stopOr do
        let (l, rest) ← literal false (c :: rest)
        return (.num l, some rest)
      else if c = '"' then stopOr do
        let (s, rest) ← quoted rest
        return (.str s, some rest)
      else if c = '[' then
        let (items, stop, rest) := layItems fuel true rest
        (.arr items stop, rest)
      else if c = '{' then
        let (members, stop, rest) := layMembers fuel true rest
        (.obj members stop, rest)
      else (.broken .valueExpected, none)

/-- The items up to the closing bracket; `first` says that no item has been read yet. -/
def layItems : Nat → Bool → List Char → List Tree × Option Fault × Option (List Char)
  | 0, _, _ => ([], some .endInList, none)
  | fuel + 1, first, cs =>
    match skipSpace cs with
    | [] => ([], some .endInList, none)
    | c :: rest =>
      if c = ']' then ([], none, some rest)
      else if !first && c ≠ ',' then ([], some .listCommaExpected, none)
      else
        match skipSpace (if first then c :: rest else rest) with
        | [] => ([], some .endInValue, none)
        | d :: rest =>
          if d = ']' then ([], some .trailingComma, none)
          else
            match layValue fuel (d :: rest) with
            | (t, none) => ([t], none, none)
            | (t, some rest) =>
              let (ts, stop, rest) := layItems fuel false rest
              (t :: ts, stop, rest)

/-- The members up to the closing brace; `first` as for items. -/
def layMembers : Nat → Bool → List Char →
    List (Quoted × Tree) × Option Fault × Option (List Char)
  | 0, _, _ => ([], some .endInObject, none)
  | fuel + 1, first, cs =>
    match skipSpace cs with
    | [] => ([], some .endInObject, none)
    | c :: rest =>
      if c = '}' then ([], none, some rest)
      else if !first && c ≠ ',' then ([], some .objectCommaExpected, none)
      else
        match skipSpace (if first then c :: rest else rest) with
        | [] => ([], some .endInValue, none)
        | d :: rest =>
          if d = '}' then ([], some .trailingComma, none)
          else if d ≠ '"' then ([], some .keyExpected, none)
          else
            match quoted rest with
            | .error f => ([], some f, none)
            | .ok (key, rest) =>
              match skipSpace rest with
              | [] => ([(key, .broken .endInObject)], none, none)
              | e :: rest =>
                if e ≠ ':' then ([(key, .broken .colonExpected)], none, none)
                else
                  match layValue fuel rest with
                  | (t, none) => ([(key, t)], none, none)
                  | (t, some rest) =>
                    let (ms, stop, rest) := layMembers fuel false rest
                    ((key, t) :: ms, stop, rest)

end

/-- The first value of a text, and whether something follows it. -/
structure Layout where
  /-- The first value. -/
  root : Tree
  /-- Something other than white space follows. -/
  trailing : Bool

/-- Lays out a text. -/
def layOut (cs : List Char) : Layout :=
  match layValue (cs.length + 1) cs with
  | (t, none) => { root := t, trailing := false }
  | (t, some rest) => { root := t, trailing := !(skipSpace rest).isEmpty }

end EventRelay.Json
