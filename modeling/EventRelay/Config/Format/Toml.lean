import EventRelay.Config.Format.Scan
import EventRelay.Config.Value

/-!
# TOML

A TOML document is a table of tables.  Lines of the form `key = value` fill the table named by the
header above them; headers open tables, and dotted keys make tables on the way.  A table may be opened
once, a key given once, and a table made by dotted keys is not opened by a header.

`Toml.parse` gives the fields of the document; every value remembers the given source.
-/

namespace EventRelay.Config.Format.Toml

/-! ## Comments and line ends -/

/-- What follows a comment, if there is one. -/
def skipComment (cs : List Char) : Option (List Char) :=
  match cs with
  | '#' :: rest =>
    let body := rest.takeWhile fun c => c != '\n' && c != '\r'
    if body.any isControl then none else some (rest.drop body.length)
  | _ => some cs

/-- The end of a line: spaces, a comment, and a line break or the end of the text. -/
def lineEnd (cs : List Char) : Option (List Char) := do
  match ← skipComment (skipSpaces cs) with
  | [] => some []
  | cs => lineBreak? cs

/-- Spaces, comments and line breaks in any number. -/
def skipLines : Nat → List Char → Option (List Char)
  | 0, _ => none
  | fuel + 1, cs => do
    match ← skipComment (skipSpaces cs) with
    | [] => some []
    | cs =>
      match lineBreak? cs with
      | some rest => skipLines fuel rest
      | none => some cs

/-! ## Texts -/

/-- The character behind a backslash. -/
def scanEscape : Scan Char
  | 'b' :: cs => some ('\x08', cs)
  | 't' :: cs => some ('\t', cs)
  | 'n' :: cs => some ('\n', cs)
  | 'f' :: cs => some ('\x0c', cs)
  | 'r' :: cs => some ('\r', cs)
  | '"' :: cs => some ('"', cs)
  | '\\' :: cs => some ('\\', cs)
  | 'u' :: cs => scanCode 4 cs
  | 'U' :: cs => scanCode 8 cs
  | _ => none

/-- The rest of a text in double quotes. -/
def scanBasic : Nat → List Char → Scan (List Char)
  | 0, _, _ => none
  | _ + 1, acc, '"' :: cs => some (acc.reverse, cs)
  | fuel + 1, acc, '\\' :: cs => do
    let (c, cs) ← scanEscape cs
    scanBasic fuel (c :: acc) cs
  | fuel + 1, acc, c :: cs => if isControl c then none else scanBasic fuel (c :: acc) cs
  | _ + 1, _, [] => none

/-- The rest of a text in single quotes. -/
def scanLiteral (cs : List Char) : Option (List Char × List Char) :=
  let body := cs.takeWhile fun c => c != '\''
  if body.any isControl then none
  else
    match cs.drop body.length with
    | '\'' :: rest => some (body, rest)
    | _ => none

/-- The end of a text of several lines: three quotes, with up to two more that belong to it. -/
def closeLong (quote : Char) (acc : List Char) (cs : List Char) : Option (List Char × List Char) :=
  let run := cs.takeWhile fun c => c == quote
  if run.length < 3 then none
  else if run.length > 5 then none
  else some (acc.reverse ++ run.drop 3, cs.drop run.length)

/-- What follows a backslash at the end of a line: all white space is dropped. -/
def foldLine (cs : List Char) : Option (List Char) := do
  let rest ← lineBreak? (skipSpaces cs)
  return rest.dropWhile fun c => c = ' ' || c = '\t' || c = '\n' || c = '\r'

/-- The rest of a text of several lines. -/
def scanLong (quote : Char) (escapes : Bool) : Nat → List Char → Scan (List Char)
  | 0, _, _ => none
  | fuel + 1, acc, cs =>
    match closeLong quote acc cs with
    | some result => some result
    | none =>
      match cs with
      | [] => none
      | '\\' :: rest =>
        if !escapes then scanLong quote escapes fuel ('\\' :: acc) rest
        else
          match foldLine rest with
          | some rest => scanLong quote escapes fuel acc rest
          | none =>
            match scanEscape rest with
            | some (c, rest) => scanLong quote escapes fuel (c :: acc) rest
            | none => none
      | '\r' :: '\n' :: rest => scanLong quote escapes fuel ('\n' :: acc) rest
      | '\n' :: rest => scanLong quote escapes fuel ('\n' :: acc) rest
      | c :: rest => if isControl c then none else scanLong quote escapes fuel (c :: acc) rest

/-- A text in any quotes; the first quote is still there. -/
def scanText (cs : List Char) : Option (List Char × List Char) :=
  let afterBreak (cs : List Char) := (lineBreak? cs).getD cs
  match cs with
  | '"' :: '"' :: '"' :: rest => scanLong '"' true (rest.length + 1) [] (afterBreak rest)
  | '\'' :: '\'' :: '\'' :: rest => scanLong '\'' false (rest.length + 1) [] (afterBreak rest)
  | '"' :: rest => scanBasic (rest.length + 1) [] rest
  | '\'' :: rest => scanLiteral rest
  | _ => none

/-! ## Keys -/

/-- Characters of a bare key. -/
def isBareKey (c : Char) : Bool :=
  c.isAlphanum || c = '_' || c = '-'

/-- One key, bare or quoted. -/
def scanKey (cs : List Char) : Option (String × List Char) :=
  match cs with
  | '"' :: rest => do
    let (s, rest) ← scanBasic (rest.length + 1) [] rest
    return (String.ofList s, rest)
  | '\'' :: rest => do
    let (s, rest) ← scanLiteral rest
    return (String.ofList s, rest)
  | _ =>
    let name := cs.takeWhile isBareKey
    if name.isEmpty then none else some (String.ofList name, cs.drop name.length)

/-- Keys with dots between them. -/
def scanDotted : Nat → Scan (List String)
  | 0, _ => none
  | fuel + 1, cs => do
    let (k, cs) ← scanKey (skipSpaces cs)
    match skipSpaces cs with
    | '.' :: rest =>
      let (ks, rest) ← scanDotted fuel rest
      return (k :: ks, rest)
    | rest => return ([k], rest)

/-! ## Scalars -/

/-- Digits with single underscores between them. -/
def stripUnderscores (digit : Char → Bool) (cs : List Char) : Option (List Char) :=
  let parts := (String.ofList cs).splitOn "_" |>.map String.toList
  if parts.all fun p => !p.isEmpty && p.all digit then some parts.flatten else none

/-- Decimal digits without a needless zero in front. -/
def wholeDigits (cs : List Char) : Option (List Char) := do
  let ds ← stripUnderscores Char.isDigit cs
  match ds with
  | '0' :: _ :: _ => none
  | _ => return ds

/-- A number in 64 signed bits. -/
def inRange (n : Int) : Option Int :=
  if -0x8000000000000000 ≤ n ∧ n < 0x8000000000000000 then some n else none

/-- A whole number. -/
def readInteger (cs : List Char) : Option Int :=
  match cs with
  | '0' :: 'x' :: rest => do inRange (numberIn 16 (← stripUnderscores isHex rest))
  | '0' :: 'o' :: rest => do
    inRange (numberIn 8 (← stripUnderscores (fun c => '0' ≤ c && c ≤ '7') rest))
  | '0' :: 'b' :: rest => do
    inRange (numberIn 2 (← stripUnderscores (fun c => c = '0' || c = '1') rest))
  | _ => do
    let (negative, rest) := Decimal.splitSign cs
    let n : Int := Decimal.digitsValue (← wholeDigits rest)
    inRange (if negative then -n else n)

/-- A float. -/
def readReal (cs : List Char) : Option Float := do
  let (negative, rest) := Decimal.splitSign cs
  if rest = "inf".toList ∨ rest = "nan".toList then Decimal.readFloat? cs
  else
    let whole ← wholeDigits (rest.takeWhile fun c => c.isDigit || c = '_')
    let rest := rest.dropWhile fun c => c.isDigit || c = '_'
    let (fraction, rest) ← (match rest with
      | '.' :: more => do
        let ds ← stripUnderscores Char.isDigit (more.takeWhile fun c => c.isDigit || c = '_')
        return ('.' :: ds, more.dropWhile fun c => c.isDigit || c = '_')
      | _ => some ([], rest) : Option (List Char × List Char))
    let exponent ← (match rest with
      | [] => if fraction.isEmpty then none else some []
      | c :: more =>
        if c = 'e' ∨ c = 'E' then do
          let (down, digits) := Decimal.splitSign more
          let ds ← stripUnderscores Char.isDigit digits
          return 'e' :: (if down then '-' :: ds else ds)
        else none : Option (List Char))
    let x ← Decimal.readFloat? (whole ++ fraction ++ exponent)
    return if negative then -x else x

/-- A number of a fixed count of digits between two bounds. -/
def fixed (count low high : Nat) (cs : List Char) : Option (List Char × List Char) :=
  let ds := cs.take count
  if ds.length = count ∧ ds.all Char.isDigit ∧ low ≤ Decimal.digitsValue ds ∧
      Decimal.digitsValue ds ≤ high then some (ds, cs.drop count)
  else none

/-- The days of a month. -/
def daysIn (year month : Nat) : Nat :=
  if month = 2 then (if year % 4 = 0 ∧ (year % 100 ≠ 0 ∨ year % 400 = 0) then 29 else 28)
  else if month = 4 ∨ month = 6 ∨ month = 9 ∨ month = 11 then 30
  else 31

/-- A date, as it is written. -/
def scanDate (cs : List Char) : Option (List Char × List Char) := do
  let (y, cs) ← fixed 4 0 9999 cs
  match cs with
  | '-' :: cs =>
    let (m, cs) ← fixed 2 1 12 cs
    match cs with
    | '-' :: cs =>
      let (d, cs) ← fixed 2 1 (daysIn (Decimal.digitsValue y) (Decimal.digitsValue m)) cs
      return (y ++ '-' :: m ++ '-' :: d, cs)
    | _ => none
  | _ => none

/-- A time of day; the fraction of a second loses its last zeros. -/
def scanTime (cs : List Char) : Option (List Char × List Char) := do
  let (h, cs) ← fixed 2 0 23 cs
  match cs with
  | ':' :: cs =>
    let (m, cs) ← fixed 2 0 59 cs
    match cs with
    | ':' :: cs =>
      let (s, cs) ← fixed 2 0 60 cs
      let clock := h ++ ':' :: m ++ ':' :: s
      match cs with
      | '.' :: more =>
        let ds := more.takeWhile Char.isDigit
        if ds.isEmpty then none
        else
          let kept := ((ds.take 9).reverse.dropWhile (· = '0')).reverse
          return (clock ++ (if kept.isEmpty then [] else '.' :: kept), more.drop ds.length)
      | _ => return (clock, cs)
    | _ => none
  | _ => none

/-- The distance from universal time. -/
def scanOffset (cs : List Char) : Option (List Char) :=
  match cs with
  | [] => some []
  | ['Z'] => some ['Z']
  | ['z'] => some ['Z']
  | sign :: cs =>
    if sign = '+' ∨ sign = '-' then do
      let (h, cs) ← fixed 2 0 23 cs
      match cs with
      | ':' :: cs =>
        match ← fixed 2 0 59 cs with
        | (m, []) => return sign :: h ++ ':' :: m
        | _ => none
      | _ => none
    else none

/-- A date, a time, or both, as its text. -/
def readDateTime (cs : List Char) : Option String :=
  match scanDate cs with
  | some (date, []) => some (String.ofList date)
  | some (date, c :: rest) =>
    if c = 'T' ∨ c = 't' ∨ c = ' ' then do
      let (time, rest) ← scanTime rest
      let offset ← scanOffset rest
      return String.ofList (date ++ 'T' :: time ++ offset)
    else none
  | none =>
    match scanTime cs with
    | some (time, []) => some (String.ofList time)
    | _ => none

/-- Characters of an unquoted scalar. -/
def isScalarChar (c : Char) : Bool :=
  c.isAlphanum || c = '+' || c = '-' || c = '_' || c = '.' || c = ':'

/-- An unquoted scalar; a date may be followed by a space and a time. -/
def scanWord (cs : List Char) : List Char × List Char :=
  let word := cs.takeWhile isScalarChar
  let rest := cs.drop word.length
  match rest with
  | ' ' :: c :: more =>
    if (scanDate word).any (fun d => d.2.isEmpty) && c.isDigit then
      let time := (c :: more).takeWhile isScalarChar
      (word ++ ' ' :: time, (c :: more).drop time.length)
    else (word, rest)
  | _ => (word, rest)

/-- The value of an unquoted scalar. -/
def readScalar (origin : Option String) (word : List Char) : Option Value :=
  if word = "true".toList then some (.bool origin true)
  else if word = "false".toList then some (.bool origin false)
  else
    match readInteger word with
    | some n => some (.int origin n)
    | none =>
      match readReal word with
      | some x => some (.float origin x)
      | none => (readDateTime word).map (.text origin)

/-! ## Tables under construction -/

/-- How a table came about. -/
inductive Mark where
  /-- On the way to a table that a header opened. -/
  | implied
  /-- By its own header. -/
  | opened
  /-- By dotted keys. -/
  | dotted
  deriving DecidableEq

/-- Part of a document under construction. -/
inductive Node where
  /-- A finished value. -/
  | leaf (v : Value)
  /-- A table. -/
  | table (mark : Mark) (fields : List (String × Node))
  /-- A sequence of tables, the last of which is being filled; the earlier ones are finished. -/
  | tables (done : List Value) (last : List (String × Node))

/-- Named parts, in the order of the document. -/
abbrev Nodes := List (String × Node)

/-- Replaces or adds a named part. -/
def putNode (key : String) (n : Node) : Nodes → Nodes
  | [] => [(key, n)]
  | (k, m) :: rest => if k = key then (k, n) :: rest else (k, m) :: putNode key n rest

mutual

/-- A part as a value. -/
def Node.toValue (origin : Option String) : Node → Value
  | .leaf v => v
  | .table _ fields => .table origin (nodesToFields origin fields)
  | .tables done last => .list origin (done ++ [.table origin (nodesToFields origin last)])

/-- Named parts as fields. -/
def nodesToFields (origin : Option String) : List (String × Node) → List (String × Value)
  | [] => []
  | (k, n) :: rest => (k, n.toValue origin) :: nodesToFields origin rest

end

/-- Puts a value at a dotted key; on the way only tables made by dotted keys are entered. -/
def putDotted (v : Value) : List String → Nodes → Option Nodes
  | [], _ => none
  | [k], fields =>
    if (fields.lookup k).isSome then none else some (putNode k (.leaf v) fields)
  | k :: path, fields => do
    let inner ← (match fields.lookup k with
      | none => some []
      | some (.table .dotted inner) => some inner
      | some _ => none : Option Nodes)
    let inner ← putDotted v path inner
    return putNode k (.table .dotted inner) fields

/-- Changes the table at a header's path, making tables on the way. -/
def atPath (change : Nodes → Option Nodes) : List String → Nodes → Option Nodes
  | [], fields => change fields
  | k :: path, fields =>
    match fields.lookup k with
    | none => do return putNode k (.table .implied (← atPath change path [])) fields
    | some (.table mark inner) => do return putNode k (.table mark (← atPath change path inner)) fields
    | some (.tables done last) => do
      return putNode k (.tables done (← atPath change path last)) fields
    | some (.leaf _) => none

/-- Opens a table. -/
def openTable (path : List String) (fields : Nodes) : Option Nodes :=
  match path.getLast? with
  | none => none
  | some k => atPath (fun fields =>
      match fields.lookup k with
      | none => some (putNode k (.table .opened []) fields)
      | some (.table .implied inner) => some (putNode k (.table .opened inner) fields)
      | some _ => none) path.dropLast fields

/-- Opens the next table of a sequence. -/
def openNext (origin : Option String) (path : List String) (fields : Nodes) : Option Nodes :=
  match path.getLast? with
  | none => none
  | some k => atPath (fun fields =>
      match fields.lookup k with
      | none => some (putNode k (.tables [] []) fields)
      | some (.tables done last) =>
        some (putNode k (.tables (done ++ [.table origin (nodesToFields origin last)]) []) fields)
      | some _ => none) path.dropLast fields

/-! ## Values -/

mutual

/-- A value. -/
def scanValue (origin : Option String) : Nat → Scan Value
  | 0, _ => none
  | fuel + 1, cs =>
    match cs with
    | '"' :: _ => (scanText cs).map fun (s, rest) => (.text origin (String.ofList s), rest)
    | '\'' :: _ => (scanText cs).map fun (s, rest) => (.text origin (String.ofList s), rest)
    | '[' :: rest =>
      (scanItems origin fuel rest).map fun (vs, rest) => (.list origin vs, rest)
    | '{' :: rest =>
      match skipSpaces rest with
      | '}' :: rest => some (.table origin [], rest)
      | rest =>
        (scanPairs origin fuel [] rest).map fun (ns, rest) =>
          (.table origin (nodesToFields origin ns), rest)
    | _ =>
      let (word, rest) := scanWord cs
      (readScalar origin word).map fun v => (v, rest)

/-- The items of an array, up to its bracket. -/
def scanItems (origin : Option String) : Nat → Scan (List Value)
  | 0, _ => none
  | fuel + 1, cs => do
    match ← skipLines (cs.length + 1) cs with
    | ']' :: rest => return ([], rest)
    | cs =>
      let (v, cs) ← scanValue origin fuel cs
      match ← skipLines (cs.length + 1) cs with
      | ',' :: rest =>
        let (vs, rest) ← scanItems origin fuel rest
        return (v :: vs, rest)
      | ']' :: rest => return ([v], rest)
      | _ => none

/-- The pairs of an inline table, up to its brace. -/
def scanPairs (origin : Option String) : Nat → Nodes → Scan Nodes
  | 0, _, _ => none
  | fuel + 1, acc, cs => do
    let (path, cs) ← scanDotted (cs.length + 1) cs
    match cs with
    | '=' :: cs =>
      let (v, cs) ← scanValue origin fuel (skipSpaces cs)
      let acc ← putDotted v path acc
      match skipSpaces cs with
      | ',' :: rest => scanPairs origin fuel acc rest
      | '}' :: rest => return (acc, rest)
      | _ => none
    | _ => none

end

/-! ## Documents -/

/-- One line after another; `path` is the table being filled. -/
def scanDocument (origin : Option String) : Nat → List String → Nodes → List Char → Option Nodes
  | 0, _, _, _ => none
  | fuel + 1, path, acc, cs => do
    match ← skipLines (cs.length + 1) cs with
    | [] => return acc
    | '[' :: '[' :: cs =>
      let (path, cs) ← scanDotted (cs.length + 1) cs
      match cs with
      | ']' :: ']' :: cs => scanDocument origin fuel path (← openNext origin path acc) (← lineEnd cs)
      | _ => none
    | '[' :: cs =>
      let (path, cs) ← scanDotted (cs.length + 1) cs
      match cs with
      | ']' :: cs => scanDocument origin fuel path (← openTable path acc) (← lineEnd cs)
      | _ => none
    | cs =>
      let (key, cs) ← scanDotted (cs.length + 1) cs
      match cs with
      | '=' :: cs =>
        let (v, cs) ← scanValue origin (cs.length + 1) (skipSpaces cs)
        let acc ← atPath (putDotted v key) path acc
        scanDocument origin fuel path acc (← lineEnd cs)
      | _ => none

/-- The fields of a document; a byte order mark in front is skipped. -/
def parse (origin : Option String) (s : String) : Option Fields := do
  let cs := match s.toList with
    | '\uFEFF' :: cs => cs
    | cs => cs
  return nodesToFields origin (← scanDocument origin (cs.length + 1) [] [] cs)

end EventRelay.Config.Format.Toml
