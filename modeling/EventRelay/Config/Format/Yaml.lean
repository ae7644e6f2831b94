import EventRelay.Config.Format.Scan
import EventRelay.Config.Value
import EventRelay.Text.Blank

/-!
# YAML

The part of YAML that configuration files use: one document of block mappings and sequences by
indentation, flow mappings and sequences in brackets, quoted and plain scalars on one line, and
comments.  Everything else counts as malformed.
-/

namespace EventRelay.Config.Format.Yaml

/-! ## Lines -/

/-- A line with its indentation; comments and blanks at the end are gone. -/
structure Line where
  /-- The number of spaces in front. -/
  indent : Nat
  /-- The rest. -/
  text : List Char

/-- Can a quoted scalar start after the character? -/
def opensScalar (c : Char) : Bool :=
  isSpace c || c = '[' || c = '{' || c = ',' || c = ':'

/-- A line up to its comment: a number sign at the start or after a blank, outside quotes.  The first
two arguments are the open quote and the character before. -/
def cutComment : Option Char → Char → List Char → List Char
  | _, _, [] => []
  | none, before, c :: cs =>
    if c = '#' && isSpace before then []
    else if (c = '"' || c = '\'') && opensScalar before then c :: cutComment (some c) c cs
    else c :: cutComment none c cs
  | some q, _, c :: cs =>
    if c = '\\' && q = '"' then
      match cs with
      | d :: rest => c :: d :: cutComment (some q) d rest
      | [] => [c]
    else if c = q then c :: cutComment none c cs
    else c :: cutComment (some q) c cs

/-- A line, or nothing if it is blank. -/
def readLine (cs : List Char) : Option Line :=
  let text := Text.trimEnd (cutComment none ' ' cs)
  let body := text.dropWhile (· = ' ')
  if body.isEmpty then none else some ⟨text.length - body.length, body⟩

/-- The lines of the document, and whether a marker starts it; nothing if there is more than one
document. -/
def readLines (s : String) : Option (Bool × List Line) :=
  let lines := (s.splitOn "\n").filterMap fun l => readLine l.toList
  let marker (l : Line) : Bool := l.indent = 0 && l.text = "---".toList
  let marked := lines.head?.any marker
  let lines := if marked then lines.drop 1 else lines
  let lines := lines.takeWhile fun l => !(l.indent = 0 && l.text = "...".toList)
  if lines.any fun l => marker l || l.text.head? = some '\t' || l.text.head? = some '%' then none
  else some (marked, lines)

/-! ## Scalars -/

/-- A whole number in 64 signed bits. -/
def wholeNumber (cs : List Char) : Option Int :=
  match cs with
  | '0' :: 'x' :: hex =>
    if hex.isEmpty || !hex.all isHex || 0x8000000000000000 ≤ numberIn 16 hex then none else some (numberIn 16 hex)
  | '0' :: 'o' :: oct =>
    if oct.isEmpty || !(oct.all fun c => '0' ≤ c && c ≤ '7') || 0x8000000000000000 ≤ numberIn 8 oct then none
    else some (numberIn 8 oct)
  | _ => (Decimal.readInt? cs).filter fun n => -0x8000000000000000 ≤ n ∧ n < 0x8000000000000000

/-- The value of a plain scalar. -/
def plainValue (origin : Option String) (cs : List Char) : Option Value :=
  let s := String.ofList cs
  if s = "~" ∨ s = "null" ∨ s = "" then some (.null origin)
  else if s = "true" then some (.bool origin true)
  else if s = "false" then some (.bool origin false)
  else if [".inf", ".Inf", ".INF", "+.inf", "+.Inf", "+.INF", "-.inf", "-.Inf", "-.INF", ".nan",
      ".NAN"].contains s then none
  else
    match wholeNumber cs with
    | some n => some (.int origin n)
    | none =>
      match Decimal.readFloat? cs with
      | some x => some (.float origin x)
      | none => some (.text origin s)

/-- The character behind a backslash. -/
def scanEscape : Scan Char
  | '0' :: cs => some ('\x00', cs)
  | 'a' :: cs => some ('\x07', cs)
  | 'b' :: cs => some ('\x08', cs)
  | 't' :: cs => some ('\t', cs)
  | 'n' :: cs => some ('\n', cs)
  | 'v' :: cs => some ('\x0b', cs)
  | 'f' :: cs => some ('\x0c', cs)
  | 'r' :: cs => some ('\r', cs)
  | 'e' :: cs => some ('\x1b', cs)
  | ' ' :: cs => some (' ', cs)
  | '"' :: cs => some ('"', cs)
  | '\'' :: cs => some ('\'', cs)
  | '\\' :: cs => some ('\\', cs)
  | 'x' :: cs => scanCode 2 cs
  | 'u' :: cs => scanCode 4 cs
  | 'U' :: cs => scanCode 8 cs
  | _ => none

/-- The rest of a text in double quotes. -/
def scanDouble : Nat → List Char → Scan (List Char)
  | 0, _, _ => none
  | _ + 1, acc, '"' :: cs => some (acc.reverse, cs)
  | fuel + 1, acc, '\\' :: cs => do
    let (c, cs) ← scanEscape cs
    scanDouble fuel (c :: acc) cs
  | fuel + 1, acc, c :: cs => scanDouble fuel (c :: acc) cs
  | _ + 1, _, [] => none

/-- The rest of a text in single quotes; a quote inside is written twice. -/
def scanSingle : List Char → List Char → Option (List Char × List Char)
  | acc, '\'' :: '\'' :: cs => scanSingle ('\'' :: acc) cs
  | acc, '\'' :: cs => some (acc.reverse, cs)
  | acc, c :: cs => scanSingle (c :: acc) cs
  | _, [] => none

/-- A quoted text. -/
def scanQuoted (cs : List Char) : Option (List Char × List Char) :=
  match cs with
  | '"' :: rest => scanDouble (rest.length + 1) [] rest
  | '\'' :: rest => scanSingle [] rest
  | _ => none

/-! ## Flow -/

/-- A plain scalar inside brackets: up to a comma, a bracket, or a colon before a blank. -/
def takePlain (cs : List Char) : List Char × List Char :=
  match cs with
  | [] => ([], [])
  | c :: rest =>
    if c = ',' ∨ c = '[' ∨ c = ']' ∨ c = '{' ∨ c = '}' then ([], cs)
    else if c = ':' && (rest.head?.all fun d => isSpace d || d = ',' || d = ']' || d = '}') then
      ([], cs)
    else
      let (word, left) := takePlain rest
      (c :: word, left)

mutual

/-- A value inside brackets. -/
def scanFlow (origin : Option String) : Nat → Scan Value
  | 0, _ => none
  | fuel + 1, cs =>
    match cs with
    | '[' :: rest => (flowItems origin fuel rest).map fun (vs, rest) => (.list origin vs, rest)
    | '{' :: rest => (flowFields origin fuel rest).map fun (fs, rest) => (.table origin fs, rest)
    | '"' :: _ => (scanQuoted cs).map fun (s, rest) => (.text origin (String.ofList s), rest)
    | '\'' :: _ => (scanQuoted cs).map fun (s, rest) => (.text origin (String.ofList s), rest)
    | _ =>
      let (word, rest) := takePlain cs
      (plainValue origin (Text.trimEnd word)).map fun v => (v, rest)

/-- The items of a flow sequence. -/
def flowItems (origin : Option String) : Nat → Scan (List Value)
  | 0, _ => none
  | fuel + 1, cs =>
    match skipSpaces cs with
    | ']' :: rest => some ([], rest)
    | cs => do
      let (v, cs) ← scanFlow origin fuel cs
      match skipSpaces cs with
      | ',' :: rest =>
        let (vs, rest) ← flowItems origin fuel rest
        return (v :: vs, rest)
      | ']' :: rest => return ([v], rest)
      | _ => none

/-- The fields of a flow mapping. -/
def flowFields (origin : Option String) : Nat → Scan Fields
  | 0, _ => none
  | fuel + 1, cs =>
    match skipSpaces cs with
    | '}' :: rest => some ([], rest)
    | cs => do
      let (k, cs) ← scanFlow origin fuel cs
      let key ← (k.toText).toOption
      let (v, cs) ← (match skipSpaces cs with
        | ':' :: cs => scanFlow origin fuel (skipSpaces cs)
        | cs => some (.null origin, cs) : Option (Value × List Char))
      match skipSpaces cs with
      | ',' :: rest =>
        let (fs, rest) ← flowFields origin fuel rest
        return ((key, v) :: fs, rest)
      | '}' :: rest => return ([(key, v)], rest)
      | _ => none

end

/-- A value on the rest of a line. -/
def inlineValue (origin : Option String) (cs : List Char) : Option Value :=
  match cs with
  | c :: _ =>
    if c = '[' ∨ c = '{' ∨ c = '"' ∨ c = '\'' then
      match scanFlow origin (cs.length + 1) cs with
      | some (v, rest) => if (skipSpaces rest).isEmpty then some v else none
      | none => none
    else if c = '|' ∨ c = '>' ∨ c = '&' ∨ c = '*' ∨ c = '!' ∨ c = '@' ∨ c.toNat = 0x60 ∨ c = '%' then none
    else if c = ']' ∨ c = '}' ∨ c = ',' then none
    else plainValue origin cs
  | [] => some (.null origin)

/-! ## Blocks -/

/-- A plain key: up to a colon at the end or before a blank. -/
def plainKey : List Char → Option (List Char × List Char)
  | [] => none
  | ':' :: rest => if rest.head?.all isSpace then some ([], rest) else do
      let (k, left) ← plainKey rest
      return (':' :: k, left)
  | c :: rest => do
    let (k, left) ← plainKey rest
    return (c :: k, left)

/-- A key in quotes and what follows its colon. -/
def quotedKey (cs : List Char) : Option (String × List Char) := do
  let (k, rest) ← scanQuoted cs
  match skipSpaces rest with
  | ':' :: rest => if rest.head?.all isSpace then some (String.ofList k, skipSpaces rest) else none
  | _ => none

/-- The key of a line and what follows its colon. -/
def splitKey (cs : List Char) : Option (String × List Char) :=
  match cs with
  | '"' :: _ => quotedKey cs
  | '\'' :: _ => quotedKey cs
  | '{' :: _ => none
  | '[' :: _ => none
  | _ => do
    let (k, rest) ← plainKey cs
    let key ← (← plainValue none (Text.trimEnd k)).toText.toOption
    return (key, skipSpaces rest)

/-- Does the line hold an item of a sequence? -/
def isItem (l : Line) : Bool :=
  match l.text with
  | ['-'] => true
  | '-' :: c :: _ => isSpace c
  | _ => false

/-- What an item's line holds behind the dash, as a line of its own. -/
def itemRest (l : Line) : Option Line :=
  let rest := l.text.drop 1
  let body := skipSpaces rest
  if body.isEmpty then none else some ⟨l.indent + 1 + (rest.length - body.length), body⟩

mutual

/-- The block that starts with the first line. -/
def block (origin : Option String) : Nat → List Line → Option (Value × List Line)
  | 0, _ => none
  | _ + 1, [] => some (.null origin, [])
  | fuel + 1, l :: ls =>
    if isItem l then
      (blockItems origin fuel l.indent (l :: ls)).map fun (vs, ls) => (.list origin vs, ls)
    else
      match splitKey l.text with
      | some _ =>
        (blockFields origin fuel l.indent (l :: ls)).map fun (fs, ls) => (.table origin fs, ls)
      | none => (inlineValue origin l.text).map fun v => (v, ls)

/-- The items of a sequence at an indentation. -/
def blockItems (origin : Option String) : Nat → Nat → List Line → Option (List Value × List Line)
  | 0, _, _ => none
  | _ + 1, _, [] => some ([], [])
  | fuel + 1, indent, l :: ls =>
    if l.indent < indent then some ([], l :: ls)
    else if l.indent > indent then none
    else if !isItem l then some ([], l :: ls)
    else do
      let (v, ls) ← (match itemRest l with
        | some inner => block origin fuel (inner :: ls)
        | none =>
          match ls with
          | next :: _ => if next.indent > indent then block origin fuel ls else some (.null origin, ls)
          | [] => some (.null origin, []) : Option (Value × List Line))
      let (vs, ls) ← blockItems origin fuel indent ls
      return (v :: vs, ls)

/-- The fields of a mapping at an indentation. -/
def blockFields (origin : Option String) : Nat → Nat → List Line → Option (Fields × List Line)
  | 0, _, _ => none
  | _ + 1, _, [] => some ([], [])
  | fuel + 1, indent, l :: ls =>
    if l.indent < indent then some ([], l :: ls)
    else if l.indent > indent then none
    else do
      let (key, rest) ← splitKey l.text
      let (v, ls) ← (if rest.isEmpty then
          match ls with
          | next :: _ =>
            if next.indent > indent || (next.indent = indent && isItem next) then block origin fuel ls
            else some (.null origin, ls)
          | [] => some (.null origin, [])
        else (inlineValue origin rest).bind fun v =>
          if (match v with
              | .text _ _ => (splitKey rest).isSome && rest.head? != some '"' && rest.head? != some '\''
              | _ => false) then none
          else some (v, ls) : Option (Value × List Line))
      let (fs, ls) ← blockFields origin fuel indent ls
      return ((key, v) :: fs, ls)

end

/-- The value of a document; a text without one is an empty table, an empty document is null. -/
def parse (origin : Option String) (s : String) : Option Value := do
  let (marked, lines) ← readLines s
  if lines.isEmpty then return if marked then .null origin else .table origin []
  else
    let (v, left) ← block origin (4 * s.length + 4) lines
    if left.isEmpty then return v else none

end EventRelay.Config.Format.Yaml
