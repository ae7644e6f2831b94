import EventRelay.Config.Format.Scan
import EventRelay.Config.Value
import EventRelay.Text.Blank

/-!
# INI

Lines of the form `key = value`, in sections named in brackets.  All values are texts.  Lines that
start with a semicolon or a number sign are comments; a value in quotes loses them.  A section that is
opened again starts anew.
-/

namespace EventRelay.Config.Format.Ini

/-- The character behind a backslash. -/
def unescape (c : Char) : Char :=
  if c = '0' then '\x00'
  else if c = 'a' then '\x07'
  else if c = 'b' then '\x08'
  else if c = 't' then '\t'
  else if c = 'r' then '\r'
  else if c = 'n' then '\n'
  else c

/-- A text with its escapes resolved. -/
def resolveEscapes : Nat → List Char → Option (List Char)
  | 0, _ => none
  | _ + 1, [] => some []
  | fuel + 1, '\\' :: 'x' :: cs => do
    let (c, cs) ← scanCode 4 cs
    return c :: (← resolveEscapes fuel cs)
  | fuel + 1, '\\' :: c :: cs => do return unescape c :: (← resolveEscapes fuel cs)
  | _ + 1, ['\\'] => none
  | fuel + 1, c :: cs => do return c :: (← resolveEscapes fuel cs)

/-- The text up to the closing quote, escapes included, and what follows the quote. -/
def splitQuoted (quote : Char) : List Char → Option (List Char × List Char)
  | [] => none
  | '\\' :: c :: cs => (splitQuoted quote cs).map fun (body, rest) => ('\\' :: c :: body, rest)
  | c :: cs =>
    if c = quote then some ([], cs)
    else (splitQuoted quote cs).map fun (body, rest) => (c :: body, rest)

/-- May the characters follow a quoted value?  Blanks may, and a comment. -/
def isTail (cs : List Char) : Bool :=
  match Text.trimChars cs with
  | [] => true
  | c :: _ => c = ';' || c = '#'

/-- The characters of a value as it is written. -/
def readValue (cs : List Char) : Option String := do
  match cs with
  | [] => return ""
  | c :: rest =>
    if c = '"' ∨ c = '\'' then
      let (body, tail) ← splitQuoted c rest
      if isTail tail then return String.ofList (← resolveEscapes (body.length + 1) body) else none
    else return String.ofList (← resolveEscapes (cs.length + 1) cs)

/-- A document under construction: keys outside sections, sections, and the open section. -/
structure State where
  /-- The fields so far. -/
  fields : Fields := []
  /-- The open section. -/
  current : Option String := none

/-- Sets a key in the open section. -/
def State.put (origin : Option String) (s : State) (key value : String) : State :=
  let v := Value.text origin value
  match s.current with
  | none => { s with fields := Json.insertField key v s.fields }
  | some name =>
    let inner := ((s.fields.lookup name).map Value.fields).getD []
    { s with fields := Json.insertField name (.table origin (Json.insertField key v inner)) s.fields }

/-- One line. -/
def State.line (origin : Option String) (s : State) (text : String) : Option State :=
  match Text.trimChars text.toList with
  | [] => some s
  | ';' :: _ => some s
  | '#' :: _ => some s
  | '[' :: rest =>
    let name := rest.takeWhile fun c => c != ']'
    if name.length = rest.length then none
    else
      let name := String.ofList (Text.trimChars name)
      some { fields := Json.insertField name (.table origin []) s.fields, current := some name }
  | cs =>
    let key := cs.takeWhile fun c => c != '=' && c != ':'
    match cs.drop key.length with
    | [] => none
    | _ :: value => do
      if (Text.trimChars key).isEmpty then none
      else
        let v ← readValue (Text.trimChars value)
        return s.put origin (String.ofList (Text.trimChars key)) v

/-- The fields of a document. -/
def parse (origin : Option String) (s : String) : Option Fields := do
  let state ← (s.splitOn "\n").foldlM (fun st l => State.line origin st l) ({} : State)
  return state.fields

end EventRelay.Config.Format.Ini
