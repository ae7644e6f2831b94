import EventRelay.Log
import EventRelay.Text.Blank

/-!
# Log filters

What is logged is said by directives: a level for everything, `target=level` for the sources whose
path starts with the target, or a target alone for all its lines.  Directives are separated by commas.
A directive may restrict itself to spans, in brackets; since no line is inside a span, such a directive
lets nothing through.

Of the directives that apply to a line the one with the longest target decides.
-/

namespace EventRelay.Log

/-- A directive: lines of sources below the target, up to a rank. -/
structure Directive where
  /-- The target; without one the directive applies to all sources. -/
  target : Option String := none
  /-- The directive asks for a span. -/
  span : Bool := false
  /-- The largest rank let through: zero is nothing, five is everything. -/
  rank : Nat := 5
  deriving Repr, DecidableEq

/-- The rank of a level name in any case, or of a number from zero to five. -/
def rankOf? (name : List Char) : Option Nat :=
  match name.map Char.toLower with
  | ['o', 'f', 'f'] => some 0
  | ['e', 'r', 'r', 'o', 'r'] => some 1
  | ['w', 'a', 'r', 'n'] => some 2
  | ['i', 'n', 'f', 'o'] => some 3
  | ['d', 'e', 'b', 'u', 'g'] => some 4
  | ['t', 'r', 'a', 'c', 'e'] => some 5
  | [c] => if '0' ≤ c && c ≤ '5' then some (c.toNat - 48) else none
  | _ => none

namespace Directive

/-- Characters that a directive may start with. -/
def isStart (c : Char) : Bool :=
  c.isAlphanum || c = '-' || c = ':' || c = '_' || 0x80 ≤ c.toNat

/-- The level behind the equals sign; none at all stands for everything. -/
def readLevel (d : Directive) (cs : List Char) : Option Directive :=
  match cs.takeWhile (· != ',') with
  | [] => some d
  | name => (rankOf? name).map fun rank => { d with rank }

/-- What follows a span. -/
def afterSpan (d : Directive) : List Char → Option Directive
  | [] => some d
  | '=' :: cs => readLevel d cs
  | _ => none

/-- A span, up to its bracket; field conditions in braces must not be empty. -/
def readSpan (d : Directive) (cs : List Char) : Option Directive :=
  let name := cs.takeWhile fun c => c != ']' && c != '{'
  match cs.drop name.length with
  | ']' :: rest => afterSpan { d with span := true } rest
  | '{' :: rest =>
    let fields := rest.takeWhile (· != '}')
    match rest.drop fields.length with
    | '}' :: ']' :: rest =>
      if fields.isEmpty then none else afterSpan { d with span := true } rest
    | _ => none
  | _ => none

/-- A directive. -/
def parse (cs : List Char) : Option Directive :=
  match Text.trimChars cs with
  | [] => none
  | '[' :: rest => readSpan {} rest
  | c :: rest =>
    if !isStart c then none
    else
      let cs := c :: rest
      let word := cs.takeWhile fun c => c != '=' && c != '[' && c != ','
      match cs.drop word.length with
      | '=' :: rest => readLevel { target := some (String.ofList word) } rest
      | '[' :: rest => readSpan { target := some (String.ofList word) } rest
      | _ =>
        match rankOf? cs with
        | some rank => some { rank }
        | none => some { target := some (String.ofList cs) }

end Directive

/-- A filter: its directives, in the order of entry. -/
abbrev Filter := List Directive

/-- The directives of a text, if all are well formed. -/
def Filter.parse (s : String) : Option Filter :=
  ((s.splitOn ",").filter fun d => !d.isEmpty).mapM fun d => Directive.parse d.toList

/-- The directives of a text that are well formed. -/
def Filter.parseLoosely (s : String) : Filter :=
  (s.splitOn ",").filterMap fun d => Directive.parse d.toList

/-- Does the directive apply to a source? -/
def Directive.covers (d : Directive) (source : Source) : Bool :=
  !d.span && d.target.all fun t => t.isPrefixOf source.path

/-- The directive that decides about a source: that of the longest target, of two the later one. -/
def Filter.deciding (f : Filter) (source : Source) : Option Directive :=
  let length (d : Directive) : Nat := (d.target.map fun t => t.length + 1).getD 0
  (f.filter fun d => d.covers source).foldl
    (fun best d =>
      match best with
      | none => some d
      | some b => if length b ≤ length d then some d else some b) none

/-- Does the filter let a line through? A filter without directives lets errors through. -/
def Filter.allows (f : Filter) (line : Line) : Bool :=
  if f.isEmpty then line.level.rank ≤ Level.error.rank
  else
    match f.deciding line.source with
    | none => false
    | some d => line.level.rank ≤ d.rank

end EventRelay.Log
