import EventRelay.Context
import EventRelay.Text.Blank

/-!
# Context specs

On the command line a context is written `Type:id`.  The first colon divides the two, so an id may
hold further colons; white space around either part is dropped, and neither part may be blank.
For contexts without stray white space this is the path segment of the context.
-/

namespace EventRelay.Command

/-- A spec that is not of the form `Type:id`. -/
structure SpecError where
  /-- The spec. -/
  spec : String
  deriving Repr, DecidableEq

/-- The wording of the failure. -/
def SpecError.message (e : SpecError) : String :=
  s!"expected Type:id, got '{e.spec}'"

/-- The characters before and after the first colon. -/
def splitColon : List Char → Option (List Char × List Char)
  | [] => none
  | c :: cs =>
    if c = ':' then some ([], cs)
    else (splitColon cs).map fun (before, after) => (c :: before, after)

/-- Reads a context spec. -/
def parseSpec (spec : String) : Except SpecError Context :=
  match splitColon spec.toList with
  | none => .error ⟨spec⟩
  | some (before, after) =>
    let typeName := Text.trimChars before
    let id := Text.trimChars after
    if typeName.isEmpty || id.isEmpty then .error ⟨spec⟩
    else .ok { typeName := String.ofList typeName, id := String.ofList id }

end EventRelay.Command
