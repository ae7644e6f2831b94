import EventRelay.Context

/-!
# Location paths

A location stack is rendered as its segments joined by ` / `, outermost first.  A path can also be
built step by step with `appendSegment`.
-/

namespace EventRelay.Location

/-- Stands between the segments of a path. -/
def separator : String := " / "

/-- The path of a stack of contexts, outermost first. -/
def path (stack : List Context) : String :=
  separator.intercalate (stack.map Context.segment)

/-- A path with one more segment; an empty path is replaced by the segment. -/
def appendSegment (base : String) (c : Context) : String :=
  if base.isEmpty then c.segment else base ++ separator ++ c.segment

end EventRelay.Location
