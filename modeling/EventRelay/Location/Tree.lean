import EventRelay.Location.Path
import EventRelay.Log

/-!
# The location tree

The registry of mounted locations.  Every node has a location id of its own and may name the
location id of a parent.  Two nodes whose contexts render to one path cannot be told apart by the
path, so such a path is reported, once until the tree is cleared.

* `Tree.add` mounts a node, or moves and replaces the one with its location id.
* `Tree.remove` unmounts a node and, round by round, everything left without a parent.
* `Tree.visits` walks the tree from its roots; `Tree.validate` reports the paths met twice.
* `Tree.outline` lists the nodes reachable from the roots, indented by depth.

Moving a node below one of its own descendants is not refused; such nodes are then reachable from
no root, and neither walked nor listed.
-/

namespace EventRelay.Location

/-- A context mounted at a location. -/
structure Node where
  /-- Identifies the mounted node. -/
  location : String
  /-- The context mounted there. -/
  context : Context

/-- A mounted node and the location id of its parent. -/
structure Entry where
  /-- The node. -/
  node : Node
  /-- Its parent, if it has one. -/
  parent : Option String

/-- The mounted nodes in mounting order, and the paths reported so far. -/
structure Tree where
  /-- The mounted nodes. -/
  entries : List Entry := []
  /-- The paths reported so far, the latest last. -/
  reported : List String := []

/-- Why a node was not mounted: its parent is not mounted. -/
structure ParentNotFound where
  /-- The segment of the parent asked for. -/
  parent : String
  /-- The segment of the node. -/
  child : String
  deriving DecidableEq

/-- The wording of the failure. -/
def ParentNotFound.message (e : ParentNotFound) : String :=
  s!"Parent location {e.parent} not found while adding {e.child}"

namespace Tree

/-- Is a node mounted under this location id? -/
def contains (t : Tree) (location : String) : Bool :=
  t.entries.any fun e => e.node.location == location

/-- The number of mounted nodes. -/
def size (t : Tree) : Nat :=
  t.entries.length

/-- The nodes without a parent. -/
def roots (t : Tree) : List Node :=
  (t.entries.filter fun e => e.parent.isNone).map Entry.node

/-- The nodes whose parent is the given location id. -/
def childrenOf (t : Tree) (location : String) : List Node :=
  (t.entries.filter fun e => e.parent == some location).map Entry.node

/-- The nodes below a node. -/
def children (t : Tree) (n : Node) : List Node :=
  t.childrenOf n.location

/-- Replaces the entry with the node's location id, or puts a new entry at the end. -/
def place (node : Node) (parent : Option String) : List Entry → List Entry
  | [] => [⟨node, parent⟩]
  | e :: es => if e.node.location = node.location then ⟨node, parent⟩ :: es else e :: place node parent es

/-! ## Walking -/

/-- What a walk has met: locations, paths, and the paths met again. -/
structure Walk where
  /-- Locations entered. -/
  visited : List String := []
  /-- Paths met. -/
  paths : List String := []
  /-- Paths met when they had been met before, in walking order. -/
  again : List String := []

mutual

/-- Walks a node and what is below it; `fuel` bounds the depth. -/
def walk (t : Tree) : Nat → String → Walk → Node → Walk
  | 0, _, w, _ => w
  | fuel + 1, above, w, n =>
    if w.visited.contains n.location then w
    else
      let p := appendSegment above n.context
      let w := { w with
        visited := n.location :: w.visited
        paths := p :: w.paths
        again := if w.paths.contains p then w.again ++ [p] else w.again }
      walkAll t fuel p w (t.children n)

/-- Walks several nodes in order. -/
def walkAll (t : Tree) (fuel : Nat) (above : String) (w : Walk) : List Node → Walk
  | [] => w
  | n :: ns => walkAll t fuel above (walk t fuel above w n) ns

end

/-- Walks the whole tree; no branch is longer than the number of entries. -/
def visits (t : Tree) : Walk :=
  walkAll t (t.size + 1) "" {} t.roots

/-- The paths not reported yet, each once, in the order of the list. -/
def fresh (reported : List String) : List String → List String
  | [] => []
  | p :: ps => if reported.contains p then fresh reported ps else p :: fresh (p :: reported) ps

/-- Reports the paths that two reachable nodes share and that were not reported before. -/
def validate (t : Tree) : List String × Tree :=
  let new := fresh t.reported t.visits.again
  (new, { t with reported := t.reported ++ new })

/-! ## Changes -/

/-- What mounting a node did. -/
structure Added where
  /-- The tree afterwards. -/
  tree : Tree
  /-- A node with the same location id was replaced. -/
  replaced : Bool
  /-- The paths reported. -/
  reported : List String

/-- Mounts a node below a mounted parent, or as a root, and reports new collisions. -/
def add (t : Tree) (node : Node) (parent : Option Node) : Except ParentNotFound Added :=
  match parent.filter fun p => !t.contains p.location with
  | some p => .error ⟨p.context.segment, node.context.segment⟩
  | none =>
    let replaced := t.contains node.location
    let placed := { t with entries := place node (parent.map Node.location) t.entries }
    let (reported, tree) := placed.validate
    .ok { tree, replaced, reported }

/-- Drops the entries whose parent is not mounted, once. -/
def dropOrphans (es : List Entry) : List Entry :=
  es.filter fun e =>
    match e.parent with
    | none => true
    | some p => es.any fun f => f.node.location == p

/-- Drops orphans until none is left; every round but the last drops at least one. -/
def settle : Nat → List Entry → List Entry
  | 0, es => es
  | fuel + 1, es =>
    let left := dropOrphans es
    if left.length = es.length then es else settle fuel left

/-- Unmounts a node and everything left without a parent; gives the number of dropped entries. -/
def remove (t : Tree) (node : Node) : Nat × Tree :=
  let rest := t.entries.filter fun e => e.node.location != node.location
  let left := settle (rest.length + 1) rest
  (t.entries.length - left.length, { t with entries := left })

/-- The empty tree. -/
def clear (_ : Tree) : Tree := {}

/-! ## Listing -/

mutual

/-- A node and what is below it, one line each, indented by two spaces per level. -/
def outlineNode (t : Tree) : Nat → Nat → Node → List String
  | 0, _, _ => []
  | fuel + 1, depth, n =>
    (String.ofList (List.replicate (2 * depth) ' ') ++ n.context.segment ++ " [" ++ n.location ++ "]")
      :: outlineNodes t fuel (depth + 1) (t.children n)

/-- Several nodes in order. -/
def outlineNodes (t : Tree) (fuel depth : Nat) : List Node → List String
  | [] => []
  | n :: ns => outlineNode t fuel depth n ++ outlineNodes t fuel depth ns

end

/-- The tree as indented lines. -/
def outline (t : Tree) : List String :=
  outlineNodes t (t.size + 1) 0 t.roots

/-! ## Log lines -/

/-- The line about a collision. -/
def collisionLine (p : String) : Log.Line :=
  { source := .tree, level := .error, message := "Location collision detected: " ++ p,
    fields := [Log.str "location_path" p] }

/-- The lines about mounting a node. -/
def Added.lines (a : Added) (node : Node) : List Log.Line :=
  (if a.replaced then
    [{ source := .tree, level := .debug, message := "Replacing mounted location node",
       fields := [Log.str "location_id" node.location] }]
  else []) ++ a.reported.map collisionLine

/-- The line about unmounting a node. -/
def removalLine (node : Node) (removed : Nat) : Log.Line :=
  { source := .tree, level := .debug, message := "Removed location node",
    fields := [Log.str "location_id" node.location, Log.num "removed" removed] }

end Tree

end EventRelay.Location
