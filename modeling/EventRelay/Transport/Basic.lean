import EventRelay.Retry

/-!
# Transports

A transport takes a batch of events and tries to deliver it.  Leaves do something with the batch;
the other transports are made of transports:

* a **switch** hands on to its first usable child,
* a **group** hands on to all its usable children at once,
* a **retry** tries its inner transport again until it succeeds or the budget is spent,
* a **queued** transport stores the events in a queue, which delivers them later.

What is state — whether a leaf is usable, the attempts of a retry, the content of a queue — is kept
outside the tree and named by numbers in it.  Usability is asked anew on every call.
-/

namespace EventRelay

/-- A tree of transports. -/
inductive Transport where
  /-- A leaf that follows cues given from outside. -/
  | sink (leaf : Nat) (name : String)
  /-- A leaf that logs every event. -/
  | debug
  /-- A leaf that posts the batch to a collector. -/
  | http (leaf : Nat) (endpoint : String)
  /-- Tries again; the attempts are recorded in a book. -/
  | retry (book : Nat) (policy : Retry.Policy) (inner : Transport)
  /-- The first usable child. -/
  | switch (children : List Transport)
  /-- All usable children. -/
  | group (children : List Transport)
  /-- Stores the events in a queue that delivers by `delivery`. -/
  | queued (queue : Nat) (delivery : Transport)

instance : Inhabited Transport := ⟨.debug⟩

/-- Which leaves are usable at some moment. -/
abbrev Usability := Nat → Bool

namespace Transport

mutual

/-- The name in logs. -/
def name : Transport → String
  | .sink _ n => n
  | .debug => "debug"
  | .http _ _ => "http"
  | .retry _ _ inner => "retry(" ++ inner.name ++ ")"
  | .switch children => "switch(" ++ ", ".intercalate (names children) ++ ")"
  | .group children => "group(" ++ ", ".intercalate (names children) ++ ")"
  | .queued _ delivery => "queued(" ++ delivery.name ++ ")"

/-- The names of several transports. -/
def names : List Transport → List String
  | [] => []
  | t :: ts => t.name :: names ts

end

mutual

/-- Can the transport be used? A queue always accepts events. -/
def usable (u : Usability) : Transport → Bool
  | .sink leaf _ => u leaf
  | .debug => true
  | .http leaf endpoint => u leaf && !endpoint.isEmpty
  | .retry _ _ inner => inner.usable u
  | .switch children => anyUsable u children
  | .group children => anyUsable u children
  | .queued _ _ => true

/-- Can one of several transports be used? -/
def anyUsable (u : Usability) : List Transport → Bool
  | [] => false
  | t :: ts => t.usable u || anyUsable u ts

end

/-- The child that a switch would use. -/
def selected (u : Usability) (children : List Transport) : Option Transport :=
  children.find? fun t => t.usable u

end Transport

end EventRelay
