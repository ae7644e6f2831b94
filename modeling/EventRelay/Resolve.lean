import EventRelay.Context
import EventRelay.Log

/-!
# Resolving contexts

A draft of an event lists entries: finished contexts, deferred ones that become ready after some
time, and factories that are run on demand.  Resolution turns the list into contexts, slot by slot.

It starts with a placeholder in every slot that is not finished.  All deferred entries are awaited
at once, each for at most the time limit; whenever the clock reaches an instant at which one of them
settles, all that still wait are looked at in order.  When none is left the slots are filled, and the
factories run, in order and in no time.  An entry that fails, or misses the limit, leaves an error
context in its slot.

Time is a number of milliseconds.  What happens is described as a list of beats, the instants at
which the entries are looked at, so that other work can be interleaved with a resolution.

* `resolve` — the contexts of a list, and its beats.
* `pairBeats` — the beats of two lists resolved side by side.
* `Entry.outcome`, `Entry.settlesAt` — what one entry comes to on its own, whatever the others do.
-/

namespace EventRelay.Resolve

/-- The time limit unless one is given: five seconds. -/
def defaultTimeout : Nat := 5000

/-- An entry of a draft. -/
inductive Entry where
  /-- A finished context. -/
  | value (c : Context)
  /-- A context, or a failure text, that is ready after a delay; without a delay it never is. -/
  | deferred (delay : Option Nat) (result : Except String Context)
  /-- A context, or a failure text, made on demand. -/
  | factory (result : Except String Context)

/-! ## One entry on its own -/

/-- A deferred entry is in time if its delay is at most the limit. -/
def inTime (timeout : Nat) (delay : Option Nat) : Bool :=
  match delay with
  | none => false
  | some d => decide (d ≤ timeout)

/-- A result as a context. -/
def contextOf : Except String Context → Context
  | .ok c => c
  | .error text => .error text

/-- What an entry comes to. -/
def Entry.outcome (timeout : Nat) : Entry → Context
  | .value c => c
  | .deferred delay result =>
    if inTime timeout delay then contextOf result else .error Context.timeoutMessage
  | .factory result => contextOf result

/-- When an entry settles: deferred ones after their delay or at the limit, others at once. -/
def Entry.settlesAt (timeout : Nat) : Entry → Nat
  | .deferred (some d) _ => min d timeout
  | .deferred none _ => timeout
  | _ => 0

/-! ## The slots -/

/-- Stands in a slot until its entry has settled. -/
def placeholder : Context :=
  .error "unresolved"

/-- The slots at the start. -/
def slots (entries : List Entry) : List Context :=
  entries.map fun
    | .value c => c
    | _ => placeholder

/-- A deferred entry that waits for its slot. -/
structure Waiting where
  /-- The slot. -/
  index : Nat
  /-- When it is ready. -/
  delay : Option Nat
  /-- What it then gives. -/
  result : Except String Context

/-- The deferred entries with their slots. -/
def deferredEntries (entries : List Entry) : List Waiting :=
  entries.zipIdx.filterMap fun
    | (.deferred delay result, index) => some { index, delay, result }
    | _ => none

/-- The factories with their slots. -/
def factories (entries : List Entry) : List (Nat × Except String Context) :=
  entries.zipIdx.filterMap fun
    | (.factory result, index) => some (index, result)
    | _ => none

/-- Puts contexts into their slots. -/
def fill (slots : List Context) (settled : List (Nat × Context)) : List Context :=
  settled.foldl (fun acc s => acc.set s.1 s.2) slots

/-! ## Beats -/

/-- An entry that ran to its end. -/
inductive Ran where
  /-- A deferred entry. -/
  | deferred (index : Nat)
  /-- A factory. -/
  | factory (index : Nat)
  deriving Repr, DecidableEq

/-- What happens at one instant. -/
structure Beat where
  /-- The instant. -/
  instant : Nat
  /-- The contexts that settled, with their slots. -/
  settled : List (Nat × Context) := []
  /-- The entries that ran to their end. -/
  ran : List Ran := []
  /-- The log lines. -/
  lines : List Log.Line := []

/-- Two parts of one beat, one after the other. -/
def Beat.append (a b : Beat) : Beat :=
  { instant := a.instant, settled := a.settled ++ b.settled, ran := a.ran ++ b.ran
    lines := a.lines ++ b.lines }

/-- The warning that an entry failed. -/
def failureLine (message : String) (index : Nat) (text : String) : Log.Line :=
  { source := .resolver, level := .warn, message, fields := [Log.num "index" index, Log.str "error" text] }

/-- A result that came in, as part of a beat. -/
def resultBeat (instant : Nat) (message : String) (ran : Ran) (index : Nat)
    (result : Except String Context) : Beat :=
  { instant
    settled := [(index, contextOf result)]
    ran := [ran]
    lines := match result with
      | .ok _ => []
      | .error text => [failureLine message index text] }

/-- Looks at a waiting entry: its part of the beat, or nothing if it goes on waiting.
Readiness is asked before the limit. -/
def Waiting.look (timeout now : Nat) (w : Waiting) : Option Beat :=
  if inTime now w.delay then
    some (resultBeat now "Deferred context failed" (.deferred w.index) w.index w.result)
  else if timeout ≤ now then
    some { instant := now
           settled := [(w.index, .error Context.timeoutMessage)]
           lines := [{ source := .resolver, level := .warn, message := "Deferred context timed out",
                       fields := [Log.num "index" w.index, Log.num "timeout_ms" timeout] }] }
  else none

/-- Looks at all waiting entries in order: the beat, and those that go on waiting. -/
def lookAll (timeout now : Nat) : List Waiting → Beat × List Waiting
  | [] => ({ instant := now }, [])
  | w :: ws =>
    let (beat, left) := lookAll timeout now ws
    match w.look timeout now with
    | some part => (part.append beat, left)
    | none => (beat, w :: left)

/-- When a waiting entry will settle. -/
def Waiting.due (timeout : Nat) (w : Waiting) : Nat :=
  match w.delay with
  | none => timeout
  | some d => min d timeout

/-- The next instant at which a waiting entry settles. -/
def nextInstant (timeout : Nat) (ws : List Waiting) : Nat :=
  ws.foldl (fun acc w => min acc (w.due timeout)) timeout

/-- Looks now and then at every further instant at which something settles, until nothing waits.
Every look but the first settles an entry. -/
def watch (timeout : Nat) : Nat → Nat → List Waiting → List Beat
  | 0, _, _ => []
  | fuel + 1, now, ws =>
    match lookAll timeout now ws with
    | (beat, []) => [beat]
    | (beat, left) => beat :: watch timeout fuel (nextInstant timeout left) left

/-- The factories, all in one beat. -/
def factoryBeat (instant : Nat) (made : List (Nat × Except String Context)) : Beat :=
  made.foldl
    (fun acc m => acc.append (resultBeat instant "Context factory failed" (.factory m.1) m.1 m.2))
    { instant }

/-- The line that opens a resolution with deferred entries. -/
def openingLines (timeout count : Nat) : List Log.Line :=
  if count = 0 then []
  else [{ source := .resolver, level := .debug, message := "Resolving deferred contexts",
          fields := [Log.num "count" count, Log.num "timeout_ms" timeout] }]

/-- Adds lines before the first beat. -/
def withOpening (lines : List Log.Line) : List Beat → List Beat
  | [] => []
  | b :: bs => { b with lines := lines ++ b.lines } :: bs

/-- Runs the factories in the last beat. -/
def withFactories (made : List (Nat × Except String Context)) : List Beat → List Beat
  | [] => []
  | [b] => [b.append (factoryBeat b.instant made)]
  | b :: bs => b :: withFactories made bs

/-- A finished resolution. -/
structure Resolution where
  /-- The contexts, one per entry. -/
  contexts : List Context
  /-- What happened when. -/
  beats : List Beat

/-- How long the resolution took. -/
def Resolution.elapsed (r : Resolution) : Nat :=
  (r.beats.getLast?.map Beat.instant).getD 0

/-- Resolves a list of entries, starting at instant zero. -/
def resolve (timeout : Nat) (entries : List Entry) : Resolution :=
  let waiting := deferredEntries entries
  let beats := withFactories (factories entries)
    (withOpening (openingLines timeout waiting.length) (watch timeout (waiting.length + 1) 0 waiting))
  { contexts := fill (slots entries) (beats.flatMap Beat.settled), beats }

/-! ## Two lists side by side -/

/-- The parts that a list contributes to an instant. -/
def partsAt (instant : Nat) (beats : List Beat) : List Beat :=
  beats.filter fun b => b.instant == instant

/-- The beats of two lists resolved at once: at every instant both are looked at, and which of them
comes first alternates from instant to instant. -/
def pairBeats (first second : List Beat) : List Beat :=
  let times := ((first ++ second).map Beat.instant).mergeSort fun a b => decide (a ≤ b)
  times.eraseDups.zipIdx.map fun (t, turn) =>
    let parts := if turn % 2 = 0 then partsAt t first ++ partsAt t second
      else partsAt t second ++ partsAt t first
    parts.foldl Beat.append { instant := t }

end EventRelay.Resolve
