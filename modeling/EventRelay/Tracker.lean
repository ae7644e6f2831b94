import EventRelay.Config.Settings
import EventRelay.Resolve
import EventRelay.Transport.Handle

/-!
# The tracker

A tracker turns a draft into an event and hands it to its transport.  It resolves the two context
lists of the draft side by side, puts its own contexts in front, lets its plugins amend the result in
installation order, and sends a batch of the one event.

An inactive tracker drops drafts, and with an unusable transport nothing is resolved or sent.
-/

namespace EventRelay

/-- The two context lists of an event. -/
structure Contexts where
  /-- The location stack. -/
  locations : List Context := []
  /-- The global contexts. -/
  globals : List Context := []

/-- Something that amends the contexts of every event. -/
structure Plugin where
  /-- Its name. -/
  name : String
  /-- What it does. -/
  enrich : Contexts → Contexts

/-- Adds the context of the application to the global contexts, unless it is there already. -/
def Plugin.application (id : String) : Plugin where
  name := "application-context"
  enrich c :=
    if c.globals.any fun g => g.sameIdentity (.application id) then c
    else { c with globals := c.globals ++ [.application id] }

/-- An event in the making. -/
structure Draft where
  /-- What happened. -/
  eventType : String
  /-- Where. -/
  locations : List Resolve.Entry := []
  /-- Further contexts. -/
  globals : List Resolve.Entry := []

/-- A tracker. -/
structure Tracker where
  /-- Its id. -/
  trackerId : String
  /-- The id of the tracked application. -/
  applicationId : String
  /-- Where events go. -/
  transport : Transport
  /-- The time limit of deferred contexts. -/
  timeout : Nat
  /-- Contexts in front of the location stack of every event. -/
  locations : List Context := []
  /-- Contexts in front of the global contexts of every event. -/
  globals : List Context := []
  /-- The plugins, in installation order. -/
  plugins : List Plugin
  /-- Is it active? -/
  active : Bool := true

namespace Tracker

/-- A tracker over a transport, with the application plugin installed. -/
def ofSettings (s : Config.TrackerSettings) (transport : Transport) : Tracker :=
  { trackerId := s.trackerId, applicationId := s.applicationId, transport
    timeout := s.promiseTimeout, plugins := [.application s.applicationId] }

/-- Contexts after all plugins. -/
def enrich (t : Tracker) (c : Contexts) : Contexts :=
  t.plugins.foldl (fun c p => p.enrich c) c

/-- The contexts of the event made from a draft. -/
def contextsOf (t : Tracker) (d : Draft) : Contexts :=
  t.enrich
    { locations := t.locations ++ (Resolve.resolve t.timeout d.locations).contexts
      globals := t.globals ++ (Resolve.resolve t.timeout d.globals).contexts }

/-- The event made from a draft. -/
def eventOf (t : Tracker) (d : Draft) (id : EventId) (time : UInt64) : Event :=
  let c := t.contextsOf d
  { eventType := d.eventType, id, time, locationStack := c.locations, globalContexts := c.globals }

/-! ## Tracking -/

/-- Waits for every beat in turn, from the given instant on, and writes its lines. -/
def followBeats (now : Nat) (beats : List Resolve.Beat) (next : Dialogue) : Dialogue :=
  match beats with
  | [] => next
  | b :: bs => .pause (.ms (b.instant - now)) (.notes b.lines (followBeats b.instant bs next))

/-- The resolution of both lists of a draft. -/
def resolving (t : Tracker) (d : Draft) (next : Dialogue) : Dialogue :=
  followBeats 0 (Resolve.pairBeats (Resolve.resolve t.timeout d.locations).beats
    (Resolve.resolve t.timeout d.globals).beats) next

/-- The warning about contexts that could not be resolved. -/
def failedLines (e : Event) : List Log.Line :=
  if e.errorContexts.isEmpty then []
  else [{ source := .tracker, level := .warn, message := "Event tracked with unresolved contexts",
          fields := [Log.str "event_type" e.eventType, Log.str "event_id" e.id.text,
            Log.num "failed_contexts" e.errorContexts.length] }]

/-- The line about an event that was handed over. -/
def trackedLine (t : Tracker) (e : Event) : Log.Line :=
  { source := .tracker, level := .debug, message := "Tracked event",
    fields := [Log.str "tracker_id" t.trackerId, Log.str "event_type" e.eventType, Log.str "event_id" e.id.text] }

/-- Hands an event to the transport. -/
def sending (t : Tracker) (e : Event) : Dialogue :=
  .notes (failedLines e) ((t.transport.handle (.single e)).bind fun
    | .ok () => .note (t.trackedLine e) (.finish (.ok ()))
    | .error err => .finish (.error err))

/-- What tracking a draft comes to. -/
inductive Tracking where
  /-- The tracker is inactive. -/
  | dropped (line : Log.Line)
  /-- The transport is not usable. -/
  | refused (line : Log.Line)
  /-- An event, and the call that resolves and sends it. -/
  | tracked (event : Event) (call : Dialogue)

/-- Tracks a draft; the event gets the given id and time. -/
def track (t : Tracker) (u : Usability) (id : EventId) (time : UInt64) (d : Draft) : Tracking :=
  if !t.active then
    .dropped { source := .tracker, level := .debug, message := "Tracker inactive, event dropped",
               fields := [Log.str "event_type" d.eventType] }
  else if !t.transport.usable u then
    .refused { source := .tracker, level := .warn, message := "Transport not usable, event not tracked",
               fields := [Log.str "tracker_id" t.trackerId, Log.str "transport" t.transport.name] }
  else
    let e := t.eventOf d id time
    .tracked e (t.resolving d (t.sending e))

end Tracker

end EventRelay
