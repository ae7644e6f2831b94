import EventRelay.Proofs.Resolve.Slots
import EventRelay.Proofs.Run.Resolving
import EventRelay.Proofs.Run.Sequence

/-!
# How an event is put together

A tracker makes an event of a draft: its own contexts in front, then what the entries of the draft came
to, and then the plugins, one after the other.  It hands over a batch of this one event, and tells its
caller how that went.

* `Entry.given`, `Entry.fails` — what an entry gives itself, if it does not fail.
* `countP_isError_outcomes` — **an error context stands for an entry that failed, or was given as such**.
* `enrich_application_of_has`, `enrich_application_of_not` — what the plugin of the application does.
* `Submits` — the draft is resolved, and then the transport is asked, once.
* `sees_tracking` — **to track a draft is to submit its event**.
* `track_submits` — **the transport comes to be asked**, and the caller is told how that went.
* `event_assembly` — what a tracker makes of a draft, in every world.
-/

namespace EventRelay

/-! ## Error contexts -/

namespace Resolve

/-- The context that an entry gives itself; none if it fails or misses the limit. -/
def Entry.given (timeout : Nat) : Entry → Option Context
  | .value c => some c
  | .deferred delay result => if inTime timeout delay then result.toOption else none
  | .factory result => result.toOption

/-- The entry fails, or misses the limit. -/
def Entry.fails (timeout : Nat) (e : Entry) : Bool :=
  (e.given timeout).isNone

theorem contextOf_cases (result : Except String Context) :
    (∃ c, result.toOption = some c ∧ contextOf result = c) ∨
      (result.toOption = none ∧ (contextOf result).isError = true) := by
  cases result with
  | ok c => exact Or.inl ⟨c, rfl, rfl⟩
  | error text => exact Or.inr ⟨rfl, beq_self_eq_true _⟩

/-- An entry comes to what it gives, and to an error context if it fails. -/
theorem outcome_cases (timeout : Nat) (e : Entry) :
    (∃ c, e.given timeout = some c ∧ e.outcome timeout = c) ∨
      (e.given timeout = none ∧ (e.outcome timeout).isError = true) := by
  cases e with
  | value c => exact Or.inl ⟨c, rfl, rfl⟩
  | factory result => exact contextOf_cases result
  | deferred delay result =>
    rw [Entry.given, Entry.outcome]
    split
    · exact contextOf_cases result
    · exact Or.inr ⟨rfl, beq_self_eq_true _⟩

/-- **An error context stands for an entry that failed, or was given as such.** -/
theorem countP_isError_outcomes (timeout : Nat) (entries : List Entry) :
    (entries.map (Entry.outcome timeout)).countP Context.isError =
      entries.countP (Entry.fails timeout) +
        (entries.filterMap (Entry.given timeout)).countP Context.isError := by
  induction entries with
  | nil => rfl
  | cons e entries ih =>
    rw [List.map_cons, List.countP_cons, List.countP_cons, ih, Entry.fails]
    rcases outcome_cases timeout e with ⟨c, hgiven, houtcome⟩ | ⟨hgiven, herror⟩
    · rw [List.filterMap_cons_some hgiven, List.countP_cons, hgiven, houtcome]
      simp only [Option.isNone_some, Bool.false_eq_true, if_false]
      omega
    · rw [List.filterMap_cons_none hgiven, hgiven, herror]
      simp only [Option.isNone_none, if_true]
      omega

end Resolve

/-! ## The plugin of the application -/

/-- There is a context of the type and the id of the application. -/
def HasApplication (id : String) (globals : List Context) : Prop :=
  ∃ g ∈ globals, g.typeName = Context.applicationType ∧ g.id = id

theorem any_sameIdentity_application {id : String} {globals : List Context} :
    (globals.any fun g => g.sameIdentity (.application id)) = true ↔ HasApplication id globals := by
  simp only [List.any_eq_true, Context.sameIdentity, Bool.and_eq_true, beq_iff_eq]
  rfl

/-- Where the application is among the globals, the plugin changes nothing. -/
theorem enrich_application_of_has {id : String} {c : Contexts} (h : HasApplication id c.globals) :
    (Plugin.application id).enrich c = c :=
  if_pos (any_sameIdentity_application.2 h)

/-- Otherwise it adds it to their end. -/
theorem enrich_application_of_not {id : String} {c : Contexts} (h : ¬HasApplication id c.globals) :
    (Plugin.application id).enrich c = { c with globals := c.globals ++ [.application id] } :=
  if_neg (mt any_sameIdentity_application.1 h)

/-- It leaves the locations alone. -/
theorem locations_enrich_application (id : String) (c : Contexts) :
    ((Plugin.application id).enrich c).locations = c.locations := by
  by_cases h : HasApplication id c.globals
  · rw [enrich_application_of_has h]
  · rw [enrich_application_of_not h]

/-- The context of the application is no error context. -/
theorem isError_application (id : String) : (Context.application id).isError = false := by
  simp [Context.application, Context.isError, Context.applicationType, Context.errorType]

/-- So the plugin adds no error context. -/
theorem countP_isError_enrich_application (id : String) (c : Contexts) :
    ((Plugin.application id).enrich c).globals.countP Context.isError =
      c.globals.countP Context.isError := by
  by_cases h : HasApplication id c.globals
  · rw [enrich_application_of_has h]
  · rw [enrich_application_of_not h, List.countP_append, List.countP_singleton, isError_application]
    rfl

namespace Run

open Resolve

/-! ## Submitting an event -/

/-- What is written when the transport has been asked. -/
def closingLines (t : Tracker) (e : Event) : Arrival → List Log.Line
  | .ended (.ok ()) => [t.trackedLine e]
  | _ => []

/-- The draft is resolved, and then the transport is handed the batch of the one event, once, which
comes to `a`. -/
inductive Submits (w : World) (t : Tracker) (draft : Draft) (e : Event) (a : Arrival) :
    World → Prop
  /-- After the resolution, and the warning about contexts that failed, the transport is asked. -/
  | asked {w₁ w₂ : World}
      (hresolved : w.Sees (t.resolving draft (.finish (.ok ()))) (.ended (.ok ())) w₁)
      (hhandled : (w₁.notes (Tracker.failedLines e)).Sees (t.transport.handle (.single e)) a w₂) :
      Submits w t draft e a (w₂.notes (closingLines t e a))

theorem bind_notes (lines : List Log.Line) (d : Dialogue) (k : Outcome → Dialogue) :
    (Dialogue.notes lines d).bind k = .notes lines (d.bind k) := by
  induction lines with
  | nil => rfl
  | cons line lines ih => exact congrArg (Dialogue.note line) ih

theorem bind_followBeats (now : Nat) (beats : List Beat) (d : Dialogue) (k : Outcome → Dialogue) :
    (Tracker.followBeats now beats d).bind k = Tracker.followBeats now beats (d.bind k) := by
  induction beats generalizing now with
  | nil => rfl
  | cons b beats ih => rw [Tracker.followBeats, Dialogue.bind, bind_notes, ih, Tracker.followBeats]

/-- The resolution of a draft, and what comes behind it. -/
theorem resolving_eq_bind (t : Tracker) (draft : Draft) (next : Dialogue) :
    t.resolving draft next = (t.resolving draft (.finish (.ok ()))).bind fun _ => next := by
  rw [Tracker.resolving, Tracker.resolving, bind_followBeats]
  rfl

/-- What the tracker does when the transport has been asked. -/
theorem continues_sending {t : Tracker} {e : Event} {w₁ w' : World} {a₁ a : Arrival} :
    World.Continues (fun
      | .ok () => .note (t.trackedLine e) (.finish (.ok ()))
      | .error err => .finish (.error err)) w₁ a₁ a w' ↔
      a = a₁ ∧ w' = w₁.notes (closingLines t e a₁) := by
  cases a₁ with
  | ended o =>
    cases o with
    | ok u => exact (World.sees_notes [t.trackedLine e]).trans World.sees_finish
    | error err => exact World.sees_finish
  | _ => exact Iff.rfl

/-- **To track a draft is to submit its event.** -/
theorem sees_tracking {w w' : World} {t : Tracker} {draft : Draft} {e : Event} {a : Arrival} :
    w.Sees (t.resolving draft (t.sending e)) a w' ↔ Submits w t draft e a w' := by
  rw [resolving_eq_bind, World.sees_bind]
  constructor
  · rintro ⟨a₁, w₁, hresolved, hsent⟩
    obtain rfl := World.arrival_of_approaches (approaches_followBeats _ _ _) hresolved
    obtain ⟨a₂, w₂, hhandled, hend⟩ := World.sees_bind.1 ((World.sees_notes _).1 hsent)
    obtain ⟨rfl, rfl⟩ := continues_sending.1 hend
    exact .asked hresolved hhandled
  · rintro ⟨hresolved, hhandled⟩
    refine ⟨_, _, hresolved, (World.sees_notes _).2 (World.sees_bind.2 ?_)⟩
    exact ⟨a, _, hhandled, continues_sending.2 ⟨rfl, rfl⟩⟩

/-! ## In a world -/

/-- What the caller of a tracker is told when the transport has been asked. -/
def answer (e : Event) : Arrival → Except TrackerError (Option Event)
  | .ended o => told e o
  | _ => .error (.transport crashError)

theorem answer_eq_event {e : Event} {a : Arrival} :
    answer e a = .ok (some e) ↔ a = .ended (.ok ()) := by
  cases a with
  | ended o => rw [answer, told_eq_event, Arrival.ended.injEq]
  | _ => simp [answer]

section Submitting

variable {w w' : World} {t : Tracker} (id : EventId) (time : UInt64) {draft : Draft} {a : Arrival}
  (hactive : t.active = true) (husable : t.transport.usable w.usability = true)

include hactive husable

/-- What an active tracker with a usable transport calls. -/
theorem track_usable : t.track w.usability id time draft =
    .tracked (t.eventOf draft id time)
      (t.resolving draft (t.sending (t.eventOf draft id time))) := by
  rw [Tracker.track, hactive, husable]
  rfl

/-- **What the caller of a tracker is told** is how the transport has answered. -/
theorem track_of_submits (h : Submits w t draft (t.eventOf draft id time) a w') :
    w.track t id time draft = (answer (t.eventOf draft id time) a, w') := by
  have hsees := sees_tracking.2 h
  rw [World.track, track_usable id time hactive husable]
  dsimp only
  rcases hsees.cases with ⟨o, rfl⟩ | rfl
  · rw [World.talk_eq_some_iff.2 hsees]
    cases o with
    | ok u => rfl
    | error err => rfl
  · rw [hsees.talk_crashed]
    rfl

/-- The caller gets the event exactly if the transport has succeeded. -/
theorem track_eq_event_iff :
    (w.track t id time draft).1 = .ok (some (t.eventOf draft id time)) ↔
      ∃ w', Submits w t draft (t.eventOf draft id time) (.ended (.ok ())) w' := by
  constructor
  · intro hgiven
    rw [World.track, track_usable id time hactive husable] at hgiven
    dsimp only at hgiven
    generalize htalk : w.talk _ = result at hgiven
    obtain ⟨o?, w'⟩ := result
    have hok : o? = some (.ok ()) := by
      rcases o? with _ | (err | u)
      · cases hgiven
      · cases hgiven
      · rfl
    rw [hok] at htalk
    exact ⟨w', sees_tracking.1 (World.talk_eq_some_iff.1 htalk)⟩
  · rintro ⟨w', hsubmits⟩
    rw [track_of_submits id time hactive husable hsubmits]
    exact answer_eq_event.2 rfl

/-- Whatever goes on meanwhile, the transport is asked, and answers or crashes. -/
theorem track_submits {cs : Nat → Queue.Course} (hk : Kept w [] cs) :
    ∃ a, Submits w t draft (t.eventOf draft id time) a (w.track t id time draft).2 ∧
      (w.track t id time draft).1 = answer (t.eventOf draft id time) a := by
  obtain ⟨a, w', hsees⟩ :=
    World.exists_sees hk (t.resolving draft (t.sending (t.eventOf draft id time)))
  have hsubmits := sees_tracking.1 hsees
  rw [track_of_submits id time hactive husable hsubmits]
  exact ⟨a, hsubmits, rfl⟩

/-- Where nothing else goes on, it answers. -/
theorem track_submits_alone (hw : w.Steady) :
    ∃ o, Submits w t draft (t.eventOf draft id time) (.ended o) (w.track t id time draft).2 ∧
      (w.track t id time draft).1 = told (t.eventOf draft id time) o := by
  have hcalm : Dialogue.Calm (t.resolving draft (t.sending (t.eventOf draft id time))) :=
    calm_resolving (calm_sending t _)
  obtain ⟨o, w', -, htalk, -⟩ := World.seen_through hw hcalm
  have hsubmits := sees_tracking.1 (World.talk_eq_some_iff.1 htalk)
  rw [track_of_submits id time hactive husable hsubmits]
  exact ⟨o, hsubmits, rfl⟩

end Submitting

/-- Without another plugin the error contexts of an event are those that stand for failed entries, and
those that were given as such. -/
theorem length_errorContexts {t : Tracker} (ht : t.plugins = [.application t.applicationId])
    (draft : Draft) (id : EventId) (time : UInt64) :
    (t.eventOf draft id time).errorContexts.length =
      (draft.locations ++ draft.globals).countP (Entry.fails t.timeout) +
        ((t.locations ++ t.globals).countP Context.isError +
          ((draft.locations ++ draft.globals).filterMap (Entry.given t.timeout)).countP
            Context.isError) := by
  have hlocations := countP_isError_outcomes t.timeout draft.locations
  have hglobals := countP_isError_outcomes t.timeout draft.globals
  simp only [Tracker.eventOf, Tracker.contextsOf, Tracker.enrich, ht, List.foldl_cons,
    List.foldl_nil, Event.errorContexts, ← List.countP_eq_length_filter, List.countP_append,
    locations_enrich_application, countP_isError_enrich_application, contexts_resolve,
    List.filterMap_append]
  omega

/-- **How an event is put together.**  Take any tracker, with contexts and plugins of its own, which may
do anything to the contexts, and any draft, whatever its entries come to.

* While the tracker is inactive, or its transport is not usable, one line is written, and this is all
  that happens; whatever the entries are, none of them is run.
* The event has the type of the draft.  Its contexts are those that the plugins, in the order of their
  installation, make of the tracker's own contexts followed by what the entries came to, in both lists.
* An active tracker with a usable transport resolves the draft, which does nothing but write and wait,
  and then hands the batch of this one event to the transport, once.  The caller gets the event exactly
  if that went well.  After any history of a world in which nothing had happened, the transport does come
  to be asked, whatever goes on meanwhile, and the caller is told how that went; where nothing else goes
  on the transport answers and does not crash.
* If the plugin of the application is the only one, the location stack is left as it was, and so are the
  global contexts if one of them has the type and the id of the application; otherwise its context comes
  after them.  The error contexts are as many as entries have failed, and those which the tracker's own
  lists and the other entries brought with them. -/
theorem event_assembly (w : World) (t : Tracker) (id : EventId) (time : UInt64) (draft : Draft) :
    let e := t.eventOf draft id time
    let locations := t.locations ++ draft.locations.map (Entry.outcome t.timeout)
    let globals := t.globals ++ draft.globals.map (Entry.outcome t.timeout)
    let result := (w.track t id time draft).1
    let after := (w.track t id time draft).2
    (t.active = false → ∃ line, ∀ other : Draft, other.eventType = draft.eventType →
      w.track t id time other = (.ok none, w.note line)) ∧
    (t.active = true → t.transport.usable w.usability = false → ∃ line, ∀ other : Draft,
      w.track t id time other = (.error (.transport .notUsable), w.note line)) ∧
    (e.eventType = draft.eventType ∧
      (⟨e.locationStack, e.globalContexts⟩ : Contexts) =
        t.plugins.foldl (fun c p => p.enrich c) ⟨locations, globals⟩) ∧
    (t.active = true → t.transport.usable w.usability = true →
      (∀ next, Approaches next (t.resolving draft next)) ∧
      (result = .ok (some e) ↔ ∃ w', Submits w t draft e (.ended (.ok ())) w') ∧
      (∀ (start : World) before, start.Fresh → start.Possible before → w = start.follow before →
        ∃ a, Submits w t draft e a after ∧ result = answer e a) ∧
      (w.Steady → ∃ o, Submits w t draft e (.ended o) after ∧ result = told e o)) ∧
    (t.plugins = [.application t.applicationId] →
      e.locationStack = locations ∧
      (HasApplication t.applicationId globals → e.globalContexts = globals) ∧
      (¬HasApplication t.applicationId globals →
        e.globalContexts = globals ++ [.application t.applicationId]) ∧
      e.errorContexts.length =
        (draft.locations ++ draft.globals).countP (Entry.fails t.timeout) +
          ((t.locations ++ t.globals).countP Context.isError +
            ((draft.locations ++ draft.globals).filterMap (Entry.given t.timeout)).countP
              Context.isError)) := by
  intro e locations globals result after
  have hcontexts : (⟨e.locationStack, e.globalContexts⟩ : Contexts) =
      t.plugins.foldl (fun c p => p.enrich c) ⟨locations, globals⟩ := by
    simp only [e, locations, globals, Tracker.eventOf, Tracker.contextsOf, Tracker.enrich,
      contexts_resolve]
  refine ⟨fun hinactive => ?_, fun hactive hunusable => ?_, ⟨rfl, hcontexts⟩,
    fun hactive husable => ?_, fun honly => ?_⟩
  · apply Exists.intro
    intro other htype
    rw [World.track, Tracker.track, hinactive, htype]
    rfl
  · apply Exists.intro
    intro other
    rw [World.track, Tracker.track, hactive, hunusable]
    rfl
  · refine ⟨fun next => approaches_followBeats _ _ next,
      track_eq_event_iff id time hactive husable, ?_, track_submits_alone id time hactive husable⟩
    rintro start before hfresh hp rfl
    obtain ⟨cs, hkept, -⟩ := hfresh.kept
    obtain ⟨cs', hkept', -⟩ := kept_run hkept hp
    exact track_submits id time hactive husable hkept'
  · rw [honly, List.foldl_cons, List.foldl_nil] at hcontexts
    have hglobals : e.globalContexts = _ := congrArg Contexts.globals hcontexts
    refine ⟨(congrArg Contexts.locations hcontexts).trans (locations_enrich_application _ _),
      fun hhas => ?_, fun hnot => ?_, length_errorContexts honly draft id time⟩
    · rw [hglobals, enrich_application_of_has hhas]
    · rw [hglobals, enrich_application_of_not hnot]

/-! ## A draft with failures -/

/-- A collector, usable or not. -/
def kioskWorld (usable : Bool) : World :=
  { leaves := [{ scripted := true, name := "collector", usable }] }

/-- A tracker over that collector, with a location of its own. -/
def kioskTracker : Tracker :=
  { trackerId := "kiosk", applicationId := "kiosk", timeout := 5
    transport := .sink 0 "collector", plugins := [.application "kiosk"]
    locations := [{ typeName := "Section", id := "app" }] }

/-- A draft in which a factory and a deferred context fail, and an error context is given. -/
def kioskDraft : Draft :=
  { eventType := "PressEvent"
    locations := [.factory (.error "no camera")]
    globals := [.deferred (some 3) (.error "offline"), .value (.error "stale")] }

/-- The beats of its resolution. -/
def kioskBeats : List Beat :=
  [{ instant := 0, settled := [(0, .error "no camera")], ran := [.factory 0]
     lines := failureLine "Context factory failed" 0 "no camera" :: openingLines 5 1 },
    { instant := 3, settled := [(0, .error "offline")], ran := [.deferred 0]
      lines := [failureLine "Deferred context failed" 0 "offline"] }]

theorem resolving_kioskDraft (next : Dialogue) :
    kioskTracker.resolving kioskDraft next = Tracker.followBeats 0 kioskBeats next := by
  have hbeats : pairBeats (resolve 5 kioskDraft.locations).beats
      (resolve 5 kioskDraft.globals).beats = kioskBeats := by
    unfold pairBeats
    rw [List.mergeSort_of_pairwise (by decide +kernel)]
    rfl
  rw [← hbeats]
  rfl

theorem toBool_track_kiosk :
    ((kioskWorld true).track kioskTracker (.ofNat 1) 0 kioskDraft).1.toBool = true := by
  have htrack : kioskTracker.track (kioskWorld true).usability (.ofNat 1) 0 kioskDraft =
      .tracked (kioskTracker.eventOf kioskDraft (.ofNat 1) 0)
        (kioskTracker.resolving kioskDraft
          (kioskTracker.sending (kioskTracker.eventOf kioskDraft (.ofNat 1) 0))) := rfl
  rw [World.track, htrack, resolving_kioskDraft]
  simp only [World.talk]
  rw [World.run_eq_of_isSome 8 (by decide +kernel)]
  decide +kernel

/-- Two entries fail, so with the context that was given the event has three error contexts; the
application comes last.  The collector takes the event, and it is given to the caller. -/
theorem event_assembly_kiosk :
    let w := kioskWorld true
    let e := kioskTracker.eventOf kioskDraft (.ofNat 1) 0
    (∃ line, w.track { kioskTracker with active := false } (.ofNat 1) 0 kioskDraft =
      (.ok none, w.note line)) ∧
    (∃ line, (kioskWorld false).track kioskTracker (.ofNat 1) 0 kioskDraft =
      (.error (.transport .notUsable), (kioskWorld false).note line)) ∧
    (w.track kioskTracker (.ofNat 1) 0 kioskDraft).1 = .ok (some e) ∧
    (∃ w', Submits w kioskTracker kioskDraft e (.ended (.ok ())) w') ∧
    w.Fresh ∧ (∃ a, Submits w kioskTracker kioskDraft e a
      (w.track kioskTracker (.ofNat 1) 0 kioskDraft).2) ∧ w.Steady ∧
    e.locationStack = [{ typeName := "Section", id := "app" }, .error "no camera"] ∧
    e.globalContexts = [.error "offline", .error "stale", .application "kiosk"] ∧
    e.errorContexts.length = 2 + (0 + 1) := by
  intro w e
  have hsteady : w.Steady := by
    refine ⟨rfl, rfl, rfl, fun p hp n => ?_⟩
    cases List.mem_singleton.1 hp
    cases n with
    | zero => exact ⟨rfl, rfl⟩
    | succ n => exact ⟨rfl, rfl⟩
  have hfresh : w.Fresh := ⟨rfl, rfl, nofun⟩
  obtain ⟨hdropped, -⟩ :=
    event_assembly w { kioskTracker with active := false } (.ofNat 1) 0 kioskDraft
  obtain ⟨-, hrefused, -⟩ := event_assembly (kioskWorld false) kioskTracker (.ofNat 1) 0 kioskDraft
  obtain ⟨-, -, -, hsent, halone⟩ := event_assembly w kioskTracker (.ofNat 1) 0 kioskDraft
  obtain ⟨-, hiff, hasked, hanswers⟩ := hsent rfl rfl
  obtain ⟨a, hsubmits, -⟩ := hasked w [] hfresh trivial rfl
  obtain ⟨hlocations, -, hglobals, herrors⟩ := halone rfl
  have hnone : ¬HasApplication "kiosk" [.error "offline", .error "stale"] := by
    rw [← any_sameIdentity_application]
    decide
  obtain ⟨line, hdropped⟩ := hdropped rfl
  obtain ⟨line', hrefused⟩ := hrefused rfl rfl
  -- the result is not an error, and so it is not that of a failed call
  have hnot := toBool_track_kiosk
  obtain ⟨o, -, htold⟩ := hanswers hsteady
  have hresult : (w.track kioskTracker (.ofNat 1) 0 kioskDraft).1 = .ok (some e) := by
    rw [htold] at hnot ⊢
    cases o with
    | ok u => rfl
    | error err => cases hnot
  exact ⟨⟨line, hdropped kioskDraft rfl⟩, ⟨line', hrefused kioskDraft⟩, hresult, hiff.1 hresult,
    hfresh, ⟨a, hsubmits⟩, hsteady, hlocations, hglobals hnone, herrors⟩

end Run

end EventRelay
