import EventRelay.Proofs.Run.Clockwork
import EventRelay.Proofs.Run.Deliveries
import EventRelay.Run.Track

/-!
# Tracking into a queue

A tracker whose transport is a group of a queue and the debug sink: the draft is resolved, which takes
its time, and then the event is handed over, in one turn of the call.

* `Approaches` — a call does nothing but write and wait until it comes to something.
* `HandsOver` — what the hand-over comes to: it succeeds exactly if the store accepts the event, which
  then is the last one stored; otherwise it has changed no queue and no task.
* `advance_sending` — **a group of a queue and the debug sink hands over** so.
* `World.Underway`, `reaches_underway` — what is left of a call after a history in which it took turns
  among others; **to wait for a call is to follow such a history**.
* `World.Retains` — from here on the event is stored, or its batch was handled with success.
* `TrackingTurn`, `trackingTurn_of_underway` — what **every turn of a tracker's call** can come to.
* `tracked_event_is_queued` — **a tracked event is a queued event**, and stays one until it is
  delivered.
-/

namespace EventRelay.Run

open Queue

/-! ## On the way -/

/-- The call does nothing but write and wait until it comes to `next`. -/
inductive Approaches (next : Dialogue) : Dialogue → Prop
  /-- It has come there. -/
  | here : Approaches next next
  /-- It writes a line. -/
  | note {d : Dialogue} (line : Log.Line) (h : Approaches next d) : Approaches next (.note line d)
  /-- It waits. -/
  | pause {d : Dialogue} (span : Span) (h : Approaches next d) : Approaches next (.pause span d)

theorem Approaches.notes {next d : Dialogue} (h : Approaches next d) (lines : List Log.Line) :
    Approaches next (.notes lines d) := by
  induction lines with
  | nil => exact h
  | cons line lines ih => exact .note line ih

/-- So does the resolution of contexts. -/
theorem approaches_followBeats (now : Nat) (beats : List Resolve.Beat) (next : Dialogue) :
    Approaches next (Tracker.followBeats now beats next) := by
  induction beats generalizing now with
  | nil => exact .here
  | cons b beats ih => exact .pause _ ((ih b.instant).notes b.lines)

/-- On its way a call leaves queues and tasks alone, until it gets there or has to wait. -/
theorem advance_of_approaches {next d : Dialogue} (h : Approaches next d) (w : World) :
    ∃ w', w.Same w' ∧ (advance d w = advance next w' ∨
      ∃ alarm d', Approaches next d' ∧ advance d w = (.asleep alarm d', w')) := by
  induction h generalizing w with
  | here => exact ⟨w, .refl w, Or.inl rfl⟩
  | note line h ih =>
    obtain ⟨w', hsame, hnext⟩ := ih (w.note line)
    rw [advance]
    exact ⟨w', (w.same_note line).trans hsame, hnext⟩
  | pause span h ih =>
    rw [advance]
    split
    · exact ih w
    · refine ⟨(w.setAlarm (w.now + span.onClock)).2, ⟨rfl, rfl, rfl, rfl⟩, Or.inr ?_⟩
      exact ⟨_, _, h, rfl⟩

theorem advance_notes (lines : List Log.Line) (d : Dialogue) (w : World) :
    advance (.notes lines d) w = advance d (w.notes lines) := by
  induction lines generalizing w with
  | nil => rfl
  | cons line lines ih =>
    have hcons : advance (.notes (line :: lines) d) w = advance (.notes lines d) (w.note line) := by
      rw [Dialogue.notes, List.foldr_cons, advance]
      rfl
    rw [hcons, ih]
    rfl

theorem World.same_notes (w : World) (lines : List Log.Line) : w.Same (w.notes lines) := by
  induction lines generalizing w with
  | nil => exact .refl w
  | cons line lines ih => exact (w.same_note line).trans (ih (w.note line))

/-! ## The hand-over -/

/-- The event is handed over to the queue `n`, which is `d`, and `success` says that this succeeds. -/
structure HandsOver (w : World) (n : Nat) (d : Depot) (e : Event) (success : Prop) (w' : World) :
    Prop where
  /-- It succeeds exactly if the store accepts the event. -/
  accepted : success ↔ ∃ store, d.queue.store.write [e] = .ok store
  /-- If it succeeds, the event is the last one that is stored. -/
  stored : success →
    ∃ d', w'.depots[n]? = some d' ∧ d'.queue.store.events = d.queue.store.events ++ [e]
  /-- If it does not, queues and tasks are as before. -/
  unchanged : ¬success → w.Same w'

theorem HandsOver.of_same {w w₀ w' : World} {n : Nat} {d : Depot} {e : Event} {success : Prop}
    (h : HandsOver w₀ n d e success w') (hsame : w.Same w₀) : HandsOver w n d e success w' :=
  ⟨h.accepted, h.stored, fun hfailed => hsame.trans (h.unchanged hfailed)⟩

/-- Storing an event in a queue. -/
theorem enqueue_single {w : World} {n : Nat} {d : Depot} (hd : w.depots[n]? = some d) (e : Event) :
    (∃ err, (w.enqueue n [e]).1 = .error err ∧ d.queue.store.write [e] = .error err ∧
      (w.enqueue n [e]).2 = w) ∨
    ∃ store d', (w.enqueue n [e]).1 = .ok () ∧ d.queue.store.write [e] = .ok store ∧
      (w.enqueue n [e]).2.depots[n]? = some d' ∧
      d'.queue.store.events = d.queue.store.events ++ [e] := by
  cases hwrite : d.queue.store.write [e] with
  | error err =>
    have hpush : d.queue.push [e] = .error err := by
      rw [Queue.push, hwrite]
      rfl
    exact Or.inl ⟨err, by simp only [World.enqueue, hd, hpush], rfl,
      by simp only [World.enqueue, hd, hpush]⟩
  | ok store =>
    have hpush : d.queue.push [e] = .ok { d.queue with store } := by
      rw [Queue.push, hwrite]
      rfl
    have hok : (w.enqueue n [e]).1 = .ok () := by
      simp only [World.enqueue, hd, hpush]
    have hevents : store.events = d.queue.store.events ++ [e] := Store.events_write hwrite
    rcases World.enqueue_cases hd [e] with ⟨err, herr, -⟩ | ⟨q, hq, ⟨-, hsame⟩ | ⟨-, hsame⟩⟩
    · rw [hpush] at herr
      cases herr
    · rw [hpush] at hq
      cases hq
      obtain ⟨_, _, _, _, _, hstart⟩ := ({ d.queue with store } : Queue).start_frame w.tasks
      refine Or.inr ⟨store, _, hok, rfl, World.depot_edit hd hsame, ?_⟩
      rw [hstart]
      exact hevents
    · rw [hpush] at hq
      cases hq
      exact Or.inr ⟨store, _, hok, rfl, World.depot_edit hd hsame, hevents⟩

/-- What the queue of a group has to tell. -/
def storedOutcome : Except StorageError Unit → Outcome
  | .ok () => .ok ()
  | .error err => .error (.ofStorage err)

/-- The call of a group of a queue and the debug sink stores the event, and goes on in the same turn. -/
theorem advance_group (n : Nat) (delivery : Transport) (e : Event) (k : Outcome → Dialogue)
    (w : World) :
    advance ((Transport.handle (.single e) (.group [.queued n delivery, .debug])).bind k) w =
      advance ((Transport.settleGroup [(Transport.queued n delivery).name, "debug"] (.single e)
        [storedOutcome (w.enqueue n [e]).1, .ok ()]).bind k)
        ((w.enqueue n [e]).2.note (Transport.debugLine e)) := by
  have hqueue : advance (Transport.handle (.single e) (.queued n delivery)) w =
      (.done (storedOutcome (w.enqueue n [e]).1), (w.enqueue n [e]).2) := by
    rw [Transport.handle, advance]
    show advance (match (w.enqueue n [e]).1 with
      | .ok () => .finish (.ok ())
      | .error err => .finish (.error (.ofStorage err))) (w.enqueue n [e]).2 = _
    cases (w.enqueue n [e]).1 with
    | ok u => rw [advance]; rfl
    | error err => rw [advance]; rfl
  have hdebug : ∀ w : World, advance (Transport.handle (.single e) .debug) w =
      (.done (.ok ()), w.note (Transport.debugLine e)) := by
    intro w
    rw [Transport.handle, advance_notes, advance]
    rfl
  have hparts : advanceAll [Transport.handle (.single e) (.queued n delivery),
      Transport.handle (.single e) .debug] w =
      (some [.done (storedOutcome (w.enqueue n [e]).1), .done (.ok ())],
        (w.enqueue n [e]).2.note (Transport.debugLine e)) := by
    rw [advanceAll, hqueue]
    simp only [advanceAll, hdebug, Option.map_some]
  rw [Transport.handle, Dialogue.bind, advance]
  simp only [Transport.usableNames, Transport.handleUsable, Transport.usable, if_true, Dialogue.bind]
  rw [advance, hparts]
  simp only [Running.outcomes?, Option.map_some]
  rfl

/-- A group of which only the first member can have failed ends as that member has, and so does what
follows. -/
theorem advance_settleGroup (name : String) (b : Batch) (o : Outcome) {k : Outcome → Dialogue}
    (hok : ∃ line, k (.ok ()) = .note line (.finish (.ok ())))
    (herr : ∀ err, k (.error err) = .finish (.error err)) (w : World) :
    ∃ outcome w', advance ((Transport.settleGroup [name, "debug"] b [o, .ok ()]).bind k) w =
      (.done outcome, w') ∧ w.Same w' ∧ (outcome = .ok () ↔ o = .ok ()) := by
  obtain ⟨line, hline⟩ := hok
  cases o with
  | ok u =>
    obtain ⟨told, htold⟩ : ∃ told, Transport.settleGroup [name, "debug"] b [.ok u, .ok ()] =
        .note told (.finish (.ok ())) := ⟨_, rfl⟩
    refine ⟨.ok (), (w.note told).note line, ?_, (w.same_note _).trans (World.same_note _ _),
      by simp⟩
    simp only [htold, Dialogue.bind, hline, advance]
  | error err =>
    obtain ⟨told, failed, htold⟩ : ∃ told failed,
        Transport.settleGroup [name, "debug"] b [.error err, .ok ()] =
          .note told (.finish (.error failed)) := ⟨_, _, rfl⟩
    refine ⟨.error failed, w.note told, ?_, w.same_note _, by simp⟩
    simp only [htold, Dialogue.bind, herr, advance]

/-- **A group of a queue and the debug sink hands an event over**: the call ends in the same turn. -/
theorem advance_sending {t : Tracker} {n : Nat} {delivery : Transport}
    (ht : t.transport = .group [.queued n delivery, .debug]) (e : Event) (w : World) :
    ∃ outcome w', advance (t.sending e) w = (.done outcome, w') ∧
      ∀ d, w.depots[n]? = some d → HandsOver w n d e (outcome = .ok ()) w' := by
  -- what the tracker does with the outcome of its transport
  obtain ⟨k, hsending, hok, herr⟩ : ∃ k, t.sending e =
      .notes (Tracker.failedLines e) ((t.transport.handle (.single e)).bind k) ∧
      (∃ line, k (.ok ()) = .note line (.finish (.ok ()))) ∧
      ∀ err, k (.error err) = .finish (.error err) := ⟨_, rfl, ⟨_, rfl⟩, fun _ => rfl⟩
  rw [hsending, advance_notes, ht, advance_group]
  generalize hw₀ : w.notes (Tracker.failedLines e) = w₀
  have hsame : w.Same w₀ := hw₀ ▸ w.same_notes _
  have hstored := fun d (hd : w₀.depots[n]? = some d) => enqueue_single hd e
  generalize w₀.enqueue n [e] = result at hstored ⊢
  obtain ⟨result, w₁⟩ := result
  obtain ⟨outcome, w', hadvance, hend, hiff⟩ := advance_settleGroup
    (Transport.queued n delivery).name (.single e) (storedOutcome result) hok herr
    (w₁.note (Transport.debugLine e))
  have hlines : w₁.Same w' := (w₁.same_note _).trans hend
  refine ⟨outcome, w', hadvance, fun d hd => ?_⟩
  rcases hstored d (by rwa [hsame.depots]) with
    ⟨err, rfl, hwrite, rfl⟩ | ⟨store, d', rfl, hwrite, hd', hlast⟩
  · have hfailed : outcome ≠ .ok () := fun h => nomatch hiff.1 h
    refine ⟨iff_of_false hfailed ?_, fun h => absurd h hfailed, fun _ => hsame.trans hlines⟩
    rintro ⟨store, hstore⟩
    rw [hwrite] at hstore
    cases hstore
  · have hsucceeded : outcome = .ok () := hiff.2 rfl
    refine ⟨iff_of_true hsucceeded ⟨store, hwrite⟩, fun _ => ⟨d', ?_, hlast⟩,
      fun hfailed => absurd hsucceeded hfailed⟩
    rwa [hlines.depots]

/-! ## The turns of a call -/

/-- After the history, in which the call has taken turns among other things, this is left of it. -/
inductive World.Underway (w : World) (call : Dialogue) : List Happening → Running → Prop
  /-- It has not begun. -/
  | begun : Underway w call [] (.ofDialogue call)
  /-- Something else happens. -/
  | meanwhile {hs : List Happening} {r : Running} (h : Underway w call hs r) (x : Happening) :
      Underway w call (hs ++ [x]) r
  /-- It takes a turn, and has to wait. -/
  | waited {hs : List Happening} {r r' : Running} {w' : World} (h : Underway w call hs r)
      (hturn : (Errand.talk r).turn (w.follow hs) = (.error (.talk r'), w')) :
      Underway w call (hs ++ [.errand (.talk r)]) r'

/-- What a turn of a call can come to. -/
theorem turn_talk_cases (r : Running) (w : World) :
    (∃ r' w', (Errand.talk r).turn w = (.error (.talk r'), w')) ∨
      ∃ arrival w', (Errand.talk r).turn w = (.ok arrival, w') := by
  rw [Errand.turn]
  split
  · exact Or.inr ⟨_, _, rfl⟩
  · exact Or.inr ⟨_, _, rfl⟩
  · exact Or.inl ⟨_, _, rfl⟩

/-- **To wait for a call is to follow a history in which it takes turns**, and its last turn is the end
of the wait. -/
theorem reaches_underway {w w' : World} {call : Dialogue} {arrival : Arrival} {woken : Bool}
    {hs : List Happening} {r : Running} (h : w.Underway call hs r) (hp : w.Possible hs)
    (hends : World.Reaches (some arrival, w') woken (w.follow hs) (.talk r)) :
    ∃ hs' r', w.Possible hs' ∧ w.Underway call hs' r' ∧
      (Errand.talk r').turn (w.follow hs') = (.ok arrival, w') := by
  generalize hw₀ : w.follow hs = w₀ at hends
  generalize he : Errand.talk r = e at hends
  induction hends generalizing hs r with
  | @last woken w₀ e hover =>
    subst hw₀ he
    cases World.next_of_awaitNext hover with
    | ends hturn => exact ⟨hs, r, hp, h, hturn⟩
  | @next woken woken' w₀ w₁ e e' hnext _ ih =>
    subst hw₀ he
    cases World.next_of_awaitNext hnext with
    | waits hturn =>
      rcases turn_talk_cases r (w.follow hs) with ⟨r', w₂, hwaits⟩ | ⟨arrival', w₂, hlast⟩
      · cases hwaits.symm.trans hturn
        refine ih (.waited h hwaits) (World.possible_append.2 ⟨hp, rfl, trivial⟩) ?_ rfl
        rw [World.follow_concat, World.happen, hwaits]
      · cases hlast.symm.trans hturn
    | task =>
      exact ih (.meanwhile h .turn) (World.possible_append.2 ⟨hp, rfl, trivial⟩)
        (World.follow_concat w hs .turn) rfl
    | wakes => exact ih h hp rfl rfl
    | @clock alarm hready _ hfirst =>
      have hclock := World.possible_clock hready hfirst
      exact ih (.meanwhile h _) (World.possible_append.2 ⟨hp, hclock, trivial⟩)
        (World.follow_concat w hs _) rfl

/-- To see a call through is to follow such a history as well. -/
theorem sees_underway {w w' : World} {call : Dialogue} {arrival : Arrival}
    (h : w.Sees call arrival w') :
    ∃ hs r, w.Possible hs ∧ w.Underway call hs r ∧
      (Errand.talk r).turn (w.follow hs) = (.ok arrival, w') := by
  have hbegun : w.Underway call [] (.ofDialogue call) := .begun
  exact reaches_underway hbegun trivial (World.sees_iff_reaches.1 h)

/-- A turn of a call on its way: it leaves queues and tasks alone and waits, or it has got there. -/
theorem turn_of_approaches {next d : Dialogue} (h : Approaches next d) (alarm : Alarm) (w : World) :
    (∃ alarm' d' w', (Errand.talk (.asleep alarm d)).turn w =
        (.error (.talk (.asleep alarm' d')), w') ∧ Approaches next d' ∧ w.Same w') ∨
      ∃ w', w.Same w' ∧ resume (.asleep alarm d) w = advance next w' := by
  by_cases hdue : alarm.instant ≤ w.now
  · have hresume : resume (.asleep alarm d) w = advance d w := by rw [resume, if_pos hdue]
    obtain ⟨w', hsame, hthere | ⟨alarm', d', hway, hwaits⟩⟩ := advance_of_approaches h w
    · exact Or.inr ⟨w', hsame, hresume.trans hthere⟩
    · refine Or.inl ⟨alarm', d', w', ?_, hway, hsame⟩
      rw [Errand.turn, hresume, hwaits]
  · have hresume : resume (.asleep alarm d) w = (.asleep alarm d, w) := by rw [resume, if_neg hdue]
    refine Or.inl ⟨alarm, d, w, ?_, h, .refl w⟩
    rw [Errand.turn, hresume]

/-- What is left of a call on its way to something that ends in one turn is on its way there. -/
theorem approaches_of_underway {next call : Dialogue}
    (hends : ∀ w, ∃ outcome w', advance next w = (.done outcome, w')) (hway : Approaches next call)
    {w : World} {hs : List Happening} {r : Running} (h : w.Underway call hs r) :
    ∃ alarm d, r = .asleep alarm d ∧ Approaches next d := by
  induction h with
  | begun => exact ⟨_, _, rfl, hway⟩
  | meanwhile h x ih => exact ih
  | @waited hs r r' w' h hturn ih =>
    obtain ⟨alarm, d, rfl, hway⟩ := ih
    rcases turn_of_approaches hway alarm (w.follow hs) with
      ⟨alarm', d', w₁, hwaits, hway', -⟩ | ⟨w₁, -, hthere⟩
    · cases hwaits.symm.trans hturn
      exact ⟨alarm', d', rfl, hway'⟩
    · obtain ⟨outcome, w₂, hlast⟩ := hends w₁
      rw [Errand.turn, hthere, hlast] at hturn
      cases hturn

/-- What the caller of a tracker is told. -/
def told (e : Event) : Outcome → Except TrackerError (Option Event)
  | .ok () => .ok (some e)
  | .error err => .error (.transport err)

theorem told_eq_event {e : Event} {outcome : Outcome} :
    told e outcome = .ok (some e) ↔ outcome = .ok () := by
  cases outcome with
  | ok u => simp [told]
  | error err => simp [told]

section Pipeline

variable {t : Tracker} {n : Nat} {delivery : Transport}
  (ht : t.transport = .group [.queued n delivery, .debug])

include ht

/-- **A turn of a tracker's call** leaves queues and tasks alone and waits, or it is the last one and
hands the event over. -/
theorem turn_tracking {e : Event} {d : Dialogue} (h : Approaches (t.sending e) d) (alarm : Alarm)
    (w : World) :
    (∃ alarm' d' w', (Errand.talk (.asleep alarm d)).turn w =
        (.error (.talk (.asleep alarm' d')), w') ∧ Approaches (t.sending e) d' ∧ w.Same w') ∨
      ∃ outcome w', (Errand.talk (.asleep alarm d)).turn w = (.ok (.ended outcome), w') ∧
        ∀ d, w.depots[n]? = some d → HandsOver w n d e (outcome = .ok ()) w' := by
  rcases turn_of_approaches h alarm w with hwaits | ⟨w₀, hsame, hthere⟩
  · exact Or.inl hwaits
  · obtain ⟨outcome, w', hend, hover⟩ := advance_sending ht e w₀
    refine Or.inr ⟨outcome, w', ?_, fun d hd => (hover d ?_).of_same hsame⟩
    · rw [Errand.turn, hthere, hend]
    · rwa [hsame.depots]

/-- What is left of a tracker's call is on its way to the hand-over. -/
theorem tracking_of_underway {w : World} {draft : Draft} {e : Event} {hs : List Happening}
    {r : Running} (h : w.Underway (t.resolving draft (t.sending e)) hs r) :
    ∃ alarm d, r = .asleep alarm d ∧ Approaches (t.sending e) d := by
  refine approaches_of_underway (fun w => ?_) (approaches_followBeats _ _ _) h
  obtain ⟨outcome, w', hends, -⟩ := advance_sending ht e w
  exact ⟨outcome, w', hends⟩

/-- With such a transport an active tracker sends. -/
theorem track_active (hactive : t.active = true) (u : Usability) (id : EventId) (time : UInt64)
    (draft : Draft) :
    t.track u id time draft = .tracked (t.eventOf draft id time)
      (t.resolving draft (t.sending (t.eventOf draft id time))) := by
  have husable : t.transport.usable u = true := by
    simp [ht, Transport.usable, Transport.anyUsable]
  simp [Tracker.track, hactive, husable]

/-- **Tracking a draft** follows a history up to the hand-over, and ends with it. -/
theorem track_hands_over (hactive : t.active = true) {w : World} {cs : Nat → Course}
    (hk : Kept w [] cs) (id : EventId) (time : UInt64) (draft : Draft) :
    let e := t.eventOf draft id time
    ∃ during r outcome, w.Possible during ∧
      w.Underway (t.resolving draft (t.sending e)) during r ∧
      (Errand.talk r).turn (w.follow during) =
        (.ok (.ended outcome), (w.track t id time draft).2) ∧
      (w.track t id time draft).1 = told e outcome := by
  intro e
  obtain ⟨arrival, w', hsees⟩ := World.exists_sees hk (t.resolving draft (t.sending e))
  obtain ⟨during, r, hp, hunder, hturn⟩ := sees_underway hsees
  obtain ⟨alarm, d, rfl, hway⟩ := tracking_of_underway ht hunder
  rw [World.track, track_active ht hactive]
  dsimp only
  -- the call is on its way, and ends with the hand-over and in no other way
  rcases turn_tracking ht hway alarm (w.follow during) with
    ⟨_, _, _, hwaits, -⟩ | ⟨outcome, _, hends, -⟩
  · cases hwaits.symm.trans hturn
  · cases hends.symm.trans hturn
    rw [World.talk_eq_some_iff.2 hsees]
    refine ⟨during, _, outcome, hp, hunder, ?_⟩
    cases outcome with
    | ok u => exact ⟨hends, rfl⟩
    | error err => exact ⟨hends, rfl⟩

end Pipeline

/-! ## From then on -/

/-- From here on, whatever happens, the event is stored in the queue or the transport of the queue has
handled a batch with its id with success. -/
def World.Retains (w : World) (n : Nat) (e : Event) : Prop :=
  ∀ after, w.Possible after → (w.follow after).Holds n e ∨
    ∃ batch, e.id ∈ batch.ids ∧ w.Handled n batch (.ok ()) after

/-- What a history of a fresh world has stored is retained. -/
theorem World.Fresh.retains {w : World} (hw : w.Fresh) {hs : List Happening} (hp : w.Possible hs)
    {n : Nat} {e : Event} (he : (w.follow hs).Holds n e) : (w.follow hs).Retains n e := by
  obtain ⟨cs, hkept, -⟩ := hw.kept
  obtain ⟨cs', hkept', -⟩ := kept_run hkept hp
  intro after hafter
  exact stored_or_handled hkept' (laden_follow hkept hw.laden hp) he hafter

/-- What a turn of the call that tracks an event into the queue `n`, which is `d`, can come to. -/
inductive TrackingTurn (w : World) (n : Nat) (d : Depot) (e : Event) (r : Running) : Prop
  /-- The call has to wait, and has changed no queue and no task. -/
  | waits {r' : Running} {w' : World}
      (hturn : (Errand.talk r).turn w = (.error (.talk r'), w')) (hsame : w.Same w')
  /-- The call has ended with the hand-over, and what was stored is retained. -/
  | last {outcome : Outcome} {w' : World}
      (hturn : (Errand.talk r).turn w = (.ok (.ended outcome), w'))
      (hover : HandsOver w n d e (outcome = .ok ()) w')
      (hretains : outcome = .ok () → w'.Retains n e)

section Pipeline

variable {w : World} {n : Nat} {t : Tracker} {delivery : Transport} {before during : List Happening}
  {draft : Draft} {e : Event} {r : Running} {d d₀ : Depot}

/-- **Every turn of a tracker's call**, in every history. -/
theorem trackingTurn_of_underway (hw : w.Fresh)
    (ht : t.transport = .group [.queued n delivery, .debug]) (hb : w.Possible before)
    (hp : (w.follow before).Possible during)
    (hunder : (w.follow before).Underway (t.resolving draft (t.sending e)) during r)
    (hd : ((w.follow before).follow during).depots[n]? = some d) :
    TrackingTurn ((w.follow before).follow during) n d e r := by
  obtain ⟨alarm, dialogue, rfl, hway⟩ := tracking_of_underway ht hunder
  rcases turn_tracking ht hway alarm ((w.follow before).follow during) with
    ⟨alarm', d', w', hwaits, -, hsame⟩ | ⟨outcome, w', hends, hover⟩
  · exact .waits hwaits hsame
  · refine .last hends (hover d hd) fun hok => ?_
    obtain ⟨d', hd', hlast⟩ := (hover d hd).stored hok
    have hholds : w'.Holds n e := ⟨d', hd', by simp [hlast]⟩
    -- the world after the hand-over is that of a history
    let all := before ++ (during ++ [.errand (.talk (.asleep alarm dialogue))])
    have hfollow : w' = w.follow all := by
      rw [World.follow_append, World.follow_concat, World.happen, hends]
    have hall : w.Possible all :=
      World.possible_append.2 ⟨hb, World.possible_append.2 ⟨hp, rfl, trivial⟩⟩
    rw [hfollow] at hholds ⊢
    exact hw.retains hall hholds

/-- An inactive tracker drops the draft. -/
theorem track_inactive (hinactive : t.active = false) (w : World) (id : EventId) (time : UInt64)
    (draft : Draft) : (w.track t id time draft).1 = .ok none ∧
      w.Same (w.track t id time draft).2 := by
  rw [World.track, Tracker.track, hinactive]
  exact ⟨rfl, w.same_note _⟩

/-- **Tracking a draft**, at the end of a history. -/
theorem track_retains (hw : w.Fresh) (hn : w.depots[n]? = some d₀)
    (ht : t.transport = .group [.queued n delivery, .debug]) (hb : w.Possible before)
    (hactive : t.active = true) (id : EventId) (time : UInt64) (draft : Draft) :
    let e := t.eventOf draft id time
    let tracked := (w.follow before).track t id time draft
    ∃ during d, (w.follow before).Possible during ∧
      ((w.follow before).follow during).depots[n]? = some d ∧
      HandsOver ((w.follow before).follow during) n d e (tracked.1 = .ok (some e)) tracked.2 ∧
      (tracked.1 = .ok (some e) → tracked.2.Retains n e) ∧
      ∃ outcome, tracked.1 = told e outcome := by
  intro e tracked
  obtain ⟨cs, hkept, -⟩ := hw.kept
  obtain ⟨cs', hkept', -⟩ := kept_run hkept hb
  obtain ⟨during, r, outcome, hp, hunder, hturn, htold⟩ :=
    track_hands_over ht hactive hkept' id time draft
  obtain ⟨d, hd⟩ := (w.exists_depot_follow (before ++ during) n).2 ⟨d₀, hn⟩
  rw [World.follow_append] at hd
  have hiff : (tracked.1 = .ok (some e)) = (outcome = .ok ()) := by
    rw [show tracked.1 = told e outcome from htold, told_eq_event]
  refine ⟨during, d, hp, hd, ?_⟩
  rw [hiff]
  cases trackingTurn_of_underway hw ht hb hp hunder hd with
  | waits hwaits hsame => cases hwaits.symm.trans hturn
  | last hends hover hretains =>
    cases hends.symm.trans hturn
    exact ⟨hover, hretains, outcome, htold⟩

end Pipeline

/-- **A tracked event is a queued event.**  Take any world in which nothing has happened yet, any
history of it, a tracker whose transport is a group of one of its queues and the debug sink, and any
draft that is tracked then.  Whatever the transport of the queue is, usable or not:

* An inactive tracker gives no event, and changes no queue and no task.
* An active one resolves the draft while the world goes on.  At the end of that the event is handed
  over, and this is the end of the call: it gives the event exactly if the store accepts it, which
  then is the last one stored; otherwise queues and tasks are as before the hand-over.
* An event that was given is stored from then on, or the queue's transport has handled a batch with
  its id with success.
* The same holds if anything else happens while the call is under way: each turn of the call changes
  no queue and no task, or it is the last one and hands over as said. -/
theorem tracked_event_is_queued {w : World} (hw : w.Fresh) {n : Nat} {d₀ : Depot}
    (hn : w.depots[n]? = some d₀) {t : Tracker} {delivery : Transport}
    (ht : t.transport = .group [.queued n delivery, .debug]) {before : List Happening}
    (hb : w.Possible before) (id : EventId) (time : UInt64) (draft : Draft) :
    let start := w.follow before
    let e := t.eventOf draft id time
    let result := (start.track t id time draft).1
    let after := (start.track t id time draft).2
    (t.active = false → result = .ok none ∧ start.Same after) ∧
    (t.active = true → (∃ outcome, result = told e outcome) ∧ ∃ during d, start.Possible during ∧
      (start.follow during).depots[n]? = some d ∧
      HandsOver (start.follow during) n d e (result = .ok (some e)) after) ∧
    (result = .ok (some e) → after.Retains n e) ∧
    ∀ during r d, start.Possible during →
      start.Underway (t.resolving draft (t.sending e)) during r →
      (start.follow during).depots[n]? = some d → TrackingTurn (start.follow during) n d e r := by
  intro start e result after
  refine ⟨fun hinactive => track_inactive hinactive start id time draft, fun hactive => ?_,
    fun hresult => ?_, fun during r d hp hunder hd => trackingTurn_of_underway hw ht hb hp hunder hd⟩
  · obtain ⟨during, d, hp, hd, hover, -, htold⟩ := track_retains hw hn ht hb hactive id time draft
    exact ⟨htold, during, d, hp, hd, hover⟩
  · cases hactive : t.active with
    | false =>
      have hdropped := (track_inactive hactive start id time draft).1
      rw [show (start.track t id time draft).1 = _ from hresult] at hdropped
      cases hdropped
    | true =>
      obtain ⟨during, d, -, -, -, hretains, -⟩ := track_retains hw hn ht hb hactive id time draft
      exact hretains hresult

/-! ## An outage -/

/-- A queue whose collector is not usable. -/
def outageWorld : World :=
  { leaves := [{ scripted := true, name := "collector", usable := false }]
    depots := [{ queue := .ofStore { batchSize := 1, batchDelay := 2, concurrency := 1 } {}
                 delivery := .sink 0 "collector" }] }

/-- A tracker over that queue and the debug sink. -/
def outageTracker : Tracker :=
  { trackerId := "shop", applicationId := "shop", timeout := 5, plugins := [.application "shop"]
    transport := .group [.queued 0 (.sink 0 "collector"), .debug] }

/-- A draft with a context that takes three milliseconds. -/
def slowDraft : Draft :=
  { eventType := "PressEvent"
    globals := [.deferred (some 3) (.ok { typeName := "Section", id := "menu" })] }

/-- The beats of its resolution. -/
def slowBeats : List Resolve.Beat :=
  [{ instant := 0, lines := Resolve.openingLines 5 1 },
    { instant := 3, settled := [(0, { typeName := "Section", id := "menu" })], ran := [.deferred 0] }]

theorem resolving_slowDraft (next : Dialogue) :
    outageTracker.resolving slowDraft next = Tracker.followBeats 0 slowBeats next := by
  have hbeats : Resolve.pairBeats (Resolve.resolve 5 []).beats
      (Resolve.resolve 5 slowDraft.globals).beats = slowBeats := by
    unfold Resolve.pairBeats
    rw [List.mergeSort_of_pairwise (by decide +kernel)]
    rfl
  rw [← hbeats]
  rfl

/-- An event is stored, and the runner has ticked in vain. -/
def outageStart : List Happening :=
  [.push 0 [sampleEvent 1] true, .turn]

/-- And then the store fails to write. -/
def outageFull : List Happening :=
  outageStart ++ [.faults 0 { write := true }]

theorem toBool_track_outage :
    ((outageWorld.follow outageStart).track outageTracker (.ofNat 2) 0 slowDraft).1.toBool = true ∧
    ((outageWorld.follow outageFull).track outageTracker (.ofNat 2) 0 slowDraft).1.toBool =
      false := by
  constructor
  · rw [World.track, track_active rfl rfl, resolving_slowDraft]
    simp only [World.talk]
    rw [World.run_eq_of_isSome 12 (by decide +kernel)]
    decide +kernel
  · rw [World.track, track_active rfl rfl, resolving_slowDraft]
    simp only [World.talk]
    rw [World.run_eq_of_isSome 12 (by decide +kernel)]
    decide +kernel

/-- While the draft is resolved the runner ticks again; then the event is stored, and retained.  If
the store fails to write, the caller is told so. -/
theorem tracked_event_is_queued_outage :
    outageWorld.Fresh ∧ outageWorld.Possible outageStart ∧ outageWorld.Possible outageFull ∧
      ((outageWorld.follow outageStart).track outageTracker (.ofNat 2) 0 slowDraft).1 =
        .ok (some (outageTracker.eventOf slowDraft (.ofNat 2) 0)) ∧
      ((outageWorld.follow outageStart).track outageTracker (.ofNat 2) 0 slowDraft).2.Retains 0
        (outageTracker.eventOf slowDraft (.ofNat 2) 0) ∧
      ∃ err, ((outageWorld.follow outageFull).track outageTracker (.ofNat 2) 0 slowDraft).1 =
        .error (.transport err) := by
  have hw : outageWorld.Fresh := by
    refine ⟨rfl, rfl, fun d hd => ?_⟩
    cases List.mem_singleton.1 hd
    exact ⟨_, _, rfl⟩
  have hp : outageWorld.Possible outageStart := ⟨rfl, rfl, trivial⟩
  have hp' : outageWorld.Possible outageFull := ⟨rfl, rfl, rfl, trivial⟩
  have hn : outageWorld.depots[0]? = some _ := rfl
  obtain ⟨hstored, hrefused⟩ := toBool_track_outage
  obtain ⟨-, hactive, hretains, -⟩ :=
    tracked_event_is_queued hw hn (t := outageTracker) rfl hp (.ofNat 2) 0 slowDraft
  obtain ⟨-, hactive', -⟩ :=
    tracked_event_is_queued hw hn (t := outageTracker) rfl hp' (.ofNat 2) 0 slowDraft
  obtain ⟨⟨outcome, htold⟩, -⟩ := hactive rfl
  obtain ⟨⟨outcome', htold'⟩, -⟩ := hactive' rfl
  have hok : outcome = .ok () := by
    cases outcome with
    | ok u => rfl
    | error err =>
      rw [htold] at hstored
      cases hstored
  rw [hok] at htold
  refine ⟨hw, hp, hp', htold, hretains htold, ?_⟩
  cases outcome' with
  | ok u =>
    rw [htold'] at hrefused
    cases hrefused
  | error err => exact ⟨err, htold'⟩

end EventRelay.Run
