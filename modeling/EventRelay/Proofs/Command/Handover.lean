import EventRelay.Proofs.Command.Pending
import EventRelay.Proofs.Run.Posting

/-!
# The event of a command

The contexts given on a command line are there from the start, so that a draft made of them is
resolved at once.  The event is handed to the queue in the first turn of the call; the runner of the
queue was stopped before, and storing an event does not start it again.

* `resolve_values` — contexts that are there are resolved to themselves.
* `eventFor`, `eventOf_draftOf` — the event that a command tracks.
* `track_stopped` — **the event is stored, and nothing else happens**.
-/

namespace EventRelay.Command

open Run

/-! ## The draft -/

/-- Contexts that are there are resolved to themselves, in one beat. -/
theorem resolve_values (timeout : Nat) (contexts : List Context) :
    Resolve.resolve timeout (contexts.map .value) = { contexts, beats := [{ instant := 0 }] } := by
  have hentry : ∀ p ∈ (contexts.map Resolve.Entry.value).zipIdx, ∃ c, p.1 = .value c := by
    intro p hp
    obtain ⟨c, -, hc⟩ := List.mem_map.1 (List.fst_mem_of_mem_zipIdx hp)
    exact ⟨c, hc.symm⟩
  have hdeferred : Resolve.deferredEntries (contexts.map .value) = [] := by
    refine List.filterMap_eq_nil_iff.2 fun p hp => ?_
    obtain ⟨entry, index⟩ := p
    obtain ⟨c, rfl⟩ := hentry _ hp
    rfl
  have hmade : Resolve.factories (contexts.map .value) = [] := by
    refine List.filterMap_eq_nil_iff.2 fun p hp => ?_
    obtain ⟨entry, index⟩ := p
    obtain ⟨c, rfl⟩ := hentry _ hp
    rfl
  have hslots : Resolve.slots (contexts.map .value) = contexts := by
    rw [Resolve.slots, List.map_map]
    exact List.map_id contexts
  simp only [Resolve.resolve, hdeferred, hmade, hslots]
  rfl

/-- A draft made of such contexts is resolved at once. -/
theorem resolving_draftOf (t : Tracker) (eventType : String) (locations globals : List Context)
    (next : Dialogue) :
    t.resolving (draftOf eventType locations globals) next = .pause (.ms 0) next := by
  have hbeats : Resolve.pairBeats [{ instant := 0 }] [{ instant := 0 }] = [{ instant := 0 }] := by
    unfold Resolve.pairBeats
    rw [List.mergeSort_of_pairwise (by decide)]
    rfl
  simp only [Tracker.resolving, draftOf, resolve_values, hbeats]
  rfl

/-- The event that a command tracks: the given contexts, and the context of the application unless it
is one of them. -/
def eventFor (config : Config.Settings) (id : EventId) (time : UInt64) (eventType : String)
    (locations globals : List Context) : Event :=
  let application := Context.application config.tracker.applicationId
  { eventType, id, time
    locationStack := locations
    globalContexts :=
      if globals.any fun g => g.sameIdentity application then globals
      else globals ++ [application] }

theorem eventOf_draftOf (config : Config.Settings) (transport : Transport) (id : EventId)
    (time : UInt64) (eventType : String) (locations globals : List Context) :
    (Tracker.ofSettings config.tracker transport).eventOf (draftOf eventType locations globals) id
        time =
      eventFor config id time eventType locations globals := by
  simp only [Tracker.eventOf, Tracker.contextsOf, Tracker.enrich, Tracker.ofSettings, draftOf,
    resolve_values, List.nil_append, List.foldl_cons, List.foldl_nil, Plugin.application, eventFor]
  split
  · rfl
  · rfl

/-! ## The hand-over -/

/-- Storing an event in a queue whose runner was stopped. -/
theorem idles_enqueue {w : World} {d : Depot} (hd : w.depots[0]? = some d)
    (hstopped : d.queue.stopped = true) {e : Event} {store : Store}
    (hwrite : d.queue.store.write [e] = .ok store) :
    (w.enqueue 0 [e]).1 = .ok () ∧
      (w.setQueue 0 { d.queue with store }).Idles (w.enqueue 0 [e]).2 := by
  have hpush : d.queue.push [e] = .ok { d.queue with store } := by
    rw [Queue.push, hwrite]
    rfl
  have hwants : ({ d.queue with store } : Queue).wantsRunner = false := by
    simp [Queue.wantsRunner, hstopped]
  simp only [World.enqueue, hd, hpush, hwants, Bool.false_eq_true, if_false]
  exact ⟨trivial, World.idles_note _ _⟩

/-- Handing an event over to such a queue. -/
theorem advance_sending_stopped {t : Tracker} {delivery : Transport}
    (ht : t.transport = .group [.queued 0 delivery, .debug]) {w : World} {d : Depot}
    (hd : w.depots[0]? = some d) (hstopped : d.queue.stopped = true) {e : Event} {store : Store}
    (hwrite : d.queue.store.write [e] = .ok store) :
    ∃ w', advance (t.sending e) w = (.done (.ok ()), w') ∧
      (w.setQueue 0 { d.queue with store }).Idles w' := by
  have hlines : (w.notes (Tracker.failedLines e)).depots[0]? = some d := by
    rw [(w.same_notes _).depots]
    exact hd
  obtain ⟨hok, hstored⟩ := idles_enqueue hlines hstopped hwrite
  have hbefore : (w.setQueue 0 { d.queue with store }).Idles
      ((w.notes (Tracker.failedLines e)).setQueue 0 { d.queue with store }) := by
    have hidle := w.idles_notes (Tracker.failedLines e)
    refine ⟨⟨hidle.same.now, ?_, hidle.same.ready, hidle.same.sleeping⟩, hidle.leaves,
      hidle.collector⟩
    simp only [World.setQueue, hidle.same.depots]
  rw [Tracker.sending, advance_notes, ht, advance_group, hok]
  refine ⟨_, rfl, hbefore.trans (hstored.trans ?_)⟩
  exact (World.idles_note _ _).trans ((World.idles_note _ _).trans (World.idles_note _ _))

/-- **The event is stored, and nothing else happens.** -/
theorem track_stopped {config : Config.Settings} {delivery : Transport} {t : Tracker}
    (ht : t = .ofSettings config.tracker (.group [.queued 0 delivery, .debug])) {w : World}
    {d : Depot} (hd : w.depots[0]? = some d) (hstopped : d.queue.stopped = true) {id : EventId}
    {time : UInt64} {eventType : String} {locations globals : List Context} {store : Store}
    (hwrite : d.queue.store.write [eventFor config id time eventType locations globals] =
      .ok store) :
    ∃ w', w.track t id time (draftOf eventType locations globals) =
        (.ok (some (eventFor config id time eventType locations globals)), w') ∧
      (w.setQueue 0 { d.queue with store }).Idles w' := by
  have htransport : t.transport = .group [.queued 0 delivery, .debug] := by rw [ht]; rfl
  have hactive : t.active = true := by rw [ht]; rfl
  have hevent : t.eventOf (draftOf eventType locations globals) id time =
      eventFor config id time eventType locations globals := by
    rw [ht]
    exact eventOf_draftOf config _ id time eventType locations globals
  obtain ⟨w', hsent, hidle⟩ := advance_sending_stopped htransport hd hstopped hwrite
  refine ⟨w', ?_, hidle⟩
  generalize eventFor config id time eventType locations globals = e at *
  have hresume : resume (.ofDialogue (.pause (.ms 0) (t.sending e))) w = (.done (.ok ()), w') := by
    rw [Running.ofDialogue, resume, if_pos (Nat.zero_le _), advance]
    exact hsent
  have htalk : w.talk (.pause (.ms 0) (t.sending e)) = (some (.ok ()), w') := by
    refine World.talk_eq_some_iff.2 (World.sees_iff_reaches.2 (.last ?_))
    rw [World.awaitNext, Errand.turn, hresume]
  simp only [World.track, track_active htransport hactive, hevent, resolving_draftOf, htalk]

end EventRelay.Command
