import EventRelay.Proofs.Command.Printing
import EventRelay.Proofs.Run.Flushing
import EventRelay.Proofs.Store.Refinement

/-!
# Commands one after another

The program is used again and again with one configuration, and each time the slot of the tracker is
opened anew.  The numbers that a command prints come from different places: the report of a flush, the
list that the store holds, the list that is loaded.  They always agree.

* `Visit` — one use of the program; `Visit.Truthful` — what it prints is true of the events that were
  pending before and that are pending after it.
* `flushWorld_truthful` — what `queue flush` and `track` have in common.
* `sound_queue`, `sound_track`, `Visit.sound` — **one use of the program is truthful**, and what it leaves
  lets the next one be.
* `account_across_commands` — **every use in a sequence is truthful**.
-/

namespace EventRelay.Command

open Run Store

/-! ## Using the program -/

/-- One use of the program: what is asked, the id and the time of an event made for it, and the
collector as it is then. -/
structure Visit where
  /-- What is asked. -/
  request : Request
  /-- The id of an event made for it. -/
  id : EventId
  /-- The time of that event. -/
  time : UInt64
  /-- The collector. -/
  collector : Collector

namespace Visit

/-- What is printed, and what is left behind. -/
def run (config : Config.Settings) (s : Surroundings) (v : Visit) : Result × Surroundings :=
  execute config { s with collector := v.collector } v.id v.time v.request

/-- What several uses of the program leave behind. -/
def runAll (config : Config.Settings) (s : Surroundings) (visits : List Visit) : Surroundings :=
  visits.foldl (fun s v => (v.run config s).2) s

/-- The event that is tracked, if one is. -/
def tracked (config : Config.Settings) (v : Visit) : List Event :=
  match v.request with
  | .queue _ => []
  | .track eventType locations globals =>
    [eventFor config v.id v.time eventType locations globals]

end Visit

/-- The events have been flushed, and the line gives the numbers: of batches, and of events that were
delivered, that have failed and that remain.  The numbers and what is pending now follow from what the
collector has accepted in the meantime. -/
def Flushed (config : Config.Settings) (events : List Event) (collector : Collector) (line : String)
    (s : Surroundings) : Prop :=
  ∃ (r : Queue.Report) (requests : List (String × Batch)),
    let n := (pending config s).length
    line =
      s!"Flushed {r.batches} batch(es): {r.delivered} delivered, {r.failed} failed, {n} remaining" ∧
    collector.Hears requests s.collector ∧
    Queue.Account config.queue.delivery.normalized.batchSize events
      (acceptedOf collector.replies requests) r (pending config s)

/-- What was printed and left behind is true of what was pending and what is pending now.  Whether a
configuration is valid matters to `track` only, which refuses to work with one that is not. -/
def Visit.Truthful (config : Config.Settings) (s : Surroundings) (v : Visit) (result : Result)
    (s' : Surroundings) : Prop :=
  let before := pending config s
  let after := pending config s'
  match v.request with
  | .queue .stats =>
    result = .ok s!"Queue {slotName config}: {before.length} pending event(s)" ∧ after = before
  | .queue (.list limit) =>
    result = .ok (Report.list (limit.elim before before.take) before.length) ∧ after = before
  | .queue .clear =>
    result = .ok s!"Cleared {before.length} pending event(s)" ∧ after = []
  | .queue .flush =>
    ∃ line, result = .ok line ∧ Flushed config before v.collector line s'
  | .track eventType locations globals =>
    let e := eventFor config v.id v.time eventType locations globals
    let place := Location.path locations
    let unresolved := e.errorContexts.length
    (config.violations s.place.dataDirectory = [] →
      ∃ line, Flushed config (before ++ [e]) v.collector line s' ∧
        result = .ok (s!"Tracked {eventType} {v.id.text}" ++
          (if place.isEmpty then "" else s!" at {place}") ++
          (if unresolved = 0 then "" else s!" ({unresolved} unresolved context(s))") ++
          "\n" ++ line)) ∧
    (config.violations s.place.dataDirectory ≠ [] →
      (∃ error, result = .error error) ∧ after = before)

/-- One use of the program is truthful, and what it leaves behind is no reason why the next one
should not be. -/
structure Visit.Sound (config : Config.Settings) (s : Surroundings) (v : Visit)
    (r : Result × Surroundings) : Prop where
  /-- It is truthful. -/
  truthful : v.Truthful config s r.1 r.2
  /-- The surroundings are alike. -/
  alike : s.Alike r.2
  /-- Nothing is pending that was not before, and that was not tracked. -/
  sublist : (pending config r.2).Sublist (pending config s ++ v.tracked config)

/-- The collector is not asked about what was pending. -/
theorem Visit.Sound.of_collector {config : Config.Settings} {s : Surroundings} {v : Visit}
    {collector : Collector} {r : Result × Surroundings} (h : v.Sound config { s with collector } r) :
    v.Sound config s r :=
  ⟨h.truthful, ⟨h.alike.dataDirectory, h.alike.files⟩, h.sublist⟩

section Steps

variable {config : Config.Settings} {path endpoint : String} {s : Surroundings}
  {kind : Event → Prop}

/-! ## Flushing -/

/-- **A flush prints what is true**, and so does the command that it is part of. -/
theorem flushWorld_truthful (hs : Serviceable config path endpoint s)
    (hcodec : ∀ es, (∀ e ∈ es, kind e) → Event.parseList (Event.listText es) = .ok es)
    {start : Queue.Course} (hstart : start.Ready)
    (hsettings : start.queue.settings = config.queue.delivery.normalized)
    (hstore : start.queue.store.Backed kind (slotName config)) {w : World}
    (hdepots : w.depots = [⟨start.queue, relay config.retry.policy endpoint⟩])
    (hready : w.ready = []) (hsleeping : w.sleeping = []) (hu : w.usability 0 = true) :
    ∃ line w', flushWorld w = (.ok line, w') ∧
      Flushed config start.queue.store.events w.collector line (s.afterWorld (some path) w') ∧
      s.Alike (s.afterWorld (some path) w') ∧
      (pending config (s.afterWorld (some path) w')).Sublist start.queue.store.events := by
  have hkept : ∀ (store store' : Store) ids, store.Backed kind (slotName config) →
      store.delete ids = .ok store' → store'.Backed kind (slotName config) :=
    fun _ _ _ hbacked hdelete => hbacked.delete hcodec hdelete
  obtain ⟨report, q, w', requests, hflush, hdepots', hq, hheard, haccount⟩ :=
    flush_relayed hkept hs.addressed hstart hstore hdepots hready hsleeping hu
  obtain ⟨hpending, halike, hcollector⟩ := hs.pending_afterWorld hdepots' hq
  refine ⟨_, w', by rw [flushWorld, hflush], ⟨report, requests, ?_, ?_, ?_⟩, halike, ?_⟩
  · have hremaining : remaining w' = q.store.events.length := by
      rw [remaining, hdepots']
      rfl
    rw [hpending, hremaining]
    rfl
  · rw [hcollector]
    exact hheard
  · rw [hpending, ← hsettings]
    exact haccount
  · rw [hpending]
    exact haccount.sublist

/-- The queue that is made from what was found. -/
theorem makeQueue_eq (hs : Serviceable config path endpoint s) (store : Store) :
    Pipeline.makeQueue config.queue.delivery store =
      .ok (Queue.ofStore config.queue.delivery store) := by
  rw [Pipeline.makeQueue, if_pos hs.permits]

theorem delivery?_eq (hs : Serviceable config path endpoint s) :
    Pipeline.delivery? config = some (relay config.retry.policy endpoint) := by
  rw [Pipeline.delivery?, hs.collector]
  rfl

/-- The queue of the configured tracker on a store, with its way to the collector. -/
def depotOn (config : Config.Settings) (endpoint : String) (store : Store) : Depot :=
  ⟨.ofStore config.queue.delivery store, relay config.retry.policy endpoint⟩

/-- The store that is made from what was found. -/
def storeFound (config : Config.Settings) (path : String) (s : Surroundings) : Store :=
  .ofSlot (s.database path) ⟨slotName config, pending config s⟩

theorem backed_storeFound (hs : Serviceable config path endpoint s)
    (hkind : ∀ e ∈ pending config s, kind e) :
    (storeFound config path s).Backed kind (slotName config) := by
  rw [storeFound]
  rw [hs.pending_eq] at hkind ⊢
  exact backed_ofSlot hkind

/-! ## The commands about the queue -/

/-- The surroundings after the slot was opened. -/
def opened (config : Config.Settings) (path : String) (s : Surroundings) : Surroundings :=
  (s.save path (s.database path)).notes
    (Slot.loadLines (s.database path) ⟨slotName config, pending config s⟩)

theorem pending_opened (hs : Serviceable config path endpoint s) :
    pending config (opened config path s) = pending config s := by
  have hsaved := hs.pending_save (s.database path)
  rw [← hs.pending_eq] at hsaved
  exact hsaved

theorem alike_opened : s.Alike (opened config path s) := ⟨rfl, rfl⟩

/-- Reading everything gives the first events. -/
theorem select_true (limit : Option Nat) (events : List Event) :
    Store.select limit (fun _ => true) events = limit.elim events events.take := by
  cases limit with
  | none => exact List.filter_true events
  | some n => exact congrArg (List.take n) (List.filter_true events)

/-- What a command does with what it finds. -/
theorem runQueue_eq (hs : Serviceable config path endpoint s) (action : QueueAction) :
    runQueue config s action =
      match action with
      | .stats => (.ok (Report.stats (slotName config) (pending config s).length),
          opened config path s)
      | .list limit => (.ok (Report.list (limit.elim (pending config s) (pending config s).take)
          (pending config s).length), opened config path s)
      | .flush => flushSlot config (opened config path s) path (s.database path)
          ⟨slotName config, pending config s⟩
      | .clear => clearSlot (opened config path s) path (s.database path)
          ⟨slotName config, pending config s⟩ := by
  simp only [runQueue, hs.place, hs.openSlot, ← hs.pending_eq, select_true]
  rfl

theorem clearSlot_eq (hs : Serviceable config path endpoint s) (db : Database)
    (events : List Event) :
    ∃ s', clearSlot s path db ⟨slotName config, events⟩ = (.ok (Report.cleared events.length), s') ∧
      s.Alike s' ∧ pending config s' = [] := by
  refine ⟨_, rfl, ⟨rfl, rfl⟩, ?_⟩
  refine (hs.pending_save (db.drop (slotName config))).trans ?_
  rw [Slot.stored, Database.get?_drop_self]
  rfl

/-- What a flush does with what was found. -/
theorem flushSlot_eq (hs : Serviceable config path endpoint s) (db : Database) (events : List Event) :
    flushSlot config s path db ⟨slotName config, events⟩ =
      let (result, w) :=
        flushWorld (s.world [depotOn config endpoint (.ofSlot db ⟨slotName config, events⟩)])
      (result, s.afterWorld (some path) w) := by
  simp only [flushSlot, delivery?_eq hs, makeQueue_eq hs, depotOn]

theorem flushSlot_truthful (hs : Serviceable config path endpoint s)
    (hcodec : ∀ es, (∀ e ∈ es, kind e) → Event.parseList (Event.listText es) = .ok es)
    {db : Database} {events : List Event} (hnd : (events.map Event.id).Nodup)
    (hstore : (Store.ofSlot db ⟨slotName config, events⟩).Backed kind (slotName config)) :
    ∃ line s', flushSlot config s path db ⟨slotName config, events⟩ = (.ok line, s') ∧
      Flushed config events s.collector line s' ∧ s.Alike s' ∧
      (pending config s').Sublist events := by
  let store := Store.ofSlot db ⟨slotName config, events⟩
  have hready : (Queue.Course.begin config.queue.delivery store).Ready :=
    ⟨⟨_, _, [], rfl⟩, rfl, rfl, rfl, rfl, List.forall_mem_nil _, hnd⟩
  obtain ⟨line, w', hflush, hflushed, halike, hsub⟩ := flushWorld_truthful hs hcodec hready rfl
    hstore (w := s.world [depotOn config endpoint store]) rfl rfl rfl rfl
  refine ⟨line, _, ?_, hflushed, halike, hsub⟩
  simp only [flushSlot_eq hs, store] at hflush ⊢
  rw [hflush]

/-- **A command about the queue** is truthful. -/
theorem sound_queue (hs : Serviceable config path endpoint s)
    (hcodec : ∀ es, (∀ e ∈ es, kind e) → Event.parseList (Event.listText es) = .ok es)
    (hkind : ∀ e ∈ pending config s, kind e) (hnd : ((pending config s).map Event.id).Nodup)
    (action : QueueAction) (id : EventId) (time : UInt64) :
    Visit.Sound config s ⟨.queue action, id, time, s.collector⟩ (runQueue config s action) := by
  have hopened := pending_opened hs
  have hsame : (pending config (opened config path s)).Sublist (pending config s ++ []) := by
    rw [hopened]
    exact List.sublist_append_left _ _
  rw [runQueue_eq hs]
  cases action with
  | stats => exact ⟨⟨rfl, hopened⟩, alike_opened, hsame⟩
  | list limit => exact ⟨⟨rfl, hopened⟩, alike_opened, hsame⟩
  | clear =>
    obtain ⟨s', hclear, halike, hnone⟩ :=
      clearSlot_eq (hs.alike alike_opened) (s.database path) (pending config s)
    dsimp only
    rw [hclear]
    refine ⟨⟨rfl, hnone⟩, alike_opened.trans halike, ?_⟩
    rw [hnone]
    exact List.nil_sublist _
  | flush =>
    obtain ⟨line, s', hflush, hflushed, halike, hsub⟩ :=
      flushSlot_truthful (hs.alike alike_opened) hcodec hnd (backed_storeFound hs hkind)
    dsimp only
    rw [hflush]
    exact ⟨⟨line, rfl, hflushed⟩, alike_opened.trans halike,
      hsub.trans (List.sublist_append_left _ _)⟩

/-! ## Tracking -/

/-- What the tracker hands its event to. -/
def trackedTo (config : Config.Settings) (endpoint : String) : Transport :=
  .group [.queued 0 (relay config.retry.policy endpoint), .debug]

/-- What is written in the log while the tracker is built. -/
def buildLines (config : Config.Settings) (path endpoint : String) (s : Surroundings) :
    List Log.Line :=
  Slot.loadLines (s.database path) ⟨slotName config, pending config s⟩ ++
    [Pipeline.pipelineLine "Assembled tracker pipeline"
      [Log.str "transport" (trackedTo config endpoint).name,
        Log.num "pending" (storeFound config path s).size]]

/-- A valid configuration is built as it says, with the queue on what was found. -/
theorem build_eq (hs : Serviceable config path endpoint s)
    (hvalid : config.violations s.place.dataDirectory = [])
    (hpersistent : config.queue.store = .persistent) :
    Tracker.build config s.place = .ok
      { tracker := .ofSettings config.tracker (trackedTo config endpoint)
        depot := some (depotOn config endpoint (storeFound config path s))
        lines := buildLines config path endpoint s } := by
  have hstore : Pipeline.openStore config s.place =
      .ok (storeFound config path s,
        Slot.loadLines (s.database path) ⟨slotName config, pending config s⟩) := by
    simp only [Pipeline.openStore, hpersistent, hs.place, storeFound]
    rw [Json.bind_ok hs.openSlot, ← hs.pending_eq]
    rfl
  have hbuilt : Pipeline.build config s.place = .ok
      { transport := trackedTo config endpoint
        depot := some (depotOn config endpoint (storeFound config path s))
        lines := buildLines config path endpoint s } := by
    simp only [Pipeline.build, delivery?_eq hs, hstore]
    rw [Json.bind_ok (makeQueue_eq hs _)]
    rfl
  simp only [Tracker.build, hvalid]
  rw [Json.bind_ok hbuilt]
  rfl

/-- Any other is refused. -/
theorem build_refused (hinvalid : config.violations s.place.dataDirectory ≠ []) :
    ∃ e, Tracker.build config s.place = .error e := by
  unfold Tracker.build
  split
  · rename_i hnone
    exact absurd hnone hinvalid
  · exact ⟨_, rfl⟩

/-- What `track` does with what it finds. -/
theorem runTrack_eq (hs : Serviceable config path endpoint s)
    (hvalid : config.violations s.place.dataDirectory = [])
    (hpersistent : config.queue.store = .persistent) (id : EventId) (time : UInt64) (d : Draft) :
    runTrack config s id time d =
      let noted := s.notes (buildLines config path endpoint s)
      let (result, w) := trackInWorld (.ofSettings config.tracker (trackedTo config endpoint)) true
        (noted.world [depotOn config endpoint (storeFound config path s)]) id time d
      (result, noted.afterWorld (some path) w) := by
  have hplace : config.queue.place? (s.notes (buildLines config path endpoint s)).place.dataDirectory =
      some path := hs.place
  simp only [runTrack, build_eq hs hvalid hpersistent, Option.isSome_some, Option.toList_some, hplace]

/-- **An event is tracked**, behind the events that were found, and all of them are flushed. -/
theorem trackInWorld_truthful (hs : Serviceable config path endpoint s)
    (hcodec : ∀ es, (∀ e ∈ es, kind e) → Event.parseList (Event.listText es) = .ok es)
    {store : Store} (hstore : store.Backed kind (slotName config)) {id : EventId} {time : UInt64}
    {eventType : String} {locations globals : List Context}
    (hkind : kind (eventFor config id time eventType locations globals))
    (hnd : ((store.events ++ [eventFor config id time eventType locations globals]).map
      Event.id).Nodup) :
    let e := eventFor config id time eventType locations globals
    ∃ line w',
      trackInWorld (.ofSettings config.tracker (trackedTo config endpoint)) true
          (s.world [depotOn config endpoint store]) id time (draftOf eventType locations globals) =
        (.ok (Report.tracked e ++ "\n" ++ line), w') ∧
      Flushed config (store.events ++ [e]) s.collector line (s.afterWorld (some path) w') ∧
      s.Alike (s.afterWorld (some path) w') ∧
      (pending config (s.afterWorld (some path) w')).Sublist (store.events ++ [e]) := by
  intro e
  obtain ⟨store', hwrite, hevents, hstore'⟩ := hstore.write hcodec (List.forall_mem_singleton.2 hkind)
  let queue : Queue := { Queue.ofStore config.queue.delivery store with stopped := true }
  let depot : Depot := ⟨queue, relay config.retry.policy endpoint⟩
  let w := s.world [depot]
  have hstop : (s.world [depotOn config endpoint store]).stopRunner 0 = w := rfl
  obtain ⟨w₁, htrack, hidle⟩ := track_stopped
    (t := .ofSettings config.tracker (trackedTo config endpoint)) rfl (w := w) (d := depot) rfl rfl
    hwrite
  -- the queue is where the same calls would have led it
  obtain ⟨journal, hrun⟩ : ∃ journal, (Queue.Course.begin config.queue.delivery store).run
      [.stop, .write [e]] = { queue := { queue with store := store' }, journal } := by
    simp only [Queue.Course.run_cons, Queue.Course.run_nil, Queue.Course.act, Queue.Course.act?,
      Option.getD_some]
    rw [show (Queue.Course.begin config.queue.delivery store).queue.stop.2 = queue from rfl]
    simp only [Queue.Course.next, queue, Queue.ofStore, hwrite, e]
    exact ⟨_, rfl⟩
  have hready : ({ queue := { queue with store := store' }, journal } : Queue.Course).Ready := by
    refine ⟨⟨_, _, _, hrun.symm⟩, rfl, ?_, ?_, rfl, List.forall_mem_nil _, ?_⟩
    · show store'.faults.read = false
      rw [hstore'.faultless]
    · show store'.faults.delete = false
      rw [hstore'.faultless]
    · show (store'.events.map Event.id).Nodup
      rw [hevents]
      exact hnd
  have hu : w₁.usability 0 = true := by
    unfold World.usability
    rw [hidle.leaves]
    rfl
  obtain ⟨line, w', hflush, hflushed, halike, hsub⟩ := flushWorld_truthful hs hcodec hready rfl
    hstore' (w := w₁) hidle.same.depots hidle.same.ready hidle.same.sleeping hu
  refine ⟨line, w', ?_, ?_, halike, ?_⟩
  · simp only [trackInWorld, if_true, hstop, htrack, hflush]
    rfl
  · rw [← hevents, ← show w₁.collector = s.collector from hidle.collector]
    exact hflushed
  · rw [← hevents]
    exact hsub

/-- **`track`** is truthful. -/
theorem sound_track (hs : Serviceable config path endpoint s)
    (hcodec : ∀ es, (∀ e ∈ es, kind e) → Event.parseList (Event.listText es) = .ok es)
    (hpersistent : config.queue.store = .persistent) (hkind : ∀ e ∈ pending config s, kind e)
    {id : EventId} {time : UInt64} {eventType : String} {locations globals : List Context}
    (hevent : kind (eventFor config id time eventType locations globals))
    (hnd : ((pending config s ++ [eventFor config id time eventType locations globals]).map
      Event.id).Nodup) :
    Visit.Sound config s ⟨.track eventType locations globals, id, time, s.collector⟩
      (runTrack config s id time (draftOf eventType locations globals)) := by
  by_cases hvalid : config.violations s.place.dataDirectory = []
  · obtain ⟨line, w', htrack, hflushed, halike, hsub⟩ := trackInWorld_truthful
      (s := s.notes (buildLines config path endpoint s)) (hs.alike ⟨rfl, rfl⟩) hcodec
      (backed_storeFound hs hkind) hevent hnd
    simp only [runTrack_eq hs hvalid hpersistent, htrack]
    refine ⟨⟨fun _ => ⟨line, hflushed, rfl⟩, fun h => absurd hvalid h⟩, ?_, hsub⟩
    exact ⟨halike.dataDirectory, halike.files⟩
  · obtain ⟨e, hbuild⟩ := build_refused hvalid
    have hrun : runTrack config s id time (draftOf eventType locations globals) =
        (.error (.ofBuild e), s) := by
      simp only [runTrack, hbuild]
    rw [hrun]
    refine ⟨⟨fun h => absurd h hvalid, fun _ => ⟨⟨_, rfl⟩, rfl⟩⟩, ⟨rfl, rfl⟩, ?_⟩
    exact List.sublist_append_left _ _

/-- **One use of the program** is truthful. -/
theorem Visit.sound (hs : Serviceable config path endpoint s)
    (hcodec : ∀ es, (∀ e ∈ es, kind e) → Event.parseList (Event.listText es) = .ok es)
    (hkind : ∀ e ∈ pending config s, kind e) (v : Visit)
    (htracked : ∀ e ∈ v.tracked config, config.queue.store = .persistent ∧ kind e)
    (hnd : ((pending config s ++ v.tracked config).map Event.id).Nodup) :
    v.Sound config s (v.run config s) := by
  obtain ⟨request, id, time, collector⟩ := v
  have hs : Serviceable config path endpoint { s with collector } := hs.alike ⟨rfl, rfl⟩
  cases request with
  | queue action =>
    rw [show Visit.tracked config ⟨.queue action, id, time, collector⟩ = [] from rfl,
      List.append_nil] at hnd
    exact (sound_queue hs hcodec hkind hnd action id time).of_collector
  | track eventType locations globals =>
    obtain ⟨hpersistent, hevent⟩ := htracked _ List.mem_cons_self
    exact (sound_track hs hcodec hpersistent hkind hevent hnd).of_collector

end Steps

/-! ## One after another -/

/-- Some uses of the program are ahead: the commands can work, lists of the events that are pending and
of those that will be tracked read back, and ids are distinct. -/
structure Prepared (config : Config.Settings) (path endpoint : String) (kind : Event → Prop)
    (s : Surroundings) (visits : List Visit) : Prop where
  /-- The commands can work with the configuration. -/
  serviceable : Serviceable config path endpoint s
  /-- What is pending is of the kind that reads back. -/
  found : ∀ e ∈ pending config s, kind e
  /-- So is what will be tracked, into a persistent store. -/
  tracked : ∀ v ∈ visits, ∀ e ∈ v.tracked config, config.queue.store = .persistent ∧ kind e
  /-- All ids are distinct. -/
  distinct : ((pending config s ++ visits.flatMap (Visit.tracked config)).map Event.id).Nodup

namespace Prepared

variable {config : Config.Settings} {path endpoint : String} {kind : Event → Prop} {s : Surroundings}
  {v : Visit} {visits : List Visit}

section

variable (hcodec : ∀ es, (∀ e ∈ es, kind e) → Event.parseList (Event.listText es) = .ok es)

include hcodec

theorem sound (h : Prepared config path endpoint kind s (v :: visits)) :
    v.Sound config s (v.run config s) := by
  refine v.sound h.serviceable hcodec h.found (h.tracked v List.mem_cons_self) ?_
  have hdistinct := h.distinct
  rw [List.flatMap_cons, ← List.append_assoc, List.map_append] at hdistinct
  exact (List.nodup_append.1 hdistinct).1

/-- **One use of the program** leaves the others prepared. -/
theorem step (h : Prepared config path endpoint kind s (v :: visits)) :
    Prepared config path endpoint kind (v.run config s).2 visits := by
  have hsound := h.sound hcodec
  refine ⟨h.serviceable.alike hsound.alike, ?_, ?_, ?_⟩
  · intro e he
    rcases List.mem_append.1 (hsound.sublist.subset he) with hold | hnew
    · exact h.found e hold
    · exact (h.tracked v List.mem_cons_self e hnew).2
  · exact fun v' hv' => h.tracked v' (List.mem_cons_of_mem v hv')
  · have hdistinct := h.distinct
    rw [List.flatMap_cons, ← List.append_assoc] at hdistinct
    exact ((hsound.sublist.append_right _).map Event.id).nodup hdistinct

/-- So do several. -/
theorem run {earlier : List Visit}
    (h : Prepared config path endpoint kind s (earlier ++ visits)) :
    Prepared config path endpoint kind (Visit.runAll config s earlier) visits := by
  induction earlier generalizing s with
  | nil => exact h
  | cons v earlier ih => exact ih (h.step hcodec)

end

end Prepared

/-- **Every use of the program in a sequence is truthful.**  The configuration is one that the commands
can work with, ids are distinct, and lists of events read back; the commands are any, and so is what
the collector replies to each of them.

* `queue stats` and `queue clear` print the number of events that are pending, and after `queue clear`
  there are none.
* `queue flush` prints how many of the pending events were delivered and how many have failed, which
  together are all of them; as many remain as have failed, and pending are then the events of the
  batches that the collector has not accepted, in their order.
* So does `track`, if the configuration is valid, with its event behind the pending ones. -/
theorem account_across_commands {config : Config.Settings} {path endpoint : String}
    {kind : Event → Prop} {s : Surroundings} {visits : List Visit}
    (hcodec : ∀ es, (∀ e ∈ es, kind e) → Event.parseList (Event.listText es) = .ok es)
    (h : Prepared config path endpoint kind s visits) (earlier : List Visit) (v : Visit)
    (later : List Visit) (hvisits : visits = earlier ++ v :: later) :
    let s' := Visit.runAll config s earlier
    v.Truthful config s' (v.run config s').1 (v.run config s').2 := by
  intro s'
  subst hvisits
  exact ((h.run hcodec).sound hcodec).truthful

/-! A shop with three pending events, two to a batch, and a collector that refuses the first batch of
every command. -/

/-- The configuration of the shop. -/
def shopConfig : Config.Settings where
  tracker := { trackerId := "shop", endpoint := some "http://[::1]:8080/" }
  queue := { batchSize := 2, store := .persistent, storePath := some "queue" }
  retry := { maxAttempts := 1 }

/-- What is pending. -/
def shopEvents : List Event :=
  [bareEvent "Press" 1, bareEvent "Input" 2, bareEvent "Press" 3]

/-- The surroundings of the shop. -/
def shop : Surroundings where
  place :=
    { disk := { databases := [("queue", { slots := [(slotName shopConfig, Event.listText shopEvents)] })] }
      dataDirectory := none }

/-- One use of the program there. -/
def shopVisit (request : Request) : Visit where
  request := request
  id := .ofNat 4
  time := 0
  collector := { door := some ⟨false, "[::1]", 8080, "/"⟩, replies := [.response 503 none] }

/-- The event that is tracked. -/
def shopEvent : Event :=
  eventFor shopConfig (.ofNat 4) 0 "Press" [] []

theorem shopEvents_storable : ∀ e ∈ shopEvents, e.Storable := by
  simp [shopEvents, bareEvent_storable]

theorem shopEvent_storable : shopEvent.Storable where
  built := by
    intro c hc
    cases List.mem_singleton.1 hc
    exact .application _
  floats := by
    intro x hx
    cases List.mem_singleton.1 (show Json.Number.real x ∈ [.natural 0] from hx)
  nesting := by
    rw [Event.text, Json.nesting_text]
    exact (by decide : 3 < 127)

theorem serviceable_shop : Serviceable shopConfig "queue" "http://[::1]:8080/" shop :=
  ⟨rfl, rfl, by decide, rfl, by decide, by decide⟩

theorem pending_shop : pending shopConfig shop = shopEvents := by
  have hparse := Event.parseList_of_storable shopEvents_storable
  have hget : (shop.database "queue").get? (slotName shopConfig) =
      some (Event.listText shopEvents) := by
    rw [Database.get?, Surroundings.database, shop]
    simp
  rw [serviceable_shop.pending_eq, Slot.stored, hget, Slot.decode, hparse]

theorem shopConfig_valid : shopConfig.violations shop.place.dataDirectory = [] := by
  decide +kernel

/-- The queue is flushed, an event is tracked, the queue is cleared, and the events are counted. -/
def shopVisits : List Visit :=
  [shopVisit (.queue .flush), shopVisit (.track "Press" [] []), shopVisit (.queue .clear),
    shopVisit (.queue .stats)]

theorem prepared_shop :
    Prepared shopConfig "queue" "http://[::1]:8080/" Event.Storable shop shopVisits where
  serviceable := serviceable_shop
  found := pending_shop ▸ shopEvents_storable
  tracked := by
    intro v hv e he
    simp only [shopVisits, List.mem_cons, List.not_mem_nil, or_false] at hv
    rcases hv with rfl | rfl | rfl | rfl
    · cases he
    · cases List.mem_singleton.1 he
      exact ⟨rfl, shopEvent_storable⟩
    · cases he
    · cases he
  distinct := by
    rw [pending_shop]
    decide

/-- The shop after the first of these visits. -/
def shopAfter (visits : Nat) : Surroundings :=
  Visit.runAll shopConfig shop (shopVisits.take visits)

/-- The first batch is refused, the second is not. -/
theorem flush_shop : ((shopVisit (.queue .flush)).run shopConfig shop).1 =
    .ok "Flushed 2 batch(es): 1 delivered, 2 failed, 2 remaining" := by
  let collector := (shopVisit (.queue .flush)).collector
  have hs : Serviceable shopConfig "queue" "http://[::1]:8080/" { shop with collector } :=
    serviceable_shop.alike ⟨rfl, rfl⟩
  have hfound : pending shopConfig { shop with collector } = shopEvents := pending_shop
  show (runQueue shopConfig { shop with collector } .flush).1 = _
  rw [runQueue_eq hs, hfound]
  dsimp only
  rw [flushSlot_eq (hs.alike alike_opened)]
  exact flushWorld_of_flushLine? (n := 20) (by decide +kernel)

/-- So it is when an event is tracked behind the two that are left. -/
theorem track_shop (hs : Serviceable shopConfig "queue" "http://[::1]:8080/" (shopAfter 1))
    (hvalid : shopConfig.violations (shopAfter 1).place.dataDirectory = [])
    (hfound : pending shopConfig (shopAfter 1) = shopEvents.take 2) :
    ((shopVisit (.track "Press" [] [])).run shopConfig (shopAfter 1)).1 =
      .ok ("Tracked Press 00000000-0000-0000-0000-000000000004\n" ++
        "Flushed 2 batch(es): 1 delivered, 2 failed, 2 remaining") := by
  let collector := (shopVisit (.queue .flush)).collector
  have hs : Serviceable shopConfig "queue" "http://[::1]:8080/" { shopAfter 1 with collector } :=
    hs.alike ⟨rfl, rfl⟩
  have hfound : pending shopConfig { shopAfter 1 with collector } = shopEvents.take 2 := hfound
  show (runTrack shopConfig { shopAfter 1 with collector } (.ofNat 4) 0 (draftOf "Press" [] [])).1 = _
  rw [runTrack_eq hs hvalid rfl, storeFound, hfound]
  exact trackInWorld_of_trackLines? rfl rfl (n := 20) (by decide +kernel)

/-- If two of three events remain, these are the first two. -/
theorem left_of_flushed {a b c : Event} {collector : Collector} {line : String} {s : Surroundings}
    (h : Flushed shopConfig [a, b, c] collector line s)
    (hline : line = "Flushed 2 batch(es): 1 delivered, 2 failed, 2 remaining") :
    pending shopConfig s = [a, b] := by
  obtain ⟨r, requests, htext, -, haccount⟩ := h
  have htold : Report.flush r (pending shopConfig s).length = Report.flush ⟨2, 1, 2⟩ 2 :=
    htext.symm.trans hline
  have hlength := (Report.flush_inj htold).2
  have hchunks : Queue.chunks 2 [a, b, c] = [[a, b], [c]] := by
    simp [Queue.chunks, Queue.chunkCount, Queue.chunk, List.range_succ]
  obtain ⟨refused, hleft⟩ : ∃ refused : List Event → Bool,
      pending shopConfig s = ([[a, b], [c]].filter refused).flatten := by
    rw [← hchunks]
    exact ⟨_, haccount.left⟩
  rw [List.filter_cons, List.filter_cons, List.filter_nil] at hleft
  rw [hleft] at hlength ⊢
  generalize refused [a, b] = first at hlength ⊢
  generalize refused [c] = second at hlength ⊢
  cases first with
  | false => cases second <;> cases hlength
  | true =>
    cases second with
    | false => rfl
    | true => cases hlength

/-- Of three events the first two fail, and they fail again with the event that is tracked behind them;
then they are dropped. -/
theorem account_across_commands_shop :
    Prepared shopConfig "queue" "http://[::1]:8080/" Event.Storable shop shopVisits ∧
    pending shopConfig (shopAfter 0) = shopEvents ∧
    ((shopVisit (.queue .flush)).run shopConfig (shopAfter 0)).1 =
      .ok "Flushed 2 batch(es): 1 delivered, 2 failed, 2 remaining" ∧
    pending shopConfig (shopAfter 1) = shopEvents.take 2 ∧
    ((shopVisit (.track "Press" [] [])).run shopConfig (shopAfter 1)).1 =
      .ok ("Tracked Press 00000000-0000-0000-0000-000000000004\n" ++
        "Flushed 2 batch(es): 1 delivered, 2 failed, 2 remaining") ∧
    pending shopConfig (shopAfter 2) = shopEvents.take 2 ∧
    ((shopVisit (.queue .clear)).run shopConfig (shopAfter 2)).1 =
      .ok "Cleared 2 pending event(s)" ∧
    pending shopConfig (shopAfter 3) = [] ∧
    ((shopVisit (.queue .stats)).run shopConfig (shopAfter 3)).1 =
      .ok "Queue waypost-queue-shop: 0 pending event(s)" := by
  have hcodec : ∀ es, (∀ e ∈ es, Event.Storable e) →
      Event.parseList (Event.listText es) = .ok es := fun _ => Event.parseList_of_storable
  obtain ⟨line, hflush, hflushed⟩ := account_across_commands hcodec prepared_shop [] _ _ rfl
  obtain ⟨htrack, -⟩ := account_across_commands hcodec prepared_shop (shopVisits.take 1) _ _ rfl
  obtain ⟨hclear, hnone⟩ := account_across_commands hcodec prepared_shop (shopVisits.take 2) _ _ rfl
  obtain ⟨hstats, -⟩ := account_across_commands hcodec prepared_shop (shopVisits.take 3) _ _ rfl
  -- how many events are left is read off what is printed
  have hleft : pending shopConfig (shopAfter 1) = shopEvents.take 2 := by
    rw [show Visit.runAll shopConfig shop [] = shop from rfl, pending_shop] at hflushed
    exact left_of_flushed hflushed (Except.ok.inj (hflush.symm.trans flush_shop))
  have hvalid : shopConfig.violations (shopAfter 1).place.dataDirectory = [] := by
    have hsame : (shopAfter 1).place.dataDirectory = shop.place.dataDirectory :=
      (prepared_shop.sound hcodec).alike.dataDirectory
    rw [hsame]
    exact shopConfig_valid
  have htrack_shop := track_shop (prepared_shop.step hcodec).serviceable hvalid hleft
  obtain ⟨line', hflushed', htracked⟩ := htrack hvalid
  have hleft' : pending shopConfig (shopAfter 2) = shopEvents.take 2 := by
    rw [show pending shopConfig (Visit.runAll shopConfig shop (shopVisits.take 1)) =
      shopEvents.take 2 from hleft] at hflushed'
    exact left_of_flushed hflushed'
      ((String.append_right_inj _).1 (Except.ok.inj (htracked.symm.trans htrack_shop)))
  rw [show pending shopConfig (Visit.runAll shopConfig shop (shopVisits.take 2)) =
    shopEvents.take 2 from hleft'] at hclear
  rw [show pending shopConfig (Visit.runAll shopConfig shop (shopVisits.take 3)) = [] from hnone]
    at hstats
  exact ⟨prepared_shop, pending_shop, flush_shop, hleft, htrack_shop, hleft', hclear, hnone,
    hstats.trans (by decide +kernel)⟩

end EventRelay.Command
