import EventRelay.Command.Execute
import EventRelay.Proofs.Store.Calls

/-!
# What a command finds

Each command opens the slot of the configured tracker anew.  What it finds there is what the command
before it has left, because a store that writes its list out with every change can be opened again
with that list.

* `Store.Backed` — the slot of a store holds what the store holds; `Backed.write`, `Backed.delete` —
  **changes keep it so**.
* `pending` — the events that a command finds.
* `Serviceable` — a configuration that the commands can work with; `Serviceable.pending_save` — **what
  is saved is found**; `Serviceable.pending_afterWorld` — so is what the queue of a world holds.
-/

namespace EventRelay

namespace Store

/-! ## Stores that can be opened again -/

/-- No call of the store fails, its events are of one kind, and opening its slot again would give
them. -/
structure Backed (kind : Event → Prop) (name : String) (s : Store) : Prop where
  /-- No call fails. -/
  faultless : s.faults = {}
  /-- All events are of the kind. -/
  kind : ∀ e ∈ s.events, kind e
  /-- The slot holds the events. -/
  kept : ∃ db, s.keeping = .durable db name ∧ Slot.stored db name = s.events

section

variable {kind : Event → Prop} {name : String} {s s' : Store}
  (hcodec : ∀ es, (∀ e ∈ es, kind e) → Event.parseList (Event.listText es) = .ok es)

include hcodec

theorem stored_put {es : List Event} (hes : ∀ e ∈ es, kind e) (db : Database) :
    Slot.stored (db.put name (Event.listText es)) name = es := by
  rw [Slot.stored, Database.get?_put_self, Slot.decode, hcodec es hes]

/-- The list is replaced by another one, and written out. -/
theorem Backed.follow (h : s.Backed kind name) {es : List Event} (hes : ∀ e ∈ es, kind e) :
    ({ s with events := es, keeping := s.keeping.follow es } : Store).Backed kind name := by
  obtain ⟨db, hkeeping, -⟩ := h.kept
  refine ⟨h.faultless, hes, db.put name (Event.listText es), ?_, stored_put hcodec hes db⟩
  show s.keeping.follow es = _
  rw [hkeeping]
  rfl

theorem Backed.write (h : s.Backed kind name) {events : List Event} (hes : ∀ e ∈ events, kind e) :
    ∃ s', s.write events = .ok s' ∧ s'.events = s.events ++ events ∧ s'.Backed kind name := by
  have hall : ∀ e ∈ s.events ++ events, kind e := List.forall_mem_append.2 ⟨h.kind, hes⟩
  have hworks : s.faults.write = false := by rw [h.faultless]
  refine ⟨{ s with events := s.events ++ events, keeping := s.keeping.follow (s.events ++ events) },
    ?_, rfl, h.follow hcodec hall⟩
  rw [Store.write, hworks, if_neg Bool.false_ne_true]

theorem Backed.delete (h : s.Backed kind name) {ids : List EventId}
    (hdelete : s.delete ids = .ok s') : s'.Backed kind name := by
  have hworks : s.faults.delete = false := by rw [h.faultless]
  rw [Store.delete, hworks, if_neg Bool.false_ne_true] at hdelete
  dsimp only at hdelete
  split at hdelete
  · cases hdelete
    exact h
  · cases hdelete
    exact h.follow hcodec fun e he => h.kind e (List.mem_filter.1 he).1

end

theorem backed_ofSlot {kind : Event → Prop} {db : Database} {name : String}
    (hkind : ∀ e ∈ Slot.stored db name, kind e) :
    (Store.ofSlot db ⟨name, Slot.stored db name⟩).Backed kind name :=
  ⟨rfl, hkind, db, rfl, rfl⟩

end Store

namespace Command

open Store

/-! ## The slot of the configured tracker -/

/-- The events that a command finds. -/
def pending (config : Config.Settings) (s : Surroundings) : List Event :=
  match config.queue.place? s.place.dataDirectory with
  | none => []
  | some path =>
    match Pipeline.openSlot config s.place path with
    | .ok (_, slot) => slot.events
    | .error _ => []

/-- The name of the slot. -/
def slotName (config : Config.Settings) : String :=
  Slot.nameOf config.tracker.trackerId

/-- The database at a path; an empty one is made if there is none. -/
def Surroundings.database (s : Surroundings) (path : String) : Database :=
  (s.place.disk.databases.lookup path).getD {}

theorem Surroundings.database_save (s : Surroundings) (path : String) (db : Database) :
    (s.save path db).database path = db := by
  simp only [save, database, Disk.save, Json.lookup_insertField_self, Option.getD_some]

/-- The commands can work with the configuration: the tracker has a name, its queue a place where a
database can be opened, the collector an address, and there can be as many permits. -/
structure Serviceable (config : Config.Settings) (path endpoint : String) (s : Surroundings) :
    Prop where
  /-- The queue has a place. -/
  place : config.queue.place? s.place.dataDirectory = some path
  /-- No file is in the way. -/
  accessible : s.place.disk.isBlocked path = false
  /-- The tracker has a name. -/
  named : Text.isBlankText config.tracker.trackerId = false
  /-- There is a collector. -/
  collector : config.tracker.endpoint = some endpoint
  /-- It has an address. -/
  addressed : endpoint.isEmpty = false
  /-- There can be as many permits. -/
  permits : config.queue.delivery.normalized.concurrency ≤ Pipeline.mostPermits

/-- Nothing is different about the surroundings but databases, the collector and the log. -/
structure Surroundings.Alike (s s' : Surroundings) : Prop where
  /-- The same data directory. -/
  dataDirectory : s'.place.dataDirectory = s.place.dataDirectory
  /-- The same plain files. -/
  files : s'.place.disk.files = s.place.disk.files

theorem Surroundings.Alike.trans {s s' s'' : Surroundings} (h : s.Alike s') (h' : s'.Alike s'') :
    s.Alike s'' :=
  ⟨h'.dataDirectory.trans h.dataDirectory, h'.files.trans h.files⟩

namespace Serviceable

variable {config : Config.Settings} {path endpoint : String} {s s' : Surroundings}

theorem alike (h : Serviceable config path endpoint s) (halike : s.Alike s') :
    Serviceable config path endpoint s' := by
  refine { h with place := ?_, accessible := ?_ }
  · rw [halike.dataDirectory]
    exact h.place
  · rw [Disk.isBlocked, halike.files]
    exact h.accessible

theorem openSlot (h : Serviceable config path endpoint s) :
    Pipeline.openSlot config s.place path =
      .ok (s.database path, ⟨slotName config, Slot.stored (s.database path) (slotName config)⟩) := by
  have hload : Slot.load (s.database path) config.tracker.trackerId =
      .ok ⟨slotName config, Slot.stored (s.database path) (slotName config)⟩ := by
    rw [Slot.load, h.named]
    rfl
  have hdatabase : s.place.disk.database path = .ok (s.database path) := by
    rw [Disk.database, h.accessible]
    rfl
  rw [Pipeline.openSlot, Json.bind_ok hdatabase, Json.bind_ok hload]
  rfl

theorem pending_eq (h : Serviceable config path endpoint s) :
    pending config s = Slot.stored (s.database path) (slotName config) := by
  simp only [pending, h.place, h.openSlot]

/-- **What is saved is found.** -/
theorem pending_save (h : Serviceable config path endpoint s) (db : Database) :
    pending config (s.save path db) = Slot.stored db (slotName config) := by
  have hsaved : Serviceable config path endpoint (s.save path db) := h.alike ⟨rfl, rfl⟩
  rw [hsaved.pending_eq, s.database_save path db]

/-- So is what the world leaves in the queue. -/
theorem pending_afterWorld (h : Serviceable config path endpoint s) {kind : Event → Prop}
    {w : Run.World} {q : Queue} {delivery : Transport} (hdepots : w.depots = [⟨q, delivery⟩])
    (hq : q.store.Backed kind (slotName config)) :
    pending config (s.afterWorld (some path) w) = q.store.events ∧
      s.Alike (s.afterWorld (some path) w) ∧
      (s.afterWorld (some path) w).collector = w.collector := by
  obtain ⟨db, hkeeping, hstored⟩ := hq.kept
  have hsaved : s.afterWorld (some path) w =
      ({ s with collector := w.collector, lines := w.lines } : Surroundings).save path db := by
    simp only [Surroundings.afterWorld, hdepots, List.head?_cons, Option.bind_some, database?,
      hkeeping]
  have hworld : Serviceable config path endpoint
      { s with collector := w.collector, lines := w.lines } := h.alike ⟨rfl, rfl⟩
  rw [hsaved, hworld.pending_save db]
  exact ⟨hstored, ⟨rfl, rfl⟩, rfl⟩

end Serviceable

end Command

end EventRelay
