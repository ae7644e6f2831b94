import EventRelay.Proofs.Event.RoundTrip
import EventRelay.Proofs.Store.Calls
import Mathlib.Logic.Function.Basic

/-!
# Durable stores behave as stores in memory

Trackers keep their events in slots of one database.  Their stores are used, dropped and opened again
in any order.  Beside them stand stores in memory, one for each tracker, that get the same calls and
are never opened again: from the outside the two cannot be told apart.

* `Cabinet` — a database with the stores that are open.
* `Shadows` — the stores in memory.
* `Agree` — what holds of one tracker at every moment; `step_agree` — each step keeps it, with equal
  answers.
* `answers_as_in_memory` — **durable stores answer as stores in memory**, and what is in a slot is
  what its store holds.
-/

namespace EventRelay.Store

/-! ## Steps -/

/-- What can happen to the stores of one database. -/
inductive Step where
  /-- The store of a tracker is opened, for the first time or again. -/
  | load (tracker : String)
  /-- The store of a tracker is dropped. -/
  | unload (tracker : String)
  /-- A call on the store of a tracker. -/
  | call (tracker : String) (c : Call)

/-- Takes steps one after another and collects their answers. -/
def runSteps {σ : Type} (step : σ → Step → Option Answer × σ) : σ → List Step → List (Option Answer) × σ
  | s, [] => ([], s)
  | s, x :: xs =>
    let (a, s) := step s x
    let (as, s) := runSteps step s xs
    (a :: as, s)

/-- Two ways to take steps whose answers are equal, as long as the states stay related. -/
theorem runSteps_related {σ τ : Type} {f : σ → Step → Option Answer × σ}
    {g : τ → Step → Option Answer × τ} {R : σ → τ → Prop} {steps : List Step}
    (hstep : ∀ x ∈ steps, ∀ s t, R s t → (f s x).1 = (g t x).1 ∧ R (f s x).2 (g t x).2)
    {s : σ} {t : τ} (h : R s t) :
    (runSteps f s steps).1 = (runSteps g t steps).1 ∧
      R (runSteps f s steps).2 (runSteps g t steps).2 := by
  induction steps generalizing s t with
  | nil => exact ⟨rfl, h⟩
  | cons x xs ih =>
    obtain ⟨hanswer, hrel⟩ := hstep x List.mem_cons_self s t h
    obtain ⟨hanswers, hrels⟩ := ih (fun y hy => hstep y (List.mem_cons_of_mem x hy)) hrel
    exact ⟨congrArg₂ List.cons hanswer hanswers, hrels⟩

/-- A database with the stores that are open. -/
structure Cabinet where
  /-- The database. -/
  db : Database
  /-- The open store of a tracker. -/
  opened : String → Option Slot := fun _ => none

/-- One step; a call on a store that is not open has no answer. -/
def Cabinet.step (k : Cabinet) : Step → Option Answer × Cabinet
  | .load tracker =>
    match Slot.load k.db tracker with
    | .ok s => (some .done, { k with opened := Function.update k.opened tracker (some s) })
    | .error e => (some (.failed e), k)
  | .unload tracker => (none, { k with opened := Function.update k.opened tracker none })
  | .call tracker c =>
    match k.opened tracker with
    | none => (none, k)
    | some s =>
      let (a, s, db) := s.call k.db c
      (some a, { db, opened := Function.update k.opened tracker (some s) })

/-- Stores in memory, one for each tracker. -/
structure Shadows where
  /-- The stores. -/
  stores : String → Store
  /-- Which of them are in use. -/
  opened : String → Bool := fun _ => false

/-- One step; opening and dropping a store do nothing to it. -/
def Shadows.step (m : Shadows) : Step → Option Answer × Shadows
  | .load tracker => (some .done, { m with opened := Function.update m.opened tracker true })
  | .unload tracker => (none, { m with opened := Function.update m.opened tracker false })
  | .call tracker c =>
    if m.opened tracker then
      let (a, s) := (m.stores tracker).call c
      (some a, { m with stores := Function.update m.stores tracker s })
    else (none, m)

/-- Stores in memory that start with what the slots hold. -/
def Shadows.ofDatabase (db : Database) : Shadows where
  stores tracker := { events := Slot.stored db (Slot.nameOf tracker) }

/-- Trackers have ids that are not blank, and only events of one kind are written. -/
def Step.Allowed (kind : Event → Prop) : Step → Prop
  | .load tracker => Text.isBlankText tracker = false
  | .call _ (.write events) => ∀ e ∈ events, kind e
  | _ => True

/-! ## One tracker at one moment -/

/-- The store of one tracker and its shadow hold the same events; if `readable`, its slot can be
read. -/
structure Agree (kind : Event → Prop) (readable : String → Prop) (k : Cabinet) (m : Shadows)
    (tracker : String) (held : List Event) : Prop where
  /-- The shadow holds the events. -/
  shadow : m.stores tracker = { events := held }
  /-- All of them are of the kind that is written. -/
  kind : ∀ e ∈ held, kind e
  /-- The store holds the events, if it is open. -/
  opened : k.opened tracker = if m.opened tracker then some ⟨Slot.nameOf tracker, held⟩ else none
  /-- Opening the store would give the events. -/
  stored : Slot.stored k.db (Slot.nameOf tracker) = held
  /-- The slot holds the text of the events. -/
  decoded : readable tracker → Slot.decode (k.db.get? (Slot.nameOf tracker)) = .ok held

/-- The same of every tracker. -/
def AllAgree (kind : Event → Prop) (readable : String → Prop) (k : Cabinet) (m : Shadows) : Prop :=
  ∀ tracker, ∃ held, Agree kind readable k m tracker held

section Steps

variable {kind : Event → Prop} {readable : String → Prop} {k : Cabinet} {m : Shadows}

/-- Opening or dropping a store changes only which stores are open. -/
theorem Agree.reopen {tracker t : String} {held : List Event} {slot : Option Slot} {isOpen : Bool}
    (h : Agree kind readable k m t held)
    (hslot : t = tracker → slot = if isOpen then some ⟨Slot.nameOf t, held⟩ else none) :
    Agree kind readable { k with opened := Function.update k.opened tracker slot }
      { m with opened := Function.update m.opened tracker isOpen } t held where
  shadow := h.shadow
  kind := h.kind
  stored := h.stored
  decoded := h.decoded
  opened := by
    by_cases ht : t = tracker
    · subst ht
      simp only [Function.update_self]
      exact hslot rfl
    · simp only [Function.update_of_ne ht]
      exact h.opened

/-- A call on the store of one tracker changes nothing for another one. -/
theorem Agree.other {tracker t : String} {held : List Event} {s : Slot} {store : Store}
    {db : Database} (h : Agree kind readable k m t held) (ht : t ≠ tracker)
    (hdb : db.get? (Slot.nameOf t) = k.db.get? (Slot.nameOf t)) :
    Agree kind readable { db, opened := Function.update k.opened tracker (some s) }
      { m with stores := Function.update m.stores tracker store } t held where
  shadow := by rw [← h.shadow]; exact Function.update_of_ne ht _ _
  kind := h.kind
  opened := by rw [← h.opened]; exact Function.update_of_ne ht _ _
  stored := (Slot.stored_congr hdb).trans h.stored
  decoded := by
    intro hread
    rw [hdb]
    exact h.decoded hread

/-- What a call on the store of a tracker leaves there. -/
theorem Agree.own {tracker : String} {held : List Event} (h : Agree kind readable k m tracker held)
    (hopen : m.opened tracker = true) {c : Call} (hkind : ∀ e ∈ c.next held, kind e)
    (hback : Event.parseList (Event.listText (c.next held)) = .ok (c.next held)) :
    Agree kind readable
      { db := Slot.after k.db ⟨Slot.nameOf tracker, held⟩ c
        opened := Function.update k.opened tracker (some ⟨Slot.nameOf tracker, c.next held⟩) }
      { m with stores := Function.update m.stores tracker { events := c.next held } }
      tracker (c.next held) where
  shadow := Function.update_self ..
  kind := hkind
  opened := by
    simp only [Function.update_self, hopen, ↓reduceIte]
  stored := by
    rcases Slot.after_own k.db ⟨Slot.nameOf tracker, held⟩ c hback with hdec | ⟨hget, hnext⟩
    · exact Slot.stored_of_decode hdec
    · exact (Slot.stored_congr hget).trans (h.stored.trans hnext.symm)
  decoded := by
    intro hread
    rcases Slot.after_own k.db ⟨Slot.nameOf tracker, held⟩ c hback with hdec | ⟨hget, hnext⟩
    · exact hdec
    · rw [hget, hnext]
      exact h.decoded hread

/-- What was held and what is written is of one kind, and so is what is held then. -/
theorem next_kind {tracker : String} {c : Call} (hc : (Step.call tracker c).Allowed kind)
    {held : List Event} (h : ∀ e ∈ held, kind e) : ∀ e ∈ c.next held, kind e := by
  cases c with
  | write events => exact List.forall_mem_append.2 ⟨h, hc⟩
  | delete ids => exact fun e he => h e (List.mem_filter.1 he).1
  | clear => exact nofun
  | read limit keep => exact h
  | size => exact h

/-- **Each step keeps the agreement, and the answers are equal.** -/
theorem step_agree (hcodec : ∀ es, (∀ e ∈ es, kind e) →
      Event.parseList (Event.listText es) = .ok es)
    {step : Step} (hstep : step.Allowed kind)
    (h : AllAgree kind readable k m) :
    (k.step step).1 = (m.step step).1 ∧
      AllAgree kind readable (k.step step).2 (m.step step).2 := by
  cases step with
  | load tracker =>
    have hblank : Text.isBlankText tracker = false := hstep
    have hload : Slot.load k.db tracker =
        .ok ⟨Slot.nameOf tracker, Slot.stored k.db (Slot.nameOf tracker)⟩ := by
      rw [Slot.load, hblank]
      rfl
    rw [Cabinet.step, hload]
    refine ⟨rfl, fun t => ?_⟩
    obtain ⟨held, ht⟩ := h t
    refine ⟨held, ht.reopen ?_⟩
    rintro rfl
    rw [ht.stored]
    rfl
  | unload tracker =>
    refine ⟨rfl, fun t => ?_⟩
    obtain ⟨held, ht⟩ := h t
    exact ⟨held, ht.reopen fun _ => rfl⟩
  | call tracker c =>
    obtain ⟨held, htracker⟩ := h tracker
    cases hopen : m.opened tracker with
    | false =>
      have hclosed : k.opened tracker = none := by
        rw [htracker.opened, hopen]
        rfl
      rw [Cabinet.step, hclosed, Shadows.step, hopen]
      exact ⟨rfl, h⟩
    | true =>
      have hopened : k.opened tracker = some ⟨Slot.nameOf tracker, held⟩ := by
        rw [htracker.opened, hopen]
        rfl
      rw [Cabinet.step, hopened, Shadows.step, hopen, htracker.shadow, call_memory]
      simp only [Slot.call_eq, ↓reduceIte, true_and]
      intro t
      by_cases ht : t = tracker
      · subst ht
        have hkind := next_kind hstep htracker.kind
        exact ⟨c.next held, htracker.own hopen hkind (hcodec _ hkind)⟩
      · obtain ⟨other, hother⟩ := h t
        refine ⟨other, hother.other ht (Slot.after_other ?_ c)⟩
        exact fun hname => ht (Slot.nameOf_injective hname)

end Steps

/-! ## Whole runs -/

/-- The answers of the stores of a database, and what is left. -/
def Cabinet.run (k : Cabinet) (steps : List Step) : List (Option Answer) × Cabinet :=
  runSteps Cabinet.step k steps

/-- The answers of stores in memory, and what is left. -/
def Shadows.run (m : Shadows) (steps : List Step) : List (Option Answer) × Shadows :=
  runSteps Shadows.step m steps

/-- **Durable stores answer as stores in memory.**  If lists of the events that are stored and
written read back, then every answer of stores that are used, dropped and opened again is the one of
a store in memory that got the same calls.  A store that is open holds what its shadow holds, and so
does its slot, unless that was unreadable from the start. -/
theorem answers_as_in_memory (db : Database) (steps : List Step) (kind : Event → Prop)
    (hcodec : ∀ es, (∀ e ∈ es, kind e) → Event.parseList (Event.listText es) = .ok es)
    (hstored : ∀ tracker, ∀ e ∈ Slot.stored db (Slot.nameOf tracker), kind e)
    (hsteps : ∀ step ∈ steps, step.Allowed kind) :
    (Cabinet.run { db } steps).1 = (Shadows.run (Shadows.ofDatabase db) steps).1 ∧
    ∀ tracker, ∃ held,
      (Shadows.run (Shadows.ofDatabase db) steps).2.stores tracker = { events := held } ∧
      (∀ s, (Cabinet.run { db } steps).2.opened tracker = some s →
        s = ⟨Slot.nameOf tracker, held⟩) ∧
      ((∃ es, Slot.decode (db.get? (Slot.nameOf tracker)) = .ok es) →
        Slot.decode ((Cabinet.run { db } steps).2.db.get? (Slot.nameOf tracker)) = .ok held) := by
  have hstart : AllAgree kind (fun t => ∃ es, Slot.decode (db.get? (Slot.nameOf t)) = .ok es)
      { db } (Shadows.ofDatabase db) := by
    intro t
    refine ⟨Slot.stored db (Slot.nameOf t), rfl, hstored t, rfl, rfl, ?_⟩
    rintro ⟨es, hes⟩
    rw [hes, Slot.stored_of_decode hes]
  obtain ⟨hanswers, hagree⟩ := runSteps_related (f := Cabinet.step) (g := Shadows.step)
    (fun step hmem _ _ h => step_agree hcodec (hsteps step hmem) h) hstart
  refine ⟨hanswers, fun tracker => ?_⟩
  obtain ⟨held, h⟩ := hagree tracker
  refine ⟨held, h.shadow, fun s hs => ?_, h.decoded⟩
  have hopened := h.opened.symm.trans hs
  split at hopened
  · cases hopened
    rfl
  · cases hopened

/-! Two trackers share a database; one store is dropped and opened again, the other is opened again
while it is open.  An id is written twice, and ids are deleted that are repeated or unknown. -/

/-- An event without contexts. -/
def bareEvent (eventType : String) (id : Nat) : Event where
  eventType := eventType
  id := EventId.ofNat id
  time := 0
  locationStack := []
  globalContexts := []

theorem bareEvent_storable (eventType : String) (id : Nat) : (bareEvent eventType id).Storable where
  built := nofun
  floats := by
    intro x hx
    cases List.mem_singleton.1 (show Json.Number.real x ∈ [.natural 0] from hx)
  nesting := by
    rw [Event.text, Json.nesting_text]
    exact (by decide : 2 < 127)

/-- The steps. -/
def sharedSession : List Step :=
  [.load "a", .load "b", .call "a" (.write [bareEvent "Press" 1, bareEvent "Input" 2]),
    .call "b" (.write [bareEvent "Press" 1, bareEvent "Press" 1]),
    .call "a" (.read (some 1) fun _ => true), .unload "a", .call "a" .size, .load "a",
    .call "a" (.delete [EventId.ofNat 2, EventId.ofNat 9, EventId.ofNat 2]), .call "a" .size,
    .load "b", .call "b" (.read none fun e => e.eventType == "Press"), .call "b" .clear,
    .load "b", .call "b" .size, .call "a" (.read none fun _ => true)]

theorem answers_as_in_memory_shared :
    (∀ step ∈ sharedSession, step.Allowed Event.Storable) ∧
    (Cabinet.run { db := {} } sharedSession).1 =
      [some .done, some .done, some .done, some .done, some (.events [bareEvent "Press" 1]), none,
        none, some .done, some .done, some (.size 1 false), some .done,
        some (.events [bareEvent "Press" 1, bareEvent "Press" 1]), some .done, some .done,
        some (.size 0 true), some (.events [bareEvent "Press" 1])] := by
  have hallowed : ∀ step ∈ sharedSession, step.Allowed Event.Storable := by
    have ha : Text.isBlankText "a" = false := by decide
    have hb : Text.isBlankText "b" = false := by decide
    simp [sharedSession, Step.Allowed, bareEvent_storable, ha, hb]
  obtain ⟨hanswers, -⟩ := answers_as_in_memory {} sharedSession Event.Storable
    (fun _ => Event.parseList_of_storable) (fun _ => nofun) hallowed
  exact ⟨hallowed, hanswers.trans rfl⟩

end EventRelay.Store
