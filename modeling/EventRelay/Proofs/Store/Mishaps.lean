import EventRelay.Proofs.Store.Refinement
import EventRelay.Proofs.Store.Reload

/-!
# Calls that fail halfway

A change of a slot is applied to the database and then synced, and each of the two steps can fail.  The
list in memory is replaced only if neither does, so a call that fails leaves it as it was.  But what was
applied is not taken back: after a sync that fails the slot holds what the call would have made of it, or
is gone, although the caller was told that the call failed.

* `Attempt`, `Ending` — a call on a medium that may fail, and the four ways in which it ends.
* `attempt_eq` — **what one attempt leaves**, in memory and in the database.
* `Copies` — the list in memory beside the one that opening the slot again would give.
* `attempts_eq` — how the two go along any sequence of attempts.
* `what_failures_leave` — **memory and slot part when a sync fails**, and only then.
* `failed_sync_parts_them` — a write that failed comes back, and what was not cleared is lost.
-/

namespace EventRelay.Store

/-! ## How a call ends -/

/-- Does the call go to the database at all? -/
def Call.rewrites (c : Call) (held : List Event) : Bool :=
  match c with
  | .write _ => true
  | .delete ids => (without ids held).length != held.length
  | .clear => true
  | .read _ _ => false
  | .size => false

/-- A call on a medium that answers in one way or another. -/
structure Attempt where
  /-- How the medium answers. -/
  health : Health
  /-- The call. -/
  call : Call

/-- How a call ends. -/
inductive Ending where
  /-- The database was not needed. -/
  | idle
  /-- The change failed. -/
  | refused (reason : String)
  /-- The change was applied, and the sync failed. -/
  | unsynced (reason : String)
  /-- Nothing failed. -/
  | done

namespace Attempt

/-- How the attempt ends, if these events are held. -/
def ending (a : Attempt) (held : List Event) : Ending :=
  if a.call.rewrites held then
    match a.health.change, a.health.sync with
    | some reason, _ => .refused reason
    | none, some reason => .unsynced reason
    | none, none => .done
  else .idle

/-- What the attempt answers. -/
def answer (a : Attempt) (held : List Event) : Answer :=
  match a.ending held with
  | .refused reason => .failed (.io reason)
  | .unsynced reason => .failed (.io reason)
  | _ => a.call.answer held

/-- What is held then: nothing that failed changes it. -/
def held (a : Attempt) (held : List Event) : List Event :=
  match a.ending held with
  | .done => a.call.next held
  | _ => held

/-- The database then: a sync that failed leaves what was applied. -/
def database (a : Attempt) (db : Database) (s : Slot) : Database :=
  match a.ending s.events with
  | .done => s.after db a.call
  | .unsynced _ => s.after db a.call
  | _ => db

end Attempt

namespace Slot

/-- The attempt on a slot. -/
def attempt (db : Database) (s : Slot) (a : Attempt) : Answer × Slot × Database :=
  match a.call with
  | .write events => s.settle (s.write a.health db events)
  | .delete ids => s.settle (s.delete a.health db ids)
  | .clear => s.settle (s.clear a.health db)
  | .read limit keep => (.ofRead ((Store.ofSlot db s).read limit keep), s, db)
  | .size => (.size (Store.ofSlot db s).size ((Store.ofSlot db s).size == 0), s, db)

/-- **What one attempt leaves**: its answer, the list in memory and the database. -/
theorem attempt_eq (db : Database) (s : Slot) (a : Attempt) :
    s.attempt db a = (a.answer s.events, ⟨s.name, a.held s.events⟩, a.database db s) := by
  obtain ⟨⟨change, sync⟩, c⟩ := a
  unfold Attempt.answer Attempt.held Attempt.database Attempt.ending
  cases c with
  | delete ids =>
    show s.settle (if (without ids s.events).length = s.events.length then _ else _) = _
    by_cases hlen : (without ids s.events).length = s.events.length
    · have hidle : (Call.delete ids).rewrites s.events = false := by simpa [Call.rewrites] using hlen
      simp only [if_pos hlen, hidle, Bool.false_eq_true, ↓reduceIte]
      rfl
    · have hrewrites : (Call.delete ids).rewrites s.events = true := by
        simpa [Call.rewrites] using hlen
      simp only [if_neg hlen, hrewrites, ↓reduceIte, after]
      cases change <;> cases sync <;> rfl
  | write events => cases change <;> cases sync <;> rfl
  | clear => cases change <;> cases sync <;> rfl
  | read limit keep => rfl
  | size => rfl

/-- What opening a slot makes of the text of a list. -/
def reload (events : List Event) : List Event :=
  stored (Database.put {} "" (Event.listText events)) ""

theorem stored_put {db : Database} {name : String} {events : List Event} :
    stored (db.put name (Event.listText events)) name = reload events := by
  rw [reload, stored, stored, Database.get?_put_self, Database.get?_put_self]

theorem reload_eq {events : List Event} (h : Event.parseList (Event.listText events) = .ok events) :
    reload events = events := by
  refine stored_of_decode ?_
  rw [Database.get?_put_self]
  exact h

theorem reload_nil : reload [] = [] :=
  reload_eq (Event.parseList_of_storable fun _ h => absurd h List.not_mem_nil)

/-- What the slot holds after a call that goes to the database. -/
theorem stored_after {db : Database} {s : Slot} {c : Call} (h : c.rewrites s.events = true) :
    stored (s.after db c) s.name = reload (c.next s.events) := by
  cases c with
  | write events => exact stored_put
  | delete ids =>
    have hlen : ¬ (without ids s.events).length = s.events.length := by
      simpa [Call.rewrites] using h
    rw [after, if_neg hlen]
    exact stored_put
  | clear =>
    rw [after, Call.next, reload_nil, stored, Database.get?_drop_self]
    rfl
  | read limit keep => cases h
  | size => cases h

end Slot

/-! ## Memory and slot side by side -/

/-- The list in memory, and beside it the one that opening the slot again would give. -/
structure Copies where
  /-- The list in memory. -/
  held : List Event
  /-- What would be loaded. -/
  reopened : List Event
  /-- No sync has failed since the slot was last written. -/
  synced : Bool

namespace Copies

/-- What an attempt does to the two. -/
def after (x : Copies) (a : Attempt) : Copies :=
  match a.ending x.held with
  | .idle => x
  | .refused _ => x
  | .unsynced _ => { x with reopened := Slot.reload (a.call.next x.held), synced := false }
  | .done => ⟨a.call.next x.held, Slot.reload (a.call.next x.held), true⟩

/-- Both hold the same. -/
def together (events : List Event) : Copies :=
  ⟨events, events, true⟩

theorem held_after (x : Copies) (a : Attempt) : (x.after a).held = a.held x.held := by
  unfold after Attempt.held
  cases a.ending x.held <;> rfl

end Copies

/-- A call that does not need the database changes nothing. -/
theorem Call.next_of_idle {c : Call} {held : List Event} (h : c.rewrites held = false) :
    c.next held = held := by
  cases c with
  | write events => cases h
  | delete ids => exact without_eq_self (by simpa [Call.rewrites] using h)
  | clear => cases h
  | read limit keep => rfl
  | size => rfl

/-- A call that needs it has nothing else to answer. -/
theorem Call.answer_of_rewrites {c : Call} {held : List Event} (h : c.rewrites held = true) :
    c.answer held = .done := by
  cases c with
  | read limit keep => cases h
  | size => cases h
  | _ => rfl

theorem Attempt.idle_iff {a : Attempt} {held : List Event} :
    a.ending held = .idle ↔ a.call.rewrites held = false := by
  unfold Attempt.ending
  cases a.call.rewrites held with
  | false => exact ⟨fun _ => rfl, fun _ => rfl⟩
  | true =>
    obtain ⟨⟨change, sync⟩, c⟩ := a
    cases change <;> cases sync <;> simp

theorem Attempt.rewrites_of_ending {a : Attempt} {held : List Event} (h : a.ending held ≠ .idle) :
    a.call.rewrites held = true :=
  Bool.not_eq_false _ ▸ mt Attempt.idle_iff.2 h

namespace Slot

/-- One attempt changes what the slot would load as it changes the copy. -/
theorem stored_database {db : Database} {s : Slot} {x : Copies} (hheld : s.events = x.held)
    (hstored : stored db s.name = x.reopened) (a : Attempt) :
    stored (a.database db s) s.name = (x.after a).reopened := by
  have hrewritten : a.ending x.held ≠ .idle →
      stored (s.after db a.call) s.name = reload (a.call.next x.held) := by
    intro h
    rw [← hheld] at h ⊢
    exact stored_after (Attempt.rewrites_of_ending h)
  unfold Attempt.database Copies.after
  rw [hheld]
  cases hending : a.ending x.held with
  | idle => exact hstored
  | refused reason => exact hstored
  | unsynced reason => exact hrewritten (by rw [hending]; nofun)
  | done => exact hrewritten (by rw [hending]; nofun)

theorem database_other {db : Database} {s : Slot} {other : String} (h : other ≠ s.name) (a : Attempt) :
    (a.database db s).get? other = db.get? other := by
  unfold Attempt.database
  cases a.ending s.events with
  | idle => rfl
  | refused reason => rfl
  | unsynced reason => exact after_other h a.call
  | done => exact after_other h a.call

/-- One attempt after another: their answers, the slot and the database. -/
def attempts (db : Database) (s : Slot) : List Attempt → List Answer × Slot × Database
  | [] => ([], s, db)
  | a :: as =>
    let (answer, s, db) := s.attempt db a
    let (answers, s, db) := attempts db s as
    (answer :: answers, s, db)

/-- What the attempts answer, one after another. -/
def answers (held : List Event) : List Attempt → List Answer
  | [] => []
  | a :: as => a.answer held :: answers (a.held held) as

/-- **How memory and slot go along any sequence of attempts.** -/
theorem attempts_eq {db : Database} {s : Slot} {x : Copies} (hheld : s.events = x.held)
    (hstored : stored db s.name = x.reopened) (as : List Attempt) :
    ∃ db', s.attempts db as = (answers x.held as, ⟨s.name, (as.foldl Copies.after x).held⟩, db') ∧
      stored db' s.name = (as.foldl Copies.after x).reopened ∧
      ∀ other, other ≠ s.name → db'.get? other = db.get? other := by
  induction as generalizing db s x with
  | nil =>
    refine ⟨db, ?_, hstored, fun _ _ => rfl⟩
    rw [attempts, answers, List.foldl_nil, ← hheld]
  | cons a as ih =>
    have hnext : (⟨s.name, a.held s.events⟩ : Slot).events = (x.after a).held := by
      rw [Copies.held_after, ← hheld]
    obtain ⟨db', hrun, hslot, hothers⟩ := ih hnext (stored_database hheld hstored a)
    refine ⟨db', ?_, hslot, fun other hother => ?_⟩
    · rw [attempts, attempt_eq]
      simp only [hrun]
      rw [answers, hheld, Copies.held_after]
      rfl
    · rw [hothers other hother, database_other hother]

end Slot

/-! ## When they agree -/

/-- The call writes only events of one kind. -/
def Call.Of (kind : Event → Prop) : Call → Prop
  | .write events => ∀ e ∈ events, kind e
  | _ => True

theorem Call.next_kind {kind : Event → Prop} {c : Call} (hc : c.Of kind) {held : List Event}
    (h : ∀ e ∈ held, kind e) : ∀ e ∈ c.next held, kind e := by
  have hallowed : (Step.call "" c).Allowed kind := by
    cases c with
    | write events => exact hc
    | _ => trivial
  exact Store.next_kind hallowed h

section Agreement

variable {kind : Event → Prop}
  (hcodec : ∀ es, (∀ e ∈ es, kind e) → Event.parseList (Event.listText es) = .ok es)

include hcodec

/-- Copies of one kind of events that agree unless a sync has failed still do after one more attempt. -/
theorem Copies.after_agree {x : Copies} (hkind : ∀ e ∈ x.held, kind e)
    (hagree : x.synced = true → x.reopened = x.held) {a : Attempt} (ha : a.call.Of kind) :
    (∀ e ∈ (x.after a).held, kind e) ∧
      ((x.after a).synced = true → (x.after a).reopened = (x.after a).held) := by
  have hnext : ∀ e ∈ a.call.next x.held, kind e := Call.next_kind ha hkind
  unfold Copies.after
  cases a.ending x.held with
  | idle => exact ⟨hkind, hagree⟩
  | refused reason => exact ⟨hkind, hagree⟩
  | unsynced reason => exact ⟨hkind, nofun⟩
  | done => exact ⟨hnext, fun _ => Slot.reload_eq (hcodec _ hnext)⟩

theorem Copies.foldl_agree {x : Copies} (hkind : ∀ e ∈ x.held, kind e)
    (hagree : x.synced = true → x.reopened = x.held) {as : List Attempt}
    (has : ∀ a ∈ as, a.call.Of kind) :
    (as.foldl Copies.after x).synced = true →
      (as.foldl Copies.after x).reopened = (as.foldl Copies.after x).held := by
  induction as generalizing x with
  | nil => exact hagree
  | cons a as ih =>
    obtain ⟨ha, has⟩ := List.forall_mem_cons.1 has
    obtain ⟨hkind, hagree⟩ := Copies.after_agree hcodec hkind hagree ha
    exact ih hkind hagree has

end Agreement

namespace Slot

/-- **What failures leave.**  A slot has been opened, so that it holds in memory what the database would
give.  A call that fails leaves the list in memory as it was; if the change failed the database is as it
was, too, but if the sync failed opening the slot again gives what the call would have made of it.  A
call that succeeds changes both.  So it goes along any sequence of calls on a medium that fails at any
time, other slots are left alone, and, for events whose lists read back, memory and slot are the same
whenever no sync has failed since the slot was last written. -/
theorem what_failures_leave {db : Database} {s : Slot} (hopen : stored db s.name = s.events) :
    (∀ a : Attempt,
      match a.ending s.events with
      | .idle => s.attempt db a = (a.call.answer s.events, s, db) ∧ a.call.next s.events = s.events
      | .refused reason => s.attempt db a = (.failed (.io reason), s, db)
      | .unsynced reason => ∃ db', s.attempt db a = (.failed (.io reason), s, db') ∧
          stored db' s.name = reload (a.call.next s.events)
      | .done => ∃ db', s.attempt db a = (.done, ⟨s.name, a.call.next s.events⟩, db') ∧
          stored db' s.name = reload (a.call.next s.events)) ∧
    ∀ as : List Attempt, ∃ db',
      s.attempts db as =
        (answers s.events as, ⟨s.name, (as.foldl Copies.after (.together s.events)).held⟩, db') ∧
      stored db' s.name = (as.foldl Copies.after (.together s.events)).reopened ∧
      (∀ other, other ≠ s.name → db'.get? other = db.get? other) ∧
      ∀ kind : Event → Prop,
        (∀ es, (∀ e ∈ es, kind e) → Event.parseList (Event.listText es) = .ok es) →
        (∀ e ∈ s.events, kind e) → (∀ a ∈ as, a.call.Of kind) →
        (as.foldl Copies.after (.together s.events)).synced = true → stored db' s.name =
          (as.foldl Copies.after (.together s.events)).held := by
  constructor
  · intro a
    have hstored := stored_database (x := .together s.events) rfl hopen a
    have hattempt := attempt_eq db s a
    unfold Attempt.answer Attempt.held at hattempt
    unfold Copies.after Copies.together at hstored
    cases hending : a.ending s.events with
    | idle =>
      simp only [hending, Attempt.database] at hattempt
      exact ⟨hattempt, Call.next_of_idle (Attempt.idle_iff.1 hending)⟩
    | refused reason =>
      simp only [hending, Attempt.database] at hattempt
      exact hattempt
    | unsynced reason =>
      simp only [hending] at hattempt hstored
      exact ⟨_, hattempt, hstored⟩
    | done =>
      have hrewrites : a.call.rewrites s.events = true :=
        Attempt.rewrites_of_ending (by rw [hending]; nofun)
      simp only [hending, Call.answer_of_rewrites hrewrites] at hattempt hstored
      exact ⟨_, hattempt, hstored⟩
  · intro as
    obtain ⟨db', hrun, hslot, hothers⟩ := attempts_eq (x := .together s.events) rfl hopen as
    refine ⟨db', hrun, hslot, hothers, fun kind hcodec hheld has hsynced => ?_⟩
    rw [hslot]
    exact Copies.foldl_agree hcodec hheld (fun _ => rfl) has hsynced

end Slot

/-! A slot that is written, then written with a sync that fails, cleared with a change that fails, and
written again. -/

/-- What was told of the medium. -/
def full : String := "no space left on device"

/-- The attempts. -/
def mishaps : List Attempt :=
  [⟨.good, .write [bareEvent "Press" 1]⟩, ⟨{ sync := some full }, .write [bareEvent "Input" 2]⟩,
    ⟨{ change := some full }, .clear⟩, ⟨.good, .write [bareEvent "Press" 3]⟩]

/-- The event that was not synced is gone again, and memory and slot are the same. -/
theorem what_failures_leave_session :
    Slot.stored {} (Slot.nameOf "a") = [] ∧ (∀ a ∈ mishaps, a.call.Of Event.Storable) ∧
    ∃ db, Slot.attempts {} ⟨Slot.nameOf "a", []⟩ mishaps =
        ([.done, .failed (.io full), .failed (.io full), .done],
          ⟨Slot.nameOf "a", [bareEvent "Press" 1, bareEvent "Press" 3]⟩, db) ∧
      Slot.stored db (Slot.nameOf "a") = [bareEvent "Press" 1, bareEvent "Press" 3] := by
  have hkind : ∀ a ∈ mishaps, a.call.Of Event.Storable := by
    simp [mishaps, Call.Of, bareEvent_storable]
  have hopen : Slot.stored {} (Slot.nameOf "a") = [] := rfl
  obtain ⟨-, hrun⟩ := Slot.what_failures_leave (s := ⟨Slot.nameOf "a", []⟩) hopen
  obtain ⟨db, hattempts, -, -, hagree⟩ := hrun mishaps
  exact ⟨hopen, hkind, db, hattempts,
    hagree Event.Storable (fun _ => Event.parseList_of_storable) nofun hkind rfl⟩

/-- A float that is read as its neighbour. -/
def drifting : FiniteFloat :=
  ⟨0x3E0F4F703822128F, by decide⟩

/-- An event with it. -/
def driftingEvent : Event :=
  { bareEvent "Press" 1 with globalContexts := [⟨"Section", "main", [("x", .num (.real drifting))]⟩] }

/-- **Memory and slot can part.**  A write that failed is there when the slot is opened again; what could
not be cleared is held in memory, and the slot is gone; and a write that succeeds can leave a text that
is read as another event. -/
theorem failed_sync_parts_them :
    (∃ db, Slot.attempt {} ⟨Slot.nameOf "a", []⟩
          ⟨{ sync := some full }, .write [bareEvent "Press" 1]⟩ =
        (.failed (.io full), ⟨Slot.nameOf "a", []⟩, db) ∧
      Slot.load db "a" = .ok ⟨Slot.nameOf "a", [bareEvent "Press" 1]⟩) ∧
    (∃ db₁ db₂ s, Slot.attempt {} ⟨Slot.nameOf "a", []⟩ ⟨.good, .write [bareEvent "Press" 1]⟩ =
        (.done, s, db₁) ∧
      Slot.attempt db₁ s ⟨{ sync := some full }, .clear⟩ =
        (.failed (.io full), ⟨Slot.nameOf "a", [bareEvent "Press" 1]⟩, db₂) ∧
      Slot.load db₂ "a" = .ok ⟨Slot.nameOf "a", []⟩) ∧
    ∃ db es, Slot.attempt {} ⟨Slot.nameOf "a", []⟩ ⟨.good, .write [driftingEvent]⟩ =
        (.done, ⟨Slot.nameOf "a", [driftingEvent]⟩, db) ∧
      Slot.load db "a" = .ok ⟨Slot.nameOf "a", es⟩ ∧ es ≠ [driftingEvent] := by
  have hload : ∀ db : Database,
      Slot.load db "a" = .ok ⟨Slot.nameOf "a", Slot.stored db (Slot.nameOf "a")⟩ :=
    fun db => by rw [Slot.load, if_neg (by decide)]
  have hput : ∀ es, Slot.stored (Database.put {} (Slot.nameOf "a") (Event.listText es))
      (Slot.nameOf "a") = Slot.reload es := fun es => Slot.stored_put
  refine ⟨⟨_, rfl, ?_⟩, ⟨_, _, _, rfl, rfl, ?_⟩, ⟨_, _, rfl, hload _, ?_⟩⟩
  · have hback : Event.parseList (Event.listText [bareEvent "Press" 1]) = .ok [bareEvent "Press" 1] :=
      Event.parseList_of_storable (List.forall_mem_singleton.2 (bareEvent_storable "Press" 1))
    have hstored := (hput [bareEvent "Press" 1]).trans (Slot.reload_eq hback)
    exact (hload _).trans (congrArg (fun es => Except.ok (⟨Slot.nameOf "a", es⟩ : Slot)) hstored)
  · refine (hload _).trans ?_
    rw [Slot.stored, Database.get?_drop_self]
    rfl
  · have hnumbers : (Slot.reload [driftingEvent]).map (·.toJson.numbers) ≠
        [driftingEvent].map (·.toJson.numbers) := by decide +kernel
    exact fun h => hnumbers (congrArg (List.map _) ((hput [driftingEvent]).symm.trans h))

end EventRelay.Store
