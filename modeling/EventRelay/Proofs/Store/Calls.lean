import EventRelay.Proofs.Json.Fields
import EventRelay.Store.Basic

/-!
# What a call on a store does

A store in memory and a slot of a database change their lists in different ways: the one in place,
the other by writing the next list out before it is taken over.  Both do what the call does to a
list, and answer what the call answers about it (`Call.next`, `Call.answer`).

* `Database.get?_put_self` and others — a change of one slot leaves the others alone.
* `Store.call_memory` — **a store in memory does what the call says**.
* `Slot.call_eq` — **so does a slot**.
* `Slot.after_other`, `Slot.after_own` — what that leaves in the database.
-/

namespace EventRelay.Store

/-! ## Databases -/

namespace Database

variable {db : Database} {slot other text : String}

theorem get?_put_self : (db.put slot text).get? slot = some text :=
  Json.lookup_insertField_self

theorem get?_put_of_ne (h : other ≠ slot) : (db.put slot text).get? other = db.get? other :=
  Json.lookup_insertField_of_ne h

theorem get?_drop_self : (db.drop slot).get? slot = none := by
  refine List.lookup_eq_none_iff.2 fun p hp => ?_
  have hne : p.1 ≠ slot := bne_iff_ne.1 (List.mem_filter.1 hp).2
  exact bne_iff_ne.2 hne.symm

theorem get?_drop_of_ne (h : other ≠ slot) : (db.drop slot).get? other = db.get? other := by
  obtain ⟨slots⟩ := db
  show (slots.filter _).lookup other = slots.lookup other
  induction slots with
  | nil => rfl
  | cons p slots ih =>
    obtain ⟨name, text⟩ := p
    by_cases hname : name = slot
    · subst hname
      rw [List.filter_cons_of_neg (by simp), ih, List.lookup_cons, beq_false_of_ne h]
    · rw [List.filter_cons_of_pos (by simpa using hname), List.lookup_cons, List.lookup_cons, ih]

end Database

/-! ## Calls -/

/-- A call on a store. -/
inductive Call where
  /-- Puts events at the end. -/
  | write (events : List Event)
  /-- Removes events by id. -/
  | delete (ids : List EventId)
  /-- Removes everything. -/
  | clear
  /-- Reads the first events that pass the filter. -/
  | read (limit : Option Nat) (keep : Event → Bool)
  /-- Asks how many events there are, and whether there is none. -/
  | size

/-- What a call answers. -/
inductive Answer where
  /-- The change has been made. -/
  | done
  /-- It has not. -/
  | failed (e : StorageError)
  /-- The events that were read. -/
  | events (es : List Event)
  /-- How many events there are, and whether there is none. -/
  | size (count : Nat) (isEmpty : Bool)

namespace Call

/-- The list after the call. -/
def next : Call → List Event → List Event
  | .write events, held => held ++ events
  | .delete ids, held => without ids held
  | .clear, _ => []
  | .read _ _, held => held
  | .size, held => held

/-- What the call answers about a list, where nothing fails. -/
def answer : Call → List Event → Answer
  | .read limit keep, held => .events (select limit keep held)
  | .size, held => .size held.length (held.length == 0)
  | _, _ => .done

end Call

/-- The answer to a read. -/
def Answer.ofRead : Except StorageError (List Event) → Answer
  | .ok es => .events es
  | .error e => .failed e

/-- A list that loses nothing when events are removed is left as it is. -/
theorem without_eq_self {ids : List EventId} {held : List Event}
    (h : (without ids held).length = held.length) : without ids held = held :=
  List.filter_sublist.eq_of_length h

/-! ## Stores in memory -/

/-- The store after a change; one that fails leaves it as it was. -/
def settle (s : Store) : Except StorageError Store → Answer × Store
  | .ok s' => (.done, s')
  | .error e => (.failed e, s)

/-- A call on a store. -/
def call (s : Store) : Call → Answer × Store
  | .write events => s.settle (s.write events)
  | .delete ids => s.settle (s.delete ids)
  | .clear => s.settle (.ok s.clear)
  | .read limit keep => (.ofRead (s.read limit keep), s)
  | .size => (.size s.size (s.size == 0), s)

/-- **A store in memory does what the call says.** -/
theorem call_memory (held : List Event) (c : Call) :
    Store.call { events := held } c = (c.answer held, { events := c.next held }) := by
  cases c with
  | delete ids =>
    show settle _ (if (without ids held).length = held.length then _ else _) = _
    split
    · rename_i hlen
      rw [Call.next, without_eq_self hlen]
      rfl
    · rfl
  | _ => rfl

/-! ## Slots -/

namespace Slot

theorem nameOf_injective : Function.Injective nameOf := by
  intro a b h
  have hchars := congrArg String.toList h
  rw [nameOf, nameOf, String.toList_append, String.toList_append] at hchars
  exact String.toList_inj.1 (List.append_cancel_left hchars)

theorem stored_congr {db db' : Database} {name : String} (h : db.get? name = db'.get? name) :
    stored db name = stored db' name := by
  rw [stored, stored, h]

theorem stored_of_decode {db : Database} {name : String} {events : List Event}
    (h : decode (db.get? name) = .ok events) : stored db name = events := by
  rw [stored, h]

/-- The slot and the database after a change; one that fails leaves the slot as it was. -/
def settle (s : Slot) : Except StorageError Slot × Database → Answer × Slot × Database
  | (.ok s', db) => (.done, s', db)
  | (.error e, db) => (.failed e, s, db)

/-- A call on a slot of a database that works. -/
def call (db : Database) (s : Slot) : Call → Answer × Slot × Database
  | .write events => s.settle (s.write .good db events)
  | .delete ids => s.settle (s.delete .good db ids)
  | .clear => s.settle (s.clear .good db)
  | .read limit keep => (.ofRead ((Store.ofSlot db s).read limit keep), s, db)
  | .size => (.size (Store.ofSlot db s).size ((Store.ofSlot db s).size == 0), s, db)

/-- The database after a call: the slot is written again, removed or left alone. -/
def after (db : Database) (s : Slot) : Call → Database
  | .write events => db.put s.name (Event.listText (s.events ++ events))
  | .delete ids =>
    if (without ids s.events).length = s.events.length then db
    else db.put s.name (Event.listText (without ids s.events))
  | .clear => db.drop s.name
  | _ => db

/-- **A slot does what the call says.** -/
theorem call_eq (db : Database) (s : Slot) (c : Call) :
    s.call db c = (c.answer s.events, ⟨s.name, c.next s.events⟩, s.after db c) := by
  cases c with
  | delete ids =>
    show settle _ (if _ then _ else _) = (_, _, if _ then _ else _)
    split
    · rename_i hlen
      rw [Call.next, without_eq_self hlen]
      rfl
    · rfl
  | _ => rfl

/-- Other slots are left alone. -/
theorem after_other {db : Database} {s : Slot} {other : String} (h : other ≠ s.name) (c : Call) :
    (s.after db c).get? other = db.get? other := by
  cases c with
  | write events => exact Database.get?_put_of_ne h
  | delete ids =>
    rw [after]
    split
    · rfl
    · exact Database.get?_put_of_ne h
  | clear => exact Database.get?_drop_of_ne h
  | read limit keep => rfl
  | size => rfl

/-- The slot holds the list after the call, unless neither the list nor the slot has changed. -/
theorem after_own (db : Database) (s : Slot) (c : Call)
    (hback : Event.parseList (Event.listText (c.next s.events)) = .ok (c.next s.events)) :
    decode ((s.after db c).get? s.name) = .ok (c.next s.events) ∨
      (s.after db c).get? s.name = db.get? s.name ∧ c.next s.events = s.events := by
  cases c with
  | write events =>
    rw [after, Database.get?_put_self]
    exact Or.inl hback
  | delete ids =>
    rw [after]
    split
    · rename_i hlen
      exact Or.inr ⟨rfl, without_eq_self hlen⟩
    · rw [Database.get?_put_self]
      exact Or.inl hback
  | clear =>
    rw [after, Database.get?_drop_self]
    exact Or.inl rfl
  | read limit keep => exact Or.inr ⟨rfl, rfl⟩
  | size => exact Or.inr ⟨rfl, rfl⟩

end Slot

end EventRelay.Store
