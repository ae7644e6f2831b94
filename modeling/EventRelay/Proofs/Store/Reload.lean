import EventRelay.Proofs.Event.RoundTrip
import EventRelay.Proofs.Store.Calls

/-!
# What is left of an accepted write

A write is accepted whatever its events hold, but the text that it leaves is read only if fewer than
128 brackets are open in it at once; a text that is not read counts as an empty list.  The list adds
one bracket to those of its events, so an event that is read on its own can make the whole slot
unreadable, with every other event in it.

* `stored_listText` — what opening a slot makes of the text of a list.
* `load_after_write` — **what opening a slot gives after an accepted write**.
* `deep_event_empties_slot` — the limit is met by an event that is accepted everywhere else.
-/

namespace EventRelay.Store

open Json

namespace Slot

/-- A write that is accepted has put the text of the whole list into the slot. -/
theorem write_eq_ok {health : Health} {db db' : Database} {s s' : Slot} {events : List Event}
    (h : s.write health db events = (.ok s', db')) :
    s' = ⟨s.name, s.events ++ events⟩ ∧
      db' = db.put s.name (Event.listText (s.events ++ events)) := by
  unfold write replace Database.change at h
  rcases health with ⟨_ | reason, _ | reason⟩
  · cases h
    exact ⟨rfl, rfl⟩
  all_goals cases h

/-- What opening a slot makes of the text of a list: the list, or nothing at all. -/
theorem stored_listText {db : Database} {name : String} {es : List Event}
    (hbuilt : ∀ e ∈ es, e.Built) (hfloats : (Event.listJson es).FloatsReadBack) :
    stored (db.put name (Event.listText es)) name =
      if nesting (Event.listText es) < 128 then es else [] := by
  have hparse := Event.parseList_within
    (fun e he c hc => ((hbuilt e he).contexts c hc).wellFormed) hfloats.legible
  rw [stored, Database.get?_put_self, decode, hparse, nestingLimit]
  rcases Nat.lt_or_ge (nesting (Event.listText es)) 128 with hlt | hge
  · rw [within_of_lt hlt, if_pos hlt]
  · rw [within_of_le hge, if_neg (Nat.not_lt.2 hge)]
    rfl

theorem load_listText {db : Database} {tracker : String} {es : List Event}
    (hblank : Text.isBlankText tracker = false) (hbuilt : ∀ e ∈ es, e.Built)
    (hfloats : (Event.listJson es).FloatsReadBack) :
    load (db.put (nameOf tracker) (Event.listText es)) tracker =
      .ok ⟨nameOf tracker, if nesting (Event.listText es) < 128 then es else []⟩ := by
  rw [load, hblank, stored_listText hbuilt hfloats]
  rfl

/-- **What opening a slot gives after an accepted write**: every stored event, if fewer than 128
brackets are open at once in the text of the list, and no event at all otherwise. -/
theorem load_after_write {health : Health} {db db' : Database} {tracker : String}
    {held events : List Event} {s : Slot} (hblank : Text.isBlankText tracker = false)
    (hwrite : write health db ⟨nameOf tracker, held⟩ events = (.ok s, db'))
    (hbuilt : ∀ e ∈ held ++ events, e.Built)
    (hfloats : (Event.listJson (held ++ events)).FloatsReadBack) :
    s.events = held ++ events ∧
      load db' tracker = .ok ⟨nameOf tracker,
        if nesting (Event.listText (held ++ events)) < 128 then held ++ events else []⟩ := by
  obtain ⟨rfl, rfl⟩ := write_eq_ok hwrite
  exact ⟨rfl, load_listText hblank hbuilt hfloats⟩

end Slot

/-! ## At the limit -/

/-- Arrays nested in each other. -/
def nestedArrays : Nat → Json
  | 0 => .null
  | n + 1 => .arr [nestedArrays n]

theorem depth_nestedArrays (n : Nat) : (nestedArrays n).depth = n := by
  induction n with
  | zero => rfl
  | succ n ih => rw [nestedArrays, depth, depthItems, depthItems, ih, Nat.max_zero]

theorem numbers_nestedArrays (n : Nat) : (nestedArrays n).numbers = [] := by
  induction n with
  | zero => rfl
  | succ n ih => rw [nestedArrays, numbers, numbersItems, numbersItems, ih, List.append_nil]

theorem canonical_nestedArrays (n : Nat) : (nestedArrays n).Canonical := by
  induction n with
  | zero => trivial
  | succ n ih => exact ⟨ih, trivial⟩

/-- A context with an attribute of nested arrays. -/
def nestedContext (n : Nat) : Context :=
  ({ typeName := "Section", id := "main" } : Context).withAttribute "tree" (nestedArrays n)

theorem attributes_nestedContext (n : Nat) :
    (nestedContext n).attributes = [("tree", nestedArrays n)] := rfl

/-- An event in such a context. -/
def nestedEvent (n : Nat) : Event where
  eventType := "Press"
  id := EventId.ofNat n
  time := 0
  locationStack := [nestedContext n]
  globalContexts := []

theorem nestedEvent_built (n : Nat) : (nestedEvent n).Built := by
  refine .new fun c hc => ?_
  cases List.mem_singleton.1 hc
  exact (Context.Built.new _ _).withAttribute "tree" (canonical_nestedArrays n)

theorem depth_nestedEvent (n : Nat) : (nestedEvent n).toJson.depth = n + 3 := by
  simp [nestedEvent, Event.toJson, Context.toJson, attributes_nestedContext, depth, depthFields,
    depthItems, depth_nestedArrays]

theorem numbers_nestedEvent (n : Nat) : (nestedEvent n).toJson.numbers = [.natural 0] := by
  simp [nestedEvent, Event.toJson, Context.toJson, attributes_nestedContext, numbers,
    numbersFields, numbersItems, numbers_nestedArrays]

/-- The text of two such events nests one bracket deeper than the deeper event. -/
theorem nesting_nestedEvents (m n : Nat) :
    nesting (Event.listText [nestedEvent m, nestedEvent n]) = max m n + 4 := by
  have hdepth : nesting (Event.listText [nestedEvent m, nestedEvent n]) =
      max (nestedEvent m).toJson.depth (max (nestedEvent n).toJson.depth 0) + 1 :=
    nesting_text (Event.listJson [nestedEvent m, nestedEvent n])
  rw [hdepth, depth_nestedEvent, depth_nestedEvent]
  omega

theorem floats_nestedEvents (m n : Nat) :
    (Event.listJson [nestedEvent m, nestedEvent n]).FloatsReadBack := by
  have hnumbers : (Event.listJson [nestedEvent m, nestedEvent n]).numbers =
      (nestedEvent m).toJson.numbers ++ ((nestedEvent n).toJson.numbers ++ []) := rfl
  intro x hx
  rw [hnumbers, numbers_nestedEvent, numbers_nestedEvent] at hx
  simp at hx

theorem built_nestedEvents (m n : Nat) : ∀ e ∈ [nestedEvent m, nestedEvent n], e.Built :=
  List.forall_mem_cons.2 ⟨nestedEvent_built m, List.forall_mem_singleton.2 (nestedEvent_built n)⟩

/-- One bracket below the limit both events are there again. -/
theorem load_after_write_shallow :
    Text.isBlankText "a" = false ∧ (∀ e ∈ [nestedEvent 0, nestedEvent 123], e.Built) ∧
      (Event.listJson [nestedEvent 0, nestedEvent 123]).FloatsReadBack ∧
      ∃ s db, Slot.write .good {} ⟨Slot.nameOf "a", [nestedEvent 0]⟩ [nestedEvent 123] = (.ok s, db) ∧
        Slot.load db "a" = .ok ⟨Slot.nameOf "a", [nestedEvent 0, nestedEvent 123]⟩ := by
  have hwrite : Slot.write .good {} ⟨Slot.nameOf "a", [nestedEvent 0]⟩ [nestedEvent 123] =
      (.ok ⟨Slot.nameOf "a", [nestedEvent 0, nestedEvent 123]⟩,
        Database.put {} (Slot.nameOf "a") (Event.listText [nestedEvent 0, nestedEvent 123])) := rfl
  obtain ⟨-, hload⟩ := Slot.load_after_write (by decide) hwrite (built_nestedEvents 0 123)
    (floats_nestedEvents 0 123)
  rw [show nesting (Event.listText ([nestedEvent 0] ++ [nestedEvent 123])) = _ from
    nesting_nestedEvents 0 123] at hload
  exact ⟨by decide, built_nestedEvents 0 123, floats_nestedEvents 0 123, _, _, hwrite, hload⟩

/-- **An event at the limit empties the slot.**  On its own it is read; it is written behind another
one, and the write is accepted; and when the slot is opened again neither of the two is left. -/
theorem deep_event_empties_slot :
    Event.parse (nestedEvent 124).text = .ok (nestedEvent 124) ∧
      ∃ s₀ s₁ s₂ db₁ db₂, Slot.load {} "a" = .ok s₀ ∧
        s₀.write .good {} [nestedEvent 0] = (.ok s₁, db₁) ∧
        s₁.write .good db₁ [nestedEvent 124] = (.ok s₂, db₂) ∧
        s₂.events = [nestedEvent 0, nestedEvent 124] ∧
        Slot.load db₂ "a" = .ok ⟨s₂.name, []⟩ := by
  constructor
  · have hleg : (nestedEvent 124).toJson.Legible := by
      rw [Legible, numbers_nestedEvent]
      exact List.forall_mem_singleton.2 (natural_readsBack 0)
    rw [Event.parse_within (fun c hc => ((nestedEvent_built 124).contexts c hc).wellFormed) hleg]
    rw [show nesting (nestedEvent 124).text = _ from nesting_text (nestedEvent 124).toJson,
      depth_nestedEvent]
    exact within_of_lt (by decide)
  · refine ⟨⟨Slot.nameOf "a", []⟩, ⟨Slot.nameOf "a", [nestedEvent 0]⟩,
      ⟨Slot.nameOf "a", [nestedEvent 0, nestedEvent 124]⟩, _, _, rfl, rfl, rfl, rfl, ?_⟩
    refine (Slot.load_listText (by decide) (built_nestedEvents 0 124)
      (floats_nestedEvents 0 124)).trans ?_
    rw [nesting_nestedEvents]
    rfl

end EventRelay.Store
