import EventRelay.Proofs.Queue.Books

/-!
# What the store keeps

A journal says which events should be pending: each event that was accepted, in the order of
acceptance, unless a later note removes its id (`pending`).  Only three notes do that: a delivered
batch that holds the id, a direct removal that names it, and a removal of everything.

* `pending_append`, `pending_concat` — what later notes do to the pending events: they remove some
  and add others at the end.
* `mem_pending_or_removed` — an accepted event is pending, or a later note says why not.
* `stored_move` — every move keeps the store in step with the journal.
* `store_holds_pending` — **nothing is lost**: after every run the store holds exactly the pending
  events, and only a delivery or a direct removal ever takes one out.
-/

namespace EventRelay.Queue

/-! ## Pending events -/

/-- The events that a journal leaves pending. -/
def pending : List Note → List Event
  | [] => []
  | note :: later => note.accepts.filter (fun e => !later.any (·.removes e.id)) ++ pending later

/-- Pending events were accepted, and keep the order of acceptance. -/
theorem pending_sublist (journal : List Note) :
    (pending journal).Sublist (journal.flatMap Note.accepts) := by
  induction journal with
  | nil => exact List.Sublist.slnil
  | cons note later ih => exact List.filter_sublist.append ih

/-- Later notes remove pending events by id, and add others at the end. -/
theorem pending_append (journal later : List Note) :
    pending (journal ++ later) =
      (pending journal).filter (fun e => !later.any (·.removes e.id)) ++ pending later := by
  induction journal with
  | nil => rfl
  | cons first rest ih =>
    have hfirst : first.accepts.filter (fun e => !(rest ++ later).any (·.removes e.id)) =
        (first.accepts.filter fun e => !rest.any (·.removes e.id)).filter
          fun e => !later.any (·.removes e.id) := by
      rw [List.filter_filter]
      refine List.filter_congr fun e _ => ?_
      rw [List.any_append, Bool.not_or, Bool.and_comm]
    rw [List.cons_append, pending, pending, ih, hfirst, List.filter_append, List.append_assoc]

/-- One more note: it removes pending events by id, and adds others at the end. -/
theorem pending_concat (journal : List Note) (note : Note) :
    pending (journal ++ [note]) =
      (pending journal).filter (fun e => !note.removes e.id) ++ note.accepts := by
  rw [pending_append]
  simp [pending]

/-- Notes that accept nothing leave nothing pending of their own. -/
theorem pending_eq_nil {journal : List Note} (h : ∀ note ∈ journal, note.accepts = []) :
    pending journal = [] := by
  have hsub := pending_sublist journal
  rw [List.flatMap_eq_nil_iff.2 h] at hsub
  exact List.sublist_nil.1 hsub

/-- A note that neither accepts nor removes leaves the pending events as they are. -/
theorem pending_concat_quiet {note : Note} (ha : note.accepts = [])
    (hr : ∀ id, note.removes id = false) (journal : List Note) :
    pending (journal ++ [note]) = pending journal := by
  rw [pending_concat, ha, List.append_nil, List.filter_eq_self]
  intro e _
  rw [hr, Bool.not_false]

theorem pending_concat_accepted (journal : List Note) (events : List Event) :
    pending (journal ++ [.accepted events]) = pending journal ++ events := by
  have hkeep : (pending journal).filter (fun e => !(Note.accepted events).removes e.id) =
      pending journal := List.filter_eq_self.2 fun _ _ => rfl
  rw [pending_concat, hkeep]
  rfl

/-- An accepted event is pending, or a later note removes its id. -/
theorem mem_pending_or_removed (before after : List Note) {events : List Event} {e : Event}
    (he : e ∈ events) :
    e ∈ pending (before ++ .accepted events :: after) ∨ ∃ note ∈ after, note.removes e.id = true := by
  by_cases h : after.any (·.removes e.id) = true
  · obtain ⟨note, hn, hr⟩ := List.any_eq_true.1 h
    exact Or.inr ⟨note, hn, hr⟩
  · refine Or.inl ?_
    have hmem : e ∈ pending (.accepted events :: after) :=
      List.mem_append_left _ (List.mem_filter.2 ⟨he, by simpa using h⟩)
    induction before with
    | nil => exact hmem
    | cons note before ih => exact List.mem_append_right _ ih

/-- What it takes to remove an id. -/
theorem removes_eq_true {note : Note} {id : EventId} (h : note.removes id = true) :
    (∃ flight ending, note = .handled flight ending none ∧ ending.outcome = .ok () ∧
      id ∈ flight.batch.ids) ∨
    (∃ ids, note = .deleted ids ∧ id ∈ ids) ∨ note = .cleared := by
  unfold Note.removes at h
  split at h
  · rename_i flight ending
    obtain ⟨hd, hid⟩ := Bool.and_eq_true_iff.1 h
    refine Or.inl ⟨flight, ending, rfl, ?_, List.contains_iff_mem.1 hid⟩
    unfold Ending.delivers at hd
    split at hd
    · assumption
    · cases hd
  · exact Or.inr (Or.inl ⟨_, rfl, List.contains_iff_mem.1 h⟩)
  · exact Or.inr (Or.inr rfl)
  · cases h

/-! ## The store follows the journal -/

/-- The store holds the pending events. -/
def Books.Stored (b : Books) : Prop :=
  b.events = pending b.journal

/-- **Every move keeps the store in step with the journal.** -/
theorem stored_move {b b' : Books} {a : Action} (h : Books.Move b a b') (hb : b.Stored) :
    b'.Stored := by
  unfold Books.Stored at hb ⊢
  cases h with
  | quiet => exact hb
  | accept events ha =>
    dsimp only
    rw [pending_concat_accepted, hb]
  | delete ids =>
    dsimp only
    rw [pending_concat, hb]
    simp [Note.removes, Note.accepts, Store.without]
  | clear =>
    dsimp only
    rw [pending_concat]
    simp [Note.removes, Note.accepts]
  | claim exclude batch ha hbatch =>
    dsimp only
    rw [pending_concat_quiet rfl (fun _ => rfl), hb]
  | deliver flight ending hf hn hd =>
    dsimp only
    rw [pending_concat, hb]
    simp [Note.removes, Note.accepts, Store.without, hd]
  | retain flight ending failure hf hn hd =>
    dsimp only
    rw [pending_concat_quiet rfl (fun _ => rfl), hb]
  | fail flight ending hf hn hd =>
    dsimp only
    rw [pending_concat_quiet rfl (fun _ => by simp [Note.removes, hd]), hb]
  | land flight ending hf he =>
    dsimp only
    rw [pending_concat_quiet rfl (fun _ => rfl), hb]

theorem stored_run (settings : Settings) (store : Store) (actions : List Action) :
    ((Course.begin settings store).run actions).books.Stored := by
  refine Course.run_books (P := Books.Stored) stored_move ?_ actions
  exact (pending_concat_accepted [] store.events).symm

theorem Course.Reached.stored {c : Course} (h : c.Reached) :
    c.queue.store.events = pending c.journal := by
  obtain ⟨settings, store, actions, rfl⟩ := h
  exact stored_run settings store actions

/-- Actions that take events out of the store: direct removals, and the end of a call that
delivered its batch. -/
def Action.mayRemove : Action → Bool
  | .delete _ => true
  | .clear => true
  | .finish _ ending => ending.delivers
  | _ => false

/-- No other action takes anything out of the store. -/
theorem prefix_of_not_mayRemove {b b' : Books} {a : Action} (h : Books.Move b a b')
    (ha : a.mayRemove = false) : b.events <+: b'.events := by
  cases h with
  | quiet => exact List.prefix_refl _
  | accept events ha' => exact List.prefix_append _ _
  | delete ids => cases ha
  | clear => cases ha
  | claim exclude batch ha' hb => exact List.prefix_refl _
  | deliver flight ending hf hn hd =>
    rw [Action.mayRemove, hd] at ha
    cases ha
  | retain flight ending failure hf hn hd => exact List.prefix_refl _
  | fail flight ending hf hn hd => exact List.prefix_refl _
  | land flight ending hf he => exact List.prefix_refl _

/-- **Nothing is lost.**  After every run the store holds the accepted events in the order of
acceptance, less those removed; an accepted event that is missing was in a batch that was delivered
since, or was named by a direct removal since, or everything was removed since; and no action but
these takes an event out, in particular none of a batch that failed, crashed or is still in
flight. -/
theorem store_holds_pending (settings : Settings) (store : Store) (actions : List Action) :
    let c := (Course.begin settings store).run actions
    c.queue.store.events = pending c.journal ∧
    (∀ before events after, c.journal = before ++ .accepted events :: after → ∀ e ∈ events,
      e ∈ c.queue.store.events ∨
      (∃ flight ending, .handled flight ending none ∈ after ∧ ending.outcome = .ok () ∧
        e.id ∈ flight.batch.ids) ∨
      (∃ ids, .deleted ids ∈ after ∧ e.id ∈ ids) ∨ .cleared ∈ after) ∧
    (∀ a : Action, a.mayRemove = false → c.queue.store.events <+: (c.act a).queue.store.events) := by
  intro c
  have hstored : c.queue.store.events = pending c.journal := stored_run settings store actions
  refine ⟨hstored, ?_, fun a ha => prefix_of_not_mayRemove (c.move_act a) ha⟩
  intro before events after hj e he
  rcases mem_pending_or_removed before after he with hp | ⟨note, hn, hr⟩
  · refine Or.inl ?_
    rw [hstored, hj]
    exact hp
  · refine Or.inr ?_
    rcases removes_eq_true hr with ⟨flight, ending, rfl, ho, hid⟩ | ⟨ids, rfl, hid⟩ | rfl
    · exact Or.inl ⟨flight, ending, hn, ho, hid⟩
    · exact Or.inr (Or.inl ⟨ids, hn, hid⟩)
    · exact Or.inr (Or.inr hn)

end EventRelay.Queue
