import EventRelay.Proofs.Queue.Exclusion
import EventRelay.Proofs.Queue.Retention

/-!
# Each event is delivered once

When a delivered batch can always be removed from the store, and no id is accepted twice, no id is
ever delivered twice.  A delivered id is no longer stored, so that it cannot be claimed again; and
until it is removed its batch is in flight, so that nobody else can claim it.  The order in which a
delivery ends matters here: the events are removed before their ids are released.

* `Books.Singular` — the invariant: delivered ids are distinct and no longer stored, and the ids of a
  batch whose call has not ended are not delivered yet.
* `singular_move` — every move keeps it, as long as the journal tells of nothing else.
* `pending_delivered_perm` — without direct removals the pending and the delivered ids together are
  the accepted ones.
* `delivered_once` — both statements for whole runs, with the counts of the queue.
-/

namespace EventRelay.Queue

/-! ## Reading the journal -/

/-- The events that were accepted, in order. -/
def accepted (journal : List Note) : List Event :=
  journal.flatMap Note.accepts

/-- The batches that were delivered, in order. -/
def deliveries (journal : List Note) : List Batch :=
  journal.filterMap Note.delivered?

/-- The ids that were delivered, in order. -/
def deliveredIds (journal : List Note) : List EventId :=
  (deliveries journal).flatMap Batch.ids

theorem accepted_append (as bs : List Note) : accepted (as ++ bs) = accepted as ++ accepted bs :=
  List.flatMap_append

theorem deliveredIds_append (as bs : List Note) :
    deliveredIds (as ++ bs) = deliveredIds as ++ deliveredIds bs := by
  unfold deliveredIds deliveries
  rw [List.filterMap_append, List.flatMap_append]

theorem deliveredIds_concat_quiet {note : Note} (h : note.delivered? = none)
    (journal : List Note) : deliveredIds (journal ++ [note]) = deliveredIds journal := by
  rw [deliveredIds_append]
  simp [deliveredIds, deliveries, h]

theorem deliveredIds_concat {flight : Flight} {ending : Ending} (hd : ending.delivers = true)
    (failure : Option StorageError) (journal : List Note) :
    deliveredIds (journal ++ [.handled flight ending failure]) =
      deliveredIds journal ++ flight.batch.ids := by
  rw [deliveredIds_append]
  simp [deliveredIds, deliveries, Note.delivered?, hd]

/-! ## The invariant -/

/-- No delivered batch was left in the store, and no id was accepted twice. -/
def Undisturbed (journal : List Note) : Prop :=
  (∀ note ∈ journal, note.failure? = none) ∧ ((accepted journal).map Event.id).Nodup

theorem Undisturbed.of_append {as bs : List Note} (h : Undisturbed (as ++ bs)) :
    Undisturbed as := by
  refine ⟨fun note hn => h.1 note (List.mem_append_left _ hn), ?_⟩
  have hnd := h.2
  rw [accepted_append, List.map_append] at hnd
  exact (List.sublist_append_left _ _).nodup hnd

/-- Every id that was delivered was delivered once. -/
structure Books.Singular (b : Books) : Prop where
  /-- Delivered ids are distinct. -/
  nodup : (deliveredIds b.journal).Nodup
  /-- Delivered events are no longer stored. -/
  gone : ∀ e ∈ b.events, e.id ∉ deliveredIds b.journal
  /-- A batch whose call has not ended holds nothing that was delivered. -/
  waiting : ∀ f ∈ b.flights, b.ending? f.ticket = none →
    ∀ id ∈ f.batch.ids, id ∉ deliveredIds b.journal
  /-- The ids of a batch in flight are distinct. -/
  distinct : ∀ f ∈ b.flights, f.batch.ids.Nodup
  /-- What is in flight was accepted. -/
  known : ∀ f ∈ b.flights, ∀ id ∈ f.batch.ids, id ∈ (accepted b.journal).map Event.id
  /-- What was delivered was accepted. -/
  familiar : ∀ id ∈ deliveredIds b.journal, id ∈ (accepted b.journal).map Event.id

namespace Books.Singular

variable {b : Books}

theorem accept (h : b.Singular) {events : List Event} {b' : Books}
    (hj : b'.journal = b.journal ++ [.accepted events]) (he : b'.events = b.events ++ events)
    (hf : b'.flights = b.flights) (hu : Undisturbed b'.journal) : b'.Singular := by
  have hdel : deliveredIds b'.journal = deliveredIds b.journal := by
    rw [hj, deliveredIds_concat_quiet rfl]
  have hacc : (accepted b'.journal).map Event.id =
      (accepted b.journal).map Event.id ++ events.map Event.id := by
    rw [hj, accepted_append, List.map_append]
    simp [accepted, Note.accepts]
  have hend : ∀ ticket, b'.ending? ticket = b.ending? ticket :=
    fun ticket => b.ending?_concat_quiet b' hj rfl
  have hfresh : ∀ e ∈ events, e.id ∉ (accepted b.journal).map Event.id := by
    have hnd := hu.2
    rw [hacc, List.nodup_append] at hnd
    intro e hm hold
    exact hnd.2.2 _ hold _ (List.mem_map_of_mem hm) rfl
  refine ⟨by rw [hdel]; exact h.nodup, ?_, ?_, by rw [hf]; exact h.distinct, ?_, ?_⟩
  · intro e hm
    rw [hdel]
    rw [he, List.mem_append] at hm
    rcases hm with hm | hm
    · exact h.gone e hm
    · exact fun hid => hfresh e hm (h.familiar _ hid)
  · intro f hm hn id hid
    rw [hdel]
    rw [hf] at hm
    rw [hend] at hn
    exact h.waiting f hm hn id hid
  · intro f hm id hid
    rw [hacc]
    rw [hf] at hm
    exact List.mem_append_left _ (h.known f hm id hid)
  · intro id hid
    rw [hacc]
    rw [hdel] at hid
    exact List.mem_append_left _ (h.familiar id hid)

/-- A note that neither accepts nor delivers, while nothing is added to the store and no new batch
is in flight. -/
theorem concat_quiet (h : b.Singular) {note : Note} {b' : Books}
    (hj : b'.journal = b.journal ++ [note]) (ha : note.accepts = []) (hd : note.delivered? = none)
    (he : ∀ e ∈ b'.events, e ∈ b.events) (hf : ∀ f ∈ b'.flights, f ∈ b.flights) :
    b'.Singular := by
  have hdel : deliveredIds b'.journal = deliveredIds b.journal := by
    rw [hj, deliveredIds_concat_quiet hd]
  have hacc : accepted b'.journal = accepted b.journal := by
    rw [hj, accepted_append]
    simp [accepted, ha]
  refine ⟨by rw [hdel]; exact h.nodup, ?_, ?_, fun f hm => h.distinct f (hf f hm), ?_, ?_⟩
  · intro e hm
    rw [hdel]
    exact h.gone e (he e hm)
  · intro f hm hn
    rw [hdel]
    rw [b.ending?_concat b' hj, Option.or_eq_none_iff] at hn
    exact h.waiting f (hf f hm) hn.1
  · intro f hm
    rw [hacc]
    exact h.known f (hf f hm)
  · rw [hdel, hacc]
    exact h.familiar

theorem claim (h : b.Singular) (hs : b.Stored) (hu : Undisturbed b.journal)
    {exclude : List EventId} {batch : Batch} (hb : batch.events = b.claimable exclude) {b' : Books}
    (hj : b'.journal = b.journal ++ [.claimed ⟨b.tickets, batch⟩]) (he : b'.events = b.events)
    (hf : b'.flights = b.flights ++ [⟨b.tickets, batch⟩]) : b'.Singular := by
  have hdel : deliveredIds b'.journal = deliveredIds b.journal := by
    rw [hj, deliveredIds_concat_quiet rfl]
  have hacc : accepted b'.journal = accepted b.journal := by
    rw [hj, accepted_append]
    simp [accepted, Note.accepts]
  have hend : ∀ ticket, b'.ending? ticket = b.ending? ticket :=
    fun ticket => b.ending?_concat_quiet b' hj rfl
  -- the batch is a part of the store, and so of what was accepted
  have hstore : batch.events.Sublist b.events := by
    rw [hb]
    exact (List.take_sublist _ _).trans List.filter_sublist
  have hpart : batch.ids.Sublist ((accepted b.journal).map Event.id) := by
    have hsub : b.events.Sublist (accepted b.journal) := by
      rw [show b.events = pending b.journal from hs]
      exact pending_sublist b.journal
    exact (hstore.trans hsub).map _
  refine ⟨by rw [hdel]; exact h.nodup, by rw [hdel, he]; exact h.gone, ?_, ?_, ?_, ?_⟩
  · intro f hm hn id hid
    rw [hdel]
    rw [hf, List.mem_append, List.mem_singleton] at hm
    rcases hm with hm | rfl
    · rw [hend] at hn
      exact h.waiting f hm hn id hid
    · obtain ⟨e, hem, rfl⟩ := List.mem_map.1 hid
      exact h.gone e (hstore.subset hem)
  · intro f hm
    rw [hf, List.mem_append, List.mem_singleton] at hm
    rcases hm with hm | rfl
    · exact h.distinct f hm
    · exact hpart.nodup hu.2
  · intro f hm id hid
    rw [hacc]
    rw [hf, List.mem_append, List.mem_singleton] at hm
    rcases hm with hm | rfl
    · exact h.known f hm id hid
    · exact hpart.subset hid
  · rw [hdel, hacc]
    exact h.familiar

theorem deliver (h : b.Singular) (hx : b.Exclusive) {flight : Flight}
    {ending : Ending} (hm : flight ∈ b.flights) (hn : b.ending? flight.ticket = none)
    (hd : ending.delivers = true) {b' : Books}
    (hj : b'.journal = b.journal ++ [.handled flight ending none])
    (he : b'.events = Store.without flight.batch.ids b.events)
    (hf : b'.flights = b.flights) : b'.Singular := by
  have hdel : deliveredIds b'.journal = deliveredIds b.journal ++ flight.batch.ids := by
    rw [hj, deliveredIds_concat hd]
  have hacc : accepted b'.journal = accepted b.journal := by
    rw [hj, accepted_append]
    simp [accepted, Note.accepts]
  refine ⟨?_, ?_, ?_, by rw [hf]; exact h.distinct, ?_, ?_⟩
  · rw [hdel, List.nodup_append]
    refine ⟨h.nodup, h.distinct flight hm, ?_⟩
    rintro id hid _ hid' rfl
    exact h.waiting flight hm hn id hid' hid
  · intro e hem
    rw [he, Store.without, List.mem_filter] at hem
    rw [hdel, List.mem_append, not_or]
    exact ⟨h.gone e hem.1, by simpa using hem.2⟩
  · intro f hfm hfn id hid
    rw [hf] at hfm
    rw [b.ending?_concat b' hj, Option.or_eq_none_iff] at hfn
    have hne : f ≠ flight := by
      rintro rfl
      simp [Note.ending?] at hfn
    rw [hdel, List.mem_append, not_or]
    exact ⟨h.waiting f hfm hfn.1 id hid, fun hid' => hx.apart.forall hfm hm hne hid hid'⟩
  · intro f hfm
    rw [hacc]
    rw [hf] at hfm
    exact h.known f hfm
  · intro id hid
    rw [hacc]
    rw [hdel, List.mem_append] at hid
    rcases hid with hid | hid
    · exact h.familiar id hid
    · exact h.known flight hm id hid

end Books.Singular

/-- **Every move keeps deliveries single**, as long as the journal tells of no batch that was left
in the store and of no id that was accepted twice. -/
theorem singular_move {b b' : Books} {a : Action} (h : Books.Move b a b') (hs : b.Stored)
    (hx : b.Exclusive) (hu : Undisturbed b'.journal) (hb : b.Singular) : b'.Singular := by
  cases h with
  | quiet => exact hb
  | accept events ha => exact hb.accept rfl rfl rfl hu
  | delete ids =>
    exact hb.concat_quiet rfl rfl rfl (fun e he => List.mem_of_mem_filter he) (fun f hf => hf)
  | clear => exact hb.concat_quiet rfl rfl rfl (fun e he => by cases he) (fun f hf => hf)
  | claim exclude batch ha hbatch => exact hb.claim hs hu.of_append hbatch rfl rfl rfl
  | deliver flight ending hf hn hd => exact hb.deliver hx hf hn hd rfl rfl rfl
  | retain flight ending failure hf hn hd =>
    have hfail := hu.1 _ (List.mem_append_right _ (List.mem_singleton_self _))
    cases hfail
  | fail flight ending hf hn hd =>
    exact hb.concat_quiet rfl rfl (by simp [Note.delivered?, hd]) (fun e he => he) (fun f hf => hf)
  | land flight ending hf he =>
    exact hb.concat_quiet rfl rfl rfl (fun e he => he) (fun f hf => List.mem_of_mem_filter hf)

theorem singular_run (settings : Settings) (store : Store) (actions : List Action)
    (hu : Undisturbed ((Course.begin settings store).run actions).journal) :
    ((Course.begin settings store).run actions).books.Singular := by
  refine Course.run_induction
    (P := fun c => Undisturbed c.journal → c.books.Singular) ?_ ?_ actions hu
  · intro _
    refine ⟨List.nodup_nil, ?_, ?_, ?_, ?_, ?_⟩ <;> intro _ h
    · exact List.not_mem_nil
    all_goals cases h
  · intro before a hone hu'
    have hmove := ((Course.begin settings store).run before).move_act a
    obtain ⟨later, hlater⟩ := journal_extends hmove
    refine singular_move hmove (stored_run settings store before)
      (exclusive_run settings store before) hu' (hone ?_)
    rw [show ((Course.act _ a).journal) = _ from hlater.symm] at hu'
    exact hu'.of_append

/-! ## Counting -/

/-- The count of delivered events is that of the journal. -/
def Books.Counted (b : Books) : Prop :=
  b.delivered = (deliveredIds b.journal).length

theorem counted_move {b b' : Books} {a : Action} (h : Books.Move b a b') (hb : b.Counted) :
    b'.Counted := by
  unfold Books.Counted at hb ⊢
  cases h with
  | quiet => exact hb
  | deliver flight ending hf hn hd =>
    dsimp only
    rw [deliveredIds_concat hd, List.length_append, hb, Batch.ids, List.length_map, Batch.size]
  | retain flight ending failure hf hn hd =>
    dsimp only
    rw [deliveredIds_concat hd, List.length_append, hb, Batch.ids, List.length_map, Batch.size]
  | fail flight ending hf hn hd =>
    dsimp only
    rw [deliveredIds_concat_quiet (by simp [Note.delivered?, hd]), hb]
  | _ =>
    dsimp only
    rw [deliveredIds_concat_quiet rfl, hb]

theorem counted_run (settings : Settings) (store : Store) (actions : List Action) :
    ((Course.begin settings store).run actions).books.Counted :=
  Course.run_books (P := Books.Counted) counted_move (by rfl) actions

theorem mem_deliveredIds {journal : List Note} {flight : Flight} {ending : Ending}
    {failure : Option StorageError} (hm : .handled flight ending failure ∈ journal)
    (hd : ending.delivers = true) {id : EventId} (hid : id ∈ flight.batch.ids) :
    id ∈ deliveredIds journal := by
  have hb : flight.batch ∈ deliveries journal :=
    List.mem_filterMap.2 ⟨_, hm, by simp [Note.delivered?, hd]⟩
  exact List.mem_flatMap.2 ⟨flight.batch, hb, hid⟩

/-- An accepted event is stored or was delivered, if nothing was removed directly. -/
theorem stored_or_delivered {b : Books} (hs : b.Stored)
    (hr : ∀ note ∈ b.journal, note.isDirectRemoval = false) {e : Event}
    (he : e ∈ accepted b.journal) : e ∈ b.events ∨ e.id ∈ deliveredIds b.journal := by
  obtain ⟨note, hn, hacc⟩ := List.mem_flatMap.1 he
  cases note with
  | accepted events =>
    obtain ⟨before, after, hj⟩ := List.append_of_mem hn
    rw [hj] at hr ⊢
    have hlater : ∀ note ∈ after, note.isDirectRemoval = false := fun note hm =>
      hr note (List.mem_append_right _ (List.mem_cons_of_mem _ hm))
    rcases mem_pending_or_removed before after hacc with hp | ⟨note, hm, hrem⟩
    · refine Or.inl ?_
      rw [show b.events = pending b.journal from hs, hj]
      exact hp
    · rcases removes_eq_true hrem with ⟨flight, ending, rfl, ho, hid⟩ | ⟨ids, rfl, -⟩ | rfl
      · have hd : ending.delivers = true := by rw [Ending.delivers, ho]
        exact Or.inr (mem_deliveredIds
          (List.mem_append_right _ (List.mem_cons_of_mem _ hm)) hd hid)
      · cases hlater _ hm
      · cases hlater _ hm
  | _ => cases hacc

/-- **Pending and delivered together are what was accepted**, if nothing was removed directly. -/
theorem pending_delivered_perm {b : Books} (hs : b.Stored) (hb : b.Singular)
    (hu : Undisturbed b.journal) (hr : ∀ note ∈ b.journal, note.isDirectRemoval = false) :
    (b.events.map Event.id ++ deliveredIds b.journal).Perm ((accepted b.journal).map Event.id) := by
  have hsub : b.events.Sublist (accepted b.journal) := by
    rw [show b.events = pending b.journal from hs]
    exact pending_sublist b.journal
  have hnd : (b.events.map Event.id ++ deliveredIds b.journal).Nodup := by
    rw [List.nodup_append]
    refine ⟨(hsub.map _).nodup hu.2, hb.nodup, ?_⟩
    rintro id hid _ hid' rfl
    obtain ⟨e, he, rfl⟩ := List.mem_map.1 hid
    exact hb.gone e he hid'
  refine (List.perm_ext_iff_of_nodup hnd hu.2).2 fun id => ?_
  rw [List.mem_append]
  constructor
  · rintro (hid | hid)
    · exact (hsub.map _).subset hid
    · exact hb.familiar id hid
  · intro hid
    obtain ⟨e, he, rfl⟩ := List.mem_map.1 hid
    rcases stored_or_delivered hs hr he with hm | hm
    · exact Or.inl (List.mem_map_of_mem hm)
    · exact Or.inr hm

/-- **Each event is delivered once.**  In a run in which delivered batches are always removed from
the store and no id is accepted twice, every id is in at most one delivered batch, and there once.
If nothing is removed directly, the pending and the delivered events of the queue's counts add up to
the number of accepted events. -/
theorem delivered_once (settings : Settings) (store : Store) (actions : List Action)
    (hstore : ∀ note ∈ ((Course.begin settings store).run actions).journal, note.failure? = none)
    (hids : ((accepted ((Course.begin settings store).run actions).journal).map Event.id).Nodup) :
    let c := (Course.begin settings store).run actions
    ((deliveries c.journal).flatMap Batch.ids).Nodup ∧
    ((∀ note ∈ c.journal, note.isDirectRemoval = false) →
      c.queue.stats.pending + c.queue.stats.delivered = (accepted c.journal).length) := by
  intro c
  have hu : Undisturbed c.journal := ⟨hstore, hids⟩
  have hs : c.books.Stored := stored_run settings store actions
  have hone : c.books.Singular := singular_run settings store actions hu
  have hcount : c.queue.delivered = (deliveredIds c.journal).length :=
    counted_run settings store actions
  refine ⟨hone.nodup, fun hr => ?_⟩
  have hlen := (pending_delivered_perm hs hone hu hr).length_eq
  rw [List.length_append, List.length_map, List.length_map] at hlen
  calc c.queue.stats.pending + c.queue.stats.delivered
      = c.queue.store.events.length + (deliveredIds c.journal).length := by rw [← hcount]; rfl
    _ = (accepted c.journal).length := hlen

/-- A run with a crash, a retry and two batches at a time: three events are stored, one more is
pushed, a flush and the runner deliver them. -/
def eventfulRun : List Action :=
  [.push [sampleEvent 4] true, .callFlush, .flushStep 0, .flushStep 0, .flushStep 0, .flushStep 0,
    .finish 0 .crashed, .dispatch, .finish 1 (.returned (.ok ())), .land 0, .dispatch, .tick 0 0,
    .finish 2 (.returned (.ok ())), .land 1]

/-- In the eventful run everything is delivered, once. -/
theorem delivered_once_eventful :
    let c := (Course.begin { batchSize := 2, concurrency := 2 }
      { events := [sampleEvent 1, sampleEvent 2, sampleEvent 3] }).run eventfulRun
    (deliveries c.journal).length = 2 ∧ ((deliveries c.journal).flatMap Batch.ids).Nodup ∧
      c.queue.stats.pending + c.queue.stats.delivered = 4 := by
  have h := delivered_once { batchSize := 2, concurrency := 2 }
    { events := [sampleEvent 1, sampleEvent 2, sampleEvent 3] } eventfulRun (by decide) (by decide)
  exact ⟨by decide, h.1, h.2 (by decide)⟩

end EventRelay.Queue
