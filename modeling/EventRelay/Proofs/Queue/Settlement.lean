import EventRelay.Proofs.Queue.Usability

/-!
# What a flush waits for

A flush that got past its call returns by one step only: the one that finds nothing in flight.  Its
own batches have been counted by then, and every batch that anyone else had in flight when the flush
was called has landed as well.

* `quiet_of_returns` — a flush that returns finds nothing in flight.
* `quiet_moment` — so between the call of a flush and its return there is a moment at which nothing
  at all is in flight, and everything that was claimed before that moment has landed
  (`Course.Reached.landed_of_quiet`).
* `failures_run` — the count of failed batches follows the journal.
* `flush_waits` — **everything in flight has settled when a flush returns**, and is accounted for.
* `turned_away_without_waiting` — a flush that is turned away at its call does not wait.
-/

namespace EventRelay.Queue

/-! ## The step that returns -/

/-- A flush returns by a step of its own, with nothing in flight. -/
theorem quiet_of_returns {c : Course} {i : Nat} {f f' : Flush} {a : Action}
    (h : FlushChange c i f a f') (hf : f.stage ≠ .returned) (hf' : f'.stage = .returned) :
    a = .flushStep i ∧ c.queue.processing = [] := by
  cases h with
  | stay ha => exact absurd hf' hf
  | permit ha hs => cases hf'
  | wake ticket hs => cases hf'
  | move hm =>
    refine ⟨rfl, ?_⟩
    cases hm with
    | finish hs hp => exact hp
    | _ => cases hf'

/-- With no id in flight no batch is in flight. -/
theorem Books.Exclusive.flights_eq_nil {b : Books} (h : b.Exclusive) (hp : b.processing = []) :
    b.flights = [] := by
  refine List.eq_nil_iff_forall_not_mem.2 fun f hf => ?_
  obtain ⟨e, he⟩ := List.exists_mem_of_ne_nil _ f.batch.nonempty
  have hid : e.id ∈ b.processing := (h.processing e.id).2 ⟨f, hf, List.mem_map_of_mem he⟩
  rw [hp] at hid
  cases hid

/-- Whatever was claimed has landed when nothing is in flight. -/
theorem Course.Reached.landed_of_quiet {c : Course} (h : c.Reached) (hp : c.queue.processing = [])
    {flight : Flight} (hf : flight ∈ claims c.journal) :
    hasLanded c.journal flight.ticket = true := by
  by_contra hl
  have hmem : flight ∈ c.books.flights := h.tracked.mem_flights.2 ⟨hf, Bool.eq_false_iff.2 hl⟩
  rw [h.exclusive.flights_eq_nil hp] at hmem
  cases hmem

/-- **The moment before a flush returns.**  A flush that was called with a usable transport and has
returned has found nothing in flight at some moment after its call. -/
theorem quiet_moment {c : Course} (hc : c.Reached) (hu : c.usable = true) (after : List Action)
    {f : Flush}
    (hf : ((c.act .callFlush).run after).queue.flushes[c.queue.flushes.length]? = some f)
    (hs : f.stage = .returned) :
    ∃ mid rest, after = mid ++ .flushStep c.queue.flushes.length :: rest ∧
      ((c.act .callFlush).run mid).queue.processing = [] := by
  -- the last action has returned the flush, or has found it returned already
  induction after using List.reverseRecOn generalizing f with
  | nil =>
    have hcall := getElem?_callFlush c
    rw [hu] at hcall
    rw [Course.run_nil, hcall] at hf
    cases hf
    cases hs
  | append_singleton after a ih =>
    have hlt : c.queue.flushes.length < ((c.act .callFlush).run after).queue.flushes.length :=
      Nat.lt_of_lt_of_le (List.getElem?_eq_some_iff.1 (getElem?_callFlush c)).1
        (length_flushes_le_run _ after)
    have hf₀ := List.getElem?_eq_getElem hlt
    generalize ((c.act .callFlush).run after).queue.flushes[c.queue.flushes.length] = f₀ at hf₀
    have hl := ((hc.act .callFlush).run after).supplied.lined
    obtain ⟨f', hf', hch⟩ := exists_flushChange hl hf₀ a
    rw [Course.run_concat, hf'] at hf
    cases hf
    by_cases hs₀ : f₀.stage = .returned
    · obtain ⟨mid, rest, rfl, hp⟩ := ih hf₀ hs₀
      exact ⟨mid, rest ++ [a], by simp, hp⟩
    · rcases hch with rfl | hch
      · exact absurd hs hs₀
      · obtain ⟨rfl, hp⟩ := quiet_of_returns hch hs₀ hs
        exact ⟨after, [], rfl, hp⟩

/-! ## What the counts and the store say -/

/-- The count of failed batches is that of the journal. -/
theorem failures_run (settings : Settings) (store : Store) (actions : List Action) :
    let c := (Course.begin settings store).run actions
    c.queue.failedBatches = c.journal.countP Note.fails := by
  refine Course.run_books (P := fun b => b.failedBatches = b.journal.countP Note.fails) ?_ rfl actions
  intro b a b' h hb
  cases h with
  | quiet => exact hb
  | _ => simp_all [Note.fails]

/-- A batch that has landed: its call has ended, and the journal and the outcomes say how. -/
theorem Course.Reached.settled_of_landed {c : Course} (h : c.Reached) {flight : Flight}
    (hf : flight ∈ claims c.journal) (hl : hasLanded c.journal flight.ticket = true) :
    .landed flight ∈ c.journal ∧ ∃ ending failure, .handled flight ending failure ∈ c.journal ∧
      c.queue.outcome? flight.ticket = some ending.outcome := by
  have ht := h.tracked
  constructor
  · obtain ⟨flight', hm, hticket⟩ := hasLanded_iff.1 hl
    rw [← ht.eq_of_ticket (ht.landed flight' hm) hf hticket]
    exact hm
  · have ho : (c.queue.outcome? flight.ticket).isSome = true := by
      rw [← hl]
      exact ht.isSome_outcome flight.ticket
    obtain ⟨ending, he, houtcome⟩ := h.outcome_eq ho
    obtain ⟨note, hn, hnote⟩ := List.exists_of_findSome?_eq_some he
    cases note with
    | handled flight' ending' failure =>
      simp only [Note.ending?] at hnote
      split at hnote
      · rename_i hticket
        cases hnote
        rw [← ht.eq_of_ticket (ht.handled flight' ending failure hn).1 hf hticket] at houtcome ⊢
        exact ⟨ending, failure, hn, houtcome⟩
      · cases hnote
    | _ => cases hnote

theorem Course.journal_run (c : Course) (actions : List Action) :
    c.journal <+: (c.run actions).journal := by
  induction actions generalizing c with
  | nil => exact List.prefix_refl _
  | cons a actions ih => exact (journal_extends (c.move_act a)).trans (ih (c.act a))

/-- A batch that has landed has landed for good. -/
theorem Course.landed_run {c : Course} {flight : Flight} (hf : flight ∈ claims c.journal)
    (hl : hasLanded c.journal flight.ticket = true) (actions : List Action) :
    flight ∈ claims (c.run actions).journal ∧
      hasLanded (c.run actions).journal flight.ticket = true := by
  obtain ⟨later, hlater⟩ := c.journal_run actions
  rw [← hlater, claims_append, hasLanded_append, hl]
  exact ⟨List.mem_append_left _ hf, Bool.true_or _⟩

/-- A batch that a returned flush has dispatched has landed. -/
theorem landed_of_launched (settings : Settings) (store : Store) (actions : List Action) (id : Nat)
    {report : Report}
    (hr : ((Course.begin settings store).run actions).queue.flushResult? id = some report) :
    ∀ l ∈ (Course.begin settings store).launches (Action.isStepOf id) actions,
      hasLanded ((Course.begin settings store).run actions).journal l.flight.ticket = true := by
  intro l hl
  have hreached : ((Course.begin settings store).run actions).Reached :=
    ⟨settings, store, actions, rfl⟩
  have hsent := sentBy_run settings store id actions
  generalize (Course.begin settings store).run actions = c at hr hreached hsent ⊢
  obtain ⟨f, hf, hs, -⟩ := flushResult?_eq_some hr
  obtain ⟨counted, hcounted, hreckoned⟩ := hreached.accounted (List.mem_of_getElem? hf)
  have hmem : l.sent ∈ counted := by
    rw [Flush.uncounted, hs, List.append_nil, ← Course.sentBy_of_getElem? hf, hsent] at hcounted
    rw [← hcounted]
    exact List.mem_map_of_mem hl
  rw [← show (c.queue.outcome? l.flight.ticket).isSome = hasLanded c.journal l.flight.ticket from
    hreached.tracked.isSome_outcome l.flight.ticket]
  exact hreckoned.settled hmem

/-! ## Whole runs -/

/-- **A flush waits for everything in flight.**  Take any run in which a flush is called while the
transport is usable, whatever else is done before and after the call, and let the flush have
returned.

* At some moment since the call, right before the step by which the flush returned, nothing at all
  was in flight.
* Every batch that was in flight at the call, whoever had dispatched it, and every batch that the
  flush has dispatched itself is out of flight: its call has ended, its ids have been released, and
  its outcome is on record.
* The store and the counts agree with all calls that have ended. -/
theorem flush_waits (settings : Settings) (store : Store) (before after : List Action)
    (report : Report) :
    let start := Course.begin settings store
    let called := start.run before
    let id := called.queue.flushes.length
    let actions := before ++ .callFlush :: after
    let c := start.run actions
    called.usable = true → c.queue.flushResult? id = some report →
    (∃ mid rest, after = mid ++ .flushStep id :: rest ∧
      (start.run (before ++ .callFlush :: mid)).queue.processing = [] ∧
      (start.run (before ++ .callFlush :: mid)).queue.flights = []) ∧
    (∀ flight, (flight ∈ called.queue.flights ∨
        ∃ l ∈ start.launches (Action.isStepOf id) actions, l.flight = flight) →
      flight ∉ c.queue.flights ∧ .landed flight ∈ c.journal ∧
      ∃ ending failure, .handled flight ending failure ∈ c.journal ∧
        c.queue.outcome? flight.ticket = some ending.outcome) ∧
    c.queue.store.events = pending c.journal ∧
    c.queue.delivered = (deliveredIds c.journal).length ∧
    c.queue.failedBatches = c.journal.countP Note.fails := by
  intro start called id actions c hu hr
  have hcalled : called.Reached := ⟨settings, store, before, rfl⟩
  have hc : c.Reached := ⟨settings, store, actions, rfl⟩
  have hrun : ∀ later, start.run (before ++ .callFlush :: later) =
      (called.act .callFlush).run later := by
    intro later
    rw [Course.run_append, Course.run_cons]
  obtain ⟨f, hf, hs, -⟩ := flushResult?_eq_some hr
  obtain ⟨mid, rest, hafter, hp⟩ := quiet_moment hcalled hu after (by rw [← hrun]; exact hf) hs
  have hmid : ((called.act .callFlush).run mid).Reached := (hcalled.act .callFlush).run mid
  refine ⟨⟨mid, rest, hafter, by rw [hrun]; exact hp, by
      rw [hrun]; exact hmid.exclusive.flights_eq_nil hp⟩, ?_, hc.stored,
    counted_run settings store actions, failures_run settings store actions⟩
  intro flight hflight
  have hlanded : flight ∈ claims c.journal ∧ hasLanded c.journal flight.ticket = true := by
    rcases hflight with hflight | ⟨l, hl, rfl⟩
    · -- it was in flight at the call, so it had been claimed when nothing was in flight
      have hclaimed : flight ∈ claims ((called.act .callFlush).run mid).journal := by
        obtain ⟨later, hlater⟩ := called.journal_run (.callFlush :: mid)
        rw [Course.run_cons] at hlater
        rw [← hlater, claims_append]
        exact List.mem_append_left _ (hcalled.tracked.claimed_of_mem hflight)
      have hsplit : c = ((called.act .callFlush).run mid).run (.flushStep id :: rest) := by
        rw [← Course.run_append, ← hrun, ← hafter]
      rw [hsplit]
      exact Course.landed_run hclaimed (hmid.landed_of_quiet hp hclaimed) _
    · exact ⟨launches_claimed settings store _ actions l hl,
        landed_of_launched settings store actions id hr l hl⟩
  refine ⟨fun hin => ?_, hc.settled_of_landed hlanded.1 hlanded.2⟩
  have hnot := (hc.tracked.mem_flights.1 hin).2
  rw [show c.books.journal = c.journal from rfl, hlanded.2] at hnot
  cases hnot

/-- Three events, one to a batch and two batches at a time.  The first batch was dispatched by hand
when the flush is called; the flush dispatches the second and the third, counts them, and waits for
the first, which crashes. -/
def waitingRun : List Action :=
  [.flushStep 0, .flushStep 0, .finish 1 (.returned (.ok ())), .land 1, .flushStep 0, .flushStep 0,
    .flushStep 0, .finish 2 (.returned (.ok ())), .land 2, .flushStep 0, .flushStep 0, .flushStep 0,
    .flushStep 0, .finish 0 .crashed, .land 0, .flushStep 0]

/-- The flush has not returned before the crash of the first batch is accounted for. -/
theorem flush_waits_for_crash :
    let start := Course.begin { batchSize := 1, concurrency := 2 }
      { events := [sampleEvent 1, sampleEvent 2, sampleEvent 3] }
    let called := start.run [.dispatch]
    let c := start.run ([.dispatch] ++ .callFlush :: waitingRun)
    called.queue.flights.map Flight.ticket = [0] ∧
    (start.run ([.dispatch] ++ .callFlush :: waitingRun.take 13)).queue.flushResult? 0 = none ∧
    c.queue.flushResult? 0 = some { batches := 2, delivered := 2, failed := 0 } ∧
    (∀ flight ∈ called.queue.flights, flight ∉ c.queue.flights ∧ .landed flight ∈ c.journal) ∧
    c.queue.delivered = 2 ∧ c.queue.failedBatches = 1 := by
  -- the runs are written out, so that they are compared as they stand and not by running them
  dsimp only
  obtain ⟨-, hsettled, -⟩ := flush_waits { batchSize := 1, concurrency := 2 }
    { events := [sampleEvent 1, sampleEvent 2, sampleEvent 3] } [.dispatch] waitingRun
    { batches := 2, delivered := 2, failed := 0 } (by decide) (by decide)
  refine ⟨by decide, by decide, by decide, fun flight hf => ?_, by decide, by decide⟩
  obtain ⟨hout, hlanded, -⟩ := hsettled flight (Or.inl hf)
  exact ⟨hout, hlanded⟩

/-- **A flush that is turned away does not wait.**  A batch is in flight when the transport becomes
unusable and a flush is called: the flush has returned at once, the batch is still in flight, and its
call has not ended. -/
theorem turned_away_without_waiting :
    let c := (Course.begin { batchSize := 1, concurrency := 1 }
      { events := [sampleEvent 1] }).run [.dispatch, .usability false, .callFlush]
    c.queue.flushResult? 0 = some {} ∧ c.queue.flights.map Flight.ticket = [0] ∧
    c.queue.processing = [.ofNat 1] ∧ (c.ending? 0).isNone = true := by
  decide

end EventRelay.Queue
