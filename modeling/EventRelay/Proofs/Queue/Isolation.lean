import EventRelay.Proofs.Queue.SoloSteps

/-!
# A flush on its own is exact

A flush that is on its own dispatches the chunks of the store in order, whatever becomes of them and
whenever; it returns, and its report and the store agree with what became of the chunks.

* `Solo.progress` — as long as the flush has not returned, something can happen or a call of the
  transport has not ended; `solo_completes` — so it can always be brought to its end.
* `Solo.report`, `Solo.events_left` — the report and the store when everything is counted.
* `flush_alone` — all of it together.
-/

namespace EventRelay.Queue

/-! ## Counting chunks -/

theorem add_outcome (r : Report) (n : Nat) (e : Ending) :
    r.add n e.outcome = { r with
      batches := r.batches + 1
      delivered := r.delivered + if e.delivers then n else 0
      failed := r.failed + if e.delivers then 0 else n } := by
  unfold Report.add Ending.delivers
  cases e.outcome <;> rfl

/-- A flush that has counted the first chunks of a store reports what became of them. -/
theorem summary_of_reckoned {start : Course} {verdict : Nat → Ending}
    {outcome? : Nat → Option Outcome} (n : Nat)
    (ho : ∀ i < n, outcome? (start.queue.tickets + i) = some (verdict i).outcome) {report : Report}
    (h : Reckoned outcome? ((List.range n).map fun i =>
      ⟨start.queue.tickets + i, (start.chunkAt i).map Event.id⟩) report) :
    report = start.summary verdict n := by
  induction n generalizing report with
  | zero => exact h.of_nil
  | succ n ih =>
    rw [List.range_succ, List.map_append] at h
    obtain ⟨before, outcome, hr, hn, rfl⟩ := h.of_concat
    have hbefore := ih (fun i hi => ho i (Nat.lt_succ_of_lt hi)) hr
    have hlast : outcome = (verdict n).outcome := by
      rw [ho n (Nat.lt_succ_self n)] at hn
      exact (Option.some.inj hn).symm
    rw [hlast, add_outcome, hbefore, List.length_map]
    unfold Course.summary Course.deliveredPart Course.failedPart
    rw [portion_succ, portion_succ]
    cases (verdict n).delivers <;> simp [Course.chunkAt]

namespace Solo

variable {start c : Course} {verdict : Nat → Ending} {f : Flush} {tail : List Note}

/-! ## Progress -/

/-- A batch in flight waits for its call to end, or can land. -/
theorem land_of_flight {g : Flight} (hg : g ∈ c.queue.flights) :
    c.ending? g.ticket = none ∨ (c.act? (.land g.ticket)).isSome = true := by
  obtain ⟨g', hg'⟩ := Course.flight?_of_mem hg
  cases he : c.ending? g.ticket with
  | none => exact Or.inl rfl
  | some ending => exact Or.inr (by simp [Course.act?, hg', he])

/-- A flush waits for a permit only while something is in flight. -/
theorem flights_ne_nil (h : Solo start verdict f tail c) (hst : f.stage = .inLine) :
    c.queue.flights ≠ [] := by
  have hline : c.queue.line ≠ [] := by
    have hm := (h.reached.supplied.lined.waiting _).2 ⟨f, h.getElem?_flush, hst⟩
    exact List.ne_nil_of_mem hm
  have hfree := h.reached.supplied.lined.full hline
  have hholders : c.queue.holders = 0 := by
    refine List.countP_eq_zero.2 fun f' hf' => ?_
    rw [h.flushes, List.mem_append, List.mem_singleton] at hf'
    rcases hf' with hf' | rfl
    · simp [h.ready.returned f' hf']
    · simp [hst]
  have htotal := h.reached.supplied.total
  have hpos := h.reached.supplied.positive
  intro hnil
  rw [permits, hfree, hholders, hnil, List.length_nil] at htotal
  omega

/-- **The flush is never stuck.**  As long as it has not returned, it can make a step, or a batch can
land, or the call for a batch has not ended. -/
theorem progress (h : Solo start verdict f tail c) (hnot : f.stage ≠ .returned) :
    (∃ g ∈ c.queue.flights, c.ending? g.ticket = none) ∨
    (c.act? (.flushStep start.queue.flushes.length)).isSome = true ∨
    ∃ g ∈ c.queue.flights, (c.act? (.land g.ticket)).isSome = true := by
  have hflight : ∀ g ∈ c.queue.flights,
      (∃ g ∈ c.queue.flights, c.ending? g.ticket = none) ∨
      (c.act? (.flushStep start.queue.flushes.length)).isSome = true ∨
      ∃ g ∈ c.queue.flights, (c.act? (.land g.ticket)).isSome = true := by
    intro g hg
    rcases land_of_flight hg with he | hl
    · exact Or.inl ⟨g, hg, he⟩
    · exact Or.inr (Or.inr ⟨g, hg, hl⟩)
  have hf := h.getElem?_flush
  cases hst : f.stage with
  | asking => exact Or.inr (Or.inl (by simp [Course.act?, flushStep, hf, hst]))
  | inLine =>
    obtain ⟨g, hg⟩ := List.exists_mem_of_ne_nil _ (h.flights_ne_nil hst)
    exact hflight g hg
  | holding => exact Or.inr (Or.inl (by simp [Course.act?, flushStep, hf, hst]))
  | joining left =>
    cases left with
    | nil =>
      refine Or.inr (Or.inl ?_)
      simp only [Course.act?, flushStep, hf, hst, Option.isSome_map]
      split <;> rfl
    | cons s rest =>
      cases ho : c.queue.outcome? s.ticket with
      | some outcome => exact Or.inr (Or.inl (by simp [Course.act?, flushStep, hf, hst, ho]))
      | none =>
        -- the next batch to count has not landed, so it is in flight
        obtain ⟨counted, hsent, -⟩ := h.reached.accounted (List.mem_of_getElem? hf)
        have hs' : s ∈ f.sent := by
          rw [hsent, Flush.uncounted, hst]
          exact List.mem_append_right _ List.mem_cons_self
        rw [h.sent] at hs'
        obtain ⟨g, hg, rfl⟩ := List.mem_map.1 hs'
        have hnotLanded : hasLanded c.journal g.ticket = false := by
          have hiff := h.reached.tracked.isSome_outcome g.ticket
          rw [show c.books.outcomes.lookup g.ticket = none from ho] at hiff
          exact hiff.symm
        refine hflight g (h.reached.tracked.mem_flights.2 ⟨?_, hnotLanded⟩)
        rw [show c.books.journal = start.journal ++ tail from h.journal, claims_append]
        exact List.mem_append_right _ hg
  | parked => exact absurd hst h.awake
  | returned => exact absurd hst hnot

/-! ## The result -/

/-- What the flush has dispatched. -/
theorem sent_eq (h : Solo start verdict f tail c) :
    f.sent = (List.range f.sent.length).map fun i =>
      ⟨start.queue.tickets + i, (start.chunkAt i).map Event.id⟩ := by
  have hmap := congrArg (List.map fun p : Nat × List Event =>
    (⟨p.1, p.2.map Event.id⟩ : Sent)) h.claimed
  rw [List.map_map, List.map_map] at hmap
  exact h.sent.trans hmap

/-- The outcome of a batch that the flush has counted. -/
theorem outcome (h : Solo start verdict f tail c) (hu : f.uncounted = []) {i : Nat}
    (hi : i < f.sent.length) :
    c.queue.outcome? (start.queue.tickets + i) = some (verdict i).outcome ∧
    ∃ g, .handled g (verdict i) none ∈ tail ∧ g.batch.events = start.chunkAt i := by
  have hsent : (⟨start.queue.tickets + i, (start.chunkAt i).map Event.id⟩ : Sent) ∈ f.sent := by
    rw [h.sent_eq]
    exact List.mem_map.2 ⟨i, List.mem_range.2 hi, rfl⟩
  have hl : hasLanded c.books.journal (start.queue.tickets + i) = true := by
    rw [← h.reached.tracked.isSome_outcome]
    exact (h.reckoned hu).settled hsent
  obtain ⟨ending, he⟩ := Option.isSome_iff_exists.1 (h.reached.tracked.ended _ hl)
  obtain ⟨rfl, hg⟩ := h.ended he
  have ho := h.reached.tracked.outcomes (start.queue.tickets + i)
  rw [if_pos hl, he] at ho
  exact ⟨ho, hg⟩

/-- The report of a flush that has counted everything. -/
theorem report (h : Solo start verdict f tail c) (hu : f.uncounted = []) :
    f.report = start.summary verdict f.sent.length := by
  have hr := h.reckoned hu
  rw [h.sent_eq] at hr
  exact summary_of_reckoned _ (fun i hi => (h.outcome hu hi).1) hr

/-- A stored event has been removed exactly when its chunk was delivered. -/
theorem removed_iff (h : Solo start verdict f tail c) (hu : f.uncounted = []) {i : Nat}
    (hi : i < f.sent.length) {e : Event} (he : e ∈ start.chunkAt i) :
    tail.any (·.removes e.id) = true ↔ (verdict i).delivers = true := by
  constructor
  · intro hr
    obtain ⟨g, hg, hid, hd⟩ := h.delivered_of_removed hr
    obtain ⟨j, -, ht, hj⟩ := h.chunk_of_mem hg
    obtain ⟨e', he', hid'⟩ := List.mem_map.1 hid
    rw [hj] at he'
    have hij : j = i := chunk_unique h.ready.distinct he' he hid'
    rwa [ht, Nat.add_sub_cancel_left, hij] at hd
  · intro hd
    obtain ⟨-, g, hg, hev⟩ := h.outcome hu hi
    refine List.any_eq_true.2 ⟨_, hg, ?_⟩
    have hid : e.id ∈ g.batch.ids := by
      rw [Batch.ids, hev]
      exact List.mem_map_of_mem he
    simp [Note.removes, hd, hid]

/-- What is left in the store when the flush has counted everything. -/
theorem events_left (h : Solo start verdict f tail c) (hu : f.uncounted = [])
    (hall : f.sent.length = start.chunkTotal) :
    c.queue.store.events = start.failedPart verdict start.chunkTotal := by
  have hwhole : start.queue.store.events = start.queue.store.events.take
      (start.chunkTotal * start.queue.settings.batchSize) :=
    (take_chunkCount h.ready.reached.supplied.size _).symm
  rw [h.events, hwhole]
  refine filter_eq_portion start.chunkTotal fun i hi e he => ?_
  rw [Bool.not_inj_iff, Bool.eq_iff_iff]
  exact h.removed_iff hu (by rw [hall]; exact hi) he

end Solo

/-! ## From the call to the return -/

/-- As long as the flush has not returned, something can happen. -/
theorem exists_solitary {start c : Course} {verdict : Nat → Ending} {f : Flush} {tail : List Note}
    (h : Solo start verdict f tail c) (hnot : f.stage ≠ .returned) :
    ∃ a, start.Solitary verdict a ∧ (c.act? a).isSome = true := by
  rcases h.progress hnot with ⟨g, hg, he⟩ | hstep | ⟨g, -, hland⟩
  · obtain ⟨i, -, ht, -⟩ := h.chunk_of_mem (h.claimed_since hg)
    refine ⟨_, Course.Solitary.finish i, ?_⟩
    obtain ⟨g', hg'⟩ := Course.flight?_of_mem hg
    rw [ht] at he hg'
    simp [Course.act?, hg', he]
  · exact ⟨_, Course.Solitary.step, hstep⟩
  · exact ⟨_, Course.Solitary.land g.ticket, hland⟩

/-- From every moment on the flush can be brought to its end. -/
theorem solo_completes {start c : Course} {verdict : Nat → Ending} {f : Flush} {tail : List Note}
    (h : Solo start verdict f tail c) :
    ∃ more, (∀ a ∈ more, start.Solitary verdict a) ∧
      ((c.run more).queue.flushResult? start.queue.flushes.length).isSome = true := by
  -- by induction on what is left to do: each action that happens leaves less
  induction hn : workLeft start.chunkTotal f c using Nat.strongRecOn generalizing c f tail with
  | ind n ih =>
    by_cases hst : f.stage = .returned
    · refine ⟨[], nofun, ?_⟩
      rw [Course.run_nil, flushResult?_eq h.getElem?_flush, if_pos hst]
      rfl
    · obtain ⟨a, ha, hsome⟩ := exists_solitary h hst
      obtain ⟨c', hact⟩ := Option.isSome_iff_exists.1 hsome
      obtain ⟨f', tail', h', hless⟩ := solo_act? h ha hact
      obtain ⟨more, hmore, hend⟩ := ih _ (hn ▸ hless) h' rfl
      refine ⟨a :: more, List.forall_mem_cons.2 ⟨ha, hmore⟩, ?_⟩
      rw [Course.run_cons, Course.act_of_act? hact]
      exact hend

/-- **A flush on its own is exact.**  Call a flush on a queue with a usable transport, nothing in
flight, a store that works and holds events of distinct ids, and let nothing happen but its steps
and the deliveries of its batches; `verdict` says how the calls of the transport end, and they end
and land in any order.

* At every moment the batches dispatched are the first chunks of the store, in order.
* No more than five things happen for each chunk, and three besides.  As long as the flush has not
  returned, the call for a batch has not ended yet, or the flush can make a step, or a batch can
  land; and whatever has happened, the flush can be brought to its end.
* When it has returned, it has dispatched all chunks; its report counts them, the events of those
  delivered and the events of the others, all together the whole store; the store holds what was not
  delivered; and nothing is in flight. -/
theorem flush_alone (c : Course) (hc : c.Ready) (verdict : Nat → Ending) (actions : List Action)
    (ha : ∀ a ∈ actions, c.Solitary verdict a) :
    let size := c.queue.settings.batchSize
    let events := c.queue.store.events
    let id := c.queue.flushes.length
    let count := (events.length + size - 1) / size
    let c' := (c.act .callFlush).run actions
    let batches := (claims (c'.journal.drop c.journal.length)).map fun g => g.batch.events
    batches <+: chunks size events ∧
    ((c.act .callFlush).Unhindered actions → actions.length ≤ 5 * count + 3) ∧
    (c'.queue.flushResult? id = none →
      (∃ g ∈ c'.queue.flights, c'.ending? g.ticket = none) ∨
      (c'.act? (.flushStep id)).isSome = true ∨
      ∃ g ∈ c'.queue.flights, (c'.act? (.land g.ticket)).isSome = true) ∧
    (∃ more, (∀ a ∈ more, c.Solitary verdict a) ∧
      ((c'.run more).queue.flushResult? id).isSome = true) ∧
    (∀ report, c'.queue.flushResult? id = some report →
      batches = chunks size events ∧
      report.batches = count ∧
      report.delivered = (portion size events (fun i => (verdict i).delivers) count).length ∧
      report.failed = (portion size events (fun i => !(verdict i).delivers) count).length ∧
      report.delivered + report.failed = events.length ∧
      c'.queue.store.events = portion size events (fun i => !(verdict i).delivers) count ∧
      c'.queue.processing = []) := by
  intro size events id count c' batches
  obtain ⟨f, tail, h, hbound⟩ := solo_run ha (solo_call hc verdict)
  have hbatches : batches = (List.range f.sent.length).map c.chunkAt := by
    rw [← h.batches]
    simp only [batches, c', h.journal, List.drop_left]
  have hresult := flushResult?_eq h.getElem?_flush
  refine ⟨?_, ?_, ?_, solo_completes h, ?_⟩
  · have hrange : List.range f.sent.length = (List.range c.chunkTotal).take f.sent.length := by
      rw [List.take_range, Nat.min_eq_left h.within]
    rw [hbatches, hrange]
    exact (List.take_prefix _ _).map _
  · intro hu
    have hle := hbound hu
    rw [workLeft_call hc] at hle
    exact Nat.le_trans (Nat.le_add_right _ _) hle
  · intro hnone
    refine h.progress fun hst => ?_
    rw [hresult, if_pos hst] at hnone
    cases hnone
  · intro report hreport
    rw [hresult] at hreport
    split at hreport
    · rename_i hst
      have hu : f.uncounted = [] := by rw [Flush.uncounted, hst]
      have hall : f.sent.length = c.chunkTotal := h.exhausted (by rw [Flush.dispatches, hst])
      have hreport : report = c.summary verdict c.chunkTotal := by
        rw [← Option.some.inj hreport, h.report hu, hall]
      have hsum := length_portion_add size events (fun i => (verdict i).delivers) count
      rw [show events.take (count * size) = events from
        take_chunkCount hc.reached.supplied.size _] at hsum
      rw [hreport]
      exact ⟨by rw [hbatches, hall]; rfl, rfl, rfl, rfl, hsum, h.events_left hu hall,
        h.processing_eq_nil hu⟩
    · cases hreport

/-- A queue of three events, two to a batch and one batch at a time; a first attempt has crashed. -/
def crashedQueue : Course :=
  (Course.begin { batchSize := 2, concurrency := 1 }
    { events := [sampleEvent 1, sampleEvent 2, sampleEvent 3] }).run
    [.dispatch, .finish 0 .crashed, .land 0]

/-- The first batch crashes again, the others are delivered. -/
def crashOnce : Nat → Ending
  | 0 => .crashed
  | _ + 1 => .returned (.ok ())

/-- A flush of that queue, from its first step to its return. -/
def crashedFlush : List Action :=
  [.flushStep 0, .flushStep 0, .flushStep 0, .finish 1 .crashed, .land 1, .flushStep 0,
    .flushStep 0, .finish 2 (.returned (.ok ())), .land 2, .flushStep 0, .flushStep 0,
    .flushStep 0, .flushStep 0]

/-- The flush reports two batches; the events of the crashed one are still stored. -/
theorem flush_alone_crash :
    let c' := (crashedQueue.act .callFlush).run crashedFlush
    c'.queue.flushResult? 0 = some { batches := 2, delivered := 1, failed := 2 } ∧
    c'.queue.store.events.map Event.id = [.ofNat 1, .ofNat 2] ∧ c'.queue.processing = [] := by
  have hready : crashedQueue.Ready :=
    ⟨⟨_, _, _, rfl⟩, rfl, rfl, rfl, rfl, nofun, by decide⟩
  have hactions : ∀ a ∈ crashedFlush, crashedQueue.Solitary crashOnce a := by
    intro a ha
    simp only [crashedFlush, List.mem_cons, List.not_mem_nil, or_false] at ha
    rcases ha with rfl | rfl | rfl | rfl | rfl | rfl | rfl | rfl | rfl | rfl | rfl | rfl | rfl <;>
      first
      | exact Course.Solitary.step
      | exact Course.Solitary.land _
      | exact Course.Solitary.finish 0
      | exact Course.Solitary.finish 1
  obtain ⟨-, -, -, -, hresult⟩ := flush_alone crashedQueue hready crashOnce crashedFlush hactions
  have hreturned : ((crashedQueue.act .callFlush).run crashedFlush).queue.flushResult? 0 =
      some { batches := 2, delivered := 1, failed := 2 } := by decide
  obtain ⟨-, -, -, -, -, hstore, hprocessing⟩ := hresult _ hreturned
  exact ⟨hreturned, by rw [hstore]; decide, hprocessing⟩

end EventRelay.Queue
