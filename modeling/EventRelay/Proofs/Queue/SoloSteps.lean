import EventRelay.Proofs.Queue.Solo

/-!
# The steps of a flush on its own

Each thing that happens while a flush is on its own keeps the invariant and leaves less to do.

* `workLeft` — how much can yet happen: the steps of the flush, and for each batch the end of its
  call and its landing.
* `Solo.step`, `Solo.finish`, `Solo.land` — the three things that happen.
* `solo_act?`, `solo_run` — any of them, and many of them; each that happens is one less to come.
-/

namespace EventRelay.Queue

/-! ## How much there is to do -/

/-- The steps that a flush of `total` batches has yet to make: a permit and a claim for each batch
and a last attempt, then a count for each batch, and the return. -/
def Flush.stepsLeft (total : Nat) (f : Flush) : Nat :=
  match f.stage with
  | .asking => 2 * (total - f.sent.length) + total + 3
  | .inLine => 2 * (total - f.sent.length) + total + 2
  | .holding => 2 * (total - f.sent.length) + total + 2
  | .joining left => left.length + 1
  | .parked => 1
  | .returned => 0

/-- The batches in flight whose call has not ended. -/
def Course.callsOut (c : Course) : Nat :=
  c.queue.flights.countP fun g => (c.ending? g.ticket).isNone

/-- All that can yet happen: the steps of the flush, and the end of a call and a landing for each
batch. -/
def workLeft (total : Nat) (f : Flush) (c : Course) : Nat :=
  f.stepsLeft total + 2 * (total - f.sent.length) + c.queue.flights.length + c.callsOut

/-- The flush `f`, on its own, gets from one moment to a later one with less to do. -/
def Advances (start : Course) (verdict : Nat → Ending) (f : Flush) (c c' : Course) : Prop :=
  ∃ f' tail', Solo start verdict f' tail' c' ∧
    workLeft start.chunkTotal f' c' < workLeft start.chunkTotal f c

/-- Calls that are out at a later moment were out before. -/
theorem countP_out_le {c c' : Course} {notes : List Note} (hj : c'.journal = c.journal ++ notes)
    (flights : List Flight) :
    flights.countP (fun g => (c'.ending? g.ticket).isNone) ≤
      flights.countP fun g => (c.ending? g.ticket).isNone := by
  refine List.countP_mono_left fun g _ hg => ?_
  rw [Course.ending?, hj, List.findSome?_append, Option.isNone_iff_eq_none,
    Option.or_eq_none_iff] at hg
  exact Option.isNone_iff_eq_none.2 hg.1

/-- A call that ends is no longer out. -/
theorem callsOut_finish {c c' : Course} {g : Flight} {ending : Ending}
    {failure : Option StorageError} (hg : g ∈ c.queue.flights) (hn : c.ending? g.ticket = none)
    (hf : c'.queue.flights = c.queue.flights)
    (hj : c'.journal = c.journal ++ [.handled g ending failure]) : c'.callsOut < c.callsOut := by
  obtain ⟨before, after, heq⟩ := List.append_of_mem hg
  have hnow : (c'.ending? g.ticket).isNone = false := by
    rw [Course.ending?] at hn
    rw [Course.ending?, hj, List.findSome?_append, hn]
    simp [Note.ending?]
  have hbefore := countP_out_le hj before
  have hafter := countP_out_le hj after
  rw [Course.callsOut, Course.callsOut, hf, heq]
  simp only [List.countP_append, List.countP_cons, hnow, hn, Option.isNone_none]
  simp only [Bool.false_eq_true, if_false, if_true]
  omega

theorem modify_concat (fs : List Flush) (f : Flush) (g : Flush → Flush) :
    (fs ++ [f]).modify fs.length g = fs ++ [g f] := by
  induction fs with
  | nil => rfl
  | cons first rest ih =>
    rw [List.cons_append, List.length_cons, List.modify_succ_cons, ih]
    rfl

namespace Solo

variable {start c : Course} {verdict : Nat → Ending} {f : Flush} {tail : List Note}

/-! ## Who waits -/

/-- Only the flush itself can wait for a permit. -/
theorem line (h : Solo start verdict f tail c) {id : Nat} (hid : id ∈ c.queue.line) :
    id = start.queue.flushes.length ∧ f.stage = .inLine := by
  obtain ⟨f', hf', hst⟩ := (h.reached.supplied.lined.waiting id).1 hid
  rw [h.flushes, List.getElem?_append] at hf'
  split at hf'
  · have hret := h.ready.returned f' (List.mem_of_getElem? hf')
    rw [hret] at hst
    cases hst
  · rename_i hlt
    rw [List.getElem?_singleton] at hf'
    split at hf'
    · cases hf'
      exact ⟨by omega, hst⟩
    · cases hf'

/-- A permit that is given back goes to the flush if it waits. -/
theorem flushes_release (h : Solo start verdict f tail c) {q : Queue}
    (hline : q.line = c.queue.line) (hfl : q.flushes = c.queue.flushes) :
    q.release.flushes = start.queue.flushes ++
      [if f.stage = .inLine then { f with stage := .holding } else f] := by
  unfold Queue.release
  split
  · rename_i hnil
    have hst : f.stage ≠ .inLine := by
      intro hst
      have hm := (h.reached.supplied.lined.waiting _).2 ⟨f, h.getElem?_flush, hst⟩
      rw [← hline, hnil] at hm
      cases hm
    rw [if_neg hst, ← h.flushes, ← hfl]
  · rename_i id rest hcons
    obtain ⟨rfl, hst⟩ := h.line (by rw [← hline, hcons]; exact List.mem_cons_self)
    rw [if_pos hst, modifyFlush, hfl, h.flushes]
    exact modify_concat _ _ _

/-- Nobody is there to wake up. -/
theorem flushes_wakeParked (h : Solo start verdict f tail c) {q : Queue}
    (hfl : q.flushes = c.queue.flushes) : q.wakeParked.flushes = c.queue.flushes := by
  have hawake : ∀ f' ∈ c.queue.flushes, f'.stage ≠ .parked := by
    intro f' hf'
    rw [h.flushes, List.mem_append, List.mem_singleton] at hf'
    rcases hf' with hf' | rfl
    · rw [h.ready.returned f' hf']
      exact Stage.noConfusion
    · exact h.awake
  rw [wakeParked, hfl]
  refine (List.map_congr_left fun f' hf' => ?_).trans (List.map_id _)
  rw [if_neg (hawake f' hf'), id]

/-! ## Every step -/

/-- A change that claims nothing. -/
theorem keep (h : Solo start verdict f tail c) {c' : Course} {f' : Flush} {notes : List Note}
    (hr : c'.Reached) (hset : c'.queue.settings = c.queue.settings)
    (hfaults : c'.queue.store.faults = c.queue.store.faults)
    (hj : c'.journal = c.journal ++ notes) (hclaims : claims notes = [])
    (hnotes : ∀ note ∈ notes, note.Fits start verdict (claims tail))
    (hfl : c'.queue.flushes = start.queue.flushes ++ [f']) (hsent : f'.sent = f.sent)
    (hex : f'.dispatches = false → f.sent.length = start.chunkTotal) (haw : f'.stage ≠ .parked) :
    Solo start verdict f' (tail ++ notes) c' := by
  have hsame : claims (tail ++ notes) = claims tail := by
    rw [claims_append, hclaims, List.append_nil]
  refine ⟨h.ready, hr, hset.trans h.settings, hfaults.trans h.faults, ?_, hfl, ?_, ?_, ?_, ?_, ?_,
    haw⟩
  · rw [hj, h.journal, List.append_assoc]
  · rw [hsame, hsent]
    exact h.claimed
  · rw [hsame, hsent]
    exact h.sent
  · rw [hsame]
    exact List.forall_mem_append.2 ⟨h.notes, hnotes⟩
  · rw [hsent]
    exact h.within
  · rw [hsent]
    exact hex

/-- A step of the flush that claims nothing. -/
theorem moved (h : Solo start verdict f tail c) {c' : Course} {q₀ : Queue} {g : Flush → Flush}
    (hr : c'.Reached) (hc' : c' = c.next (q₀.modifyFlush start.queue.flushes.length g) [])
    (hset : q₀.settings = c.queue.settings) (hstore : q₀.store = c.queue.store)
    (hflights : q₀.flights = c.queue.flights) (hfl : q₀.flushes = c.queue.flushes)
    (hsent : (g f).sent = f.sent)
    (hex : (g f).dispatches = false → f.sent.length = start.chunkTotal)
    (haw : (g f).stage ≠ .parked)
    (hless : (g f).stepsLeft start.chunkTotal < f.stepsLeft start.chunkTotal) :
    Advances start verdict f c c' := by
  have hjournal : c'.journal = c.journal := by
    rw [hc', Course.next, List.append_nil]
  have hflights' : c'.queue.flights = c.queue.flights := by
    rw [hc', ← hflights]
    rfl
  refine ⟨g f, tail ++ [], ?_, ?_⟩
  · refine h.keep hr (by rw [hc', ← hset]; rfl) (by rw [hc', ← hstore]; rfl)
      (by rw [hjournal, List.append_nil]) rfl (List.forall_mem_nil _) ?_ hsent hex haw
    rw [hc', Course.next, modifyFlush, hfl, h.flushes]
    exact modify_concat _ _ _
  · have hout : c'.callsOut ≤ c.callsOut := by
      rw [Course.callsOut, hflights']
      exact countP_out_le (hjournal.trans (List.append_nil _).symm) _
    rw [workLeft, workLeft, hflights', hsent]
    omega

/-- The flush claims the next chunk. -/
theorem claim (h : Solo start verdict f tail c) {c' : Course} (hr : c'.Reached) {batch : Batch}
    (hst : f.stage = .holding) (hb : c.queue.claimable f.attempted = .ok batch.events)
    (hc' : c' = c.next ((c.queue.withFlight batch).modifyFlush start.queue.flushes.length fun f =>
      { f with stage := .asking, sent := f.sent ++ [⟨c.queue.tickets, batch.ids⟩] })
      [.claimed ⟨c.queue.tickets, batch⟩]) :
    Advances start verdict f c c' := by
  have hevents : batch.events = start.chunkAt f.sent.length := by
    rw [h.claimable] at hb
    exact (Except.ok.inj hb).symm
  have hlt : f.sent.length < start.chunkTotal := by
    by_contra hnot
    refine batch.nonempty ?_
    rw [hevents]
    exact (chunk_eq_nil h.ready.reached.supplied.size _ _).2 (Nat.le_of_not_lt hnot)
  have hclaims : claims (tail ++ [.claimed ⟨c.queue.tickets, batch⟩]) =
      claims tail ++ [⟨c.queue.tickets, batch⟩] := by
    rw [claims_append]
    rfl
  refine ⟨{ f with stage := .asking, sent := f.sent ++ [⟨c.queue.tickets, batch.ids⟩] },
    tail ++ [.claimed ⟨c.queue.tickets, batch⟩], ?_, ?_⟩
  · refine ⟨h.ready, hr, ?_, ?_, ?_, ?_, ?_, ?_, ?_, ?_, nofun, nofun⟩
    · rw [hc']
      exact h.settings
    · rw [hc']
      exact h.faults
    · rw [hc', Course.next, h.journal, List.append_assoc]
    · rw [hc', Course.next, modifyFlush, withFlight, h.flushes]
      exact modify_concat _ _ _
    · rw [hclaims, List.map_append, h.claimed, List.length_append, List.length_singleton,
        List.range_succ, List.map_append, h.tickets]
      simp [hevents]
    · rw [hclaims, List.map_append, ← h.sent]
      rfl
    · rw [hclaims]
      refine List.forall_mem_append.2 ⟨fun note hm => ?_, List.forall_mem_singleton.2 trivial⟩
      exact (h.notes note hm).mono fun g hg => List.mem_append_left _ hg
    · rw [List.length_append]
      exact hlt
  · have hflights : c'.queue.flights = c.queue.flights ++ [⟨c.queue.tickets, batch⟩] := by
      rw [hc']
      rfl
    have hout : c'.callsOut ≤ c.callsOut + 1 := by
      rw [Course.callsOut, hflights, List.countP_append]
      refine Nat.add_le_add (countP_out_le (by rw [hc']; rfl) _) ?_
      exact List.countP_le_length
    simp only [workLeft, Flush.stepsLeft, hst, hflights, List.length_append, List.length_singleton]
    omega

/-- A step of the flush. -/
theorem step (h : Solo start verdict f tail c) {c' : Course}
    (hact : c.act? (.flushStep start.queue.flushes.length) = some c') :
    Advances start verdict f c c' := by
  have hr := h.reached.act? hact
  obtain ⟨f₁, p, q₀, g, hf₁, hm, hc'⟩ := Course.act?_flushStep hact
  rw [h.getElem?_flush] at hf₁
  cases hf₁
  cases hm with
  | take free hst hfree =>
    refine h.moved hr hc' rfl rfl rfl rfl rfl nofun nofun ?_
    simp only [Flush.stepsLeft, hst]
    omega
  | queue hst hfree =>
    refine h.moved hr hc' rfl rfl rfl rfl rfl nofun nofun ?_
    simp only [Flush.stepsLeft, hst]
    omega
  | claim batch hst hb => exact h.claim hr hst hb hc'
  | exhaust hst hb =>
    have hlen : f.sent.length = start.chunkTotal := by
      rw [h.claimable, Except.ok.injEq] at hb
      have hle := (chunk_eq_nil h.ready.reached.supplied.size _ _).1 hb
      exact Nat.le_antisymm h.within hle
    obtain ⟨_, _, _, hq⟩ := c.queue.release_frame
    refine h.moved hr hc' (by rw [hq]) (by rw [hq]) (by rw [hq]) ?_ rfl (fun _ => hlen) nofun ?_
    · rw [h.flushes_release rfl rfl, hst, if_neg Stage.noConfusion, h.flushes]
    · simp only [Flush.stepsLeft, hst, hlen]
      omega
  | giveUp e hst hb =>
    rw [h.claimable] at hb
    cases hb
  | join s rest outcome hst ho =>
    refine h.moved hr hc' rfl rfl rfl rfl rfl (fun _ => h.exhausted ?_) nofun ?_
    · rw [Flush.dispatches, hst]
    · simp only [Flush.stepsLeft, hst, List.length_cons]
      omega
  | finish hst hp =>
    refine h.moved hr hc' rfl rfl rfl rfl rfl (fun _ => h.exhausted ?_) nofun ?_
    · rw [Flush.dispatches, hst]
    · simp only [Flush.stepsLeft, hst, List.length_nil]
      omega
  | park hst hp =>
    exact absurd (h.processing_eq_nil (by rw [Flush.uncounted, hst])) hp

/-- The call for a batch ends. -/
theorem finish (h : Solo start verdict f tail c) {c' : Course} {i : Nat}
    (hact : c.act? (.finish (start.queue.tickets + i) (verdict i)) = some c') :
    Advances start verdict f c c' := by
  obtain ⟨g, ht, hg, hn, hc'⟩ := Course.act?_finish hact
  obtain ⟨store, delivered, failedBatches, hfaults, hq⟩ :=
    c.queue.account_frame g.batch (verdict i).outcome
  have herase : c.queue.store.faults.delete = false := by rw [h.faults, h.ready.erasable]
  rw [hq, account_failure herase] at hc'
  have hfits : (Note.handled g (verdict i) none).Fits start verdict (claims tail) :=
    ⟨h.claimed_since hg, by rw [ht, Nat.add_sub_cancel_left], rfl⟩
  refine ⟨f, tail ++ [.handled g (verdict i) none], ?_, ?_⟩
  · refine h.keep (h.reached.act? hact) (by rw [hc']; rfl) (by rw [hc']; exact hfaults)
      (by rw [hc']; rfl) rfl (List.forall_mem_singleton.2 hfits) ?_ rfl h.exhausted h.awake
    rw [hc']
    exact h.flushes
  · rw [← ht] at hn
    have hflights : c'.queue.flights = c.queue.flights := by rw [hc', Course.next]
    have hout : c'.callsOut < c.callsOut := callsOut_finish hg hn hflights (by rw [hc']; rfl)
    rw [workLeft, workLeft, hflights]
    omega

/-- A batch lands. -/
theorem land (h : Solo start verdict f tail c) {c' : Course} {ticket : Nat}
    (hact : c.act? (.land ticket) = some c') : Advances start verdict f c c' := by
  obtain ⟨g, ending, -, hg, -, hc'⟩ := Course.act?_land hact
  obtain ⟨_, _, _, hq⟩ := c.queue.land_frame g ending.outcome
  have hjournal : c'.journal = c.journal ++ [.landed g] := by
    rw [hc']
    rfl
  have hflights : c'.queue.flights = c.queue.flights.filter fun g' => g'.ticket != g.ticket := by
    rw [hc', Course.next, hq]
    rfl
  have hflushes : c'.queue.flushes = start.queue.flushes ++
      [if f.stage = .inLine then { f with stage := .holding } else f] := by
    rw [hc', Course.next, land_eq]
    split
    · exact h.flushes_release rfl (h.flushes_wakeParked rfl)
    · exact h.flushes_release rfl rfl
  have hless : c'.queue.flights.length + c'.callsOut < c.queue.flights.length + c.callsOut := by
    have hlen := length_filter_ticket hg h.reached.tracked.flights_tickets_nodup
    have hout : c'.callsOut ≤ c.callsOut := by
      rw [Course.callsOut, hflights]
      exact Nat.le_trans List.filter_sublist.countP_le (countP_out_le hjournal _)
    rw [hflights]
    omega
  refine ⟨if f.stage = .inLine then { f with stage := .holding } else f, tail ++ [.landed g], ?_, ?_⟩
  · refine h.keep (h.reached.act? hact) (by rw [hc', Course.next, hq]; rfl)
      (by rw [hc', Course.next, hq]; rfl) hjournal rfl (List.forall_mem_singleton.2 trivial)
      hflushes ?_ ?_ ?_
    · split <;> rfl
    · intro hd
      refine h.exhausted ?_
      split at hd
      · cases hd
      · exact hd
    · split
      · exact Stage.noConfusion
      · exact h.awake
  · unfold workLeft
    split
    · rename_i hst
      simp only [Flush.stepsLeft, hst]
      omega
    · omega

end Solo

/-! ## Whole runs -/

theorem solo_call {start : Course} (hs : start.Ready) (verdict : Nat → Ending) :
    Solo start verdict {} [] (start.act .callFlush) := by
  have hc : start.act .callFlush = start.next (start.queue.callFlush start.usable).2 [] := rfl
  refine ⟨hs, hs.reached.act _, rfl, rfl, rfl, ?_, rfl, rfl, nofun, Nat.zero_le _, nofun, nofun⟩
  rw [hc, hs.usable]
  rfl

/-- At the call there is a bounded number of things to do. -/
theorem workLeft_call {start : Course} (hs : start.Ready) :
    workLeft start.chunkTotal {} (start.act .callFlush) = 5 * start.chunkTotal + 3 := by
  have hflights : (start.act .callFlush).queue.flights = [] := hs.settled
  rw [workLeft, Course.callsOut, hflights]
  simp only [Flush.stepsLeft, List.length_nil, List.countP_nil]
  omega

/-- **Whatever may happen while the flush is on its own leaves less to do.** -/
theorem solo_act? {start c c' : Course} {verdict : Nat → Ending} {f : Flush} {tail : List Note}
    (h : Solo start verdict f tail c) {a : Action} (ha : start.Solitary verdict a)
    (hact : c.act? a = some c') : Advances start verdict f c c' := by
  cases ha with
  | step => exact h.step hact
  | finish i => exact h.finish hact
  | land ticket => exact h.land hact

/-- The invariant after every run; each action that happens is one less to come. -/
theorem solo_run {start : Course} {verdict : Nat → Ending} {actions : List Action}
    (ha : ∀ a ∈ actions, start.Solitary verdict a) {c : Course} {f : Flush} {tail : List Note}
    (h : Solo start verdict f tail c) :
    ∃ f' tail', Solo start verdict f' tail' (c.run actions) ∧
      (c.Unhindered actions → actions.length + workLeft start.chunkTotal f' (c.run actions) ≤
        workLeft start.chunkTotal f c) := by
  induction actions generalizing c f tail with
  | nil => exact ⟨f, tail, h, fun _ => Nat.le_of_eq (Nat.zero_add _)⟩
  | cons a actions ih =>
    have hrest := fun a' ha' => ha a' (List.mem_cons_of_mem a ha')
    rw [Course.run_cons]
    cases hact : c.act? a with
    | none =>
      have hstay : c.act a = c := by rw [Course.act, hact, Option.getD_none]
      rw [hstay]
      obtain ⟨f', tail', h', -⟩ := ih hrest h
      refine ⟨f', tail', h', fun hu => ?_⟩
      have henabled := hu.1
      rw [hact] at henabled
      cases henabled
    | some c' =>
      obtain ⟨f₁, tail₁, h₁, hless⟩ := solo_act? h (ha a List.mem_cons_self) hact
      rw [← Course.act_of_act? hact] at h₁ hless
      obtain ⟨f', tail', h', hbound⟩ := ih hrest h₁
      refine ⟨f', tail', h', fun hu => ?_⟩
      have hle := hbound hu.2
      rw [List.length_cons]
      omega

end EventRelay.Queue
