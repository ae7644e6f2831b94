import EventRelay.Proofs.Queue.Flights

/-!
# Where the permits are

A permit is free, or a batch in flight has it, or a flush holds it that has not claimed with it yet.
A claim takes a permit that was given out, and gives it back if there is nothing to claim; a batch
gives its permit back when it lands; and a permit that is given back goes to the flush that has
waited longest, if one waits.

* `permits` counts all of them; `permits_release` and `permits_claim` say what giving back and
  claiming add to the count.
* `Lined` — the line holds exactly the flushes that wait for a permit, and none waits while a permit
  is free.
* `supplied_act?`, `supplied_run` — **no permit is lost**: after every run there are as many permits
  as there were at the start.
* `permits_conserved` — so the batches in flight are bounded, and an idle queue has all its permits.
-/

namespace EventRelay.Queue

/-- The flushes that hold a permit and have not claimed with it yet. -/
def holders (q : Queue) : Nat :=
  q.flushes.countP fun f => decide (f.stage = .holding)

/-- All permits, wherever they are. -/
def permits (q : Queue) : Nat :=
  q.free + q.flights.length + q.holders

/-- The line for permits is in order. -/
structure Lined (q : Queue) : Prop where
  /-- Nobody waits twice. -/
  nodup : q.line.Nodup
  /-- In line are the flushes that wait for a permit. -/
  waiting : ∀ id, id ∈ q.line ↔ ∃ f, q.flushes[id]? = some f ∧ f.stage = .inLine
  /-- Nobody waits while a permit is free. -/
  full : q.line ≠ [] → q.free = 0

/-! ## Changing one flush -/

theorem countP_modify {α : Type} {p : α → Bool} {as : List α} {i : Nat} {a : α}
    (h : as[i]? = some a) (g : α → α) :
    (as.modify i g).countP p + (if p a then 1 else 0) =
      as.countP p + (if p (g a) then 1 else 0) := by
  induction as generalizing i with
  | nil => simp at h
  | cons x xs ih =>
    cases i with
    | zero =>
      rw [List.getElem?_cons_zero, Option.some.injEq] at h
      subst h
      simp only [List.modify_zero_cons, List.countP_cons]
      omega
    | succ i =>
      rw [List.getElem?_cons_succ] at h
      have hxs := ih h
      simp only [List.modify_succ_cons, List.countP_cons]
      omega

theorem permits_modifyFlush {q : Queue} {id : Nat} {f : Flush} (hf : q.flushes[id]? = some f)
    (g : Flush → Flush) :
    (q.modifyFlush id g).permits + (if f.stage = .holding then 1 else 0) =
      q.permits + (if (g f).stage = .holding then 1 else 0) := by
  have hcount := countP_modify (p := fun f => decide (f.stage = .holding)) hf g
  simp only [decide_eq_true_eq] at hcount
  simp only [permits, holders, modifyFlush]
  omega

/-- The flush of a number, after the flush of some number was changed. -/
theorem getElem?_modifyFlush (q : Queue) (id : Nat) (g : Flush → Flush) (i : Nat) :
    (q.modifyFlush id g).flushes[i]? =
      if id = i then (q.flushes[i]?).map g else q.flushes[i]? := by
  rw [modifyFlush, List.getElem?_modify]
  split <;> simp

theorem Lined.modifyFlush {q : Queue} (hl : q.Lined) {id : Nat} {f : Flush}
    (hf : q.flushes[id]? = some f) (hold : f.stage ≠ .inLine) {g : Flush → Flush}
    (hnew : (g f).stage ≠ .inLine) : (q.modifyFlush id g).Lined := by
  refine ⟨hl.nodup, fun i => ?_, hl.full⟩
  rw [getElem?_modifyFlush]
  by_cases hi : id = i
  · subst hi
    rw [if_pos rfl, hf]
    refine (hl.waiting id).trans ⟨?_, ?_⟩
    · rintro ⟨f', hf', hs⟩
      rw [hf] at hf'
      cases hf'
      exact absurd hs hold
    · rintro ⟨f', hf', hs⟩
      cases hf'
      exact absurd hs hnew
  · rw [if_neg hi]
    exact hl.waiting i

/-- Who does not wait is not in line. -/
theorem Lined.not_mem {q : Queue} (hl : q.Lined) {id : Nat} {f : Flush}
    (hf : q.flushes[id]? = some f) (hs : f.stage ≠ .inLine) : id ∉ q.line := by
  intro hm
  obtain ⟨f', hf', hs'⟩ := (hl.waiting id).1 hm
  rw [hf] at hf'
  cases hf'
  exact hs hs'

/-- A flush that finds no free permit goes to the end of the line. -/
theorem Lined.queue {q : Queue} (hl : q.Lined) {id : Nat} {f : Flush}
    (hf : q.flushes[id]? = some f) (hs : f.stage ≠ .inLine) (hfree : q.free = 0) :
    (({ q with line := q.line ++ [id] } : Queue).modifyFlush id
      fun f => { f with stage := .inLine }).Lined := by
  have hnot := hl.not_mem hf hs
  refine ⟨?_, fun i => ?_, fun _ => hfree⟩
  · refine List.nodup_append.2 ⟨hl.nodup, List.nodup_singleton id, ?_⟩
    rintro i hi _ hi' rfl
    rw [List.mem_singleton.1 hi'] at hi
    exact hnot hi
  · rw [getElem?_modifyFlush]
    refine (List.mem_append.trans (or_congr_right List.mem_singleton)).trans ?_
    by_cases hi : id = i
    · subst hi
      rw [if_pos rfl]
      refine ⟨fun _ => ⟨{ f with stage := .inLine }, ?_, rfl⟩, fun _ => Or.inr rfl⟩
      exact Option.map_eq_some_iff.2 ⟨f, hf, rfl⟩
    · rw [if_neg hi]
      refine Iff.trans ⟨fun h => h.resolve_right (Ne.symm hi), Or.inl⟩ (hl.waiting i)

/-! ## Taking a permit and giving it back -/

/-- **Giving a permit back adds one.** -/
theorem permits_release {q : Queue} (hl : q.Lined) : q.release.permits = q.permits + 1 := by
  unfold release
  split
  · simp only [permits, holders]
    omega
  · rename_i id rest hline
    obtain ⟨f, hf, hs⟩ := (hl.waiting id).1 (by rw [hline]; exact List.mem_cons_self)
    have hcount := permits_modifyFlush (q := { q with line := rest }) hf
      fun f => { f with stage := .holding }
    rw [if_neg (by rw [hs]; exact Stage.noConfusion), if_pos rfl] at hcount
    exact hcount

theorem Lined.release {q : Queue} (hl : q.Lined) : q.release.Lined := by
  unfold Queue.release
  split
  · rename_i hline
    exact ⟨hl.nodup, hl.waiting, fun hne => absurd hline hne⟩
  · rename_i id rest hline
    have hnd := hl.nodup
    rw [hline, List.nodup_cons] at hnd
    refine ⟨hnd.2, fun i => ?_, fun _ => hl.full (by rw [hline]; exact List.cons_ne_nil _ _)⟩
    rw [getElem?_modifyFlush]
    by_cases hi : id = i
    · subst hi
      rw [if_pos rfl]
      refine ⟨fun hm => absurd hm hnd.1, ?_⟩
      rintro ⟨f', hf', hs⟩
      obtain ⟨f, -, rfl⟩ := Option.map_eq_some_iff.1 hf'
      cases hs
    · rw [if_neg hi]
      refine Iff.trans ?_ (hl.waiting i)
      rw [hline, List.mem_cons]
      exact ⟨Or.inr, fun h => h.resolve_left (Ne.symm hi)⟩

/-- A flush that does not wait for a permit does not notice that one is given back. -/
theorem Lined.getElem?_release {q : Queue} (hl : q.Lined) {id : Nat} {f : Flush}
    (hf : q.flushes[id]? = some f) (hs : f.stage ≠ .inLine) : q.release.flushes[id]? = some f := by
  have hnot := hl.not_mem hf hs
  unfold Queue.release
  split
  · exact hf
  · rename_i id' rest hline
    rw [hline, List.mem_cons, not_or] at hnot
    rw [getElem?_modifyFlush, if_neg (Ne.symm hnot.1)]
    exact hf

/-- Taking a free permit leaves the line in order: nobody was in it. -/
theorem Lined.take {q : Queue} (hl : q.Lined) {free : Nat} (hfree : q.free = free + 1) :
    ({ q with free } : Queue).Lined := by
  refine ⟨hl.nodup, hl.waiting, fun hne => ?_⟩
  have hzero := hl.full hne
  omega

theorem permits_take {q : Queue} {free : Nat} (hfree : q.free = free + 1) :
    ({ q with free } : Queue).permits + 1 = q.permits := by
  simp only [permits, holders]
  omega

/-! ## Claiming -/

theorem permits_withFlight (q : Queue) (batch : Batch) :
    (q.withFlight batch).permits = q.permits + 1 := by
  simp only [permits, holders, withFlight, List.length_append, List.length_singleton]
  omega

/-- **A claim puts the permit in hand to use or gives it back.** -/
theorem permits_claim {q : Queue} (hl : q.Lined) (exclude : List EventId) :
    (q.claim exclude).2.permits = q.permits + 1 := by
  rcases q.claim_cases exclude with ⟨e, -, hq⟩ | ⟨-, hq⟩ | ⟨batch, -, hq⟩
  · rw [hq, permits_release hl]
  · rw [hq, permits_release hl]
  · rw [hq, permits_withFlight]

theorem Lined.claim {q : Queue} (hl : q.Lined) (exclude : List EventId) :
    (q.claim exclude).2.Lined := by
  rcases q.claim_cases exclude with ⟨e, -, hq⟩ | ⟨-, hq⟩ | ⟨batch, -, hq⟩
  · rw [hq]
    exact hl.release
  · rw [hq]
    exact hl.release
  · rw [hq]
    exact ⟨hl.nodup, hl.waiting, hl.full⟩

/-! ## Landing -/

/-- Flushes that wake up neither hold permits nor wait for one. -/
theorem permits_wakeParked (q : Queue) : q.wakeParked.permits = q.permits := by
  simp only [permits, holders, wakeParked, List.countP_map]
  congr 1
  refine List.countP_congr fun f _ => ?_
  by_cases hs : f.stage = .parked <;> simp [hs]

theorem Lined.wakeParked {q : Queue} (hl : q.Lined) : q.wakeParked.Lined := by
  refine ⟨hl.nodup, fun i => (hl.waiting i).trans ?_, hl.full⟩
  simp only [Queue.wakeParked, List.getElem?_map]
  constructor
  · rintro ⟨f, hf, hs⟩
    exact ⟨f, by simp [hf, hs], hs⟩
  · rintro ⟨f', hf', hs⟩
    obtain ⟨f, hf, rfl⟩ := Option.map_eq_some_iff.1 hf'
    by_cases hp : f.stage = .parked
    · rw [if_pos hp] at hs
      cases hs
    · rw [if_neg hp] at hs
      exact ⟨f, hf, hs⟩

/-- One batch has the ticket of a batch in flight. -/
theorem length_filter_ticket {flights : List Flight} {flight : Flight} (hm : flight ∈ flights)
    (hnd : (flights.map Flight.ticket).Nodup) :
    (flights.filter fun f => f.ticket != flight.ticket).length + 1 = flights.length := by
  have hone : flights.countP (fun f => f.ticket == flight.ticket) = 1 := by
    have hcount := List.count_eq_one_of_mem hnd (List.mem_map_of_mem hm)
    rwa [List.count, List.countP_map] at hcount
  have hsplit := List.length_eq_countP_add_countP (fun f : Flight => f.ticket == flight.ticket)
    (l := flights)
  have hrest : flights.countP (fun f => f.ticket != flight.ticket) =
      flights.countP fun f => decide ¬(f.ticket == flight.ticket) = true := by
    refine List.countP_congr fun f _ => ?_
    simp
  rw [← List.countP_eq_length_filter, hrest]
  omega

/-! ## The invariant -/

/-- Every permit is accounted for, and there is at least one; a batch holds at least one event. -/
structure Supplied (q : Queue) : Prop where
  /-- The line for permits is in order. -/
  lined : q.Lined
  /-- There are as many permits as batches may be in flight. -/
  total : q.permits = q.settings.concurrency
  /-- There is at least one. -/
  positive : 1 ≤ q.settings.concurrency
  /-- A batch holds at least one event. -/
  size : 1 ≤ q.settings.batchSize

theorem release_settings (q : Queue) : q.release.settings = q.settings := by
  obtain ⟨_, _, _, hq⟩ := q.release_frame
  rw [hq]

theorem claim_settings (q : Queue) (exclude : List EventId) :
    (q.claim exclude).2.settings = q.settings := by
  obtain ⟨_, _, _, _, _, _, hq⟩ := q.claim_frame exclude
  rw [hq]

namespace Supplied

variable {q q' : Queue}

/-- The invariant is about the permits and those who wait for them only. -/
theorem congr (h : q.Supplied) (hset : q'.settings = q.settings) (hfree : q'.free = q.free)
    (hline : q'.line = q.line) (hflushes : q'.flushes = q.flushes)
    (hflights : q'.flights = q.flights) : q'.Supplied := by
  obtain ⟨⟨hn, hw, hf⟩, ht, hs, hb⟩ := h
  refine ⟨⟨?_, ?_, ?_⟩, ?_, ?_, ?_⟩
  · rwa [hline]
  · rwa [hline, hflushes]
  · rwa [hline, hfree]
  · rwa [permits, holders, hset, hfree, hflushes, hflights]
  · rwa [hset]
  · rwa [hset]

theorem callFlush (h : q.Supplied) (usable : Bool) : (q.callFlush usable).2.Supplied := by
  have hstage : ∀ s : Stage, s = (if usable then .asking else .returned) →
      s ≠ .holding ∧ s ≠ .inLine := by
    rintro s rfl
    cases usable <;> exact ⟨Stage.noConfusion, Stage.noConfusion⟩
  refine ⟨⟨h.lined.nodup, fun i => ?_, h.lined.full⟩, ?_, h.positive, h.size⟩
  · refine (h.lined.waiting i).trans ⟨?_, ?_⟩
    · rintro ⟨f, hf, hs⟩
      refine ⟨f, ?_, hs⟩
      rw [Queue.callFlush, List.getElem?_append_left (List.getElem?_eq_some_iff.1 hf).1]
      exact hf
    · rintro ⟨f, hf, hs⟩
      refine ⟨f, ?_, hs⟩
      simp only [Queue.callFlush, List.getElem?_append] at hf
      split at hf
      · exact hf
      · rw [List.getElem?_singleton] at hf
        split at hf
        · cases hf
          exact absurd hs (hstage _ rfl).2
        · cases hf
  · have hcount := h.total
    simp only [permits, holders] at hcount
    simp only [permits, holders, Queue.callFlush, List.countP_append, List.countP_singleton,
      decide_eq_true_eq, if_neg (hstage _ rfl).1, Nat.add_zero]
    exact hcount

theorem dispatch (h : q.Supplied) (usable : Bool) : (q.dispatch usable).2.Supplied := by
  rcases q.dispatch_cases usable with ⟨-, hq⟩ | ⟨-, -, hq⟩ | ⟨free, -, hfree, hq⟩
  · rw [hq]
    exact h
  · rw [hq]
    exact h
  · have hl := h.lined.take hfree
    have hset : (({ q with free } : Queue).claim []).2.settings = q.settings := claim_settings _ _
    rw [hq]
    refine ⟨hl.claim [], ?_, by rw [hset]; exact h.positive, by rw [hset]; exact h.size⟩
    rw [permits_claim hl, permits_take hfree, hset]
    exact h.total

theorem tick (h : q.Supplied) (id now : Nat) (usable : Bool) : (q.tick id now usable).2.Supplied :=
  (h.dispatch usable).congr rfl rfl rfl rfl rfl

theorem account (h : q.Supplied) (batch : Batch) (outcome : Outcome) :
    (q.account batch outcome).2.Supplied := by
  obtain ⟨_, _, _, -, hq⟩ := q.account_frame batch outcome
  rw [hq]
  exact h.congr rfl rfl rfl rfl rfl

/-- A flush that neither starts nor stops waiting in line moves on, and the permits that it took or
gave up make the count right. -/
theorem modifyFlush (hl : q.Lined) (hpos : 1 ≤ q.settings.concurrency)
    (hsize : 1 ≤ q.settings.batchSize) {id : Nat} {f : Flush} (hf : q.flushes[id]? = some f)
    (hold : f.stage ≠ .inLine) {g : Flush → Flush} (hnew : (g f).stage ≠ .inLine)
    (htotal : q.permits + (if (g f).stage = .holding then 1 else 0) =
      q.settings.concurrency + (if f.stage = .holding then 1 else 0)) :
    (q.modifyFlush id g).Supplied := by
  refine ⟨hl.modifyFlush hf hold hnew, ?_, hpos, hsize⟩
  have hcount := permits_modifyFlush hf g
  rw [htotal] at hcount
  exact Nat.add_right_cancel hcount

/-- A flush that has nothing to do with permits moves on. -/
theorem pass (h : q.Supplied) {id : Nat} {f : Flush} (hf : q.flushes[id]? = some f)
    (hold : f.stage ≠ .inLine ∧ f.stage ≠ .holding) {g : Flush → Flush}
    (hnew : (g f).stage ≠ .inLine ∧ (g f).stage ≠ .holding) : (q.modifyFlush id g).Supplied := by
  refine modifyFlush h.lined h.positive h.size hf hold.1 hnew.1 ?_
  rw [if_neg hnew.2, if_neg hold.2, h.total]

/-- A flush with a permit gives it back and goes on to wait for its batches. -/
theorem giveBack (h : q.Supplied) {id : Nat} {f : Flush} (hf : q.flushes[id]? = some f)
    (hs : f.stage = .holding) :
    (q.release.modifyFlush id fun f => { f with stage := .joining f.sent }).Supplied := by
  have hold : f.stage ≠ .inLine := by
    rw [hs]
    exact Stage.noConfusion
  have hset := q.release_settings
  refine modifyFlush h.lined.release (by rw [hset]; exact h.positive) (by rw [hset]; exact h.size)
    (h.lined.getElem?_release hf hold) hold Stage.noConfusion ?_
  rw [if_neg Stage.noConfusion, hs, if_pos rfl, permits_release h.lined, hset, h.total]

theorem flushStep (h : q.Supplied) {id : Nat} {f : Flush} (hf : q.flushes[id]? = some f)
    {p : Progress} {g : Flush → Flush} (hmove : FlushMove q id f p q' g) :
    (q'.modifyFlush id g).Supplied := by
  have htotal := h.total
  cases hmove with
  | take free hs hfree =>
    have hcount := permits_take hfree
    refine modifyFlush (h.lined.take hfree) h.positive h.size hf (by rw [hs]; exact Stage.noConfusion)
      Stage.noConfusion ?_
    rw [if_pos rfl, hs, if_neg Stage.noConfusion, hcount]
    exact htotal
  | queue hs hfree =>
    have hcount := permits_modifyFlush (q := { q with line := q.line ++ [id] }) hf
      fun f => { f with stage := .inLine }
    rw [hs, if_neg Stage.noConfusion, if_neg Stage.noConfusion] at hcount
    exact ⟨h.lined.queue hf (by rw [hs]; exact Stage.noConfusion) hfree, hcount.trans htotal,
      h.positive, h.size⟩
  | claim batch hs hc =>
    have hcount : (q.withFlight batch).permits = q.permits + 1 := permits_withFlight q batch
    have hl : (q.withFlight batch).Lined := ⟨h.lined.nodup, h.lined.waiting, h.lined.full⟩
    refine modifyFlush hl h.positive h.size hf (by rw [hs]; exact Stage.noConfusion)
      Stage.noConfusion ?_
    rw [if_neg Stage.noConfusion, hs, if_pos rfl, hcount, htotal]
    rfl
  | exhaust hs hc => exact h.giveBack hf hs
  | giveUp e hs hc => exact h.giveBack hf hs
  | join s rest outcome hs ho => exact h.pass hf (by simp [hs]) (by simp)
  | finish hs hp => exact h.pass hf (by simp [hs]) (by simp)
  | park hs hp => exact h.pass hf (by simp [hs]) (by simp)

/-- A batch that lands gives its permit back. -/
theorem land (h : q.Supplied) {flight : Flight} (hm : flight ∈ q.flights)
    (hnd : (q.flights.map Flight.ticket).Nodup) (outcome : Outcome) :
    (q.land flight outcome).Supplied := by
  have hset : (q.land flight outcome).settings = q.settings := by
    obtain ⟨_, _, _, hq⟩ := q.land_frame flight outcome
    rw [hq]
    rfl
  suffices hland : (q.land flight outcome).Lined ∧ (q.land flight outcome).permits = q.permits by
    refine ⟨hland.1, ?_, by rw [hset]; exact h.positive, by rw [hset]; exact h.size⟩
    rw [hland.2, hset]
    exact h.total
  have hline : (q.withoutFlight flight outcome).Lined :=
    ⟨h.lined.nodup, h.lined.waiting, h.lined.full⟩
  have hcount : (q.withoutFlight flight outcome).permits + 1 = q.permits := by
    have hlen := length_filter_ticket hm hnd
    simp only [permits, holders, withoutFlight]
    omega
  rw [land_eq]
  split
  · refine ⟨hline.wakeParked.release, ?_⟩
    rw [permits_release hline.wakeParked, permits_wakeParked]
    exact hcount
  · refine ⟨hline.release, ?_⟩
    rw [permits_release hline]
    exact hcount

end Supplied

/-! ## Whole runs -/

/-- An action that happens keeps the permits. -/
theorem supplied_act? {c c' : Course} {a : Action} (hact : c.act? a = some c')
    (ht : c.books.Tracked) (h : c.queue.Supplied) : c'.queue.Supplied := by
  by_cases ha : a.isAside = true
  · obtain ⟨_, _, _, _, _, _, hq⟩ := Course.act?_aside ha hact
    rw [hq]
    exact h.congr rfl rfl rfl rfl rfl
  cases a with
  | tick runner now =>
    obtain ⟨-, rfl⟩ := Course.act?_tick hact
    exact h.tick runner now c.usable
  | dispatch =>
    cases hact
    exact h.dispatch c.usable
  | callFlush =>
    cases hact
    exact h.callFlush c.usable
  | flushStep id =>
    obtain ⟨f, p, q₀, g, hf, hmove, rfl⟩ := Course.act?_flushStep hact
    exact h.flushStep hf hmove
  | finish ticket ending =>
    obtain ⟨flight, -, -, -, rfl⟩ := Course.act?_finish hact
    exact h.account _ _
  | land ticket =>
    obtain ⟨flight, ending, -, hm, -, rfl⟩ := Course.act?_land hact
    exact h.land hm ht.flights_tickets_nodup _
  | _ => exact absurd rfl ha

/-- **No permit is lost.**  After every run there are as many permits as batches may be in flight,
and nobody waits for one while one is free. -/
theorem supplied_run (settings : Settings) (store : Store) (actions : List Action) :
    ((Course.begin settings store).run actions).queue.Supplied := by
  refine Course.run_induction (P := fun c => c.queue.Supplied) ?_ ?_ actions
  · refine ⟨⟨List.nodup_nil, fun id => ?_, fun hne => absurd rfl hne⟩, rfl, ?_, ?_⟩
    · simp [Course.begin, ofStore]
    · exact Nat.le_max_right _ _
    · exact Nat.le_max_right _ _
  · intro before a h
    rcases ((Course.begin settings store).run before).act_cases a with hact | hact
    · exact supplied_act? hact (tracked_run settings store before) h
    · rw [hact]
      exact h

theorem Course.Reached.supplied {c : Course} (h : c.Reached) : c.queue.Supplied := by
  obtain ⟨settings, store, actions, rfl⟩ := h
  exact supplied_run settings store actions

/-! ## The bound on batches in flight -/

theorem holders_eq_zero {q : Queue} : q.holders = 0 ↔ ∀ f ∈ q.flushes, f.stage ≠ .holding := by
  simp [holders, List.countP_eq_zero]

/-- With nothing in flight and no flush about to claim, every permit is free and nobody waits. -/
theorem Supplied.idle {q : Queue} (h : q.Supplied) (hflights : q.flights = [])
    (hholders : ∀ f ∈ q.flushes, f.stage ≠ .holding) :
    q.free = q.settings.concurrency ∧ q.line = [] := by
  have htotal := h.total
  rw [permits, hflights, List.length_nil, holders_eq_zero.2 hholders] at htotal
  refine ⟨htotal, ?_⟩
  by_contra hline
  have hzero := h.lined.full hline
  have hpos := h.positive
  omega

/-- **Permits are conserved.**  After every run, whoever dispatched, whatever failed to claim, and
however the deliveries ended:

* no more batches are claimed and not landed than the settings allow, and one is always allowed;
* the free permits, those of the batches in flight and those that flushes hold between getting a
  permit and claiming with it add up to that number;
* with nothing in flight and no flush about to claim, every permit is free again, and no flush
  waits for one. -/
theorem permits_conserved (settings : Settings) (store : Store) (actions : List Action) :
    let c := (Course.begin settings store).run actions
    let limit := max settings.concurrency 1
    (aloft c.journal).length ≤ limit ∧
    c.queue.free + (aloft c.journal).length + c.queue.holders = limit ∧
    (aloft c.journal = [] → (∀ f ∈ c.queue.flushes, f.stage ≠ .holding) →
      c.queue.free = limit ∧ c.queue.line = []) := by
  intro c limit
  have hs : c.queue.Supplied := supplied_run settings store actions
  have hflights : c.queue.flights = aloft c.journal := (tracked_run settings store actions).flights
  have hlimit : c.queue.settings.concurrency = limit := by
    rw [show c.queue.settings = settings.normalized from settings_run settings store actions]
    rfl
  have htotal : c.queue.free + (aloft c.journal).length + c.queue.holders = limit := by
    rw [← hflights, ← hlimit]
    exact hs.total
  refine ⟨?_, htotal, fun hnone hholders => ?_⟩
  · omega
  · rw [← hlimit]
    exact hs.idle (hflights.trans hnone) hholders

/-- One batch at a time, and two flushes that wait for the permit of a third party: the batch
crashes, the first flush cannot read the store, the second claims and delivers. -/
def contendedRun : List Action :=
  [.dispatch, .callFlush, .callFlush, .flushStep 0, .flushStep 1, .dispatch, .finish 0 .crashed,
    .land 0, .faults { read := true }, .flushStep 0, .faults {}, .flushStep 1,
    .finish 1 (.returned (.ok ())), .land 1]

/-- The one permit of the contended run: in flight, then with the first flush, then with the second,
in flight again, and free at the end. -/
theorem permits_conserved_contended :
    let c (n : Nat) := (Course.begin { batchSize := 2, concurrency := 0 }
      { events := [sampleEvent 1, sampleEvent 2] }).run (contendedRun.take n)
    ((aloft (c 7).journal).length = 1 ∧ (c 7).queue.line = [0, 1]) ∧
    ((c 8).queue.holders = 1 ∧ (c 8).queue.line = [1]) ∧
    ((c 10).queue.holders = 1 ∧ (c 10).queue.line = []) ∧
    (aloft (c 12).journal).length = 1 ∧
    (c 14).queue.free = 1 := by
  intro c
  obtain ⟨-, -, hidle⟩ := permits_conserved { batchSize := 2, concurrency := 0 }
    { events := [sampleEvent 1, sampleEvent 2] } (contendedRun.take 14)
  exact ⟨by decide, by decide, by decide, by decide, (hidle (by decide) (by decide)).1⟩

end EventRelay.Queue
