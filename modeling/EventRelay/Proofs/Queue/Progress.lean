import EventRelay.Proofs.Queue.Interference
import EventRelay.Proofs.Queue.Isolation

/-!
# No flush is stuck

A flush waits in three places: in line for a permit, for one of its batches to settle, and until
nothing is in flight.  None of the three can last for ever while everybody else is done.

* `awake_run` — a flush is parked only while something is in flight: whoever takes the last batch out
  of flight wakes it, so no wake-up is lost.
* `Supplied.flights_full` — flushes wait in line, with nobody holding a permit, only while as many
  batches are in flight as may be.
* `Course.Reached.progress` — so as long as a flush has not returned, a call of the transport is
  under way, or a batch can land, or a flush can make a step.
* `effort_act?` — left to itself, the queue has less to do after everything that happens;
  `exists_completion` — so all flushes return in the end.
* `flush_never_stuck` — all of it together.
-/

namespace EventRelay.Queue

/-! ## No wake-up is lost -/

/-- A flush that waits until nothing is in flight has something to wait for. -/
def Awake (q : Queue) : Prop :=
  ∀ f ∈ q.flushes, f.stage = .parked → q.processing ≠ []

/-- Only a landing takes ids out of flight. -/
theorem processing_ne_nil {b b' : Books} {a : Action} (h : Books.Move b a b')
    (ha : ∀ ticket, a ≠ .land ticket) (hp : b.processing ≠ []) : b'.processing ≠ [] := by
  cases h with
  | claim exclude batch _ hb => exact List.append_ne_nil_of_left_ne_nil hp _
  | land flight ending hf he => exact absurd rfl (ha flight.ticket)
  | _ => exact hp

/-- The landing that leaves nothing in flight leaves nobody parked. -/
theorem awake_land {q : Queue} (hl : q.Lined) (flight : Flight) (outcome : Outcome) :
    (q.land flight outcome).Awake := by
  intro f' hf' hs hp
  have hwl : (q.withoutFlight flight outcome).Lined := ⟨hl.nodup, hl.waiting, hl.full⟩
  have hempty : (q.withoutFlight flight outcome).processing.isEmpty = true := by
    obtain ⟨_, _, _, hframe⟩ := q.land_frame flight outcome
    rw [hframe] at hp
    exact List.isEmpty_iff.2 hp
  obtain ⟨i, hi⟩ := List.mem_iff_getElem?.1 hf'
  rw [land_eq, if_pos hempty] at hi
  obtain ⟨f, hf, hh⟩ := hwl.wakeParked.handed_release hi
  have hwoken : f.stage ≠ .parked := by
    rw [wakeParked, List.getElem?_map] at hf
    obtain ⟨f₀, -, rfl⟩ := Option.map_eq_some_iff.1 hf
    split
    · exact Stage.noConfusion
    · assumption
  rcases hh with rfl | ⟨-, rfl⟩
  · exact hwoken hs
  · cases hs

theorem awake_act? {c c' : Course} {a : Action} (hl : c.queue.Lined) (hact : c.act? a = some c')
    (hc : c.queue.Awake) : c'.queue.Awake := by
  by_cases hland : ∃ ticket, a = .land ticket
  · obtain ⟨ticket, rfl⟩ := hland
    obtain ⟨flight, ending, -, -, -, rfl⟩ := Course.act?_land hact
    exact awake_land hl flight ending.outcome
  · intro f' hf' hs
    refine processing_ne_nil (Course.move_act? hact) (fun ticket ha => hland ⟨ticket, ha⟩)
      (?_ : c.queue.processing ≠ [])
    obtain ⟨i, hi⟩ := List.mem_iff_getElem?.1 hf'
    rcases flushChange_act? hl hact hi with ⟨f, hf, hch⟩ | ⟨-, -, rfl⟩
    · cases hch with
      | stay ha => exact hc _ (List.mem_of_getElem? hf) hs
      | permit ha hs' => cases hs
      | wake ticket hs' => cases hs
      | move hm =>
        cases hm with
        | park hst hp => exact hp
        | _ => cases hs
    · cases hu : c.usable <;> rw [hu] at hs <;> cases hs

/-- **No wake-up is lost**, whatever is done to the queue. -/
theorem awake_run (settings : Settings) (store : Store) (actions : List Action) :
    ((Course.begin settings store).run actions).queue.Awake := by
  refine Course.run_induction (P := fun c => c.queue.Awake)
    (fun f hf => absurd hf List.not_mem_nil) (fun before a ih => ?_) actions
  rcases Course.act_cases ((Course.begin settings store).run before) a with hact | hact
  · exact awake_act? (supplied_run settings store before).lined hact ih
  · rw [hact]
    exact ih

/-! ## No permit is missing -/

/-- If flushes wait for permits and nobody holds one that was not put to use, all permits are in
flight. -/
theorem Supplied.flights_full {q : Queue} (h : q.Supplied) {f : Flush} (hf : f ∈ q.flushes)
    (hs : f.stage = .inLine) (hnone : ∀ f ∈ q.flushes, f.stage ≠ .holding) :
    q.flights.length = q.settings.concurrency := by
  have hfree : q.free = 0 := by
    obtain ⟨i, hi⟩ := List.mem_iff_getElem?.1 hf
    exact h.lined.full (List.ne_nil_of_mem ((h.lined.waiting i).2 ⟨f, hi, hs⟩))
  have hholders : q.holders = 0 := List.countP_eq_zero.2 fun f hf => by simp [hnone f hf]
  have htotal := h.total
  rw [permits, hfree, hholders] at htotal
  omega

/-! ## Something can happen -/

/-- The call of the transport for a batch is under way, or a batch can land, or a flush can make a
step. -/
def Course.GoesOn (c : Course) : Prop :=
  (∃ flight ∈ c.queue.flights, c.ending? flight.ticket = none) ∨
  (∃ flight ∈ c.queue.flights, (c.act? (.land flight.ticket)).isSome = true) ∨
  ∃ id, (c.act? (.flushStep id)).isSome = true

theorem Course.goesOn_of_flight {c : Course} {flight : Flight} (h : flight ∈ c.queue.flights) :
    c.GoesOn := by
  rcases Solo.land_of_flight h with he | hl
  · exact Or.inl ⟨flight, h, he⟩
  · exact Or.inr (Or.inl ⟨flight, h, hl⟩)

/-- A batch that a flush has sent and that has not settled is in flight. -/
theorem Course.Reached.exists_flight_of_sent {c : Course} (h : c.Reached) {id : Nat} {f : Flush}
    (hf : c.queue.flushes[id]? = some f) {s : Sent} (hs : s ∈ f.sent)
    (ho : c.queue.outcome? s.ticket = none) : ∃ flight ∈ c.queue.flights, flight.ticket = s.ticket := by
  have hclaimed : ∃ flight ∈ claims c.journal, flight.ticket = s.ticket := by
    obtain ⟨settings, store, actions, rfl⟩ := h
    rw [← Course.sentBy_of_getElem? hf, sentBy_run] at hs
    obtain ⟨l, hl, rfl⟩ := List.mem_map.1 hs
    exact ⟨l.flight, launches_claimed settings store _ actions l hl, rfl⟩
  obtain ⟨flight, hflight, hticket⟩ := hclaimed
  have hnot : hasLanded c.books.journal flight.ticket = false := by
    rw [← h.tracked.isSome_outcome, hticket]
    exact Option.isSome_eq_false_iff.2 (Option.isNone_iff_eq_none.2 ho)
  exact ⟨flight, h.tracked.mem_flights.2 ⟨hflight, hnot⟩, hticket⟩

/-- **As long as a flush has not returned, something can happen.** -/
theorem Course.Reached.progress {c : Course} (h : c.Reached) (hawake : c.queue.Awake) {f : Flush}
    (hf : f ∈ c.queue.flushes) (hnot : f.stage ≠ .returned) : c.GoesOn := by
  obtain ⟨id, hid⟩ := List.mem_iff_getElem?.1 hf
  have hstep : (c.queue.flushStep id).isSome = true → c.GoesOn := by
    intro hsome
    refine Or.inr (Or.inr ⟨id, ?_⟩)
    rw [Course.act?, Option.isSome_map]
    exact hsome
  cases hst : f.stage with
  | asking => exact hstep (by simp [flushStep, hid, hst])
  | holding => exact hstep (by simp [flushStep, hid, hst])
  | inLine =>
    by_cases hholds : ∃ f' ∈ c.queue.flushes, f'.stage = .holding
    · -- a permit was handed to another flush, which can claim with it
      obtain ⟨f', hf', hst'⟩ := hholds
      obtain ⟨id', hid'⟩ := List.mem_iff_getElem?.1 hf'
      exact Or.inr (Or.inr ⟨id', by simp [Course.act?, flushStep, hid', hst']⟩)
    · have hfull := h.supplied.flights_full hf hst fun f' hf' hst' => hholds ⟨f', hf', hst'⟩
      have hpos := h.supplied.positive
      obtain ⟨flight, hflight⟩ := List.exists_mem_of_length_pos (by rw [hfull]; exact hpos)
      exact c.goesOn_of_flight hflight
  | joining left =>
    cases left with
    | nil =>
      refine hstep ?_
      simp only [flushStep, hid, hst]
      split <;> rfl
    | cons s rest =>
      cases ho : c.queue.outcome? s.ticket with
      | some outcome => exact hstep (by simp [flushStep, hid, hst, ho])
      | none =>
        have hs : s ∈ f.sent := by
          obtain ⟨counted, hsent, -⟩ := h.accounted hf
          rw [hsent, Flush.uncounted, hst]
          exact List.mem_append_right _ List.mem_cons_self
        obtain ⟨flight, hflight, -⟩ := h.exists_flight_of_sent hid hs ho
        exact c.goesOn_of_flight hflight
  | parked =>
    obtain ⟨x, hx⟩ := List.exists_mem_of_ne_nil _ (hawake f hf hst)
    obtain ⟨flight, hflight, -⟩ := (h.exclusive.processing x).1 hx
    exact c.goesOn_of_flight hflight
  | returned => exact absurd hst hnot

/-! ## How much there is to do -/

/-- What still happens to a queue that is left to itself: flushes make steps, the calls for batches
end, each as the verdict on its ticket says, and batches land. -/
inductive Action.Coasts (verdict : Nat → Ending) : Action → Prop
  | step (id : Nat) : Coasts verdict (.flushStep id)
  | finish (ticket : Nat) : Coasts verdict (.finish ticket (verdict ticket))
  | land (ticket : Nat) : Coasts verdict (.land ticket)

/-- The steps that a flush has yet to make if it finds nothing more to claim. -/
def Flush.steps (f : Flush) : Nat :=
  match f.stage with
  | .asking => f.sent.length + 5
  | .inLine => f.sent.length + 4
  | .holding => f.sent.length + 3
  | .joining left => left.length + 2
  | .parked => 1
  | .returned => 0

/-- The stored events that a flush has not attempted. -/
def Flush.unattempted (f : Flush) (events : List Event) : Nat :=
  events.countP fun e => !f.attempted.contains e.id

/-- The work of one flush, among `crowd` of them: each event that it may yet claim can cost a batch,
whose landing can wake all of them. -/
def Flush.work (crowd : Nat) (events : List Event) (f : Flush) : Nat :=
  (crowd + 6) * f.unattempted events + f.steps

/-- The most that can yet happen to a queue that is left to itself. -/
def Course.effort (c : Course) : Nat :=
  (c.queue.flushes.map (Flush.work c.queue.flushes.length c.queue.store.events)).sum +
    (c.queue.flushes.length + 1) * c.queue.flights.length + c.callsOut

/-! ### Sums over all flushes -/

theorem sum_le_of_each {w w' : Flush → Nat} (up : Nat) {fs fs' : List Flush}
    (hlen : fs'.length = fs.length)
    (h : ∀ (i : Nat) f f', fs[i]? = some f → fs'[i]? = some f' → w' f' ≤ w f + up) :
    (fs'.map w').sum ≤ (fs.map w).sum + fs.length * up := by
  induction fs generalizing fs' with
  | nil => simp [List.length_eq_zero_iff.1 hlen]
  | cons f fs ih =>
    cases fs' with
    | nil => cases hlen
    | cons f' fs' =>
      have hhead : w' f' ≤ w f + up := h 0 f f' rfl rfl
      have htail := ih (Nat.succ.inj hlen) fun i => h (i + 1)
      simp only [List.map_cons, List.sum_cons, List.length_cons, Nat.succ_mul]
      omega

/-- If no flush has more to do, and one has less, so have all together. -/
theorem sum_le_of_one {w w' : Flush → Nat} {down : Nat} {fs fs' : List Flush}
    (hlen : fs'.length = fs.length)
    (h : ∀ (i : Nat) f f', fs[i]? = some f → fs'[i]? = some f' → w' f' ≤ w f) {id : Nat} {f f' : Flush}
    (hf : fs[id]? = some f) (hf' : fs'[id]? = some f') (hdown : w' f' + down ≤ w f) :
    (fs'.map w').sum + down ≤ (fs.map w).sum := by
  induction fs generalizing fs' id with
  | nil => cases hf
  | cons g fs ih =>
    cases fs' with
    | nil => cases hlen
    | cons g' fs' =>
      have hhead : w' g' ≤ w g := h 0 g g' rfl rfl
      simp only [List.map_cons, List.sum_cons]
      cases id with
      | zero =>
        cases hf
        cases hf'
        have htail := sum_le_of_each 0 (Nat.succ.inj hlen) fun i => h (i + 1)
        omega
      | succ id =>
        have htail := ih (Nat.succ.inj hlen) (fun i => h (i + 1)) hf hf'
        omega

/-! ### Each thing that happens is one less to come -/

theorem Flush.Handed.work_le {f f' : Flush} (h : f.Handed f') (crowd : Nat) (events : List Event) :
    f'.work crowd events ≤ f.work crowd events := by
  rcases h with rfl | ⟨hs, rfl⟩
  · exact Nat.le_refl _
  · simp only [Flush.work, Flush.unattempted, Flush.attempted, Flush.steps, hs]
    omega

/-- A flush that claims a batch has fewer events to attempt. -/
theorem unattempted_lt {f : Flush} {events : List Event} {batch : Batch}
    (hb : ∀ e ∈ batch.events, e ∈ events ∧ e.id ∉ f.attempted) (ticket : Nat) (stage : Stage) :
    ({ f with stage, sent := f.sent ++ [⟨ticket, batch.ids⟩] } : Flush).unattempted events <
      f.unattempted events := by
  have hattempted : ({ f with stage, sent := f.sent ++ [⟨ticket, batch.ids⟩] } : Flush).attempted =
      f.attempted ++ batch.ids := by
    simp [Flush.attempted]
  obtain ⟨e, he⟩ := List.exists_mem_of_ne_nil _ batch.nonempty
  obtain ⟨hmem, hnew⟩ := hb e he
  have hid : e.id ∈ batch.ids := List.mem_map_of_mem he
  have hmono : ∀ es : List Event, es.countP (fun e => !(f.attempted ++ batch.ids).contains e.id) ≤
      es.countP fun e => !f.attempted.contains e.id := by
    refine fun es => List.countP_mono_left fun e _ h => ?_
    simp only [Bool.not_eq_true', List.contains_eq_mem, List.mem_append, decide_eq_false_iff_not,
      not_or] at h ⊢
    exact h.1
  have hbefore : (!f.attempted.contains e.id) = true := by simpa using hnew
  have hafter : (!(f.attempted ++ batch.ids).contains e.id) = false := by simp [hid]
  obtain ⟨front, back, rfl⟩ := List.append_of_mem hmem
  have hfront := hmono front
  have hback := hmono back
  rw [Flush.unattempted, Flush.unattempted, hattempted]
  simp only [List.countP_append, List.countP_cons, hbefore, hafter, Bool.false_eq_true, if_true,
    if_false]
  omega

/-- **What a step costs.**  It leaves its flush less to do; a batch that it claims costs a landing
and the end of a call, and the flush saves more than that. -/
theorem FlushMove.work {q q₀ : Queue} {id : Nat} {f : Flush} {p : Progress} {g : Flush → Flush}
    (hm : FlushMove q id f p q₀ g) (crowd : Nat) :
    (q₀.flights = q.flights ∧
      (g f).work crowd q.store.events + 1 ≤ f.work crowd q.store.events) ∨
    ∃ flight, q₀.flights = q.flights ++ [flight] ∧
      (g f).work crowd q.store.events + (crowd + 3) ≤ f.work crowd q.store.events := by
  have hquiet : ∀ stage report, q₀.flights = q.flights →
      ({ f with stage, report } : Flush).steps + 1 ≤ f.steps →
      (q₀.flights = q.flights ∧ ({ f with stage, report } : Flush).work crowd q.store.events + 1 ≤
        f.work crowd q.store.events) := by
    intro stage report hflights hsteps
    have hsame : ({ f with stage, report } : Flush).unattempted q.store.events =
      f.unattempted q.store.events := rfl
    rw [Flush.work, Flush.work, hsame]
    exact ⟨hflights, by omega⟩
  have hrelease : q.release.flights = q.flights := by
    obtain ⟨_, _, _, hq⟩ := q.release_frame
    rw [hq]
  cases hm with
  | claim batch hs hc =>
    refine Or.inr ⟨⟨q.tickets, batch⟩, rfl, ?_⟩
    have hb : ∀ e ∈ batch.events, e ∈ q.store.events ∧ e.id ∉ f.attempted := by
      intro e he
      rw [claimable_ok [] hc] at he
      exact ⟨(mem_claimable he).1, (mem_claimable he).2.2⟩
    have hsaved := Nat.mul_le_mul_left (crowd + 6) (unattempted_lt hb q.tickets .asking)
    rw [Nat.mul_succ] at hsaved
    have hsteps : f.steps = f.sent.length + 3 := by rw [Flush.steps, hs]
    rw [Flush.work, Flush.work, hsteps]
    simp only [Flush.steps, List.length_append, List.length_singleton]
    omega
  | exhaust hs hc => exact Or.inl (hquiet _ _ hrelease (by simp [Flush.steps, hs]))
  | giveUp e hs hc => exact Or.inl (hquiet _ _ hrelease (by simp [Flush.steps, hs]))
  | join s rest outcome hs ho => exact Or.inl (hquiet _ _ rfl (by simp [Flush.steps, hs]))
  | take free hs hfree => exact Or.inl (hquiet _ _ rfl (by simp [Flush.steps, hs]))
  | queue hs hfree => exact Or.inl (hquiet _ _ rfl (by simp [Flush.steps, hs]))
  | finish hs hp => exact Or.inl (hquiet _ _ rfl (by simp [Flush.steps, hs]))
  | park hs hp => exact Or.inl (hquiet _ _ rfl (by simp [Flush.steps, hs]))

theorem FlushMove.store {q q₀ : Queue} {id : Nat} {f : Flush} {p : Progress} {g : Flush → Flush}
    (hm : FlushMove q id f p q₀ g) : q₀.store = q.store := by
  obtain ⟨_, _, _, hq⟩ := q.release_frame
  cases hm with
  | exhaust hs hc => rw [hq]
  | giveUp e hs hc => rw [hq]
  | _ => rfl

theorem effort_step {c c' : Course} (hl : c.queue.Lined) {id : Nat}
    (hact : c.act? (.flushStep id) = some c') : c'.effort < c.effort := by
  obtain ⟨f, p, q₀, g, hf, hm, hc'⟩ := Course.act?_flushStep hact
  have hlen : c'.queue.flushes.length = c.queue.flushes.length := by
    rw [hc']
    exact (List.length_modify _ _ _).trans hm.length
  have hevents : c'.queue.store.events = c.queue.store.events := by
    rw [hc']
    exact congrArg Store.events hm.store
  have hf' : c'.queue.flushes[id]? = some (g f) := by
    rw [hc', Course.next, getElem?_modifyFlush, if_pos rfl, hm.getElem? hl hf, Option.map_some]
  have hflights : c'.queue.flights = q₀.flights := by rw [hc']; rfl
  have hout : c'.callsOut ≤ q₀.flights.countP fun g => (c.ending? g.ticket).isNone := by
    rw [Course.callsOut, hflights]
    exact countP_out_le (by rw [hc']; rfl) _
  have hcalls : (c.queue.flights.countP fun g => (c.ending? g.ticket).isNone) = c.callsOut := rfl
  have hothers : ∀ (i : Nat) f f', c.queue.flushes[i]? = some f → c'.queue.flushes[i]? = some f' →
      f'.work c.queue.flushes.length c.queue.store.events ≤
        f.work c.queue.flushes.length c.queue.store.events := by
    intro i f₁ f₁' hi hi'
    rcases flushChange_act? hl hact hi' with ⟨f₂, hf₂, hch⟩ | ⟨ha, -, -⟩
    · rw [hi] at hf₂
      cases hf₂
      cases hch with
      | stay ha => exact Nat.le_refl _
      | permit ha hs => exact Flush.Handed.work_le (Or.inr ⟨hs, rfl⟩) _ _
      | move hm' =>
        rcases hm'.work c.queue.flushes.length with ⟨-, hless⟩ | ⟨-, -, hless⟩ <;> omega
    · cases ha
  rw [Course.effort, Course.effort, hlen, hevents, hflights]
  rcases hm.work c.queue.flushes.length with ⟨heq, hless⟩ | ⟨flight, heq, hless⟩
  · have hsum := sum_le_of_one hlen hothers hf hf' hless
    rw [heq, hcalls] at hout
    rw [heq]
    omega
  · have hsum := sum_le_of_one hlen hothers hf hf' hless
    have hone := List.countP_le_length (l := [flight]) (p := fun g => (c.ending? g.ticket).isNone)
    rw [List.length_singleton] at hone
    rw [heq, List.countP_append, hcalls] at hout
    rw [heq, List.length_append, List.length_singleton, Nat.mul_add]
    omega

/-- The end of a call removes events or none. -/
theorem events_of_finish {b b' : Books} {ticket : Nat} {ending : Ending}
    (h : Books.Move b (.finish ticket ending) b') : b'.events.Sublist b.events := by
  cases h with
  | deliver flight ending hf hn hd => exact List.filter_sublist
  | accept events ha => cases ha
  | _ => exact List.Sublist.refl _

theorem effort_finish {c c' : Course} {ticket : Nat} {ending : Ending}
    (hact : c.act? (.finish ticket ending) = some c') : c'.effort < c.effort := by
  obtain ⟨flight, rfl, hg, hn, hc'⟩ := Course.act?_finish hact
  obtain ⟨_, _, _, -, hq⟩ := c.queue.account_frame flight.batch ending.outcome
  have hflushes : c'.queue.flushes = c.queue.flushes := by rw [hc', Course.next, hq]
  have hflights : c'.queue.flights = c.queue.flights := by rw [hc', Course.next, hq]
  have hevents : c'.queue.store.events.Sublist c.queue.store.events :=
    events_of_finish (Course.move_act? hact)
  have hsum : (c'.queue.flushes.map (Flush.work c.queue.flushes.length c'.queue.store.events)).sum ≤
      (c.queue.flushes.map (Flush.work c.queue.flushes.length c.queue.store.events)).sum := by
    refine sum_le_of_each 0 (by rw [hflushes]) fun i f f' hi hi' => ?_
    rw [hflushes, hi] at hi'
    cases hi'
    exact Nat.add_le_add_right (Nat.mul_le_mul_left _ hevents.countP_le) _
  have hout : c'.callsOut < c.callsOut := callsOut_finish hg hn hflights (by rw [hc']; rfl)
  rw [Course.effort, Course.effort, hflights]
  rw [hflushes] at hsum ⊢
  omega

theorem effort_land {c c' : Course} (hc : c.Reached) {ticket : Nat}
    (hact : c.act? (.land ticket) = some c') : c'.effort < c.effort := by
  obtain ⟨flight, ending, -, hg, -, hc'⟩ := Course.act?_land hact
  obtain ⟨_, _, _, hq⟩ := c.queue.land_frame flight ending.outcome
  have hlen : c'.queue.flushes.length = c.queue.flushes.length := by
    rw [hc']
    exact length_land c.queue flight ending.outcome
  have hevents : c'.queue.store.events = c.queue.store.events := by
    rw [hc', Course.next, hq]
    rfl
  have hflights : c'.queue.flights = c.queue.flights.filter fun g => g.ticket != flight.ticket := by
    rw [hc', Course.next, hq]
    rfl
  have hless := length_filter_ticket hg hc.tracked.flights_tickets_nodup
  have hout : c'.callsOut ≤ c.callsOut := by
    rw [Course.callsOut, hflights]
    exact Nat.le_trans List.filter_sublist.countP_le (countP_out_le (by rw [hc']; rfl) _)
  -- everybody may wake up
  have hsum : (c'.queue.flushes.map (Flush.work c.queue.flushes.length c.queue.store.events)).sum ≤
      (c.queue.flushes.map (Flush.work c.queue.flushes.length c.queue.store.events)).sum +
        c.queue.flushes.length * 1 := by
    refine sum_le_of_each _ hlen fun i f f' hi hi' => ?_
    rcases flushChange_act? hc.supplied.lined hact hi' with ⟨f₂, hf₂, hch⟩ | ⟨ha, -, -⟩
    · rw [hi] at hf₂
      cases hf₂
      cases hch with
      | stay ha => exact Nat.le_succ _
      | permit ha hs => exact Nat.le_succ_of_le (Flush.Handed.work_le (Or.inr ⟨hs, rfl⟩) _ _)
      | wake ticket hs =>
        simp only [Flush.work, Flush.unattempted, Flush.attempted, Flush.steps, hs, List.length_nil]
        omega
    · cases ha
  rw [Course.effort, Course.effort, hlen, hevents, hflights, ← hless, Nat.mul_add]
  omega

/-- **Left to itself, a queue has less to do after everything that happens.** -/
theorem effort_act? {c c' : Course} (hc : c.Reached) {verdict : Nat → Ending} {a : Action}
    (ha : a.Coasts verdict) (hact : c.act? a = some c') : c'.effort < c.effort := by
  cases ha with
  | step id => exact effort_step hc.supplied.lined hact
  | finish ticket => exact effort_finish hact
  | land ticket => exact effort_land hc hact

theorem length_le_effort {verdict : Nat → Ending} {actions : List Action}
    (ha : ∀ a ∈ actions, a.Coasts verdict) {c : Course} (hc : c.Reached)
    (hu : c.Unhindered actions) : actions.length ≤ c.effort := by
  induction actions generalizing c with
  | nil => exact Nat.zero_le _
  | cons a actions ih =>
    obtain ⟨c', hact⟩ := Option.isSome_iff_exists.1 hu.1
    have hless := effort_act? hc (ha a List.mem_cons_self) hact
    rw [← Course.act_of_act? hact] at hless
    have hrest := ih (fun a' ha' => ha a' (List.mem_cons_of_mem a ha')) (hc.act a) hu.2
    rw [List.length_cons]
    omega

/-! ## Everybody returns -/

/-- What goes on in a queue that is left to itself is one of the actions that do. -/
theorem Course.GoesOn.exists_coasts {c : Course} (h : c.GoesOn) (verdict : Nat → Ending) :
    ∃ a, a.Coasts verdict ∧ (c.act? a).isSome = true := by
  rcases h with ⟨flight, hf, he⟩ | ⟨flight, -, hl⟩ | ⟨id, hs⟩
  · refine ⟨_, Action.Coasts.finish flight.ticket, ?_⟩
    obtain ⟨flight', hflight⟩ := Course.flight?_of_mem hf
    simp [Course.act?, hflight, he]
  · exact ⟨_, Action.Coasts.land flight.ticket, hl⟩
  · exact ⟨_, Action.Coasts.step id, hs⟩

/-- However the calls end, a queue that is left to itself can go on until all flushes have
returned. -/
theorem exists_completion {c : Course} (hc : c.Reached) (hawake : c.queue.Awake)
    (verdict : Nat → Ending) :
    ∃ more, (∀ a ∈ more, Action.Coasts verdict a) ∧ c.Unhindered more ∧
      ∀ f ∈ (c.run more).queue.flushes, f.stage = .returned := by
  -- by induction on what there is to do
  induction hn : c.effort using Nat.strongRecOn generalizing c with
  | ind n ih =>
    by_cases hall : ∀ f ∈ c.queue.flushes, f.stage = .returned
    · exact ⟨[], nofun, trivial, hall⟩
    · push Not at hall
      obtain ⟨f, hf, hst⟩ := hall
      obtain ⟨a, ha, hsome⟩ := (hc.progress hawake hf hst).exists_coasts verdict
      obtain ⟨c', hact⟩ := Option.isSome_iff_exists.1 hsome
      obtain ⟨more, hmore, hu, hend⟩ := ih _ (hn ▸ effort_act? hc ha hact) (hc.act? hact)
        (awake_act? hc.supplied.lined hact hawake) rfl
      rw [← Course.act_of_act? hact] at hu hend
      exact ⟨a :: more, List.forall_mem_cons.2 ⟨ha, hmore⟩, ⟨hsome, hu⟩, hend⟩

/-- **A flush is never stuck.**  Take any run, with any number of flushes under way.

* As long as a flush has not returned, the call of the transport for a batch in flight has not ended,
  or a batch can land, or a flush can make a step.
* No flush waits until nothing is in flight when nothing is.
* If all flushes that have not returned wait for a permit, as many batches are in flight as may be.
* Nor do they go round in circles.  With no more ticks, dispatches and calls of flushes, only so much
  can yet happen, and however the calls of the transport end, it can go on until all flushes have
  returned. -/
theorem flush_never_stuck (settings : Settings) (store : Store) (actions : List Action) :
    let c := (Course.begin settings store).run actions
    ((∃ f ∈ c.queue.flushes, f.stage ≠ .returned) →
      (∃ flight ∈ c.queue.flights, c.ending? flight.ticket = none) ∨
      (∃ flight ∈ c.queue.flights, (c.act? (.land flight.ticket)).isSome = true) ∨
      ∃ id, (c.act? (.flushStep id)).isSome = true) ∧
    (∀ f ∈ c.queue.flushes, f.stage = .parked → c.queue.processing ≠ []) ∧
    ((∃ f ∈ c.queue.flushes, f.stage ≠ .returned) →
      (∀ f ∈ c.queue.flushes, f.stage ≠ .returned → f.stage = .inLine) →
      c.queue.flights.length = settings.normalized.concurrency) ∧
    (∀ verdict more, (∀ a ∈ more, Action.Coasts verdict a) → c.Unhindered more →
      more.length ≤ c.effort) ∧
    (∀ verdict, ∃ more, (∀ a ∈ more, Action.Coasts verdict a) ∧ c.Unhindered more ∧
      ∀ f ∈ (c.run more).queue.flushes, f.stage = .returned) := by
  intro c
  have hc : c.Reached := ⟨settings, store, actions, rfl⟩
  have hawake : c.queue.Awake := awake_run settings store actions
  refine ⟨?_, hawake, ?_, fun _ _ hmore hu => length_le_effort hmore hc hu,
    exists_completion hc hawake⟩
  · rintro ⟨f, hf, hst⟩
    exact hc.progress hawake hf hst
  · rintro ⟨f, hf, hst⟩ hall
    have hsettings : c.queue.settings = settings.normalized := settings_run settings store actions
    rw [← hsettings]
    refine hc.supplied.flights_full hf (hall f hf hst) fun f' hf' hst' => ?_
    have hline := hall f' hf' (by rw [hst']; exact Stage.noConfusion)
    rw [hst'] at hline
    cases hline

/-- One batch at a time: a batch was dispatched by hand, one flush waits until nothing is in flight,
and two wait for the permit. -/
def waitingCrowd : List Action :=
  [.callFlush, .faults { read := true }, .flushStep 0, .flushStep 0, .faults {}, .dispatch,
    .flushStep 0, .callFlush, .callFlush, .flushStep 1, .flushStep 2]

/-- All three wait; the batch has the one permit.  Even if every call crashes, all three return. -/
theorem flush_never_stuck_crowd :
    let c := (Course.begin { batchSize := 1, concurrency := 0 }
      { events := [sampleEvent 1, sampleEvent 2] }).run waitingCrowd
    c.queue.flushes.map Flush.stage = [.parked, .inLine, .inLine] ∧
    c.queue.processing ≠ [] ∧
    ((∃ flight ∈ c.queue.flights, c.ending? flight.ticket = none) ∨
      (∃ flight ∈ c.queue.flights, (c.act? (.land flight.ticket)).isSome = true) ∨
      ∃ id, (c.act? (.flushStep id)).isSome = true) ∧
    ∃ more, (∀ a ∈ more, Action.Coasts (fun _ => .crashed) a) ∧
      ∀ f ∈ (c.run more).queue.flushes, f.stage = .returned := by
  dsimp only
  obtain ⟨hgoes, hawake, -, -, hend⟩ := flush_never_stuck { batchSize := 1, concurrency := 0 }
    { events := [sampleEvent 1, sampleEvent 2] } waitingCrowd
  obtain ⟨more, hmore, -, hreturned⟩ := hend fun _ => .crashed
  exact ⟨by decide, hawake _ (List.mem_of_getElem? (i := 0) rfl) (by decide), hgoes (by decide), more,
    hmore, hreturned⟩

end EventRelay.Queue
