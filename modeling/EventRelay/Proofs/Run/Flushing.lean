import EventRelay.Proofs.Run.Account
import EventRelay.Proofs.Run.LeftAlone
import EventRelay.Proofs.Run.Posting

/-!
# A flush in a world of its own

A world with one queue, whose batches go to the collector with retries, and nothing else under way.
A flush of that queue is seen through: its steps and the deliveries of its batches take turns, and
the clock moves when all of them have to wait.

* `Flushing` — the invariant: each batch in flight has its task, and the collector has accepted
  exactly the batches that were delivered.
* `Flushing.turnFlush`, `Flushing.turnTask`, `Flushing.clock` — what a turn of the flush, a turn of a
  delivery and a move of the clock do; each leaves less to do.
* `Flushing.ends` — **the flush comes to its end**.
* `flush_relayed` — **a flush returns, and gives a true account** of what the collector has accepted
  and of what is left in the store.
-/

namespace EventRelay.Run

open Queue

/-- To account for the outcome of a delivery is to settle its batch, and to write about it. -/
theorem World.idles_settleDelivery {w : World} {n : Nat} {d : Depot} (hd : w.depots[n]? = some d)
    (ticket : Nat) (outcome : Outcome) :
    (w.setQueue n (d.queue.settle ticket outcome).2).Idles (w.settleDelivery n ticket outcome) := by
  simp only [World.settleDelivery, hd]
  split
  · exact ⟨.refl _, rfl, rfl⟩
  · exact World.idles_note _ _
  · exact World.idles_note _ _

/-! ## The invariant -/

/-- A delivery under way: its batch, and what is left of its call. -/
structure Job where
  /-- The batch in flight. -/
  flight : Flight
  /-- The attempts that are left. -/
  left : Nat
  /-- What it waits for. -/
  alarm : Alarm
  /-- What it does then. -/
  call : Dialogue

/-- The task of a delivery. -/
def Job.task (j : Job) : Task :=
  .delivery 0 j.flight.ticket (.asleep j.alarm j.call)

/-- The only queue of the world delivers to the endpoint, and a flush that was called at `start` is on
its own there; `jobs` are the deliveries under way.  The collector was `c₀` at the call. -/
structure Flushing (policy : Retry.Policy) (endpoint : String) (kept : Store → Prop)
    (start : Course) (c₀ : Collector) (f : Flush) (tail : List Note) (c : Course)
    (jobs : List Job) (w : World) : Prop where
  /-- The flush is on its own. -/
  solo : ∃ verdict, Solo start verdict f tail c
  /-- No call for a batch in flight has ended. -/
  underway : c.Open
  /-- The store is as it should be. -/
  stored : kept c.queue.store
  /-- The only queue of the world. -/
  depots : w.depots = [⟨c.queue, relay policy endpoint⟩]
  /-- The endpoint is usable. -/
  usable : w.usability 0 = true
  /-- Each batch in flight is being delivered. -/
  flights : (jobs.map Job.flight).Perm c.queue.flights
  /-- The deliveries are the tasks. -/
  tasks : (w.ready ++ w.sleeping).Perm (jobs.map Job.task)
  /-- They do what deliveries do. -/
  calls : ∀ j ∈ jobs, Relays policy endpoint j.flight.batch j.left j.call
  /-- Those that can go on have waited long enough. -/
  awake : ∀ ticket alarm d, .delivery 0 ticket (.asleep alarm d) ∈ w.ready → alarm.instant ≤ w.now
  /-- The collector has accepted exactly what was delivered. -/
  heard : ∃ requests, c₀.Hears requests w.collector ∧
    acceptedOf c₀.replies requests = deliveries tail

/-- The world has come to `w'`, with less left to do than a flush `f` has at `c`. -/
def Lessens (policy : Retry.Policy) (endpoint : String) (kept : Store → Prop) (start : Course)
    (c₀ : Collector) (f : Flush) (c : Course) (w' : World) : Prop :=
  ∃ f' tail' c' jobs', Flushing policy endpoint kept start c₀ f' tail' c' jobs' w' ∧
    workLeft start.chunkTotal f' c' < workLeft start.chunkTotal f c

namespace Flushing

variable {policy : Retry.Policy} {endpoint : String} {kept : Store → Prop} {start c : Course}
  {c₀ : Collector} {f : Flush} {tail : List Note} {jobs : List Job} {w : World}

/-! ## A turn of the flush -/

/-- A step of the flush, which may start deliveries. -/
theorem step (h : Flushing policy endpoint kept start c₀ f tail c jobs w) {progress : Progress}
    {q : Queue} (hstep : c.queue.flushStep start.queue.flushes.length = some (progress, q))
    (new : List Job) (hflights : q.flights = c.queue.flights ++ new.map Job.flight)
    (hcalls : ∀ j ∈ new, Relays policy endpoint j.flight.batch j.left j.call ∧ j.alarm.instant = 0)
    {w' : World} (hidle : (w.edit 0 q (new.map Job.task)).Idles w') :
    Lessens policy endpoint kept start c₀ f c w' := by
  obtain ⟨verdict, hsolo⟩ := h.solo
  obtain ⟨f', hsolo', hless⟩ := hsolo.flushStep hstep
  have hact : c.act (.flushStep start.queue.flushes.length) = c.next q progress.notes := by
    rw [Course.act, Course.act?, hstep]
    rfl
  have hnotes : deliveries progress.notes = [] := by cases progress <;> rfl
  have hready : w'.ready = w.ready ++ new.map Job.task := hidle.same.ready
  have hsleeping : w'.sleeping = w.sleeping := hidle.same.sleeping
  have hnow : w'.now = w.now := hidle.same.now
  refine ⟨f', tail ++ progress.notes, c.next q progress.notes, jobs ++ new, ⟨⟨verdict, hsolo'⟩, ?_,
    ?_, ?_, ?_, ?_, ?_, ?_, ?_, ?_⟩, hless⟩
  · rw [← hact]
    exact h.underway.act hsolo.reached rfl
  · have hstore : q.store = c.queue.store := (flights_flushStep hstep).1
    rw [Course.next, hstore]
    exact h.stored
  · have hdepots : w'.depots = w.depots.modify 0 fun d => { d with queue := q } := hidle.same.depots
    rw [hdepots, h.depots]
    rfl
  · unfold World.usability
    rw [hidle.leaves]
    exact h.usable
  · rw [Course.next, hflights, List.map_append]
    exact h.flights.append_right _
  · rw [hready, hsleeping, List.map_append, List.append_assoc]
    refine (List.perm_append_comm.append_left w.ready).trans ?_
    rw [← List.append_assoc]
    exact h.tasks.append_right _
  · exact List.forall_mem_append.2 ⟨h.calls, fun j hj => (hcalls j hj).1⟩
  · rw [hready, hnow]
    intro ticket alarm d hmem
    rcases List.mem_append.1 hmem with hmem | hmem
    · exact h.awake ticket alarm d hmem
    · obtain ⟨j, hj, heq⟩ := List.mem_map.1 hmem
      cases heq
      rw [(hcalls j hj).2]
      exact Nat.zero_le _
  · obtain ⟨requests, hheard, htaken⟩ := h.heard
    refine ⟨requests, ?_, ?_⟩
    · rw [hidle.collector]
      exact hheard
    · rw [deliveries_append, hnotes, List.append_nil, htaken]

/-- A step of the flush that starts no delivery. -/
theorem quiet_step (h : Flushing policy endpoint kept start c₀ f tail c jobs w) {progress : Progress}
    {q : Queue} (hstep : c.queue.flushStep start.queue.flushes.length = some (progress, q))
    (hflights : q.flights = c.queue.flights) {w' : World} (hidle : (w.setQueue 0 q).Idles w') :
    Lessens policy endpoint kept start c₀ f c w' := by
  have hedit : (w.edit 0 q []).Idles (w.setQueue 0 q) :=
    ⟨⟨rfl, rfl, (List.append_nil _).symm, rfl⟩, rfl, rfl⟩
  refine h.step hstep [] ?_ nofun (hedit.trans hidle)
  rw [hflights, List.map_nil, List.append_nil]

/-- A step of the flush that starts a delivery. -/
theorem sent_step (h : Flushing policy endpoint kept start c₀ f tail c jobs w) {flight : Flight}
    {q : Queue} (hstep : c.queue.flushStep start.queue.flushes.length = some (.sent flight, q))
    (hflights : q.flights = c.queue.flights ++ [flight]) :
    Lessens policy endpoint kept start c₀ f c
      ((w.setQueue 0 q).launch 0 (relay policy endpoint) flight) := by
  refine h.step hstep [⟨flight, policy.attemptsAllowed, ⟨0, 0⟩, _⟩] hflights ?_
    ⟨⟨rfl, rfl, rfl, rfl⟩, rfl, rfl⟩
  intro j hj
  cases List.mem_singleton.1 hj
  exact ⟨.begun _, rfl⟩

theorem depot (h : Flushing policy endpoint kept start c₀ f tail c jobs w) :
    w.depots[0]? = some ⟨c.queue, relay policy endpoint⟩ := by
  rw [h.depots]
  rfl

/-- The first step of a turn. -/
theorem first_step (h : Flushing policy endpoint kept start c₀ f tail c jobs w)
    (hmove : (c.queue.flushStep start.queue.flushes.length).isSome = true) (fuel : Nat) :
    ∃ w₁, Lessens policy endpoint kept start c₀ f c w₁ ∧
      (World.turnFlush (fuel + 1) w 0 start.queue.flushes.length =
          World.turnFlush fuel w₁ 0 start.queue.flushes.length ∨
        World.turnFlush (fuel + 1) w 0 start.queue.flushes.length = w₁) := by
  obtain ⟨⟨progress, q⟩, hstep⟩ := Option.isSome_iff_exists.1 hmove
  simp only [World.turnFlush, h.depot, hstep]
  rcases (flights_flushStep hstep).2 with ⟨flight, rfl, hflights⟩ | ⟨hnot, hflights⟩
  · exact ⟨_, h.sent_step hstep hflights, Or.inl rfl⟩
  · cases progress with
    | sent flight => exact absurd rfl (hnot flight)
    | moved => exact ⟨_, h.quiet_step hstep hflights ⟨.refl _, rfl, rfl⟩, Or.inl rfl⟩
    | unreadable e => exact ⟨_, h.quiet_step hstep hflights (World.idles_note _ _), Or.inl rfl⟩
    | returned r => exact ⟨_, h.quiet_step hstep hflights (World.idles_note _ _), Or.inr rfl⟩

/-- **A turn of the flush**, which makes steps as long as it can, leaves less to do. -/
theorem turnFlush (h : Flushing policy endpoint kept start c₀ f tail c jobs w)
    (hmove : (c.queue.flushStep start.queue.flushes.length).isSome = true) (fuel : Nat) :
    Lessens policy endpoint kept start c₀ f c
      (World.turnFlush (fuel + 1) w 0 start.queue.flushes.length) := by
  induction fuel generalizing f tail c jobs w with
  | zero =>
    obtain ⟨w₁, hless, hturn | hturn⟩ := h.first_step hmove 0
    · rw [hturn]
      exact hless
    · rw [hturn]
      exact hless
  | succ fuel ih =>
    obtain ⟨w₁, hless, hturn | hturn⟩ := h.first_step hmove (fuel + 1)
    · rw [hturn]
      obtain ⟨f₁, tail₁, c₁, jobs₁, h₁, hless₁⟩ := hless
      cases hstep : c₁.queue.flushStep start.queue.flushes.length with
      | some result =>
        obtain ⟨f', tail', c', jobs', h', hless'⟩ := ih h₁ (by rw [hstep]; rfl)
        exact ⟨f', tail', c', jobs', h', Nat.lt_trans hless' hless₁⟩
      | none =>
        simp only [World.turnFlush, h₁.depot, hstep]
        exact ⟨f₁, tail₁, c₁, jobs₁, h₁, hless₁⟩
    · rw [hturn]
      exact hless

/-! ## A turn of a delivery -/

/-- The delivery that goes on, and the others. -/
theorem pick (h : Flushing policy endpoint kept start c₀ f tail c jobs w) {task : Task}
    {rest : List Task} (hready : w.ready = task :: rest) :
    ∃ j others, jobs.Perm (j :: others) ∧ task = j.task ∧
      (rest ++ w.sleeping).Perm (others.map Job.task) := by
  have htasks := h.tasks
  rw [hready, List.cons_append] at htasks
  obtain ⟨j, hj, rfl⟩ := List.mem_map.1 (htasks.mem_iff.1 List.mem_cons_self)
  obtain ⟨before, after, rfl⟩ := List.append_of_mem hj
  refine ⟨j, before ++ after, List.perm_middle, rfl, ?_⟩
  have hothers := htasks.trans (List.perm_middle.map Job.task)
  rw [List.map_cons] at hothers
  exact hothers.cons_inv

/-- What the collector has heard after a batch was posted once more. -/
theorem heard_posted (h : Flushing policy endpoint kept start c₀ f tail c jobs w)
    {rest : List Task} {w₂ : World} {b : Batch} {accepted : Bool}
    (hposted : ({ w with ready := rest } : World).Posted b accepted w₂) :
    ∃ requests, c₀.Hears requests w₂.collector ∧
      acceptedOf c₀.replies requests = deliveries tail ++ if accepted then [b] else [] := by
  obtain ⟨earlier, hheard, htaken⟩ := h.heard
  obtain ⟨later, hheard', htaken'⟩ := hposted.heard
  refine ⟨earlier ++ later, hheard.trans hheard', ?_⟩
  rw [acceptedOf_append, htaken, ← hheard.replies]
  exact congrArg (deliveries tail ++ ·) htaken'

section Turn

variable {rest : List Task} {j : Job} {others : List Job} {w₂ : World}

/-- The deliveries that are next in line have still waited long enough. -/
theorem awake_rest (h : Flushing policy endpoint kept start c₀ f tail c jobs w) {task : Task}
    (hready : w.ready = task :: rest) {b : Batch} {accepted : Bool}
    (hposted : ({ w with ready := rest } : World).Posted b accepted w₂) (ticket : Nat) (alarm : Alarm)
    (d : Dialogue) (hmem : .delivery 0 ticket (.asleep alarm d) ∈ w₂.ready) :
    alarm.instant ≤ w₂.now := by
  rw [hposted.same.now]
  rw [hposted.same.ready] at hmem
  refine h.awake ticket alarm d ?_
  rw [hready]
  exact List.mem_cons_of_mem task hmem

/-- A delivery ends. -/
theorem ended (h : Flushing policy endpoint kept start c₀ f tail c jobs w)
    (hkept : ∀ s s' ids, kept s → s.delete ids = .ok s' → kept s')
    (hready : w.ready = j.task :: rest) (hjobs : jobs.Perm (j :: others))
    (hothers : (rest ++ w.sleeping).Perm (others.map Job.task)) {o : Outcome}
    (hposted : ({ w with ready := rest } : World).Posted j.flight.batch o.isOk w₂)
    (hnot : f.stage ≠ .returned) :
    ∃ f' tail' c', Flushing policy endpoint kept start c₀ f' tail' c' others
        (w₂.settleDelivery 0 j.flight.ticket o) ∧
      workLeft start.chunkTotal f' c' < workLeft start.chunkTotal f c ∧ f'.stage ≠ .returned := by
  have hd : w₂.depots[0]? = some ⟨c.queue, relay policy endpoint⟩ := by
    rw [hposted.same.depots]
    exact h.depot
  have hidle := World.idles_settleDelivery hd j.flight.ticket o
  have hflights : (j.flight :: others.map Job.flight).Perm c.queue.flights :=
    (hjobs.map Job.flight).symm.trans h.flights
  have hflight : j.flight ∈ c.queue.flights := hflights.mem_iff.1 List.mem_cons_self
  obtain ⟨verdict, hsolo⟩ := h.solo
  obtain ⟨hopen, verdict', f', hsolo', hless, hgoes⟩ :=
    hsolo.settle h.underway hflight (.returned o) rfl
  refine ⟨f', _, _, ⟨⟨verdict', hsolo'⟩, hopen, ?_, ?_, ?_, ?_, ?_, ?_, ?_, ?_⟩, hless, hgoes hnot⟩
  · rcases store_settle c.queue j.flight.ticket o with hsame | ⟨ids, hdelete⟩
    · rw [Course.next, Ending.outcome, hsame]
      exact h.stored
    · exact hkept _ _ ids h.stored hdelete
  · have hdepots : (w₂.settleDelivery 0 j.flight.ticket o).depots =
        w₂.depots.modify 0 fun d => { d with queue := (c.queue.settle j.flight.ticket o).2 } :=
      hidle.same.depots
    rw [hdepots, hposted.same.depots]
    show w.depots.modify 0 _ = _
    rw [h.depots]
    rfl
  · unfold World.usability
    rw [hidle.leaves]
    show w₂.usability 0 = true
    rw [hposted.usability]
    exact h.usable
  · have hfind : c.queue.flights.find? (fun g => g.ticket == j.flight.ticket) = some j.flight :=
      hsolo.flight?_eq hflight
    rw [Course.next, flights_settle _ hfind]
    exact perm_filter_ticket hflights hsolo.reached.tracked.flights_tickets_nodup
  · rw [hidle.same.ready, hidle.same.sleeping]
    show (w₂.ready ++ w₂.sleeping).Perm _
    rw [hposted.same.ready, hposted.same.sleeping]
    exact hothers
  · exact fun j' hj' => h.calls j' (hjobs.mem_iff.2 (List.mem_cons_of_mem j hj'))
  · have hawake := h.awake_rest hready hposted
    rw [hidle.same.ready, hidle.same.now]
    exact hawake
  · obtain ⟨requests, hheard, htaken⟩ := h.heard_posted hposted
    refine ⟨requests, ?_, ?_⟩
    · rw [hidle.collector]
      exact hheard
    · rw [htaken, deliveries_append]
      cases o <;> rfl

/-- A delivery waits, with fewer attempts left. -/
theorem waits (h : Flushing policy endpoint kept start c₀ f tail c jobs w)
    (hready : w.ready = j.task :: rest) (hjobs : jobs.Perm (j :: others))
    (hothers : (rest ++ w.sleeping).Perm (others.map Job.task))
    (hposted : ({ w with ready := rest } : World).Posted j.flight.batch false w₂) {alarm : Alarm}
    {d : Dialogue} {left : Nat} (hd : Relays policy endpoint j.flight.batch left d) :
    Flushing policy endpoint kept start c₀ f tail c (others ++ [⟨j.flight, left, alarm, d⟩])
      (w₂.putToSleep (.delivery 0 j.flight.ticket (.asleep alarm d))) := by
  refine ⟨h.solo, h.underway, h.stored, ?_, ?_, ?_, ?_, ?_, ?_, ?_⟩
  · exact hposted.same.depots.trans h.depots
  · show w₂.usability 0 = true
    rw [hposted.usability]
    exact h.usable
  · rw [List.map_append]
    refine List.perm_append_comm.trans ?_
    exact (hjobs.map Job.flight).symm.trans h.flights
  · show (w₂.ready ++ (w₂.sleeping ++ [_])).Perm _
    rw [hposted.same.ready, hposted.same.sleeping, ← List.append_assoc, List.map_append]
    exact hothers.append_right _
  · refine List.forall_mem_append.2 ⟨fun j' hj' => ?_, ?_⟩
    · exact h.calls j' (hjobs.mem_iff.2 (List.mem_cons_of_mem j hj'))
    · simpa using hd
  · have hawake := h.awake_rest hready hposted
    exact hawake
  · obtain ⟨requests, hheard, htaken⟩ := h.heard_posted hposted
    refine ⟨requests, hheard, ?_⟩
    rw [htaken]
    exact List.append_nil _

end Turn

/-- **A turn of a delivery**: it ends and leaves less to do, or it waits with fewer attempts left. -/
theorem turnTask (h : Flushing policy endpoint kept start c₀ f tail c jobs w)
    (hkept : ∀ s s' ids, kept s → s.delete ids = .ok s' → kept s') (he : endpoint.isEmpty = false)
    (hnot : f.stage ≠ .returned) {task : Task} {rest : List Task}
    (hready : w.ready = task :: rest) :
    (∃ f' tail' c' jobs', Flushing policy endpoint kept start c₀ f' tail' c' jobs'
        (({ w with ready := rest } : World).turn task) ∧
      workLeft start.chunkTotal f' c' < workLeft start.chunkTotal f c ∧ f'.stage ≠ .returned) ∨
      ∃ jobs', Flushing policy endpoint kept start c₀ f tail c jobs'
          (({ w with ready := rest } : World).turn task) ∧
        (jobs'.map Job.left).sum < (jobs.map Job.left).sum := by
  obtain ⟨j, others, hjobs, rfl, hothers⟩ := h.pick hready
  have hdue : j.alarm.instant ≤ w.now := by
    refine h.awake j.flight.ticket j.alarm j.call ?_
    rw [hready]
    exact List.mem_cons_self
  have hcall := h.calls j (hjobs.mem_iff.2 List.mem_cons_self)
  have hturn := advance_relays he (w := { w with ready := rest }) h.usable hcall
  have hresume : resume (.asleep j.alarm j.call) ({ w with ready := rest } : World) =
      advance j.call { w with ready := rest } := by
    rw [resume, if_pos hdue]
  simp only [Job.task, World.turn, World.turnDelivery, hresume]
  generalize advance j.call { w with ready := rest } = result at hturn
  cases hturn with
  | ended hposted =>
    obtain ⟨f', tail', c', h', hless⟩ := h.ended hkept hready hjobs hothers hposted hnot
    exact Or.inl ⟨f', tail', c', others, h', hless⟩
  | waits hposted hless hd =>
    refine Or.inr ⟨_, h.waits hready hjobs hothers hposted hd, ?_⟩
    rw [(hjobs.map Job.left).sum_nat]
    simp only [List.map_append, List.map_cons, List.map_nil, List.sum_append_nat, List.sum_cons,
      List.sum_nil]
    omega

/-! ## The clock -/

/-- All tasks have alarms. -/
theorem alarm_of_mem (h : Flushing policy endpoint kept start c₀ f tail c jobs w) {t : Task}
    (ht : t ∈ w.sleeping) : ∃ alarm d ticket, t = .delivery 0 ticket (.asleep alarm d) := by
  obtain ⟨j, -, rfl⟩ := List.mem_map.1 (h.tasks.mem_iff.1 (List.mem_append_right _ ht))
  exact ⟨j.alarm, j.call, j.flight.ticket, rfl⟩

/-- **The clock** wakes a delivery. -/
theorem clock (h : Flushing policy endpoint kept start c₀ f tail c jobs w) (hready : w.ready = [])
    {alarm : Alarm} (halarm : w.nextAlarm? = some alarm) :
    Flushing policy endpoint kept start c₀ f tail c jobs (w.moveClock alarm.instant) ∧
      (w.moveClock alarm.instant).sleeping.length < w.sleeping.length := by
  have hwoken := World.woken_moveClock hready alarm.instant
  have hall : w.sleeping.filter (fun t => (w.alarm? t).isSome) = w.sleeping := by
    refine List.filter_eq_self.2 fun t ht => ?_
    obtain ⟨a, d, ticket, rfl⟩ := h.alarm_of_mem ht
    rfl
  have hperm := hwoken.tasks
  rw [hall] at hperm
  refine ⟨⟨h.solo, h.underway, h.stored, h.depots, h.usable, h.flights, ?_, h.calls, ?_, h.heard⟩, ?_⟩
  · refine hperm.trans ?_
    have htasks := h.tasks
    rwa [hready, List.nil_append] at htasks
  · intro ticket a d hmem
    obtain ⟨-, a', ha', hle⟩ := hwoken.awake _ hmem
    cases ha'
    exact hle
  · -- the delivery that the alarm belongs to is awake
    obtain ⟨t, ht, ha⟩ := (foldl_first?_mem w.sleeping none halarm).resolve_left
      (Option.some_ne_none _).symm
    have hmem : t ∈ (w.moveClock alarm.instant).ready := by
      rcases List.mem_append.1 (hperm.mem_iff.2 ht) with hawake | hasleep
      · exact hawake
      · obtain ⟨-, a', ha', hlt⟩ := hwoken.asleep t hasleep
        rw [ha] at ha'
        cases ha'
        exact absurd hlt (Nat.lt_irrefl _)
    have hlength := hperm.length_eq
    have hpos := List.length_pos_of_mem hmem
    rw [List.length_append] at hlength
    omega

/-! ## To the end -/

/-- While the flush has to wait, a delivery sleeps or can go on. -/
theorem jobs_ne_nil (h : Flushing policy endpoint kept start c₀ f tail c jobs w)
    (hnot : f.stage ≠ .returned)
    (hstuck : (c.queue.flushStep start.queue.flushes.length).isSome = false) : jobs ≠ [] := by
  obtain ⟨verdict, hsolo⟩ := h.solo
  have hflight : ∃ g, g ∈ c.queue.flights := by
    rcases hsolo.progress hnot with ⟨g, hg, -⟩ | hstep | ⟨g, hg, -⟩
    · exact ⟨g, hg⟩
    · rw [Course.act?, Option.isSome_map, hstuck] at hstep
      cases hstep
    · exact ⟨g, hg⟩
  rintro rfl
  obtain ⟨g, hg⟩ := hflight
  have hnone := h.flights.mem_iff.2 hg
  cases hnone

/-- While the flush has to wait and no delivery can go on, one has an alarm. -/
theorem exists_alarm (h : Flushing policy endpoint kept start c₀ f tail c jobs w)
    (hnot : f.stage ≠ .returned) (hready : w.ready = [])
    (hstuck : (c.queue.flushStep start.queue.flushes.length).isSome = false) :
    ∃ alarm, w.nextAlarm? = some alarm := by
  obtain ⟨j, hj⟩ := List.exists_mem_of_ne_nil jobs (h.jobs_ne_nil hnot hstuck)
  have hsleeps : j.task ∈ w.sleeping := by
    have hmem := h.tasks.mem_iff.2 (List.mem_map_of_mem hj)
    rwa [hready, List.nil_append] at hmem
  have halarm : w.alarm? j.task = some j.alarm := rfl
  obtain ⟨alarm, hfirst, -⟩ := foldl_first?_le w.sleeping none (Or.inr ⟨_, hsleeps, halarm⟩)
  exact ⟨alarm, hfirst⟩

/-- The flush takes a turn, and has returned then or goes on to wait. -/
theorem awaitNext_turn (h : Flushing policy endpoint kept start c₀ f tail c jobs w)
    (hmove : (c.queue.flushStep start.queue.flushes.length).isSome = true) :
    ∃ f' tail' c' jobs' w', Flushing policy endpoint kept start c₀ f' tail' c' jobs' w' ∧
      workLeft start.chunkTotal f' c' < workLeft start.chunkTotal f c ∧
      World.awaitNext (true, w, .flush 0 start.queue.flushes.length) =
        if f'.stage = .returned then .inr (some (.flushed f'.report), w')
        else .inl (false, w', .flush 0 start.queue.flushes.length) := by
  obtain ⟨fuel, hfuel⟩ : ∃ fuel, w.flushFuel 0 = fuel + 1 := by
    refine ⟨3 * c.queue.store.size + c.queue.tickets + 7, ?_⟩
    simp only [World.flushFuel, h.depot]
  obtain ⟨f', tail', c', jobs', h', hless⟩ := h.turnFlush hmove fuel
  refine ⟨f', tail', c', jobs', _, h', hless, ?_⟩
  obtain ⟨verdict', hsolo'⟩ := h'.solo
  have hresult := flushResult?_eq hsolo'.getElem?_flush
  simp only [World.awaitNext, Errand.turn, hfuel, h'.depot, Option.bind_eq_bind, Option.bind_some, hresult]
  by_cases hreturned : f'.stage = .returned
  · simp only [hreturned, if_true]
  · simp only [hreturned, if_false]

/-- **A flush in a world of its own comes to its end.**  By what is left to do, then by the attempts
that are left, and then by the deliveries that sleep. -/
theorem ends {f : Flush} {tail : List Note} {c : Course} {jobs : List Job} {w : World}
    (hkept : ∀ s s' ids, kept s → s.delete ids = .ok s' → kept s')
    (he : endpoint.isEmpty = false)
    (h : Flushing policy endpoint kept start c₀ f tail c jobs w) (hnot : f.stage ≠ .returned) :
    ∃ f' tail' c' jobs' w', World.Reaches (some (.flushed f'.report), w') false w
        (.flush 0 start.queue.flushes.length) ∧
      Flushing policy endpoint kept start c₀ f' tail' c' jobs' w' ∧ f'.stage = .returned := by
  cases hready : w.ready with
  | cons task rest =>
    have hturn : World.awaitNext (false, w, .flush 0 start.queue.flushes.length) =
        .inl (false, ({ w with ready := rest } : World).turn task,
          .flush 0 start.queue.flushes.length) := by
      simp only [World.awaitNext, hready]
    rcases h.turnTask hkept he hnot hready with
      ⟨f₁, tail₁, c₁, jobs₁, h₁, hless, hnot₁⟩ | ⟨jobs₁, h₁, hless⟩
    · obtain ⟨f₂, tail₂, c₂, jobs₂, w₂, hends, h₂, hreturned⟩ := ends hkept he h₁ hnot₁
      exact ⟨f₂, tail₂, c₂, jobs₂, w₂, .next hturn hends, h₂, hreturned⟩
    · obtain ⟨f₂, tail₂, c₂, jobs₂, w₂, hends, h₂, hreturned⟩ := ends hkept he h₁ hnot
      exact ⟨f₂, tail₂, c₂, jobs₂, w₂, .next hturn hends, h₂, hreturned⟩
  | nil =>
    have hcan : ∀ w' : World, w'.depots = w.depots →
        (Errand.flush 0 start.queue.flushes.length).canMove w' =
          (c.queue.flushStep start.queue.flushes.length).isSome := by
      intro w' hdepots
      simp only [Errand.canMove, hdepots, h.depot]
    cases hmove : (c.queue.flushStep start.queue.flushes.length).isSome with
    | true =>
      have hturn : World.awaitNext (false, w, .flush 0 start.queue.flushes.length) =
          .inl (true, w, .flush 0 start.queue.flushes.length) := by
        simp only [World.awaitNext, hready, hcan w rfl, hmove, if_true]
      obtain ⟨f₁, tail₁, c₁, jobs₁, w₁, h₁, hless, hend⟩ := h.awaitNext_turn hmove
      split at hend
      · rename_i hreturned
        exact ⟨f₁, tail₁, c₁, jobs₁, w₁, .next hturn (.last hend), h₁, hreturned⟩
      · rename_i hnot₁
        obtain ⟨f₂, tail₂, c₂, jobs₂, w₂, hends, h₂, hreturned⟩ := ends hkept he h₁ hnot₁
        exact ⟨f₂, tail₂, c₂, jobs₂, w₂, .next hturn (.next hend hends), h₂, hreturned⟩
    | false =>
      obtain ⟨alarm, halarm⟩ := h.exists_alarm hnot hready hmove
      obtain ⟨h₁, hless⟩ := h.clock hready halarm
      have hturn : World.awaitNext (false, w, .flush 0 start.queue.flushes.length) =
          .inl (false, w.moveClock alarm.instant, .flush 0 start.queue.flushes.length) := by
        simp only [World.awaitNext, hready, hcan w rfl, hmove, Bool.false_eq_true, if_false,
          Errand.alarm?, halarm, Alarm.first?, hcan (w.moveClock alarm.instant) rfl]
      obtain ⟨f₂, tail₂, c₂, jobs₂, w₂, hends, h₂, hreturned⟩ := ends hkept he h₁ hnot
      exact ⟨f₂, tail₂, c₂, jobs₂, w₂, .next hturn hends, h₂, hreturned⟩
termination_by (workLeft start.chunkTotal f c, (jobs.map Job.left).sum, w.sleeping.length)
decreasing_by
  · exact Prod.Lex.right _ (Prod.Lex.right _ hless)
  · exact Prod.Lex.left _ _ hless
  · exact Prod.Lex.left _ _ hless
  · exact Prod.Lex.right _ (Prod.Lex.left _ _ hless)

end Flushing

/-! ## A whole flush -/

theorem usable_relay {endpoint : String} (policy : Retry.Policy) (he : endpoint.isEmpty = false)
    {u : Usability} (hu : u 0 = true) : (relay policy endpoint).usable u = true := by
  simp [relay, Transport.usable, Transport.anyUsable, hu, he]

/-- **A flush returns, and gives a true account.**  In a world with one queue and nothing under way,
where the store keeps what it should, a flush ends, whatever the collector replies; its report and
what is left in the store follow from what the collector has accepted. -/
theorem flush_relayed {policy : Retry.Policy} {endpoint : String} {kept : Store → Prop}
    (hkept : ∀ s s' ids, kept s → s.delete ids = .ok s' → kept s') (he : endpoint.isEmpty = false)
    {start : Course} (hs : start.Ready) (hstored : kept start.queue.store) {w : World}
    (hdepots : w.depots = [⟨start.queue, relay policy endpoint⟩]) (hready : w.ready = [])
    (hsleeping : w.sleeping = []) (hu : w.usability 0 = true) :
    ∃ report q w' requests, w.flush 0 = (some report, w') ∧
      w'.depots = [⟨q, relay policy endpoint⟩] ∧ kept q.store ∧
      w.collector.Hears requests w'.collector ∧
      Account start.queue.settings.batchSize start.queue.store.events
        (acceptedOf w.collector.replies requests) report q.store.events := by
  let c := start.act .callFlush
  have husable := usable_relay policy he hu
  have hcall : w.callFlush 0 = (start.queue.flushes.length, w.setQueue 0 c.queue) := by
    have hqueue : c.queue = (start.queue.callFlush start.usable).2 := rfl
    rw [hqueue, hs.usable]
    simp only [World.callFlush, hdepots, List.getElem?_cons_zero, husable, if_true]
    rfl
  have hflights : c.queue.flights = [] := hs.settled
  have hbegun : Flushing policy endpoint kept start w.collector {} [] c [] (w.setQueue 0 c.queue) := by
    refine ⟨⟨fun _ => .crashed, solo_call hs _⟩, ?_, hstored, ?_, hu, ?_, ?_, List.forall_mem_nil _, ?_, ?_⟩
    · intro g hg
      rw [hflights] at hg
      cases hg
    · show w.depots.modify 0 _ = _
      rw [hdepots]
      rfl
    · rw [hflights]
      exact List.Perm.nil
    · show (w.ready ++ w.sleeping).Perm _
      rw [hready, hsleeping]
      exact List.Perm.nil
    · intro ticket alarm d hmem
      rw [show (w.setQueue 0 c.queue).ready = [] from hready] at hmem
      cases hmem
    · refine ⟨[], .refl _, ?_⟩
      cases w.collector.replies <;> rfl
  have hmove : (c.queue.flushStep start.queue.flushes.length).isSome = true := by
    have hflush := (solo_call hs fun _ => .crashed).getElem?_flush
    simp [c, flushStep, hflush]
  obtain ⟨f, tail, c', jobs, w', hends, h, hreturned⟩ : ∃ f tail c' jobs w',
      World.Reaches (some (.flushed f.report), w') true (w.setQueue 0 c.queue)
        (.flush 0 start.queue.flushes.length) ∧
      Flushing policy endpoint kept start w.collector f tail c' jobs w' ∧ f.stage = .returned := by
    obtain ⟨f₁, tail₁, c₁, jobs₁, w₁, h₁, -, hturn⟩ := hbegun.awaitNext_turn hmove
    split at hturn
    · rename_i hreturned
      exact ⟨f₁, tail₁, c₁, jobs₁, w₁, .last hturn, h₁, hreturned⟩
    · rename_i hnot
      obtain ⟨f₂, tail₂, c₂, jobs₂, w₂, hends, h₂, hreturned⟩ := Flushing.ends hkept he h₁ hnot
      exact ⟨f₂, tail₂, c₂, jobs₂, w₂, .next hturn hends, h₂, hreturned⟩
  obtain ⟨requests, hheard, htaken⟩ := h.heard
  obtain ⟨verdict, hsolo⟩ := h.solo
  refine ⟨f.report, c'.queue, w', requests, ?_, h.depots, h.stored, hheard, ?_⟩
  · simp only [World.flush, hcall, hends.run]
  · rw [htaken]
    exact hsolo.account hreturned

end EventRelay.Run
