import EventRelay.Proofs.Run.Upkeep

/-!
# The pace of a runner

A runner ticks when it gets its first turn, and then at regular intervals for as long as it lives.
Whatever else happens in the world makes it neither early nor late.

* `runners_run` — without ticks a runner that lives is one that lived before, or a new one.
* `tickTimes` — the times at which a runner has ticked.
* `Paced` — the ticks of every runner are evenly spaced, and the next tick of one that lives is due an
  interval after its last; `paced_happen` says that **whatever happens keeps the pace**.
* `Paced.on_time` — when no task can go on, no tick is overdue.
-/

namespace EventRelay

namespace Queue

/-! ## Runners that come and go -/

/-- Without ticks, a runner that lives was there before, or is new and has no tick due. -/
theorem runners_move {q : Queue} {a : Action} {k : Crew} (h : CrewMove q a k)
    (ha : ∀ id now, a ≠ .tick id now) :
    q.started ≤ k.started ∧ ∀ r ∈ k.runners, r ∈ q.runners ∨ (r.due = none ∧ q.started ≤ r.id) := by
  have hstart : ∀ tasks, q.started ≤ (q.start tasks).2.crew.started ∧
      ∀ r ∈ (q.start tasks).2.crew.runners,
        r ∈ q.runners ∨ (r.due = none ∧ q.started ≤ r.id) := by
    intro tasks
    unfold Queue.start
    split
    · exact ⟨Nat.le_refl _, fun _ hr => Or.inl hr⟩
    · split
      · exact ⟨Nat.le_refl _, fun _ hr => Or.inl hr⟩
      · refine ⟨Nat.le_succ _, fun r hr => ?_⟩
        rcases List.mem_append.1 hr with hr | hr
        · exact Or.inl (List.mem_of_mem_filter hr)
        · cases List.mem_singleton.1 hr
          exact Or.inr ⟨rfl, Nat.le_refl _⟩
  cases h with
  | rest => exact ⟨Nat.le_refl _, fun _ hr => Or.inl hr⟩
  | start tasks => exact hstart tasks
  | push events tasks hw => exact hstart tasks
  | stop =>
    unfold Queue.stop
    split
    · exact ⟨Nat.le_refl _, fun _ hr => Or.inl (List.mem_of_mem_filter hr)⟩
    · exact ⟨Nat.le_refl _, fun _ hr => Or.inl hr⟩
  | tick id now => exact absurd rfl (ha id now)

theorem runners_run {c : Course} {actions : List Action}
    (ha : ∀ id now, .tick id now ∉ actions) :
    c.queue.started ≤ (c.run actions).queue.started ∧
      ∀ r ∈ (c.run actions).queue.runners,
        r ∈ c.queue.runners ∨ (r.due = none ∧ c.queue.started ≤ r.id) := by
  induction actions generalizing c with
  | nil => exact ⟨Nat.le_refl _, fun _ hr => Or.inl hr⟩
  | cons a actions ih =>
    obtain ⟨hle, hold⟩ := runners_move (crewMove_act c a) fun id now heq =>
      ha id now (heq ▸ List.mem_cons_self)
    obtain ⟨hle', hold'⟩ := ih (c := c.act a) fun id now hmem =>
      ha id now (List.mem_cons_of_mem a hmem)
    refine ⟨Nat.le_trans hle hle', fun r hr => ?_⟩
    rcases hold' r hr with hr | ⟨hdue, hid⟩
    · exact hold r hr
    · exact Or.inr ⟨hdue, Nat.le_trans hle hid⟩

/-- No action changes the interval. -/
theorem interval_run (c : Course) (actions : List Action) :
    (c.run actions).queue.interval = c.queue.interval := by
  have hsettings : (c.run actions).queue.settings = c.queue.settings :=
    Course.run_books (P := fun b => b.settings = c.queue.settings)
      (fun h hb => by cases h <;> exact hb) rfl actions
  rw [interval, hsettings, interval]

end Queue

namespace Run

open Queue

/-! ## The times of ticks -/

/-- The times at which a runner has ticked. -/
def tickTimes (id : Nat) (ticks : List Tick) : List Nat :=
  (ticks.filter fun t => t.runner == id).map Tick.time

/-- So many times, an interval apart. -/
def evenly (first interval count : Nat) : List Nat :=
  (List.range count).map fun i => first + i * interval

theorem tickTimes_append (id : Nat) (ticks ticks' : List Tick) :
    tickTimes id (ticks ++ ticks') = tickTimes id ticks ++ tickTimes id ticks' := by
  rw [tickTimes, List.filter_append, List.map_append]
  rfl

theorem evenly_succ (first interval count : Nat) :
    evenly first interval (count + 1) =
      evenly first interval count ++ [first + count * interval] := by
  rw [evenly, List.range_succ, List.map_append]
  rfl

theorem length_evenly (first interval count : Nat) :
    (evenly first interval count).length = count := by
  rw [evenly, List.length_map, List.length_range]

/-- The ticks of the runners of a queue are evenly spaced. -/
structure Paced (q : Queue) (ticks : List Tick) : Prop where
  /-- Runners that have ticked were started. -/
  known : ∀ t ∈ ticks, t.runner < q.started
  /-- The ticks of a runner are an interval apart. -/
  even : ∀ id, ∃ first, tickTimes id ticks = evenly first q.interval (tickTimes id ticks).length
  /-- The next tick of a runner that lives is due an interval after its last, and at once if it has
  made none. -/
  due : ∀ r ∈ q.runners, (r.due = none ∧ tickTimes r.id ticks = []) ∨
    ∃ first count, tickTimes r.id ticks = evenly first q.interval (count + 1) ∧
      r.due = some (first + (count + 1) * q.interval)

namespace Paced

variable {q q' : Queue} {ticks : List Tick}

theorem tickTimes_eq_nil (h : Paced q ticks) {id : Nat} (hid : q.started ≤ id) :
    tickTimes id ticks = [] := by
  rw [tickTimes, List.map_eq_nil_iff, List.filter_eq_nil_iff]
  intro t ht heq
  have hlt := h.known t ht
  rw [beq_iff_eq] at heq
  omega

/-- Nobody has ticked. -/
theorem rest (h : Paced q ticks) (hinterval : q'.interval = q.interval)
    (hstarted : q.started ≤ q'.started)
    (hrunners : ∀ r ∈ q'.runners, r ∈ q.runners ∨ (r.due = none ∧ q.started ≤ r.id)) :
    Paced q' ticks := by
  refine ⟨fun t ht => Nat.lt_of_lt_of_le (h.known t ht) hstarted, ?_, fun r hr => ?_⟩
  · rw [hinterval]
    exact h.even
  · rw [hinterval]
    rcases hrunners r hr with hr | ⟨hdue, hid⟩
    · exact h.due r hr
    · exact Or.inl ⟨hdue, h.tickTimes_eq_nil hid⟩

/-- A runner has ticked when its tick was due. -/
theorem tick (h : Paced q ticks) {r : Runner} {now : Nat} (hr : r ∈ q.runners)
    (hid : r.id < q.started) (hdue : ∀ due, r.due = some due → due = now)
    (hinterval : q'.interval = q.interval) (hstarted : q'.started = q.started)
    (hrunners : ∀ r' ∈ q'.runners, (r'.id = r.id ∧ r'.due = some (now + q.interval)) ∨
      (r'.id ≠ r.id ∧ r' ∈ q.runners)) :
    Paced q' (ticks ++ [⟨r.id, now⟩]) := by
  have hself : tickTimes r.id (ticks ++ [⟨r.id, now⟩]) = tickTimes r.id ticks ++ [now] := by
    rw [tickTimes_append]
    simp [tickTimes]
  have hother : ∀ id, id ≠ r.id → tickTimes id (ticks ++ [⟨r.id, now⟩]) = tickTimes id ticks := by
    intro id hne
    rw [tickTimes_append]
    simp [tickTimes, Ne.symm hne]
  -- the tick is the next in the row, or the first of it
  obtain ⟨first, count, htimes, hnext⟩ : ∃ first count,
      tickTimes r.id ticks ++ [now] = evenly first q.interval (count + 1) ∧
        now + q.interval = first + (count + 1) * q.interval := by
    rcases h.due r hr with ⟨-, hnil⟩ | ⟨first, count, htimes, hsome⟩
    · exact ⟨now, 0, by rw [hnil]; simp [evenly], by omega⟩
    · have hnow := hdue _ hsome
      refine ⟨first, count + 1, ?_, ?_⟩
      · rw [evenly_succ _ _ (count + 1), htimes, hnow]
      · rw [← hnow, Nat.succ_mul (count + 1), Nat.add_assoc]
  refine ⟨fun t ht => ?_, fun id => ?_, fun r' hr' => ?_⟩
  · rw [hstarted]
    rcases List.mem_append.1 ht with ht | ht
    · exact h.known t ht
    · rw [List.mem_singleton.1 ht]
      exact hid
  · rw [hinterval]
    by_cases heq : id = r.id
    · rw [heq, hself, htimes, length_evenly]
      exact ⟨first, rfl⟩
    · rw [hother id heq]
      exact h.even id
  · rw [hinterval]
    rcases hrunners r' hr' with ⟨heq, hdue'⟩ | ⟨hne, hr'⟩
    · rw [heq, hself, hdue', hnext]
      exact Or.inr ⟨first, count, htimes, rfl⟩
    · rw [hother r'.id hne]
      exact h.due r' hr'

/-- **Ticks are on time.**  When no task can go on, a runner that lives has ticked, and its next tick
is in the future. -/
theorem on_time (h : Paced q ticks) {now : Nat} {asleep tickets : List Nat} {c : Course}
    (ht : Tended q now [] asleep tickets c) {r : Runner} (hr : r ∈ q.runners) :
    ∃ first count, tickTimes r.id ticks = evenly first q.interval (count + 1) ∧
      now < first + (count + 1) * q.interval := by
  obtain ⟨due, hdue, hlt⟩ := ht.patient r hr (ht.present r hr)
  rcases h.due r hr with ⟨hnone, -⟩ | ⟨first, count, htimes, hsome⟩
  · rw [hnone] at hdue
    cases hdue
  · rw [hsome] at hdue
    cases hdue
    exact ⟨first, count, htimes, hlt⟩

end Paced

/-! ## The pace is kept -/

variable {w : World} {cs : Nat → Course} {n : Nat}

/-- A tick is the turn of a runner that lives. -/
theorem World.ticksIn_eq_cons {e : Happening} {t : Tick} {ts : List Tick}
    (h : w.ticksIn n e = t :: ts) :
    ∃ order rest, e = .turn ∧ w.ready = .runner n t.runner order :: rest ∧ t.time = w.now ∧
      w.lives n t.runner = true := by
  cases e with
  | turn =>
    simp only [World.ticksIn] at h
    split at h
    · rename_i m id order rest hready
      split at h
      · rename_i hlives
        obtain ⟨rfl, hlives⟩ := hlives
        cases h
        exact ⟨order, rest, rfl, hready, rfl, hlives⟩
      · cases h
    · cases h
  | _ => cases h

theorem World.exists_of_lives {id : Nat} (h : w.lives n id = true) :
    ∃ d, w.depots[n]? = some d ∧ d.queue.runners.any (·.id == id) = true := by
  unfold World.lives at h
  cases hd : w.depots[n]? with
  | none =>
    rw [hd] at h
    cases h
  | some d =>
    rw [hd] at h
    exact ⟨d, rfl, h⟩

/-- **Whatever happens keeps the pace.** -/
theorem paced_happen {e : Happening} {c' : Course} {ticks : List Tick} (h : Kept w [] cs)
    (hacc : Accounts w e n (cs n) c') (hp : Paced (cs n).queue ticks) :
    Paced c'.queue (ticks ++ w.ticksIn n e) := by
  obtain ⟨actions, rfl, -, ⟨hnone, hquiet⟩ | ⟨usable, id, htick, rfl⟩⟩ := hacc
  · obtain ⟨hstarted, hrunners⟩ := runners_run (c := cs n) hquiet
    rw [hnone, List.append_nil]
    exact hp.rest (interval_run (cs n) actions) hstarted hrunners
  · obtain ⟨order, rest, -, hready, -, hlives⟩ := World.ticksIn_eq_cons htick
    obtain ⟨d, hd, hany⟩ := World.exists_of_lives hlives
    have ht := h.tended n d hd
    rw [← ht.queue] at hany
    obtain ⟨r, hr, hid⟩ := List.any_eq_true.1 hany
    rw [beq_iff_eq] at hid
    dsimp only at hid
    subst hid
    -- the runner is in line, so its tick is due now
    have hawake : r.id ∈ ([] ++ w.ready).filterMap (Task.runnerOf n) := by
      rw [hready]
      simp [Task.runnerOf]
    have hcrew := (cs n).queue.crew_tick r.id w.now usable
    rw [← queue_tick hany] at hcrew
    have hrunners : ((cs n).run [.usability usable, .tick r.id w.now]).queue.runners = _ :=
      congrArg Crew.runners hcrew
    rw [htick]
    rw [← ht.queue] at ht
    refine hp.tick hr (ht.started r.id (ht.present r hr)) (ht.prompt r hr hawake)
      (interval_run (cs n) _) (congrArg Crew.started hcrew) fun r' hr' => ?_
    rw [hrunners] at hr'
    obtain ⟨r₀, hr₀, rfl⟩ := List.mem_map.1 hr'
    by_cases hid : r₀.id = r.id
    · rw [if_pos hid]
      exact Or.inl ⟨hid, rfl⟩
    · rw [if_neg hid]
      exact Or.inr ⟨hid, hr₀⟩

end Run

end EventRelay
