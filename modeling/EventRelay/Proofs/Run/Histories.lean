import EventRelay.Proofs.Run.Waiting

/-!
# What happens in a world

A world goes on by small happenings: somebody calls a queue, the surroundings change, a task or an
errand takes its turn, the clock moves.  A list of them is a history.

* `Happening`, `World.happen`, `World.follow` — one happening, and a history.  A call can be made
  where tasks can be started or elsewhere.
* `World.Possible` — the clock moves only when no task can go on, and never past an alarm.
* `World.ticks` — the ticks of the runners of a queue in a history, each with its time.
* `World.Next`, `next_awaitNext` — what comes next while somebody waits for an errand.
* `exists_history` — **letting an errand run makes a history**: whatever `World.run` comes to, sleeps,
  calls, flushes and joins are made of these happenings.
-/

namespace EventRelay.Run

/-- Something that happens in a world. -/
inductive Happening where
  /-- Events are stored in a queue; `inside` says whether tasks can be started where this is done. -/
  | push (depot : Nat) (events : List Event) (inside : Bool)
  /-- The runner of a queue is started, if this is done where tasks can be started. -/
  | start (depot : Nat) (inside : Bool)
  /-- The runner of a queue is stopped. -/
  | stop (depot : Nat)
  /-- From now on these calls of the store of a queue fail. -/
  | faults (depot : Nat) (faults : Store.Faults)
  /-- The leaves change in any way. -/
  | leaves (leaves : List Leaf)
  /-- The next batch of a queue is dispatched by hand. -/
  | dispatch (depot : Nat)
  /-- A flush of a queue is called. -/
  | callFlush (depot : Nat)
  /-- An errand takes a turn. -/
  | errand (e : Errand)
  /-- The task that is first in line takes a turn. -/
  | turn
  /-- The clock moves. -/
  | clock (instant : Nat)

/-- A tick of a runner. -/
structure Tick where
  /-- The runner. -/
  runner : Nat
  /-- When. -/
  time : Nat
  deriving DecidableEq

namespace World

/-- The world after a happening. -/
def happen (w : World) : Happening → World
  | .push depot events inside =>
    { (enqueue { w with tasks := inside } depot events).2 with tasks := w.tasks }
  | .start depot inside => { startRunner { w with tasks := inside } depot with tasks := w.tasks }
  | .stop depot => w.stopRunner depot
  | .faults depot faults =>
    match w.depots[depot]? with
    | none => w
    | some d => w.setQueue depot { d.queue with store := { d.queue.store with faults } }
  | .leaves leaves => { w with leaves }
  | .dispatch depot => (w.dispatchNext depot).2
  | .callFlush depot => (w.callFlush depot).2
  | .errand e => (e.turn w).2
  | .turn =>
    match w.ready with
    | [] => w
    | task :: rest => { w with ready := rest }.turn task
  | .clock instant => w.moveClock instant

/-- Can it happen?  The clock moves only when no task can go on, and not past an alarm. -/
def possible (w : World) : Happening → Bool
  | .clock instant => w.ready.isEmpty &&
    w.sleeping.all fun t => (w.alarm? t).all fun a => decide (instant ≤ a.instant)
  | _ => true

/-- The world after a history. -/
def follow (w : World) (hs : List Happening) : World :=
  hs.foldl happen w

/-- Everything in the history can happen when its turn comes. -/
def Possible (w : World) : List Happening → Prop
  | [] => True
  | h :: hs => w.possible h = true ∧ (w.happen h).Possible hs

/-- Does the runner of this number live? -/
def lives (w : World) (depot id : Nat) : Bool :=
  (w.depots[depot]?).any fun d => d.queue.runners.any (·.id == id)

/-- The runner tasks of a queue that live. -/
def liveRunners (w : World) (depot : Nat) : List Task :=
  (w.ready ++ w.sleeping).filter fun
    | .runner n id _ => n == depot && w.lives depot id
    | .delivery _ _ _ => false

/-- The tick of a runner of the queue in a happening, if there is one. -/
def ticksIn (w : World) (depot : Nat) : Happening → List Tick
  | .turn =>
    match w.ready with
    | .runner n id _ :: _ => if n = depot ∧ w.lives depot id then [⟨id, w.now⟩] else []
    | _ => []
  | _ => []

/-- The ticks of the runners of a queue in a history. -/
def ticks (w : World) (depot : Nat) : List Happening → List Tick
  | [] => []
  | h :: hs => w.ticksIn depot h ++ (w.happen h).ticks depot hs

/-! ## Histories -/

theorem follow_cons (w : World) (h : Happening) (hs : List Happening) :
    w.follow (h :: hs) = (w.happen h).follow hs := rfl

theorem follow_append (w : World) (hs hs' : List Happening) :
    w.follow (hs ++ hs') = (w.follow hs).follow hs' :=
  List.foldl_append

theorem follow_concat (w : World) (hs : List Happening) (h : Happening) :
    w.follow (hs ++ [h]) = (w.follow hs).happen h := by
  rw [follow_append]
  rfl

theorem happen_turn {w : World} {task : Task} {rest : List Task} (h : w.ready = task :: rest) :
    w.happen .turn = World.turn { w with ready := rest } task := by
  rw [happen, h]

theorem possible_append {w : World} {hs hs' : List Happening} :
    w.Possible (hs ++ hs') ↔ w.Possible hs ∧ (w.follow hs).Possible hs' := by
  induction hs generalizing w with
  | nil => exact ⟨fun h => ⟨trivial, h⟩, fun h => h.2⟩
  | cons h hs ih => exact (and_congr_right fun _ => ih).trans and_assoc.symm

theorem ticks_append (w : World) (depot : Nat) (hs hs' : List Happening) :
    w.ticks depot (hs ++ hs') = w.ticks depot hs ++ (w.follow hs).ticks depot hs' := by
  induction hs generalizing w with
  | nil => rfl
  | cons h hs ih =>
    rw [List.cons_append, ticks, ticks, ih, List.append_assoc]
    rfl

theorem ticks_concat (w : World) (depot : Nat) (hs : List Happening) (h : Happening) :
    w.ticks depot (hs ++ [h]) = w.ticks depot hs ++ (w.follow hs).ticksIn depot h := by
  rw [ticks_append, ticks, ticks, List.append_nil]

end World

/-! ## Errands make histories -/

theorem Alarm.first_le (a b : Alarm) :
    (a.first b).instant ≤ a.instant ∧ (a.first b).instant ≤ b.instant := by
  unfold Alarm.first
  split <;> omega

/-- Of two alarms the first is not after either. -/
theorem Alarm.first?_le {x y : Option Alarm} {b : Alarm} (h : x = some b ∨ y = some b) :
    ∃ a, Alarm.first? x y = some a ∧ a.instant ≤ b.instant := by
  cases x with
  | none =>
    rcases h with h | h
    · cases h
    · exact ⟨b, by rw [h]; rfl, Nat.le_refl _⟩
  | some x =>
    cases y with
    | none =>
      rcases h with h | h
      · exact ⟨b, by rw [h]; rfl, Nat.le_refl _⟩
      · cases h
    | some y =>
      refine ⟨x.first y, rfl, ?_⟩
      rcases h with h | h
      · cases h
        exact (b.first_le y).1
      · cases h
        exact (x.first_le b).2

/-- The first of many alarms is not after any of them. -/
theorem foldl_first?_le {f : Task → Option Alarm} {b : Alarm} (tasks : List Task)
    (acc : Option Alarm) (h : acc = some b ∨ ∃ t ∈ tasks, f t = some b) :
    ∃ a, tasks.foldl (fun acc t => Alarm.first? acc (f t)) acc = some a ∧
      a.instant ≤ b.instant := by
  induction tasks generalizing acc b with
  | nil =>
    rcases h with h | ⟨t, ht, -⟩
    · exact ⟨b, h, Nat.le_refl _⟩
    · cases ht
  | cons t tasks ih =>
    rw [List.foldl_cons]
    rcases h with h | ⟨t', ht', hb⟩
    · obtain ⟨a, ha, hle⟩ := Alarm.first?_le (y := f t) (Or.inl h)
      obtain ⟨a', ha', hle'⟩ := ih _ (Or.inl ha)
      exact ⟨a', ha', Nat.le_trans hle' hle⟩
    · rcases List.mem_cons.1 ht' with rfl | ht'
      · obtain ⟨a, ha, hle⟩ := Alarm.first?_le (x := acc) (Or.inr hb)
        obtain ⟨a', ha', hle'⟩ := ih _ (Or.inl ha)
        exact ⟨a', ha', Nat.le_trans hle' hle⟩
      · exact ih _ (Or.inr ⟨t', ht', hb⟩)

namespace World

/-- The clock may move to the first of all alarms and of one more. -/
theorem possible_clock {w : World} (hr : w.ready = []) {x : Option Alarm} {alarm : Alarm}
    (h : Alarm.first? x w.nextAlarm? = some alarm) : w.possible (.clock alarm.instant) = true := by
  rw [possible, hr, List.isEmpty_nil, Bool.true_and, List.all_eq_true]
  intro t ht
  cases hb : w.alarm? t with
  | none => rfl
  | some b =>
    obtain ⟨a, ha, hle⟩ := foldl_first?_le w.sleeping none (Or.inr ⟨t, ht, hb⟩)
    obtain ⟨a', ha', hle'⟩ := Alarm.first?_le (x := x) (y := w.nextAlarm?) (Or.inr ha)
    rw [h] at ha'
    cases ha'
    exact decide_eq_true (Nat.le_trans hle' hle)

/-- What can come next while somebody waits for an errand: a happening, or nothing more. -/
inductive Next (w : World) (e : Errand) :
    Bool → (Bool × World × Errand) ⊕ (Option Arrival × World) → Prop
  /-- The errand takes its last turn. -/
  | ends {arrival : Arrival} {w' : World} (hturn : e.turn w = (.ok arrival, w')) :
      Next w e true (.inr (some arrival, w'))
  /-- It takes a turn, and has to wait. -/
  | waits {e' : Errand} {w' : World} (hturn : e.turn w = (.error e', w')) :
      Next w e true (.inl (false, w', e'))
  /-- A task takes its turn. -/
  | task {t : Task} {rest : List Task} (hready : w.ready = t :: rest) :
      Next w e false (.inl (false, w.happen .turn, e))
  /-- All tasks wait, and the errand can go on. -/
  | wakes (hready : w.ready = []) (hmove : e.canMove w = true) : Next w e false (.inl (true, w, e))
  /-- Nothing can go on, and there is no alarm. -/
  | never (hready : w.ready = []) (hnone : Alarm.first? e.alarm? w.nextAlarm? = none) :
      Next w e false (.inr (none, w))
  /-- Nothing can go on, and the clock moves. -/
  | clock {alarm : Alarm} (hready : w.ready = []) (hmove : e.canMove w = false)
      (hfirst : Alarm.first? e.alarm? w.nextAlarm? = some alarm) :
      Next w e false (.inl (e.canMove (w.happen (.clock alarm.instant)),
        w.happen (.clock alarm.instant), e))

/-- **What comes next** while somebody waits. -/
theorem next_awaitNext (woken : Bool) (w : World) (e : Errand) :
    Next w e woken (awaitNext (woken, w, e)) := by
  cases woken with
  | true =>
    rw [awaitNext]
    split
    · exact .ends ‹_›
    · exact .waits ‹_›
  | false =>
    rw [awaitNext]
    split
    · rename_i task rest hready
      rw [← happen_turn hready]
      exact .task hready
    · rename_i hready
      split
      · exact .wakes hready ‹_›
      · rename_i hmove
        split
        · exact .never hready ‹_›
        · exact .clock hready (Bool.eq_false_iff.2 hmove) ‹_›

theorem next_of_awaitNext {woken : Bool} {w : World} {e : Errand}
    {next : (Bool × World × Errand) ⊕ (Option Arrival × World)}
    (h : awaitNext (woken, w, e) = next) : Next w e woken next :=
  h ▸ next_awaitNext woken w e

/-- **To wait for an errand is to follow a history.** -/
theorem exists_history_of_reaches {result : Option Arrival × World} {woken : Bool} {w : World}
    {e : Errand} (h : Reaches result woken w e) : ∃ hs, w.Possible hs ∧ result.2 = w.follow hs := by
  induction h with
  | @last woken w e h =>
    cases next_of_awaitNext h with
    | ends hturn => exact ⟨[.errand e], ⟨rfl, trivial⟩, by rw [follow_cons, happen, hturn]; rfl⟩
    | never => exact ⟨[], trivial, rfl⟩
  | @next woken woken' w w₁ e e' h _ ih =>
    obtain ⟨hs, hps, heq⟩ := ih
    cases next_of_awaitNext h with
    | waits hturn =>
      have hw₁ : w₁ = w.happen (.errand e) := by rw [happen, hturn]
      subst hw₁
      exact ⟨.errand e :: hs, ⟨rfl, hps⟩, heq⟩
    | task => exact ⟨.turn :: hs, ⟨rfl, hps⟩, heq⟩
    | wakes => exact ⟨hs, hps, heq⟩
    | @clock alarm hready _ hfirst =>
      exact ⟨.clock alarm.instant :: hs, ⟨possible_clock hready hfirst, hps⟩, heq⟩

/-- To see an errand through is to follow a history. -/
theorem exists_history (w : World) (e : Errand) :
    ∃ hs, w.Possible hs ∧ (w.run e).2 = w.follow hs := by
  rcases w.run_cases e with hends | hnever
  · exact exists_history_of_reaches hends
  · exact ⟨[], trivial, by rw [hnever]; rfl⟩

end World

end EventRelay.Run
