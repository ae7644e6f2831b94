import EventRelay.Proofs.Queue.Flights
import EventRelay.Proofs.Run.Histories
import EventRelay.Proofs.Run.Stirs
import Mathlib.Data.List.Nodup
import Mathlib.Logic.Function.Basic

/-!
# Every task is where it belongs

A queue of a world is somewhere on a course, and the tasks of the world are those that the queue
knows of: a task for every runner that lives, and one for every batch in flight.

* `Course.Open` — the calls for all batches in flight are under way: in a world a call ends and its
  batch lands in one turn.
* `Tended` — what holds of one queue and its tasks.  A runner that sleeps has a tick due later, and
  one that can go on has a tick due now.
* `Kept` — it holds of all queues, and every delivery that sleeps has an alarm that has not gone off.
* `Kept.stirs` — **what is done to queues keeps it**, and takes each queue along its course by actions
  of the kind that is done.
-/

namespace EventRelay

/-! ## Calls under way -/

namespace Queue

/-- Does the action end the call for a batch? -/
def Action.endsCall : Action → Bool
  | .finish _ _ => true
  | _ => false

/-- The calls for all batches in flight are under way. -/
def Course.Open (c : Course) : Prop :=
  ∀ f ∈ c.queue.flights, c.ending? f.ticket = none

theorem open_move {b b' : Books} {a : Action} (h : Books.Move b a b') (ht : b.Tracked)
    (ha : a.endsCall = false) (ho : ∀ f ∈ b.flights, b.ending? f.ticket = none) :
    ∀ f ∈ b'.flights, b'.ending? f.ticket = none := by
  intro f hf
  cases h with
  | quiet => exact ho f hf
  | claim exclude batch _ hb =>
    rw [b.ending?_concat_quiet _ rfl rfl]
    rcases List.mem_append.1 hf with hf | hf
    · exact ho f hf
    · cases List.mem_singleton.1 hf
      exact ht.ending?_next
  | land flight ending hf' he =>
    rw [b.ending?_concat_quiet _ rfl rfl]
    exact ho f (List.mem_of_mem_filter hf)
  | deliver | retain | fail => cases ha
  | _ =>
    rw [b.ending?_concat_quiet _ rfl rfl]
    exact ho f hf

/-- Nothing but the end of a call ends a call. -/
theorem Course.Open.act {c : Course} (hc : c.Reached) (ho : c.Open) {a : Action}
    (ha : a.endsCall = false) : (c.act a).Open :=
  open_move (c.move_act a) hc.tracked ha ho

theorem flights_settle {q : Queue} {ticket : Nat} {flight : Flight} (outcome : Outcome)
    (hf : q.flights.find? (fun f => f.ticket == ticket) = some flight) :
    (q.settle ticket outcome).2.flights = q.flights.filter fun f => f.ticket != ticket := by
  have hticket : flight.ticket = ticket := by simpa using List.find?_some hf
  obtain ⟨_, _, _, -, haccount⟩ := q.account_frame flight.batch outcome
  obtain ⟨_, _, _, hland⟩ := (q.account flight.batch outcome).2.land_frame flight outcome
  simp only [Queue.settle, hf]
  rw [hland, withoutFlight, haccount, hticket]

/-- A call that ends with its batch landing at once leaves the others under way. -/
theorem Course.Open.settle {c : Course} (ho : c.Open) {ticket : Nat} {flight : Flight}
    (ending : Ending) (hf : c.flight? ticket = some flight) :
    ((c.act (.finish ticket ending)).act (.land ticket)).Open := by
  have hticket := Course.flight?_ticket hf
  rw [act_finish_land c ending hf (hticket ▸ ho flight (Course.flight?_mem hf))]
  intro f hmem
  rw [Course.next, flights_settle ending.outcome hf, List.mem_filter] at hmem
  have hbefore := ho f hmem.1
  have hne : flight.ticket ≠ f.ticket := by
    rw [hticket]
    exact fun h => by simp [h] at hmem
  rw [Course.ending?] at hbefore
  rw [Course.ending?, Course.next, List.findSome?_append, hbefore]
  simp [Note.ending?, hne]

end Queue

namespace Run

open Queue

/-! ## One queue and its tasks -/

/-- The number of the runner, if the task is that of a runner of the queue. -/
def Task.runnerOf (n : Nat) : Task → Option Nat
  | .runner m id _ => if m = n then some id else none
  | .delivery _ _ _ => none

/-- The ticket of the batch, if the task is the delivery of a batch of the queue. -/
def Task.ticketOf (n : Nat) : Task → Option Nat
  | .runner _ _ _ => none
  | .delivery m ticket _ => if m = n then some ticket else none

/-- A queue on its course, and its tasks: the runners that can go on, those that sleep, and the
batches that are being delivered. -/
structure Tended (q : Queue) (now : Nat) (awake asleep tickets : List Nat) (c : Course) : Prop where
  /-- The course can come about. -/
  reached : c.Reached
  /-- It has led to the queue. -/
  queue : c.queue = q
  /-- The calls for the batches in flight are under way. -/
  calls : c.Open
  /-- No runner has two tasks. -/
  nodup : (awake ++ asleep).Nodup
  /-- The runners that have tasks were started. -/
  started : ∀ id ∈ awake ++ asleep, id < q.started
  /-- A runner that lives has a task. -/
  present : ∀ r ∈ q.runners, r.id ∈ awake ++ asleep
  /-- A runner that can go on has no tick due but now. -/
  prompt : ∀ r ∈ q.runners, r.id ∈ awake → ∀ due, r.due = some due → due = now
  /-- A runner that sleeps has a tick due later. -/
  patient : ∀ r ∈ q.runners, r.id ∈ asleep → ∃ due, r.due = some due ∧ now < due
  /-- The batches in flight are those that are being delivered. -/
  loads : tickets.Perm (q.flights.map Flight.ticket)

/-- A batch that was claimed gets a delivery, and nothing else does. -/
theorem Hires.loads {n : Nat} {q q' : Queue} {new : List Task} (h : Hires n q q' new)
    {tickets : List Nat} (hp : tickets.Perm (q.flights.map Flight.ticket)) :
    (tickets ++ new.filterMap (Task.ticketOf n)).Perm (q'.flights.map Flight.ticket) := by
  cases h with
  | nobody hr hs hf =>
    rw [hf, List.filterMap_nil, List.append_nil]
    exact hp
  | runner hr hs hf order =>
    have hnone : [Task.runner n q.started order].filterMap (Task.ticketOf n) = [] := rfl
    rw [hf, hnone, List.append_nil]
    exact hp
  | delivery hr hs flight hf state =>
    rw [hf, List.map_append]
    simpa [Task.ticketOf] using hp.append_right [flight.ticket]

/-- The tasks belong to the queue that calls for them. -/
theorem Hires.others {n m : Nat} {q q' : Queue} {new : List Task} (h : Hires n q q' new)
    (hm : n ≠ m) : new.filterMap (Task.runnerOf m) = [] ∧ new.filterMap (Task.ticketOf m) = [] := by
  cases h with
  | nobody hr hs hf => exact ⟨rfl, rfl⟩
  | runner hr hs hf order => simp [Task.runnerOf, Task.ticketOf, hm]
  | delivery hr hs flight hf state => simp [Task.runnerOf, Task.ticketOf, hm]

namespace Tended

variable {n : Nat} {q q' : Queue} {now : Nat} {awake asleep tickets tickets' : List Nat}
  {c c' : Course} {new : List Task}

theorem perm (h : Tended q now awake asleep tickets c) (hp : tickets'.Perm tickets) :
    Tended q now awake asleep tickets' c :=
  { h with loads := hp.trans h.loads }

/-- The tasks that a change of the queue calls for are started. -/
theorem hires (h : Tended q now awake asleep tickets c) (hh : Hires n q q' new) (hr : c'.Reached)
    (hq : c'.queue = q') (ho : c'.Open) :
    Tended q' now (awake ++ new.filterMap (Task.runnerOf n)) asleep
      (tickets ++ new.filterMap (Task.ticketOf n)) c' := by
  have hloads := hh.loads h.loads
  have hquiet : (∀ r ∈ q'.runners, r ∈ q.runners) → q'.started = q.started →
      ∀ tickets', tickets'.Perm (q'.flights.map Flight.ticket) →
      Tended q' now awake asleep tickets' c' := by
    intro hrunners hstarted tickets' hp
    exact ⟨hr, hq, ho, h.nodup, by rw [hstarted]; exact h.started,
      fun r hr => h.present r (hrunners r hr), fun r hr => h.prompt r (hrunners r hr),
      fun r hr => h.patient r (hrunners r hr), hp⟩
  cases hh with
  | nobody hrunners hstarted hflights =>
    rw [List.filterMap_nil, List.append_nil]
    exact hquiet hrunners hstarted _ hloads
  | delivery hrunners hstarted flight hflights state =>
    have hnone : [Task.delivery n flight.ticket state].filterMap (Task.runnerOf n) = [] := rfl
    rw [hnone, List.append_nil]
    exact hquiet hrunners hstarted _ hloads
  | runner hrunners hstarted hflights order =>
    have hone : [Task.runner n q.started order].filterMap (Task.runnerOf n) = [q.started] := by
      simp [Task.runnerOf]
    rw [hone]
    have hnew : q.started ∉ awake ++ asleep := fun hm => Nat.lt_irrefl _ (h.started _ hm)
    have hmem : ∀ id, id ∈ awake ++ [q.started] ++ asleep ↔ id = q.started ∨ id ∈ awake ++ asleep := by
      intro id
      simp only [List.mem_append, List.mem_singleton]
      tauto
    have hold : ∀ r ∈ q.runners, r.id ≠ q.started := by
      intro r hr heq
      exact hnew (heq ▸ h.present r hr)
    refine ⟨hr, hq, ho, ?_, ?_, ?_, ?_, ?_, hloads⟩
    · rw [List.append_assoc, List.singleton_append, List.nodup_middle]
      exact List.nodup_cons.2 ⟨hnew, h.nodup⟩
    · intro id hid
      rw [hstarted]
      rcases (hmem id).1 hid with rfl | hid
      · exact Nat.lt_succ_self _
      · exact Nat.lt_succ_of_lt (h.started id hid)
    · intro r hr
      rw [hmem]
      rcases hrunners r hr with hr | rfl
      · exact Or.inr (h.present r hr)
      · exact Or.inl rfl
    · intro r hr hid due hdue
      rcases hrunners r hr with hr | rfl
      · rcases List.mem_append.1 hid with hid | hid
        · exact h.prompt r hr hid due hdue
        · exact absurd (List.mem_singleton.1 hid) (hold r hr)
      · cases hdue
    · intro r hr hid
      rcases hrunners r hr with hr | rfl
      · exact h.patient r hr hid
      · exact absurd (List.mem_append_right awake hid) hnew

/-- A runner ticks, and sleeps until its next tick. -/
theorem tick {id : Nat} (h : Tended q now (id :: awake) asleep tickets c) (usable : Bool)
    (delivery : Transport) (hr : c'.Reached) (hq : c'.queue = (q.tick id now usable).2)
    (ho : c'.Open) :
    Tended (q.tick id now usable).2 now awake (asleep ++ [id])
      (tickets ++ (World.launching n delivery (q.tick id now usable).1).filterMap (Task.ticketOf n))
      c' := by
  have hcrew := q.crew_tick id now usable
  have hstarted : (q.tick id now usable).2.started = q.started := congrArg Crew.started hcrew
  have hrunners : (q.tick id now usable).2.runners = q.runners.map fun r =>
      if r.id = id then { r with due := some (now + q.interval) } else r :=
    congrArg Crew.runners hcrew
  have hlists : (awake ++ (asleep ++ [id])).Perm (id :: awake ++ asleep) := by
    rw [← List.append_assoc]
    exact List.perm_append_singleton id (awake ++ asleep)
  have hnot : id ∉ awake := by
    have hnd := h.nodup
    rw [List.cons_append, List.nodup_cons, List.mem_append, not_or] at hnd
    exact hnd.1.1
  -- a runner is the one that ticks, or one that was there before
  have hcases : ∀ r ∈ (q.tick id now usable).2.runners,
      (r.id = id ∧ r.due = some (now + q.interval) ∧ ∃ r₀ ∈ q.runners, r₀.id = r.id) ∨
      (r.id ≠ id ∧ r ∈ q.runners) := by
    intro r hmem
    rw [hrunners] at hmem
    obtain ⟨r₀, hr₀, rfl⟩ := List.mem_map.1 hmem
    by_cases hid : r₀.id = id
    · rw [if_pos hid]
      exact Or.inl ⟨hid, rfl, r₀, hr₀, rfl⟩
    · rw [if_neg hid]
      exact Or.inr ⟨hid, hr₀⟩
  refine ⟨hr, hq, ho, hlists.nodup_iff.2 h.nodup, ?_, ?_, ?_, ?_, ?_⟩
  · intro id' hid'
    rw [hstarted]
    exact h.started id' (hlists.mem_iff.1 hid')
  · intro r hmem
    rw [hlists.mem_iff]
    rcases hcases r hmem with ⟨-, -, r₀, hr₀, heq⟩ | ⟨-, hmem⟩
    · rw [← heq]
      exact h.present r₀ hr₀
    · exact h.present r hmem
  · intro r hmem hawake due hdue
    rcases hcases r hmem with ⟨hid, -⟩ | ⟨-, hmem⟩
    · exact absurd (hid ▸ hawake) hnot
    · exact h.prompt r hmem (List.mem_cons_of_mem id hawake) due hdue
  · intro r hmem hasleep
    rcases hcases r hmem with ⟨-, hdue, -⟩ | ⟨hid, hmem⟩
    · refine ⟨_, hdue, ?_⟩
      have hpos : 1 ≤ q.interval := Nat.le_max_right _ _
      omega
    · rcases List.mem_append.1 hasleep with hasleep | hasleep
      · exact h.patient r hmem hasleep
      · exact absurd (List.mem_singleton.1 hasleep) hid
  · exact (World.hires_dispatch n delivery q usable).loads h.loads

/-- The delivery of a batch ends, and the batch is out of flight. -/
theorem settle {ticket : Nat} (h : Tended q now awake asleep (ticket :: tickets) c)
    (ending : Ending) :
    Tended (q.settle ticket ending.outcome).2 now awake asleep tickets
      ((c.act (.finish ticket ending)).act (.land ticket)) := by
  have hmem : ticket ∈ q.flights.map Flight.ticket := h.loads.mem_iff.1 List.mem_cons_self
  obtain ⟨flight, hflight, hticket⟩ := List.mem_map.1 hmem
  obtain ⟨flight', hf⟩ := Option.isSome_iff_exists.1
    (List.find?_isSome (p := fun f : Flight => f.ticket == ticket) |>.2
      ⟨flight, hflight, by simp [hticket]⟩)
  have hcf : c.flight? ticket = some flight' := by
    rw [Course.flight?, h.queue]
    exact hf
  have hn : c.ending? ticket = none :=
    Course.flight?_ticket hcf ▸ h.calls flight' (Course.flight?_mem hcf)
  have hcrew := q.crew_settle ticket ending.outcome
  have hrunners : (q.settle ticket ending.outcome).2.runners = q.runners :=
    congrArg Crew.runners hcrew
  have hstarted : (q.settle ticket ending.outcome).2.started = q.started :=
    congrArg Crew.started hcrew
  refine ⟨(h.reached.act _).act _, ?_, h.calls.settle ending hcf, h.nodup, by
    rw [hstarted]; exact h.started, by rw [hrunners]; exact h.present, by
    rw [hrunners]; exact h.prompt, by rw [hrunners]; exact h.patient, ?_⟩
  · rw [act_finish_land c ending hcf hn, Course.next, h.queue]
  · -- no other batch has the ticket
    have hnd : (ticket :: tickets).Nodup := by
      rw [h.loads.nodup_iff, ← h.queue]
      exact h.reached.tracked.flights_tickets_nodup
    have hfilter := h.loads.filter fun t => t != ticket
    rw [List.filter_cons_of_neg (by simp), List.filter_map] at hfilter
    rw [flights_settle ending.outcome hf]
    have hkeep : tickets.filter (fun t => t != ticket) = tickets := by
      refine List.filter_eq_self.2 fun t ht => ?_
      have hne : t ≠ ticket := fun heq => (List.nodup_cons.1 hnd).1 (heq ▸ ht)
      simpa using hne
    rw [hkeep] at hfilter
    exact hfilter

end Tended

/-! ## All queues and tasks -/

/-- Every queue of the world is tended, by the tasks in line, those that sleep, and those in hand. -/
structure Kept (w : World) (hand : List Task) (cs : Nat → Course) : Prop where
  /-- Every queue is tended. -/
  tended : ∀ n d, w.depots[n]? = some d →
    Tended d.queue w.now ((hand ++ w.ready).filterMap (Task.runnerOf n))
      (w.sleeping.filterMap (Task.runnerOf n))
      ((hand ++ w.ready ++ w.sleeping).filterMap (Task.ticketOf n)) (cs n)
  /-- A delivery that sleeps has an alarm, which has not gone off. -/
  alarms : ∀ n ticket state, .delivery n ticket state ∈ w.sleeping →
    ∃ a, state.alarm? = some a ∧ w.now < a.instant

/-- A queue has the same tasks in one world as in another. -/
structure SameTasks (n : Nat) (w : World) (hand : List Task) (w' : World) (hand' : List Task) :
    Prop where
  /-- The runners that can go on. -/
  awake : (hand' ++ w'.ready).filterMap (Task.runnerOf n) =
    (hand ++ w.ready).filterMap (Task.runnerOf n)
  /-- The runners that sleep. -/
  asleep : w'.sleeping.filterMap (Task.runnerOf n) = w.sleeping.filterMap (Task.runnerOf n)
  /-- The deliveries. -/
  loads : ((hand' ++ w'.ready ++ w'.sleeping).filterMap (Task.ticketOf n)).Perm
    ((hand ++ w.ready ++ w.sleeping).filterMap (Task.ticketOf n))

/-- The courses of the queues have gone on, by actions of a kind. -/
def Continues (kind : Nat → Action → Prop) (cs cs' : Nat → Course) : Prop :=
  ∀ n, ∃ actions, cs' n = (cs n).run actions ∧
    ∀ a ∈ actions, kind n a ∨ ∃ usable, a = .usability usable

theorem Continues.refl (kind : Nat → Action → Prop) (cs : Nat → Course) : Continues kind cs cs :=
  fun _ => ⟨[], rfl, nofun⟩

theorem Continues.trans {kind : Nat → Action → Prop} {cs cs' cs'' : Nat → Course}
    (h : Continues kind cs cs') (h' : Continues kind cs' cs'') : Continues kind cs cs'' := by
  intro n
  obtain ⟨as, has, hk⟩ := h n
  obtain ⟨as', has', hk'⟩ := h' n
  refine ⟨as ++ as', by rw [has', has, Course.run_append], fun a ha => ?_⟩
  exact (List.mem_append.1 ha).elim (hk a) (hk' a)

theorem Continues.mono {kind kind' : Nat → Action → Prop} {cs cs' : Nat → Course}
    (h : Continues kind cs cs') (hk : ∀ n a, kind n a → kind' n a) : Continues kind' cs cs' := by
  intro n
  obtain ⟨as, has, ha⟩ := h n
  exact ⟨as, has, fun a hmem => (ha a hmem).imp (hk n a) id⟩

/-- One queue goes on, and the others stay where they are. -/
theorem Continues.update {kind : Nat → Action → Prop} (cs : Nat → Course) (n : Nat)
    {actions : List Action} (hk : ∀ a ∈ actions, kind n a ∨ ∃ usable, a = .usability usable) :
    Continues kind cs (Function.update cs n ((cs n).run actions)) := by
  intro m
  by_cases hm : m = n
  · subst hm
    exact ⟨actions, by rw [Function.update_self], hk⟩
  · exact ⟨[], by rw [Function.update_of_ne hm]; rfl, nofun⟩

namespace Kept

variable {w w' : World} {hand : List Task} {cs : Nat → Course}

theorem same (h : Kept w hand cs) (hs : w.Same w') : Kept w' hand cs := by
  refine ⟨?_, ?_⟩
  · rw [hs.now, hs.depots, hs.ready, hs.sleeping]
    exact h.tended
  · rw [hs.now, hs.sleeping]
    exact h.alarms

/-- One queue is replaced and has gone on along its course, and the others do not notice. -/
theorem edit (h : Kept w hand cs) {n : Nat} {d : Depot} {q : Queue} {hand' : List Task}
    {c' : Course} (hd : w.depots[n]? = some d)
    (hdepots : ∀ m, w'.depots[m]? =
      if n = m then (w.depots[m]?).map fun d => { d with queue := q } else w.depots[m]?)
    (hnow : w'.now = w.now) (hothers : ∀ m, n ≠ m → SameTasks m w hand w' hand')
    (hself : Tended q w.now ((hand' ++ w'.ready).filterMap (Task.runnerOf n))
      (w'.sleeping.filterMap (Task.runnerOf n))
      ((hand' ++ w'.ready ++ w'.sleeping).filterMap (Task.ticketOf n)) c')
    (halarms : ∀ m ticket state, .delivery m ticket state ∈ w'.sleeping →
      ∃ a, state.alarm? = some a ∧ w.now < a.instant) :
    Kept w' hand' (Function.update cs n c') := by
  refine ⟨fun m d' hd' => ?_, by rw [hnow]; exact halarms⟩
  rw [hdepots] at hd'
  rw [hnow]
  by_cases hm : n = m
  · subst hm
    rw [if_pos rfl, hd, Option.map_some] at hd'
    cases hd'
    rw [Function.update_self]
    exact hself
  · rw [if_neg hm] at hd'
    obtain ⟨hawake, hasleep, hloads⟩ := hothers m hm
    rw [Function.update_of_ne (Ne.symm hm), hawake, hasleep]
    exact (h.tended m d' hd').perm hloads

/-- **One queue performs an action.** -/
theorem work (h : Kept w hand cs) {n : Nat} {d : Depot} {a : Action} {q : Queue} {new : List Task}
    (hd : w.depots[n]? = some d) (hp : Performs d.queue a q) (hh : Hires n d.queue q new)
    (ha : a.endsCall = false) :
    ∃ usable, Kept (w.edit n q new) hand
      (Function.update cs n ((cs n).run [.usability usable, a])) := by
  obtain ⟨usable, hperform⟩ := hp
  have hlists : ∀ {β : Type} (f : Task → Option β),
      (hand ++ (w.edit n q new).ready).filterMap f =
        (hand ++ w.ready).filterMap f ++ new.filterMap f := by
    intro β f
    rw [← List.filterMap_append, List.append_assoc]
    rfl
  have htickets : ∀ m,
      ((hand ++ (w.edit n q new).ready ++ w.sleeping).filterMap (Task.ticketOf m)).Perm
        ((hand ++ w.ready ++ w.sleeping).filterMap (Task.ticketOf m) ++
          new.filterMap (Task.ticketOf m)) := by
    intro m
    rw [List.filterMap_append, hlists, List.filterMap_append (l := hand ++ w.ready)]
    rw [List.append_assoc, List.append_assoc]
    exact List.perm_append_comm.append_left _
  refine ⟨usable, h.edit hd (w.depots_edit n q new) rfl (fun m hm => ?_) ?_ h.alarms⟩
  · obtain ⟨hrunners, hdeliveries⟩ := hh.others hm
    have hloads := htickets m
    rw [hdeliveries, List.append_nil] at hloads
    exact ⟨by rw [hlists, hrunners, List.append_nil], rfl, hloads⟩
  · have ht := h.tended n d hd
    have hrun : (cs n).run [.usability usable, a] = ((cs n).act (.usability usable)).act a := rfl
    have hopen : ((cs n).run [.usability usable, a]).Open := by
      rw [hrun]
      exact (ht.calls.act (a := .usability usable) ht.reached rfl).act (ht.reached.act _) ha
    have hqueue : ((cs n).run [.usability usable, a]).queue = q := hperform (cs n) ht.queue
    rw [hlists]
    exact (ht.hires hh (ht.reached.run _) hqueue hopen).perm (htickets n)

/-- **What stirs the world keeps it.** -/
theorem stirs {kind : Nat → Action → Prop} (h : Kept w hand cs) (hs : Stirs kind w w')
    (hk : ∀ n a, kind n a → a.endsCall = false) :
    ∃ cs', Kept w' hand cs' ∧ Continues kind cs cs' := by
  induction hs generalizing cs with
  | same hsame => exact ⟨cs, h.same hsame, .refl kind cs⟩
  | @work w n d a q new hd ha hp hh =>
    obtain ⟨usable, hkept⟩ := h.work hd hp hh (hk n a ha)
    refine ⟨_, hkept, .update cs n fun a' ha' => ?_⟩
    rcases List.mem_cons.1 ha' with rfl | ha'
    · exact Or.inr ⟨usable, rfl⟩
    · rw [List.mem_singleton.1 ha']
      exact Or.inl ha
  | trans _ _ ih ih' =>
    obtain ⟨cs₁, h₁, hc₁⟩ := ih h
    obtain ⟨cs₂, h₂, hc₂⟩ := ih' h₁
    exact ⟨cs₂, h₂, hc₁.trans hc₂⟩

end Kept

end Run

end EventRelay
