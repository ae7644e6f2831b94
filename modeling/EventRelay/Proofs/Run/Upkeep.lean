import EventRelay.Proofs.Run.Schedule
import Mathlib.Data.List.Induction

/-!
# Whatever happens keeps every task where it belongs

A turn takes a task into hand, and puts it to sleep or is done with it.  The clock wakes what it has
come to.

* `Kept.turnRunner` — a turn of a runner that lives is one tick of its course; that of a runner that
  was stopped does nothing.
* `Kept.turnDelivery` — a turn of a delivery ends with the batch out of flight, or with the delivery
  asleep.
* `Kept.clock` — the clock wakes runners at the very instant at which their ticks are due, and loses
  no task that anybody waits for.
* `kept_happen` — **whatever happens keeps the world**, and takes each queue along its course: by a
  tick if one of its runners has ticked, and by other actions otherwise; `kept_follow` carries this,
  and whatever else it implies, along a history.
-/

namespace EventRelay.Run

open Queue

variable {w : World} {cs : Nat → Course} {n : Nat}

namespace Kept

/-! ## A turn of a runner -/

/-- A task that is first in line is taken into hand. -/
theorem take {task : Task} {rest : List Task} (h : Kept w [] cs) (hr : w.ready = task :: rest) :
    Kept { w with ready := rest } [task] cs := by
  refine ⟨fun m d hd => ?_, h.alarms⟩
  have ht := h.tended m d hd
  rw [hr] at ht
  exact ht

/-- A runner that was stopped is forgotten. -/
theorem drop_runner {id order : Nat} (h : Kept w [.runner n id order] cs)
    (hdead : w.lives n id = false) : Kept w [] cs := by
  refine ⟨fun m d hd => ?_, h.alarms⟩
  have ht := h.tended m d hd
  by_cases hm : n = m
  · subst hm
    have hrunners : ∀ r ∈ d.queue.runners, r.id ≠ id := by
      intro r hr heq
      rw [World.lives, hd, Option.any_some, List.any_eq_false] at hdead
      exact hdead r hr (by simp [heq])
    have hawake : ([Task.runner n id order] ++ w.ready).filterMap (Task.runnerOf n) =
        id :: w.ready.filterMap (Task.runnerOf n) := by
      simp [Task.runnerOf]
    rw [hawake] at ht
    refine ⟨ht.reached, ht.queue, ht.calls, (List.nodup_cons.1 ht.nodup).2, ?_, ?_, ?_, ht.patient,
      ht.loads⟩
    · exact fun id' hid' => ht.started id' (List.mem_cons_of_mem id hid')
    · intro r hr
      exact (List.mem_cons.1 (ht.present r hr)).resolve_left (hrunners r hr)
    · exact fun r hr hid' => ht.prompt r hr (List.mem_cons_of_mem id hid')
  · have hnone : ([Task.runner n id order] ++ w.ready).filterMap (Task.runnerOf m) =
        w.ready.filterMap (Task.runnerOf m) := by
      simp [Task.runnerOf, hm]
    rw [hnone] at ht
    exact ht

end Kept

/-- A task goes to sleep. -/
def World.putToSleep (w : World) (task : Task) : World :=
  { w with sleeping := w.sleeping ++ [task] }

/-- What a turn of a runner that lives does to the world. -/
theorem World.same_turnRunner {d : Depot} (hd : w.depots[n]? = some d) {id : Nat} {runner : Runner}
    (hr : d.queue.runners.find? (fun r => r.id == id) = some runner) :
    ∃ usable order,
      ((w.edit n (d.queue.tick id w.now usable).2
        (World.launching n d.delivery (d.queue.tick id w.now usable).1)).putToSleep
          (.runner n id order)).Same (w.turnRunner n id) := by
  have hdispatched := fun w₀ : World => World.same_dispatched
    (w₀.setQueue n (d.queue.tick id w₀.now (d.delivery.usable w₀.usability)).2) n d.delivery
    (d.queue.tick id w₀.now (d.delivery.usable w₀.usability)).1
  simp only [World.turnRunner, hd, hr]
  refine ⟨d.delivery.usable w.usability, ?_⟩
  split
  · rename_i hfirst
    generalize World.queueLine .debug "Queue runner started" _ = line
    have h := hdispatched (w.note line)
    exact ⟨_, h.now, h.depots, h.ready, congrArg (· ++ [Task.runner n id _]) h.sleeping⟩
  · have h := hdispatched w
    exact ⟨_, h.now, h.depots, h.ready, congrArg (· ++ [Task.runner n id _]) h.sleeping⟩

/-- A dispatch starts no runner. -/
theorem filterMap_runnerOf_launching (n m : Nat) (delivery : Transport) (result : Dispatch) :
    (World.launching n delivery result).filterMap (Task.runnerOf m) = [] := by
  cases result <;> rfl

theorem World.lives_eq {d : Depot} (hd : w.depots[n]? = some d) (id : Nat) :
    w.lives n id = (d.queue.runners.find? fun r => r.id == id).isSome := by
  rw [World.lives, hd, Option.any_some, List.isSome_find?]

/-- What the tick of a runner that lives does to the queue. -/
theorem queue_tick {c : Course} {id : Nat} (h : c.queue.runners.any (·.id == id) = true)
    (now : Nat) (usable : Bool) :
    (c.run [.usability usable, .tick id now]).queue = (c.queue.tick id now usable).2 := by
  simp only [Course.run_cons, Course.run_nil, Course.act, Course.act?, Option.getD_some, h, if_true]
  rfl

namespace Kept

/-- A runner that lives ticks. -/
theorem tick {id order : Nat} {d : Depot} (h : Kept w [.runner n id order] cs)
    (hd : w.depots[n]? = some d) {runner : Runner}
    (hr : d.queue.runners.find? (fun r => r.id == id) = some runner) :
    ∃ usable, Kept (w.turnRunner n id) []
      (Function.update cs n ((cs n).run [.usability usable, .tick id w.now])) := by
  obtain ⟨usable, order', hsame⟩ := World.same_turnRunner hd hr
  refine ⟨usable, Kept.same ?_ hsame⟩
  generalize hnew : World.launching n d.delivery (d.queue.tick id w.now usable).1 = new
  have hawake : ∀ k, ([] ++ (w.ready ++ new)).filterMap (Task.runnerOf k) =
      w.ready.filterMap (Task.runnerOf k) := by
    intro k
    rw [List.nil_append, List.filterMap_append, ← hnew, filterMap_runnerOf_launching,
      List.append_nil]
  have hdeliveries : ∀ k, (([] ++ (w.ready ++ new) ++ (w.sleeping ++
      [Task.runner n id order'])).filterMap (Task.ticketOf k)).Perm
      (([Task.runner n id order] ++ w.ready ++ w.sleeping).filterMap (Task.ticketOf k) ++
        new.filterMap (Task.ticketOf k)) := by
    intro k
    have hone : ∀ o, [Task.runner n id o].filterMap (Task.ticketOf k) = [] := fun _ => rfl
    simp only [List.nil_append, List.filterMap_append, hone, List.append_nil, List.append_assoc]
    exact List.perm_append_comm.append_left _
  refine h.edit hd (w.depots_edit n _ new) rfl (fun m hm => ?_) ?_ fun m ticket state hmem => ?_
  · have hnone : new.filterMap (Task.ticketOf m) = [] := by
      rw [← hnew]
      exact ((World.hires_dispatch n d.delivery d.queue usable).others hm).2
    have hloads := hdeliveries m
    rw [hnone, List.append_nil] at hloads
    have hasleep : (w.sleeping ++ [Task.runner n id order']).filterMap (Task.runnerOf m) =
        w.sleeping.filterMap (Task.runnerOf m) := by
      simp [Task.runnerOf, hm]
    refine ⟨(hawake m).trans ?_, hasleep, hloads⟩
    simp [Task.runnerOf, hm]
  · have ht := h.tended n d hd
    have hhand : ([Task.runner n id order] ++ w.ready).filterMap (Task.runnerOf n) =
        id :: w.ready.filterMap (Task.runnerOf n) := by
      simp [Task.runnerOf]
    have hasleep : (w.sleeping ++ [Task.runner n id order']).filterMap (Task.runnerOf n) =
        w.sleeping.filterMap (Task.runnerOf n) ++ [id] := by
      simp [Task.runnerOf]
    have hticked : ((cs n).run [.usability usable, .tick id w.now]).queue =
        (d.queue.tick id w.now usable).2 := by
      have hany : d.queue.runners.any (·.id == id) = true := by
        rw [← List.isSome_find?, hr]
        rfl
      rw [← ht.queue] at hany ⊢
      exact queue_tick hany w.now usable
    have hopen : ((cs n).run [.usability usable, .tick id w.now]).Open :=
      (ht.calls.act (a := .usability usable) ht.reached rfl).act (ht.reached.act _) rfl
    rw [hhand] at ht
    have hafter := ht.tick (n := n) usable d.delivery (ht.reached.run _) hticked hopen
    rw [hnew, ← hawake, ← hasleep] at hafter
    exact hafter.perm (hdeliveries n)
  · rcases List.mem_append.1 hmem with hmem | hmem
    · exact h.alarms m ticket state hmem
    · cases List.mem_singleton.1 hmem

/-- **A turn of a runner.**  It ticks if it lives; otherwise it is forgotten. -/
theorem turnRunner {id order : Nat} (h : Kept w [.runner n id order] cs) :
    (w.lives n id = false ∧ Kept (w.turnRunner n id) [] cs) ∨
    (w.lives n id = true ∧ ∃ usable, Kept (w.turnRunner n id) []
      (Function.update cs n ((cs n).run [.usability usable, .tick id w.now]))) := by
  cases hd : w.depots[n]? with
  | none =>
    have hdead : w.lives n id = false := by
      rw [World.lives, hd]
      rfl
    have hstay : w.turnRunner n id = w := by simp only [World.turnRunner, hd]
    exact Or.inl ⟨hdead, by rw [hstay]; exact h.drop_runner hdead⟩
  | some d =>
    have hlives := World.lives_eq hd id
    cases hr : d.queue.runners.find? fun r => r.id == id with
    | none =>
      have hdead : w.lives n id = false := by
        rw [hlives, hr]
        rfl
      have hstay : w.turnRunner n id = w := by simp only [World.turnRunner, hd, hr]
      exact Or.inl ⟨hdead, by rw [hstay]; exact h.drop_runner hdead⟩
    | some runner =>
      refine Or.inr ⟨?_, h.tick hd hr⟩
      rw [hlives, hr]
      rfl

end Kept

/-! ## A turn of a delivery -/

/-- To account for the outcome of a delivery is to settle its batch, and to write about it. -/
theorem World.same_settleDelivery {d : Depot} (hd : w.depots[n]? = some d) (ticket : Nat)
    (outcome : Outcome) :
    (w.setQueue n (d.queue.settle ticket outcome).2).Same (w.settleDelivery n ticket outcome) := by
  simp only [World.settleDelivery, hd]
  split <;> exact ⟨rfl, rfl, rfl, rfl⟩

namespace Kept

/-- A delivery goes back to sleep. -/
theorem rest {ticket : Nat} {state state' : Running} (h : Kept w [.delivery n ticket state] cs)
    (ha : ∃ a, state'.alarm? = some a ∧ w.now < a.instant) :
    Kept (w.putToSleep (.delivery n ticket state')) [] cs := by
  refine ⟨fun m d hd => ?_, fun m ticket' state'' hmem => ?_⟩
  · have ht := h.tended m d hd
    have hhand : [Task.delivery n ticket state].filterMap (Task.runnerOf m) = [] := rfl
    have hasleep : (w.sleeping ++ [Task.delivery n ticket state']).filterMap (Task.runnerOf m) =
        w.sleeping.filterMap (Task.runnerOf m) := by
      rw [List.filterMap_append]
      exact List.append_nil _
    have hsame : [Task.delivery n ticket state'].filterMap (Task.ticketOf m) =
        [Task.delivery n ticket state].filterMap (Task.ticketOf m) := rfl
    rw [List.filterMap_append, hhand, List.nil_append, ← hasleep] at ht
    refine ht.perm ?_
    show (([] ++ w.ready ++ (w.sleeping ++ [Task.delivery n ticket state'])).filterMap
      (Task.ticketOf m)).Perm _
    simp only [List.nil_append, List.filterMap_append, List.append_assoc, hsame]
    rw [← List.append_assoc]
    exact List.perm_append_comm
  · rcases List.mem_append.1 hmem with hmem | hmem
    · exact h.alarms m ticket' state'' hmem
    · cases List.mem_singleton.1 hmem
      exact ha

/-- A delivery has ended, and its batch is accounted for. -/
theorem settle {ticket : Nat} {state : Running} (h : Kept w [.delivery n ticket state] cs)
    (ending : Ending) :
    ∃ actions, (∀ a ∈ actions, a = .finish ticket ending ∨ a = .land ticket) ∧
      Kept (w.settleDelivery n ticket ending.outcome) []
        (Function.update cs n ((cs n).run actions)) := by
  -- the other queues do not notice
  have hothers : ∀ m, n ≠ m → SameTasks m w [.delivery n ticket state] w [] := by
    intro m hm
    have hhand : [Task.delivery n ticket state].filterMap (Task.ticketOf m) = [] := by
      simp [Task.ticketOf, hm]
    refine ⟨rfl, rfl, ?_⟩
    rw [List.append_assoc, List.append_assoc, List.filterMap_append (l := [Task.delivery n ticket state]),
      hhand]
    exact List.Perm.refl _
  cases hd : w.depots[n]? with
  | none =>
    have hstay : w.settleDelivery n ticket ending.outcome = w := by
      simp only [World.settleDelivery, hd]
    refine ⟨[], List.forall_mem_nil _, ?_⟩
    rw [hstay, Course.run_nil, Function.update_eq_self]
    refine ⟨fun m d' hd' => ?_, h.alarms⟩
    have hm : n ≠ m := by
      rintro rfl
      rw [hd] at hd'
      cases hd'
    exact (h.tended m d' hd').perm (hothers m hm).loads
  | some d =>
    have ht := h.tended n d hd
    have hticket : ([Task.delivery n ticket state] ++ w.ready ++ w.sleeping).filterMap
        (Task.ticketOf n) = ticket :: (w.ready ++ w.sleeping).filterMap (Task.ticketOf n) := by
      simp [Task.ticketOf]
    rw [hticket] at ht
    refine ⟨[.finish ticket ending, .land ticket], by simp, ?_⟩
    refine Kept.same ?_ (World.same_settleDelivery hd ticket ending.outcome)
    have hsame : ∀ m, n ≠ m → SameTasks m w [.delivery n ticket state]
        (w.setQueue n (d.queue.settle ticket ending.outcome).2) [] :=
      fun m hm => ⟨(hothers m hm).awake, (hothers m hm).asleep, (hothers m hm).loads⟩
    exact h.edit hd (w.depots_edit n _ []) rfl hsame (ht.settle ending) h.alarms

end Kept

/-- The queue `n` may perform the action when this happens: no runner ticks, and none is started by a
call unless this is the call. -/
def Suits (e : Happening) (n : Nat) : Action → Prop
  | .tick _ _ => False
  | .start tasks => tasks = true → e = .start n true
  | _ => True

namespace Kept

/-- **A turn of a delivery.** -/
theorem turnDelivery {ticket : Nat} {state : Running} (h : Kept w [.delivery n ticket state] cs) :
    ∃ cs', Kept (w.turnDelivery n ticket state) [] cs' ∧ Continues (Suits .turn) cs cs' := by
  have hwaits := resume_waits state w
  have hdrifts := resume_drifts state w
  obtain ⟨cs₁, h₁, hc₁⟩ := h.stirs hdrifts.stirs (by
    rintro _ _ ⟨events, tasks, rfl⟩
    rfl)
  replace hc₁ : Continues (Suits .turn) cs cs₁ := hc₁.mono (by
    rintro _ _ ⟨events, tasks, rfl⟩
    trivial)
  have hnow := hdrifts.now
  have hsettle : ∀ ending : Ending, ∃ cs',
      Kept ((resume state w).2.settleDelivery n ticket ending.outcome) [] cs' ∧
        Continues (Suits .turn) cs cs' := by
    intro ending
    obtain ⟨actions, hactions, hkept⟩ := h₁.settle ending
    refine ⟨_, hkept, hc₁.trans (.update cs₁ n fun a ha => Or.inl ?_)⟩
    rcases hactions a ha with rfl | rfl <;> trivial
  unfold World.turnDelivery
  generalize hresult : resume state w = result at hwaits hnow h₁ hsettle ⊢
  obtain ⟨state', w₁⟩ := result
  have hsleep : state' ≠ .crashed → (∀ outcome, state' ≠ .done outcome) →
      ∃ cs', Kept (w₁.putToSleep (.delivery n ticket state')) [] cs' ∧
        Continues (Suits .turn) cs cs' := by
    intro hcrashed hdone
    refine ⟨cs₁, h₁.rest ?_, hc₁⟩
    rw [show w₁.now = w.now from hnow]
    exact hwaits.alarm hcrashed hdone
  cases state' with
  | done outcome => exact hsettle (.returned outcome)
  | crashed => exact hsettle .crashed
  | asleep alarm next => exact hsleep Running.noConfusion fun _ => Running.noConfusion
  | all parts next => exact hsleep Running.noConfusion fun _ => Running.noConfusion

end Kept

/-! ## The clock -/

/-- What the clock makes of the tasks that sleep: it wakes some, leaves others asleep, and forgets
those that have no alarm. -/
structure World.Woken (w w' : World) (instant : Nat) : Prop where
  /-- No task with an alarm is lost. -/
  tasks : (w'.ready ++ w'.sleeping).Perm (w.sleeping.filter fun t => (w.alarm? t).isSome)
  /-- A task that can go on has an alarm that has gone off. -/
  awake : ∀ t ∈ w'.ready, t ∈ w.sleeping ∧ ∃ a, w.alarm? t = some a ∧ a.instant ≤ instant
  /-- A task that sleeps has an alarm that has not gone off. -/
  asleep : ∀ t ∈ w'.sleeping, t ∈ w.sleeping ∧ ∃ a, w.alarm? t = some a ∧ instant < a.instant

theorem World.woken_moveClock (hr : w.ready = []) (instant : Nat) :
    w.Woken (w.moveClock instant) instant := by
  unfold World.moveClock
  generalize htagged : w.sleeping.filterMap (fun t => (w.alarm? t).map fun a => (a, t)) = tagged
  have hmem : ∀ a t, (a, t) ∈ tagged → t ∈ w.sleeping ∧ w.alarm? t = some a := by
    intro a t ht
    rw [← htagged] at ht
    obtain ⟨t', ht', hmap⟩ := List.mem_filterMap.1 ht
    obtain ⟨a', ha', heq⟩ := Option.map_eq_some_iff.1 hmap
    cases heq
    exact ⟨ht', ha'⟩
  have hsnd : tagged.map Prod.snd = w.sleeping.filter fun t => (w.alarm? t).isSome := by
    rw [← htagged, List.map_filterMap, ← List.filterMap_eq_filter]
    refine List.filterMap_congr fun t _ => ?_
    cases ha : w.alarm? t <;> simp [Option.guard, ha]
  simp only [List.partition_eq_filter_filter]
  refine ⟨?_, fun t ht => ?_, fun t ht => ?_⟩
  · rw [hr, List.nil_append, ← List.map_append, ← hsnd]
    refine List.Perm.map _ ?_
    exact ((List.mergeSort_perm _ _).append_right _).trans (List.filter_append_perm _ tagged)
  · rw [hr, List.nil_append] at ht
    obtain ⟨⟨a, t'⟩, hmem', rfl⟩ := List.mem_map.1 ht
    obtain ⟨htag, hle⟩ := List.mem_filter.1 ((List.mergeSort_perm _ _).mem_iff.1 hmem')
    obtain ⟨hs, ha⟩ := hmem a t' htag
    exact ⟨hs, a, ha, of_decide_eq_true hle⟩
  · obtain ⟨⟨a, t'⟩, hmem', rfl⟩ := List.mem_map.1 ht
    obtain ⟨htag, hgt⟩ := List.mem_filter.1 hmem'
    obtain ⟨hs, ha⟩ := hmem a t' htag
    exact ⟨hs, a, ha, by simpa using hgt⟩

/-- A runner that lives has the alarm of its next tick. -/
theorem World.alarm?_runner {d : Depot} (hd : w.depots[n]? = some d) (hm : d.queue.crew.Manned)
    {r : Runner} (hr : r ∈ d.queue.runners) (order : Nat) :
    w.alarm? (.runner n r.id order) = r.due.map fun due => ⟨due, order⟩ := by
  have hfind : d.queue.runners.find? (fun r' => r'.id == r.id) = some r := by
    generalize hk : d.queue.crew = k at hm
    cases hm with
    | on stopped r₀ started hid =>
      have hrunners : d.queue.runners = [r₀] := congrArg Crew.runners hk
      rw [hrunners, List.mem_singleton] at hr
      rw [hrunners, hr]
      simp
    | off stopped started =>
      have hrunners : d.queue.runners = [] := congrArg Crew.runners hk
      rw [hrunners] at hr
      cases hr
  simp only [World.alarm?, hd, Option.bind_eq_bind, Option.bind_some, hfind]
  cases r.due <;> rfl

theorem Task.eq_runner {t : Task} {id : Nat} (h : t.runnerOf n = some id) :
    ∃ order, t = .runner n id order := by
  cases t with
  | runner m id' order =>
    simp only [Task.runnerOf] at h
    split at h
    · rename_i hm
      cases h
      exact ⟨order, by rw [hm]⟩
    · cases h
  | delivery m ticket state => cases h

theorem Task.eq_delivery {t : Task} {ticket : Nat} (h : t.ticketOf n = some ticket) :
    ∃ state, t = .delivery n ticket state := by
  cases t with
  | runner m id order => cases h
  | delivery m ticket' state =>
    simp only [Task.ticketOf] at h
    split at h
    · rename_i hm
      cases h
      exact ⟨state, by rw [hm]⟩
    · cases h

/-- Deliveries that sleep have alarms, so the clock forgets none. -/
theorem Kept.loads_woken {w' : World} {hand : List Task} {instant : Nat} (h : Kept w hand cs)
    (hw : w.Woken w' instant) (m : Nat) :
    ((w'.ready ++ w'.sleeping).filterMap (Task.ticketOf m)).Perm
      (w.sleeping.filterMap (Task.ticketOf m)) := by
  have hall : (w.sleeping.filter fun t => (w.alarm? t).isSome).filterMap (Task.ticketOf m) =
      w.sleeping.filterMap (Task.ticketOf m) := by
    rw [List.filterMap_filter]
    refine List.filterMap_congr fun t htask => ?_
    cases t with
    | runner m' id order => simp [Task.ticketOf]
    | delivery m' ticket state =>
      obtain ⟨a, ha, -⟩ := h.alarms m' ticket state htask
      simp [World.alarm?, ha]
  rw [← hall]
  exact hw.tasks.filterMap (Task.ticketOf m)

/-- **The clock** wakes runners at the instant at which their ticks are due, and loses no task. -/
theorem Kept.clock (h : Kept w [] cs) {instant : Nat} (hp : w.possible (.clock instant) = true) :
    Kept (w.moveClock instant) [] cs := by
  rw [World.possible, Bool.and_eq_true, List.isEmpty_iff, List.all_eq_true] at hp
  obtain ⟨hr, hlate⟩ := hp
  have hw := World.woken_moveClock hr instant
  have hbound : ∀ t ∈ w.sleeping, ∀ a, w.alarm? t = some a → instant ≤ a.instant := by
    intro t ht a ha
    have hall := hlate t ht
    rw [ha, Option.all_some] at hall
    exact of_decide_eq_true hall
  refine ⟨fun m d hd => ?_, fun m ticket state hmem => ?_⟩
  · replace hd : w.depots[m]? = some d := hd
    have ht := h.tended m d hd
    rw [hr] at ht
    have hmanned : d.queue.crew.Manned := ht.queue ▸ ht.reached.manned
    have halarm := fun r hmem => World.alarm?_runner hd hmanned (r := r) hmem
    have hids : ((w.moveClock instant).ready.filterMap (Task.runnerOf m) ++
        (w.moveClock instant).sleeping.filterMap (Task.runnerOf m)).Perm
        ((w.sleeping.filter fun t => (w.alarm? t).isSome).filterMap (Task.runnerOf m)) := by
      rw [← List.filterMap_append]
      exact hw.tasks.filterMap _
    have hsub : ((w.sleeping.filter fun t => (w.alarm? t).isSome).filterMap (Task.runnerOf m)).Sublist
        (w.sleeping.filterMap (Task.runnerOf m)) := List.filter_sublist.filterMap _
    refine ⟨ht.reached, ht.queue, ht.calls, hids.nodup_iff.2 (hsub.nodup ht.nodup), ?_, ?_, ?_, ?_, ?_⟩
    · exact fun id hid => ht.started id (hsub.subset (hids.mem_iff.1 hid))
    · intro r hmem
      refine hids.mem_iff.2 (List.mem_filterMap.2 ?_)
      obtain ⟨t, htask, hof⟩ := List.mem_filterMap.1 (ht.present r hmem)
      obtain ⟨order, rfl⟩ := Task.eq_runner hof
      obtain ⟨due, hdue, -⟩ := ht.patient r hmem (List.mem_filterMap.2 ⟨_, htask, hof⟩)
      refine ⟨_, List.mem_filter.2 ⟨htask, ?_⟩, hof⟩
      rw [halarm r hmem, hdue]
      rfl
    · intro r hmem hid due hdue
      obtain ⟨t, htask, hof⟩ := List.mem_filterMap.1 hid
      obtain ⟨order, rfl⟩ := Task.eq_runner hof
      obtain ⟨hs, a, ha, hle⟩ := hw.awake _ htask
      have hge := hbound _ hs a ha
      rw [halarm r hmem, hdue] at ha
      cases ha
      exact Nat.le_antisymm hle hge
    · intro r hmem hid
      obtain ⟨t, htask, hof⟩ := List.mem_filterMap.1 hid
      obtain ⟨order, rfl⟩ := Task.eq_runner hof
      obtain ⟨-, a, ha, hlt⟩ := hw.asleep _ htask
      rw [halarm r hmem] at ha
      obtain ⟨due, hdue, rfl⟩ := Option.map_eq_some_iff.1 ha
      exact ⟨due, hdue, hlt⟩
    · exact (h.loads_woken hw m).trans ht.loads
  · obtain ⟨-, a, ha, hlt⟩ := hw.asleep _ hmem
    exact ⟨a, ha, hlt⟩

/-! ## Whatever happens -/

/-- A happening has taken the queue `n` from one course to another: no runner was started by a call
but if the happening is that call, and there was a tick if there was one. -/
def Accounts (w : World) (e : Happening) (n : Nat) (c c' : Course) : Prop :=
  ∃ actions, c' = c.run actions ∧ (.start true ∈ actions → e = .start n true) ∧
    ((w.ticksIn n e = [] ∧ ∀ id now, .tick id now ∉ actions) ∨
      ∃ usable id, w.ticksIn n e = [⟨id, w.now⟩] ∧ actions = [.usability usable, .tick id w.now])

theorem Continues.accounts {kind : Nat → Action → Prop} {cs cs' : Nat → Course} {e : Happening}
    (h : Continues kind cs cs') (hk : ∀ n a, kind n a → Suits e n a)
    (hnone : ∀ n, w.ticksIn n e = []) (n : Nat) : Accounts w e n (cs n) (cs' n) := by
  obtain ⟨actions, hrun, hactions⟩ := h n
  refine ⟨actions, hrun, fun hmem => ?_, Or.inl ⟨hnone n, fun id now hmem => ?_⟩⟩
  · rcases hactions _ hmem with hkind | ⟨usable, heq⟩
    · exact hk n _ hkind rfl
    · cases heq
  · rcases hactions _ hmem with hkind | ⟨usable, heq⟩
    · exact hk n _ hkind
    · cases heq

/-- A happening that performs one action of one queue, which is not a tick. -/
theorem Kept.perform {w' : World} {e : Happening} {a : Action} (h : Kept w [] cs)
    (hs : Stirs (fun m b => m = n ∧ b = a) w w') (ha : a.endsCall = false) (hsuits : Suits e n a)
    (hnone : ∀ m, w.ticksIn m e = []) :
    ∃ cs', Kept w' [] cs' ∧ ∀ m, Accounts w e m (cs m) (cs' m) := by
  obtain ⟨cs', hkept, hc⟩ := h.stirs hs (by
    rintro m b ⟨-, rfl⟩
    exact ha)
  refine ⟨cs', hkept, hc.accounts ?_ hnone⟩
  rintro m b ⟨rfl, rfl⟩
  exact hsuits

theorem accounts_stay {e : Happening} (hnone : w.ticksIn n e = []) (c : Course) :
    Accounts w e n c c :=
  ⟨[], rfl, nofun, Or.inl ⟨hnone, nofun⟩⟩

/-- A call goes on, which may store events. -/
theorem Kept.drifts {w' : World} {e : Happening} (h : Kept w [] cs) (hd : Drifts w w')
    (hnone : ∀ m, w.ticksIn m e = []) :
    ∃ cs', Kept w' [] cs' ∧ ∀ m, Accounts w e m (cs m) (cs' m) := by
  obtain ⟨cs', hkept, hc⟩ := h.stirs hd.stirs (by
    rintro _ _ ⟨events, tasks, rfl⟩
    rfl)
  refine ⟨cs', hkept, hc.accounts ?_ hnone⟩
  rintro m _ ⟨events, tasks, rfl⟩
  trivial

namespace World

theorem happen_talk (w : World) (state : Running) :
    w.happen (.errand (.talk state)) = (resume state w).2 := by
  simp only [happen, Errand.turn]
  split <;> simp [*]

theorem happen_flush (w : World) (n id : Nat) :
    w.happen (.errand (.flush n id)) = turnFlush (w.flushFuel n) w n id := by
  simp only [happen, Errand.turn]
  split <;> rfl

theorem happen_join (w : World) (n ticket : Nat) : w.happen (.errand (.join n ticket)) = w := by
  simp only [happen, Errand.turn]
  split <;> rfl

end World

theorem Kept.errand (h : Kept w [] cs) (e : Errand) :
    ∃ cs', Kept (w.happen (.errand e)) [] cs' ∧ ∀ m, Accounts w (.errand e) m (cs m) (cs' m) := by
  have hstay : ∃ cs', Kept w [] cs' ∧ ∀ m, Accounts w (.errand e) m (cs m) (cs' m) :=
    ⟨cs, h, fun m => accounts_stay rfl (cs m)⟩
  cases e with
  | nap wake => exact hstay
  | talk state =>
    rw [World.happen_talk]
    exact h.drifts (resume_drifts state w) fun _ => rfl
  | flush n id =>
    rw [World.happen_flush]
    exact h.perform (w.stirs_turnFlush (w.flushFuel n) n id) rfl trivial fun _ => rfl
  | join n ticket =>
    rw [World.happen_join]
    exact hstay

/-- A call takes a turn. -/
theorem Kept.talk (h : Kept w [] cs) (r : Running) : ∃ cs', Kept (resume r w).2 [] cs' := by
  obtain ⟨cs', hkept, -⟩ := h.errand (.talk r)
  rw [World.happen_talk] at hkept
  exact ⟨cs', hkept⟩

theorem Kept.turn (h : Kept w [] cs) :
    ∃ cs', Kept (w.happen .turn) [] cs' ∧ ∀ m, Accounts w .turn m (cs m) (cs' m) := by
  cases hr : w.ready with
  | nil =>
    have hstay : w.happen .turn = w := by simp only [World.happen, hr]
    rw [hstay]
    exact ⟨cs, h, fun m => accounts_stay (by simp only [World.ticksIn, hr]) (cs m)⟩
  | cons task rest =>
    rw [World.happen_turn hr]
    cases task with
    | runner n id order =>
      have hticks : ∀ m, w.ticksIn m .turn =
          if n = m ∧ w.lives m id = true then [⟨id, w.now⟩] else [] := by
        intro m
        simp only [World.ticksIn, hr]
      rcases (h.take hr).turnRunner with ⟨hdead, hkept⟩ | ⟨hlives, usable, hkept⟩
      · refine ⟨cs, hkept, fun m => accounts_stay ?_ (cs m)⟩
        rw [hticks, if_neg]
        rintro ⟨rfl, hlives⟩
        exact Bool.false_ne_true (hdead.symm.trans hlives)
      · refine ⟨_, hkept, fun m => ?_⟩
        by_cases hm : n = m
        · subst hm
          refine ⟨_, by rw [Function.update_self], fun hmem => ?_,
            Or.inr ⟨usable, id, ?_, rfl⟩⟩
          · simp at hmem
          · rw [hticks, if_pos ⟨rfl, hlives⟩]
        · rw [Function.update_of_ne (Ne.symm hm)]
          exact accounts_stay (by rw [hticks, if_neg fun hand => hm hand.1]) (cs m)
    | delivery n ticket state =>
      obtain ⟨cs', hkept, hc⟩ := (h.take hr).turnDelivery
      refine ⟨cs', hkept, hc.accounts (fun _ _ ha => ha) fun m => ?_⟩
      simp only [World.ticksIn, hr]

/-- **Whatever happens keeps the world.** -/
theorem kept_happen {e : Happening} (h : Kept w [] cs) (hp : w.possible e = true) :
    ∃ cs', Kept (w.happen e) [] cs' ∧ ∀ m, Accounts w e m (cs m) (cs' m) := by
  cases e with
  | push n events inside =>
    have hplace : Kept { w with tasks := inside } [] cs := h.same ⟨rfl, rfl, rfl, rfl⟩
    obtain ⟨cs', hkept, hacc⟩ := hplace.perform (e := .push n events inside)
      (World.stirs_enqueue _ n events) rfl trivial fun _ => rfl
    exact ⟨cs', hkept.same ⟨rfl, rfl, rfl, rfl⟩, hacc⟩
  | start n inside =>
    have hplace : Kept { w with tasks := inside } [] cs := h.same ⟨rfl, rfl, rfl, rfl⟩
    obtain ⟨cs', hkept, hacc⟩ := hplace.perform (e := .start n inside)
      (World.stirs_startRunner _ n) rfl (congrArg (Happening.start n)) fun _ => rfl
    exact ⟨cs', hkept.same ⟨rfl, rfl, rfl, rfl⟩, hacc⟩
  | stop n => exact h.perform (w.stirs_stopRunner n) rfl trivial fun _ => rfl
  | faults n faults =>
    simp only [World.happen]
    split
    · exact ⟨cs, h, fun m => accounts_stay rfl (cs m)⟩
    · rename_i d hd
      exact h.perform (w.stirs_faults hd faults) rfl trivial fun _ => rfl
  | leaves leaves => exact ⟨cs, h.same ⟨rfl, rfl, rfl, rfl⟩, fun m => accounts_stay rfl (cs m)⟩
  | dispatch n => exact h.perform (w.stirs_dispatchNext n) rfl trivial fun _ => rfl
  | callFlush n => exact h.perform (w.stirs_callFlush n) rfl trivial fun _ => rfl
  | errand e => exact h.errand e
  | turn => exact h.turn
  | clock instant => exact ⟨cs, h.clock hp, fun m => accounts_stay rfl (cs m)⟩

/-! ## Histories -/

/-- Nothing has happened in the world: its queues are new, and there are no tasks. -/
structure World.Fresh (w : World) : Prop where
  /-- No task can go on. -/
  ready : w.ready = []
  /-- No task sleeps. -/
  sleeping : w.sleeping = []
  /-- The queues are new. -/
  depots : ∀ d ∈ w.depots, ∃ settings store, d.queue = Queue.ofStore settings store

/-- In a fresh world every task is where it belongs, and no runner lives. -/
theorem World.Fresh.kept (h : w.Fresh) :
    ∃ cs, Kept w [] cs ∧ ∀ m, (cs m).queue.runners = [] := by
  have hcourse : ∀ m : Nat, ∃ c : Course, c.queue.runners = [] ∧ ∀ d : Depot,
      w.depots[m]? = some d → Tended d.queue w.now [] [] [] c := by
    intro m
    cases hd : w.depots[m]? with
    | none => exact ⟨Course.begin {} {}, rfl, nofun⟩
    | some d =>
      obtain ⟨settings, store, hq⟩ := h.depots d (List.mem_of_getElem? hd)
      refine ⟨Course.begin settings store, rfl, fun d' hd' => ?_⟩
      cases hd'
      rw [hq]
      exact ⟨⟨settings, store, [], rfl⟩, rfl, nofun, List.nodup_nil, nofun, nofun, nofun, nofun,
        List.Perm.refl _⟩
  obtain ⟨cs, hcs⟩ := Classical.skolem.1 hcourse
  refine ⟨cs, ⟨fun m d hd => ?_, fun m ticket state hmem => ?_⟩, fun m => (hcs m).1⟩
  · rw [h.ready, h.sleeping]
    exact (hcs m).2 d hd
  · rw [h.sleeping] at hmem
    cases hmem

/-- **What every happening keeps, a history keeps.** -/
theorem kept_follow {P : List Happening → (Nat → Course) → Prop} (h : Kept w [] cs) (hnil : P [] cs)
    (hstep : ∀ hs e cs₁ cs₂, Kept (w.follow hs) [] cs₁ → P hs cs₁ →
      (∀ m, Accounts (w.follow hs) e m (cs₁ m) (cs₂ m)) → P (hs ++ [e]) cs₂)
    {hs : List Happening} (hp : w.Possible hs) :
    ∃ cs', Kept (w.follow hs) [] cs' ∧ P hs cs' := by
  induction hs using List.reverseRecOn with
  | nil => exact ⟨cs, h, hnil⟩
  | append_singleton hs e ih =>
    obtain ⟨hps, hpe⟩ := World.possible_append.1 hp
    obtain ⟨cs₁, hkept, hP⟩ := ih hps
    obtain ⟨cs₂, hkept', hacc⟩ := kept_happen hkept hpe.1
    rw [World.follow_concat]
    exact ⟨cs₂, hkept', hstep hs e cs₁ cs₂ hkept hP hacc⟩

end EventRelay.Run
