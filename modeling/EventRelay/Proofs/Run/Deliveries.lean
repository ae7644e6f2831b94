import EventRelay.Proofs.Queue.Progress
import EventRelay.Proofs.Run.LifeCycle

/-!
# What becomes of stored events

An event that is stored in a queue stays there until a batch that holds its id was delivered.  The
call that delivers a batch is a task of the world, and such a task is nothing else than a call of the
queue's own transport for a batch in flight.

* `Running.LeftOf` — what is left of a call after some of its turns.
* `World.Laden` — every delivery among the tasks is a call of the queue's transport for a batch in
  flight.
* `World.Grows` — no batch has gone out of flight and no event out of a store, and new tasks are as
  they should be; `grows_happen` says that **only the turn of a delivery does more than that**.
* `Handles`, `World.Handled` — the transport of a queue has handled a batch, in a happening and in a
  history.
* `laden_follow` — **deliveries are calls for their batches**, in every history.
* `stored_or_handled` — **a stored event stays**, unless a batch with its id was handled with success.
-/

namespace EventRelay

/-! ## Queues that lose nothing -/

namespace Queue

/-- No batch has gone out of flight, and no event out of the store. -/
structure Keeps (q q' : Queue) : Prop where
  /-- The batches in flight are still in flight. -/
  flights : ∀ f ∈ q.flights, f ∈ q'.flights
  /-- The stored events are still stored. -/
  events : ∀ e ∈ q.store.events, e ∈ q'.store.events

theorem Keeps.of_eq {q q' : Queue} (hf : q'.flights = q.flights) (hs : q'.store = q.store) :
    q.Keeps q' := by
  constructor
  · intro f hmem
    rwa [hf]
  · intro e hmem
    rwa [hs]

theorem keeps_push {q q' : Queue} {events : List Event} (h : q.push events = .ok q') :
    q.Keeps q' := by
  unfold push at h
  cases hw : q.store.write events with
  | error e =>
    rw [hw] at h
    cases h
  | ok store =>
    rw [hw] at h
    cases h
    refine ⟨fun f hf => hf, fun e he => ?_⟩
    rw [Store.events_write hw]
    exact List.mem_append_left events he

theorem keeps_start (q : Queue) (tasks : Bool) : q.Keeps (q.start tasks).2 := by
  obtain ⟨_, _, _, _, _, hq⟩ := q.start_frame tasks
  rw [hq]
  exact .of_eq rfl rfl

theorem keeps_stop (q : Queue) : q.Keeps q.stop.2 := by
  obtain ⟨_, _, _, _, hq⟩ := q.stop_frame
  rw [hq]
  exact .of_eq rfl rfl

theorem store_dispatch (q : Queue) (usable : Bool) : (q.dispatch usable).2.store = q.store := by
  obtain ⟨_, _, _, _, _, _, hq⟩ := q.dispatch_frame usable
  rw [hq]

/-- A dispatch keeps what there is, and a batch that it has sent is in flight. -/
theorem keeps_dispatch (q : Queue) (usable : Bool) :
    q.Keeps (q.dispatch usable).2 ∧
      ∀ flight, (q.dispatch usable).1 = .sent flight → flight ∈ (q.dispatch usable).2.flights := by
  have hstore := q.store_dispatch usable
  rcases Run.World.flights_dispatch q usable with ⟨flight, hsent, hf⟩ | ⟨hnone, hf⟩
  · refine ⟨⟨fun f hmem => ?_, fun e he => by rwa [hstore]⟩, fun flight' hsent' => ?_⟩
    · rw [hf]
      exact List.mem_append_left _ hmem
    · rw [hsent] at hsent'
      cases hsent'
      rw [hf]
      exact List.mem_append_right _ (List.mem_singleton.2 rfl)
  · exact ⟨.of_eq hf hstore, fun flight hsent => absurd hsent (hnone flight)⟩

/-- So does a step of a flush. -/
theorem keeps_flushStep {q q' : Queue} {id : Nat} {progress : Progress}
    (h : q.flushStep id = some (progress, q')) :
    q.Keeps q' ∧ ∀ flight, progress = .sent flight → flight ∈ q'.flights := by
  obtain ⟨f, q₀, g, -, hm, rfl⟩ := flushMove_of_flushStep h
  obtain ⟨_, _, _, hr⟩ := q.release_frame
  have hstore : (q₀.modifyFlush id g).store = q.store := hm.store
  cases hm with
  | claim batch hs hc =>
    refine ⟨⟨fun f hmem => List.mem_append_left _ hmem, fun e he => by rwa [hstore]⟩, ?_⟩
    rintro flight hsent
    cases hsent
    exact List.mem_append_right _ (List.mem_singleton.2 rfl)
  | exhaust hs hc => exact ⟨.of_eq (by rw [hr]; rfl) hstore, nofun⟩
  | giveUp e hs hc => exact ⟨.of_eq (by rw [hr]; rfl) hstore, nofun⟩
  | _ => exact ⟨.of_eq rfl hstore, nofun⟩

/-- **A batch that settles** takes its events out of the store if it was delivered, and no others. -/
theorem events_settle {q : Queue} {ticket : Nat} {flight : Flight} (outcome : Outcome)
    (hf : q.flights.find? (fun f => f.ticket == ticket) = some flight) {e : Event}
    (he : e ∈ q.store.events) :
    e ∈ (q.settle ticket outcome).2.store.events ∨
      (outcome = .ok () ∧ e.id ∈ flight.batch.ids) := by
  rw [store_settle_of_flight outcome hf, account.eq_def]
  cases outcome with
  | error err => exact Or.inl he
  | ok u =>
    dsimp only
    cases hdelete : q.store.delete flight.batch.ids with
    | error err => exact Or.inl he
    | ok store =>
      by_cases hid : e.id ∈ flight.batch.ids
      · exact Or.inr ⟨rfl, hid⟩
      · refine Or.inl ?_
        rw [show store.events = _ from Store.events_delete hdelete, Store.without, List.mem_filter]
        exact ⟨he, by simpa using hid⟩

end Queue

namespace Run

open Queue

/-! ## Tasks that are calls -/

/-- What is left of a call after some of its turns. -/
inductive Running.LeftOf (d : Dialogue) : Running → Prop
  /-- It has not begun. -/
  | begun : LeftOf d (.ofDialogue d)
  /-- It has had one more turn. -/
  | resumed {r : Running} (h : LeftOf d r) (w : World) : LeftOf d (resume r w).1

/-- The task is that of a runner, or a call of the transport of a queue for a batch in flight, which
begins with a line about it. -/
def Task.Laden (w : World) : Task → Prop
  | .runner _ _ _ => True
  | .delivery n ticket state => ∃ d batch line, w.depots[n]? = some d ∧
      ⟨ticket, batch⟩ ∈ d.queue.flights ∧ state.LeftOf (.note line (d.delivery.handle batch))

namespace World

/-- Every delivery is a call of the transport of its queue for a batch in flight. -/
def Laden (w : World) : Prop :=
  ∀ t ∈ w.ready ++ w.sleeping, t.Laden w

/-- Queues keep what they have, and new tasks are as they should be. -/
structure Grows (w w' : World) : Prop where
  /-- No queue goes, none loses anything, and none gets another transport. -/
  depots : ∀ (n : Nat) (d : Depot), w.depots[n]? = some d →
    ∃ d' : Depot, w'.depots[n]? = some d' ∧ d'.delivery = d.delivery ∧ d.queue.Keeps d'.queue
  /-- A task was there before, or it is as it should be. -/
  tasks : ∀ t ∈ w'.ready ++ w'.sleeping, t ∈ w.ready ++ w.sleeping ∨ t.Laden w'

end World

variable {w w' w'' : World} {n : Nat} {d : Depot}

theorem Task.Laden.grows {t : Task} (h : t.Laden w) (hg : w.Grows w') : t.Laden w' := by
  cases t with
  | runner m id order => trivial
  | delivery m ticket state =>
    obtain ⟨d, batch, line, hd, hf, hleft⟩ := h
    obtain ⟨d', hd', hdelivery, hkeeps⟩ := hg.depots m d hd
    exact ⟨d', batch, line, hd', hkeeps.flights _ hf, by rwa [hdelivery]⟩

namespace World

theorem Grows.laden (h : w.Grows w') (hl : w.Laden) : w'.Laden := by
  intro t ht
  rcases h.tasks t ht with hold | hnew
  · exact (hl t hold).grows h
  · exact hnew

theorem Grows.trans (h : w.Grows w') (h' : w'.Grows w'') : w.Grows w'' := by
  constructor
  · intro n d hd
    obtain ⟨d', hd', hdelivery, hkeeps⟩ := h.depots n d hd
    obtain ⟨d'', hd'', hdelivery', hkeeps'⟩ := h'.depots n d' hd'
    exact ⟨d'', hd'', hdelivery'.trans hdelivery,
      fun f hf => hkeeps'.flights f (hkeeps.flights f hf),
      fun e he => hkeeps'.events e (hkeeps.events e he)⟩
  · intro t ht
    rcases h'.tasks t ht with hold | hnew
    · exact (h.tasks t hold).imp id fun hladen => hladen.grows h'
    · exact Or.inr hnew

/-- The queues are the same, and there are no new tasks. -/
theorem Grows.of_eq (hdepots : w'.depots = w.depots)
    (htasks : ∀ t ∈ w'.ready ++ w'.sleeping, t ∈ w.ready ++ w.sleeping) : w.Grows w' := by
  refine ⟨fun n d hd => ⟨d, ?_, rfl, .of_eq rfl rfl⟩, fun t ht => Or.inl (htasks t ht)⟩
  rwa [hdepots]

theorem Grows.of_same (h : w.Same w') : w.Grows w' := by
  refine .of_eq h.depots fun t ht => ?_
  rwa [h.ready, h.sleeping] at ht

theorem Grows.refl (w : World) : w.Grows w :=
  .of_same (.refl w)

/-- A queue is replaced by one that keeps what it has, and tasks are started. -/
theorem grows_edit (hd : w.depots[n]? = some d) {q : Queue} (hq : d.queue.Keeps q) {new : List Task}
    (hnew : ∀ t ∈ new, t.Laden (w.edit n q new)) : w.Grows (w.edit n q new) := by
  constructor
  · intro m d₀ hd₀
    rw [depots_edit]
    by_cases hm : n = m
    · subst hm
      rw [hd] at hd₀
      cases hd₀
      exact ⟨{ d with queue := q }, by simp [hd], rfl, hq⟩
    · exact ⟨d₀, by rw [if_neg hm, hd₀], rfl, .of_eq rfl rfl⟩
  · intro t ht
    simp only [edit, List.mem_append] at ht ⊢
    rcases ht with (hready | ht) | hsleeping
    · exact Or.inl (Or.inl hready)
    · exact Or.inr (hnew t ht)
    · exact Or.inl (Or.inr hsleeping)

theorem grows_setQueue (hd : w.depots[n]? = some d) {q : Queue} (hq : d.queue.Keeps q) :
    w.Grows (w.setQueue n q) := by
  have hedit : w.Grows (w.edit n q []) := grows_edit hd hq nofun
  exact hedit.trans (.of_same ⟨rfl, rfl, (List.append_nil _).symm, rfl⟩)

/-- A task goes to sleep. -/
theorem grows_putToSleep {t : Task} (h : t.Laden w) : w.Grows (w.putToSleep t) := by
  refine ⟨fun m d hd => ⟨d, hd, rfl, .of_eq rfl rfl⟩, fun t' ht => ?_⟩
  simp only [putToSleep, ← List.append_assoc, List.mem_append (t := [t]), List.mem_singleton] at ht
  rcases ht with hold | rfl
  · exact Or.inl hold
  · cases t' <;> exact Or.inr h

/-! ## Calls of queues -/

theorem laden_hired (n : Nat) (s : Start) : ∀ t ∈ hired n s, t.Laden w := by
  intro t ht
  cases s with
  | started id =>
    rw [List.mem_singleton.1 ht]
    trivial
  | _ => cases ht

/-- The call for a batch that was sent. -/
theorem laden_launching (hd : w.depots[n]? = some d) {result : Dispatch}
    (hsent : ∀ flight, result = .sent flight → flight ∈ d.queue.flights) :
    ∀ t ∈ launching n d.delivery result, t.Laden w := by
  intro t ht
  cases result with
  | sent flight =>
    rw [List.mem_singleton.1 ht]
    exact ⟨d, flight.batch, _, hd, hsent flight rfl, .begun⟩
  | _ => cases ht

theorem grows_startRunner (w : World) (n : Nat) : w.Grows (w.startRunner n) := by
  cases hd : w.depots[n]? with
  | none =>
    simp only [startRunner, hd]
    exact .refl w
  | some d =>
    exact (grows_edit hd (d.queue.keeps_start w.tasks) (laden_hired n _)).trans
      (.of_same (same_startRunner hd))

theorem grows_stopRunner (w : World) (n : Nat) : w.Grows (w.stopRunner n) := by
  cases hd : w.depots[n]? with
  | none =>
    simp only [stopRunner, hd]
    exact .refl w
  | some d =>
    refine (grows_setQueue hd d.queue.keeps_stop).trans (.of_same ?_)
    simp only [stopRunner, hd]
    cases hs : d.queue.stop with
    | mk ran q => cases ran <;> exact ⟨rfl, rfl, rfl, rfl⟩

theorem grows_enqueue (w : World) (n : Nat) (events : List Event) :
    w.Grows (w.enqueue n events).2 := by
  cases hd : w.depots[n]? with
  | none =>
    simp only [enqueue, hd]
    exact .refl w
  | some d =>
    rcases enqueue_cases hd events with ⟨e, -, hstay⟩ | ⟨q, hpush, ⟨-, hsame⟩ | ⟨-, hsame⟩⟩
    · rw [hstay]
      exact .refl w
    · have hpushed := keeps_push hpush
      have hstarted := q.keeps_start w.tasks
      refine (grows_edit hd ⟨?_, ?_⟩ (laden_hired n _)).trans (.of_same hsame)
      · exact fun f hf => hstarted.flights f (hpushed.flights f hf)
      · exact fun e he => hstarted.events e (hpushed.events e he)
    · have hnone : ∀ t ∈ ([] : List Task), t.Laden (w.edit n q []) := List.forall_mem_nil _
      exact (grows_edit hd (keeps_push hpush) hnone).trans (.of_same hsame)

/-- A call of a transport. -/
theorem grows_drifts (h : Drifts w w') : w.Grows w' := by
  induction h with
  | aside h => exact .of_same h
  | enqueue w n events => exact w.grows_enqueue n events
  | trans _ _ ih ih' => exact ih.trans ih'

theorem grows_dispatchNext (w : World) (n : Nat) : w.Grows (w.dispatchNext n).2 := by
  cases hd : w.depots[n]? with
  | none =>
    simp only [dispatchNext, hd]
    exact .refl w
  | some d =>
    obtain ⟨hkeeps, hsent⟩ := d.queue.keeps_dispatch (d.delivery.usable w.usability)
    refine (grows_edit hd hkeeps (laden_launching (depot_edit hd (.refl _)) hsent)).trans (.of_same ?_)
    have hsame := same_dispatched (w.setQueue n (d.queue.dispatch (d.delivery.usable w.usability)).2)
      n d.delivery (d.queue.dispatch (d.delivery.usable w.usability)).1
    simp only [dispatchNext, hd]
    split <;> exact hsame

theorem grows_turnRunner (w : World) (n id : Nat) : w.Grows (w.turnRunner n id) := by
  cases hd : w.depots[n]? with
  | none =>
    simp only [turnRunner, hd]
    exact .refl w
  | some d =>
    cases hr : d.queue.runners.find? fun r => r.id == id with
    | none =>
      simp only [turnRunner, hd, hr]
      exact .refl w
    | some runner =>
      obtain ⟨usable, order, hsame⟩ := same_turnRunner hd hr
      obtain ⟨hkeeps, hsent⟩ := d.queue.keeps_dispatch usable
      have hticked : d.queue.Keeps (d.queue.tick id w.now usable).2 :=
        ⟨hkeeps.flights, hkeeps.events⟩
      have hgrows := grows_edit hd hticked (laden_launching (depot_edit hd (.refl _)) hsent)
      have hsleep : Task.Laden (w.edit n (d.queue.tick id w.now usable).2
          (launching n d.delivery (d.queue.tick id w.now usable).1)) (.runner n id order) := trivial
      exact hgrows.trans ((grows_putToSleep hsleep).trans (.of_same hsame))

theorem grows_callFlush (w : World) (n : Nat) : w.Grows (w.callFlush n).2 := by
  cases hd : w.depots[n]? with
  | none =>
    simp only [callFlush, hd]
    exact .refl w
  | some d =>
    have hkeeps : d.queue.Keeps (d.queue.callFlush (d.delivery.usable w.usability)).2 :=
      .of_eq rfl rfl
    refine (grows_setQueue hd hkeeps).trans (.of_same ?_)
    simp only [callFlush, hd]
    split <;> exact ⟨rfl, rfl, rfl, rfl⟩

theorem grows_turnFlush (fuel : Nat) (w : World) (n id : Nat) :
    w.Grows (turnFlush fuel w n id) := by
  induction fuel generalizing w with
  | zero => exact .refl w
  | succ fuel ih =>
    cases hd : w.depots[n]? with
    | none =>
      simp only [turnFlush, hd]
      exact .refl w
    | some d =>
      simp only [turnFlush, hd]
      cases hstep : d.queue.flushStep id with
      | none => exact .refl w
      | some result =>
        obtain ⟨progress, q⟩ := result
        obtain ⟨hkeeps, hsent⟩ := keeps_flushStep hstep
        have hset := grows_setQueue hd hkeeps
        cases progress with
        | sent flight =>
          have hcall : ∀ t ∈ launching n d.delivery (.sent flight),
              t.Laden (w.edit n q (launching n d.delivery (.sent flight))) := by
            have hd' := depot_edit hd (.refl (w.edit n q (launching n d.delivery (.sent flight))))
            refine laden_launching hd' fun flight' h => ?_
            cases h
            exact hsent flight rfl
          exact (grows_edit hd hkeeps hcall).trans (ih _)
        | moved => exact hset.trans (ih _)
        | unreadable e => exact hset.trans (.trans (.of_same (same_note _ _)) (ih _))
        | returned report => exact hset.trans (.of_same (same_note _ _))

/-! ## Whatever happens -/

theorem grows_errand (w : World) (e : Errand) : w.Grows (w.happen (.errand e)) := by
  cases e with
  | nap wake => exact .refl w
  | talk state =>
    rw [happen_talk]
    exact grows_drifts (resume_drifts state w)
  | flush n id =>
    rw [happen_flush]
    exact grows_turnFlush _ w n id
  | join n ticket =>
    rw [happen_join]
    exact .refl w

theorem grows_clock {instant : Nat} (hp : w.possible (.clock instant) = true) :
    w.Grows (w.moveClock instant) := by
  rw [possible, Bool.and_eq_true, List.isEmpty_iff] at hp
  have hwoken := woken_moveClock hp.1 instant
  refine .of_eq rfl fun t ht => ?_
  have hsleeping := hwoken.tasks.mem_iff.1 ht
  exact List.mem_append_right _ (List.mem_of_mem_filter hsleeping)

/-- The first task in line is taken. -/
theorem grows_take {task : Task} {rest : List Task} (hr : w.ready = task :: rest) :
    w.Grows { w with ready := rest } := by
  refine .of_eq rfl fun t ht => ?_
  rw [hr]
  exact List.mem_cons_of_mem task ht

/-- **Only the turn of a delivery takes anything away**: whatever else happens, queues keep what they
have. -/
theorem grows_happen {x : Happening} (hp : w.possible x = true)
    (hx : x = .turn → ∀ m ticket state rest, w.ready ≠ .delivery m ticket state :: rest) :
    w.Grows (w.happen x) := by
  cases x with
  | push m events inside =>
    have hplace : w.Grows { w with tasks := inside } := .of_same ⟨rfl, rfl, rfl, rfl⟩
    exact hplace.trans ((grows_enqueue _ m events).trans (.of_same ⟨rfl, rfl, rfl, rfl⟩))
  | start m inside =>
    have hplace : w.Grows { w with tasks := inside } := .of_same ⟨rfl, rfl, rfl, rfl⟩
    exact hplace.trans ((grows_startRunner _ m).trans (.of_same ⟨rfl, rfl, rfl, rfl⟩))
  | stop m => exact w.grows_stopRunner m
  | faults m faults =>
    simp only [happen]
    split
    · exact .refl w
    · rename_i d hd
      exact grows_setQueue hd ⟨fun f hf => hf, fun e he => he⟩
  | leaves leaves => exact .of_same ⟨rfl, rfl, rfl, rfl⟩
  | dispatch m => exact w.grows_dispatchNext m
  | callFlush m => exact w.grows_callFlush m
  | errand e => exact w.grows_errand e
  | clock instant => exact grows_clock hp
  | turn =>
    cases hr : w.ready with
    | nil =>
      simp only [happen, hr]
      exact .refl w
    | cons task rest =>
      cases task with
      | runner m id order =>
        simp only [happen, hr]
        exact (grows_take hr).trans (grows_turnRunner _ m id)
      | delivery m ticket state => exact absurd hr (hx rfl m ticket state rest)

end World

/-! ## A turn of a delivery -/

/-- The transport of the queue `n` has handled the batch: its call, for a batch in flight, has ended
with the outcome when the delivery had its turn. -/
structure Handles (w : World) (n : Nat) (batch : Batch) (outcome : Outcome) (x : Happening) :
    Prop where
  /-- A task has its turn. -/
  turn : x = .turn
  /-- It is what is left of the call of the queue's transport for the batch, and it ends. -/
  call : ∃ d ticket state rest line, w.depots[n]? = some d ∧ ⟨ticket, batch⟩ ∈ d.queue.flights ∧
    w.ready = .delivery n ticket state :: rest ∧
    state.LeftOf (.note line (d.delivery.handle batch)) ∧
    (resume state { w with ready := rest }).1 = .done outcome

/-- The transport of the queue has handled the batch in the history, with this outcome. -/
def World.Handled (w : World) (n : Nat) (batch : Batch) (outcome : Outcome)
    (hs : List Happening) : Prop :=
  ∃ before x after, hs = before ++ x :: after ∧ Handles (w.follow before) n batch outcome x

/-- The event is stored in the queue. -/
def World.Holds (w : World) (n : Nat) (e : Event) : Prop :=
  ∃ d, w.depots[n]? = some d ∧ e ∈ d.queue.store.events

theorem World.Holds.grows {e : Event} (h : w.Holds n e) (hg : w.Grows w') : w'.Holds n e := by
  obtain ⟨d, hd, he⟩ := h
  obtain ⟨d', hd', -, hkeeps⟩ := hg.depots n d hd
  exact ⟨d', hd', hkeeps.events e he⟩

variable {cs : Nat → Course} {ticket : Nat} {state : Running} {batch : Batch}

/-- A delivery in hand is the only one for its batch. -/
theorem Kept.in_hand (h : Kept w [.delivery n ticket state] cs) (hd : w.depots[n]? = some d)
    (hf : ⟨ticket, batch⟩ ∈ d.queue.flights) :
    d.queue.flights.find? (fun f => f.ticket == ticket) = some ⟨ticket, batch⟩ ∧
      ∀ state', .delivery n ticket state' ∉ w.ready ++ w.sleeping := by
  have ht := h.tended n d hd
  have hnodup : (d.queue.flights.map Flight.ticket).Nodup := by
    rw [← ht.queue]
    exact ht.reached.tracked.flights_tickets_nodup
  constructor
  · obtain ⟨flight, hfind⟩ := Option.isSome_iff_exists.1
      (List.find?_isSome (p := fun f : Flight => f.ticket == ticket) |>.2 ⟨_, hf, by simp⟩)
    have hticket : flight.ticket = ticket := by simpa using List.find?_some hfind
    rw [hfind, List.inj_on_of_nodup_map hnodup (List.mem_of_find?_eq_some hfind) hf hticket]
  · intro state' hmem
    have hloads := ht.loads.nodup_iff.2 hnodup
    have hhand : ([Task.delivery n ticket state] ++ w.ready ++ w.sleeping).filterMap
        (Task.ticketOf n) = ticket :: (w.ready ++ w.sleeping).filterMap (Task.ticketOf n) := by
      simp [Task.ticketOf]
    rw [hhand, List.nodup_cons] at hloads
    exact hloads.1 (List.mem_filterMap.2 ⟨_, hmem, by simp [Task.ticketOf]⟩)

/-- What is known of a queue when a delivery was accounted for. -/
theorem World.depots_settleDelivery (hd : w.depots[n]? = some d) (ticket : Nat) (outcome : Outcome)
    (m : Nat) : (w.settleDelivery n ticket outcome).depots[m]? =
      if n = m then some { d with queue := (d.queue.settle ticket outcome).2 }
      else w.depots[m]? := by
  rw [(same_settleDelivery hd ticket outcome).depots]
  have hedit := w.depots_edit n (d.queue.settle ticket outcome).2 [] m
  by_cases hm : n = m
  · subst hm
    rw [if_pos rfl, hd, Option.map_some] at hedit
    rw [if_pos rfl]
    exact hedit
  · rw [if_neg hm] at hedit ⊢
    exact hedit

/-- When a batch has settled, the calls for the others go on. -/
theorem Kept.laden_settle (h : Kept w [.delivery n ticket state] cs) (hl : w.Laden)
    (hd : w.depots[n]? = some d) (hf : ⟨ticket, batch⟩ ∈ d.queue.flights) (outcome : Outcome) :
    (w.settleDelivery n ticket outcome).Laden := by
  obtain ⟨hfind, honly⟩ := h.in_hand hd hf
  have hsame := World.same_settleDelivery hd ticket outcome
  intro t ht
  rw [hsame.ready, hsame.sleeping] at ht
  replace ht : t ∈ w.ready ++ w.sleeping := ht
  have hladen := hl t ht
  cases t with
  | runner m id order => trivial
  | delivery m ticket' state' =>
    obtain ⟨d', batch', line, hd', hf', hleft⟩ := hladen
    by_cases hm : n = m
    · subst hm
      rw [hd] at hd'
      cases hd'
      have hne : ticket' ≠ ticket := by
        rintro rfl
        exact honly state' ht
      refine ⟨{ d with queue := (d.queue.settle ticket outcome).2 }, batch', line, ?_, ?_, hleft⟩
      · rw [World.depots_settleDelivery hd, if_pos rfl]
      · rw [flights_settle outcome hfind, List.mem_filter]
        exact ⟨hf', by simpa using hne⟩
    · refine ⟨d', batch', line, ?_, hf', hleft⟩
      rw [World.depots_settleDelivery hd, if_neg hm]
      exact hd'

/-- Stored events stay, but for those of a batch that was delivered. -/
theorem Kept.holds_settle (h : Kept w [.delivery n ticket state] cs) (hd : w.depots[n]? = some d)
    (hf : ⟨ticket, batch⟩ ∈ d.queue.flights) (outcome : Outcome) {m : Nat} {e : Event}
    (he : w.Holds m e) :
    (w.settleDelivery n ticket outcome).Holds m e ∨
      (n = m ∧ outcome = .ok () ∧ e.id ∈ batch.ids) := by
  obtain ⟨d', hd', he⟩ := he
  by_cases hm : n = m
  · subst hm
    rw [hd] at hd'
    cases hd'
    rcases events_settle outcome (h.in_hand hd hf).1 he with hstay | ⟨hok, hid⟩
    · exact Or.inl ⟨_, by rw [World.depots_settleDelivery hd, if_pos rfl], hstay⟩
    · exact Or.inr ⟨rfl, hok, hid⟩
  · exact Or.inl ⟨d', by rw [World.depots_settleDelivery hd, if_neg hm, hd'], he⟩

/-- **A turn of a delivery** keeps the tasks as they should be, and takes an event out of a store only
if the transport has handled a batch with its id. -/
theorem Kept.turn_delivery (h : Kept w [] cs) (hl : w.Laden) {rest : List Task}
    (hr : w.ready = .delivery n ticket state :: rest) :
    (w.happen .turn).Laden ∧ ∀ m e, w.Holds m e → (w.happen .turn).Holds m e ∨
      ∃ batch, e.id ∈ batch.ids ∧ Handles w m batch (.ok ()) .turn := by
  obtain ⟨d, batch, line, hd, hf, hleft⟩ := hl (.delivery n ticket state) (by simp [hr])
  have hdrifts := resume_drifts state { w with ready := rest }
  obtain ⟨cs₁, hkept, -⟩ := (h.take hr).stirs hdrifts.stirs (by
    rintro _ _ ⟨events, tasks, rfl⟩
    rfl)
  have hgrows : w.Grows (resume state { w with ready := rest }).2 :=
    (World.grows_take hr).trans (World.grows_drifts hdrifts)
  obtain ⟨d₁, hd₁, hdelivery, hkeeps⟩ := hgrows.depots n d hd
  have hf₁ := hkeeps.flights _ hf
  have hhandles : ∀ o, (resume state { w with ready := rest }).1 = .done o →
      Handles w n batch o .turn :=
    fun o hdone => ⟨rfl, d, ticket, state, rest, line, hd, hf, hr, hleft, hdone⟩
  rw [World.happen_turn hr, World.turn, World.turnDelivery]
  have hnext : Running.LeftOf (.note line (d.delivery.handle batch))
      (resume state { w with ready := rest }).1 := .resumed hleft _
  generalize resume state { w with ready := rest } = result at hkept hgrows hd₁ hhandles hnext ⊢
  obtain ⟨state', w₁⟩ := result
  have hladen := hgrows.laden hl
  have hsettle : ∀ o, (w₁.settleDelivery n ticket o).Laden ∧
      ∀ m e, w.Holds m e → (w₁.settleDelivery n ticket o).Holds m e ∨
        (n = m ∧ o = .ok () ∧ e.id ∈ batch.ids) :=
    fun o => ⟨hkept.laden_settle hladen hd₁ hf₁ o,
      fun m e he => hkept.holds_settle hd₁ hf₁ o (he.grows hgrows)⟩
  have hsleep : (w₁.putToSleep (.delivery n ticket state')).Laden ∧
      ∀ m e, w.Holds m e → (w₁.putToSleep (.delivery n ticket state')).Holds m e := by
    have hcall : Task.Laden w₁ (.delivery n ticket state') :=
      ⟨d₁, batch, line, hd₁, hf₁, by rwa [hdelivery]⟩
    have hput := hgrows.trans (World.grows_putToSleep hcall)
    exact ⟨hput.laden hl, fun m e he => he.grows hput⟩
  cases state' with
  | done o =>
    refine ⟨(hsettle o).1, fun m e he => ?_⟩
    rcases (hsettle o).2 m e he with hstay | ⟨rfl, rfl, hid⟩
    · exact Or.inl hstay
    · exact Or.inr ⟨batch, hid, hhandles _ rfl⟩
  | crashed =>
    refine ⟨(hsettle _).1, fun m e he => ?_⟩
    rcases (hsettle (.error crashError)).2 m e he with hstay | ⟨-, hok, -⟩
    · exact Or.inl hstay
    · cases hok
  | asleep alarm next => exact ⟨hsleep.1, fun m e he => Or.inl (hsleep.2 m e he)⟩
  | all parts next => exact ⟨hsleep.1, fun m e he => Or.inl (hsleep.2 m e he)⟩

/-! ## Histories -/

/-- **Whatever happens**, the tasks are as they should be, and a stored event stays unless a batch with
its id was handled with success. -/
theorem Kept.holds_happen (h : Kept w [] cs) (hl : w.Laden) {x : Happening}
    (hp : w.possible x = true) :
    (w.happen x).Laden ∧ ∀ m e, w.Holds m e → (w.happen x).Holds m e ∨
      ∃ batch, e.id ∈ batch.ids ∧ Handles w m batch (.ok ()) x := by
  by_cases hx : x = .turn → ∀ m ticket state rest, w.ready ≠ .delivery m ticket state :: rest
  · have hgrows := World.grows_happen hp hx
    exact ⟨hgrows.laden hl, fun m e he => Or.inl (he.grows hgrows)⟩
  · push Not at hx
    obtain ⟨rfl, m, ticket, state, rest, hr⟩ := hx
    exact h.turn_delivery hl hr

theorem World.Fresh.laden (h : w.Fresh) : w.Laden := by
  intro t ht
  rw [h.ready, h.sleeping] at ht
  cases ht

/-- **Deliveries are calls for their batches**, in every history. -/
theorem laden_follow (h : Kept w [] cs) (hl : w.Laden) {hs : List Happening} (hp : w.Possible hs) :
    (w.follow hs).Laden := by
  induction hs generalizing w cs with
  | nil => exact hl
  | cons x hs ih =>
    obtain ⟨cs', hkept, -⟩ := kept_happen h hp.1
    exact ih hkept (h.holds_happen hl hp.1).1 hp.2

/-- **A stored event stays**, in every history, unless the transport of the queue has handled a batch
with its id with success. -/
theorem stored_or_handled (h : Kept w [] cs) (hl : w.Laden) {e : Event} (he : w.Holds n e)
    {hs : List Happening} (hp : w.Possible hs) :
    (w.follow hs).Holds n e ∨ ∃ batch, e.id ∈ batch.ids ∧ w.Handled n batch (.ok ()) hs := by
  induction hs generalizing w cs with
  | nil => exact Or.inl he
  | cons x hs ih =>
    obtain ⟨cs', hkept, -⟩ := kept_happen h hp.1
    obtain ⟨hladen, hstep⟩ := h.holds_happen hl hp.1
    rcases hstep n e he with hstay | ⟨batch, hid, hhandles⟩
    · rcases ih hkept hladen hstay hp.2 with hend | ⟨batch, hid, before, y, after, rfl, hhandles⟩
      · exact Or.inl hend
      · exact Or.inr ⟨batch, hid, x :: before, y, after, rfl, hhandles⟩
    · exact Or.inr ⟨batch, hid, [], x, hs, rfl, hhandles⟩

end Run

end EventRelay
