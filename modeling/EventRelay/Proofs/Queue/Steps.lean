import EventRelay.Proofs.Store.Calls
import EventRelay.Queue.Flush
import EventRelay.Queue.Runner

/-!
# What calls, claims and steps of a flush can do

One statement for each operation that has several ways to go, with everything the operation checked
on its way: `events_write`, `events_delete` and `read_ok` for the calls of a store, `claim_cases` and
`dispatch_cases` for a claim and a dispatch, `land_eq` for a landing, and `FlushMove` with
`flushMove_of_flushStep` for a step of a flush.  `release_frame`, `start_frame`, `account_frame` and
so on say what an operation leaves as it is.  What is proved of queues elsewhere is proved from these.
-/

namespace EventRelay

/-! ## Calls of the store -/

namespace Store

theorem events_write {s s' : Store} {events : List Event} (h : s.write events = .ok s') :
    s'.events = s.events ++ events := by
  unfold write at h
  split at h
  · cases h
  · cases h
    rfl

theorem events_delete {s s' : Store} {ids : List EventId} (h : s.delete ids = .ok s') :
    s'.events = without ids s.events := by
  unfold delete at h
  split at h
  · cases h
  · dsimp only at h
    split at h
    · rename_i hlen
      cases h
      exact (without_eq_self hlen).symm
    · cases h
      rfl

theorem faults_delete {s s' : Store} {ids : List EventId} (h : s.delete ids = .ok s') :
    s'.faults = s.faults := by
  unfold delete at h
  split at h
  · cases h
  · dsimp only at h
    split at h <;> cases h <;> rfl

/-- Events can be removed unless removing is made to fail. -/
theorem delete_ne_error {s : Store} (hs : s.faults.delete = false) (ids : List EventId)
    (e : StorageError) : s.delete ids ≠ .error e := by
  unfold delete
  rw [hs, if_neg Bool.false_ne_true]
  dsimp only
  split <;> exact nofun

theorem read_ok {s : Store} {limit : Option Nat} {keep : Event → Bool} {events : List Event}
    (h : s.read limit keep = .ok events) : events = select limit keep s.events := by
  unfold read at h
  split at h
  · cases h
  · cases h
    rfl

end Store

namespace Queue

/-! ## Permits -/

/-- A permit that is given back touches nothing but the permits and the flushes. -/
theorem release_frame (q : Queue) :
    ∃ free line flushes, q.release = { q with free, line, flushes } := by
  unfold release
  split
  · exact ⟨_, q.line, q.flushes, rfl⟩
  · exact ⟨q.free, _, _, rfl⟩

/-! ## Runners -/

/-- Starting the runner touches nothing but what is known of runners. -/
theorem start_frame (q : Queue) (tasks : Bool) : ∃ running stopped current runners started,
    (q.start tasks).2 = { q with running, stopped, current, runners, started } := by
  unfold start
  split
  · exact ⟨_, _, _, _, _, rfl⟩
  · split <;> exact ⟨_, _, _, _, _, rfl⟩

theorem stop_frame (q : Queue) : ∃ running stopped current runners,
    q.stop.2 = { q with running, stopped, current, runners } := by
  unfold stop
  split <;> exact ⟨_, _, _, _, rfl⟩

/-! ## Claims -/

/-- The queue after a batch was claimed. -/
def withFlight (q : Queue) (batch : Batch) : Queue :=
  { q with
    processing := q.processing ++ batch.ids.eraseDups
    flights := q.flights ++ [⟨q.tickets, batch⟩]
    tickets := q.tickets + 1 }

theorem ofList?_eq_some {events : List Event} {batch : Batch}
    (h : Batch.ofList? events = some batch) : batch.events = events := by
  unfold Batch.ofList? at h
  split at h
  · cases h
  · cases h
    rfl

/-- **What a claim can come to.**  The store cannot be read, or holds nothing that can be claimed,
and the permit goes back; or a batch of what can be claimed goes into flight. -/
theorem claim_cases (q : Queue) (exclude : List EventId) :
    (∃ e, q.claimable exclude = .error e ∧ q.claim exclude = (.unreadable e, q.release)) ∨
    (q.claimable exclude = .ok [] ∧ q.claim exclude = (.nothing, q.release)) ∨
    ∃ batch : Batch, q.claimable exclude = .ok batch.events ∧
      q.claim exclude = (.sent ⟨q.tickets, batch⟩, q.withFlight batch) := by
  cases hc : q.claimable exclude with
  | error e => exact Or.inl ⟨e, rfl, by simp only [claim, hc]⟩
  | ok events =>
    refine Or.inr ?_
    cases hb : Batch.ofList? events with
    | none =>
      have hnil : events = [] := by
        cases events with
        | nil => rfl
        | cons e es => cases hb
      exact Or.inl ⟨by rw [hnil], by simp only [claim, hc, hb]⟩
    | some batch =>
      have hev := ofList?_eq_some hb
      exact Or.inr ⟨batch, by rw [hev], by simp only [claim, hc, hb]; rfl⟩

/-- A claim touches the permits, the flushes and what is in flight only. -/
theorem claim_frame (q : Queue) (exclude : List EventId) :
    ∃ free line flushes processing flights tickets,
      (q.claim exclude).2 = { q with free, line, flushes, processing, flights, tickets } := by
  obtain ⟨free, line, flushes, hr⟩ := q.release_frame
  rcases q.claim_cases exclude with ⟨e, -, hq⟩ | ⟨-, hq⟩ | ⟨batch, -, hq⟩
  · exact ⟨free, line, flushes, _, _, _, by rw [hq, hr]⟩
  · exact ⟨free, line, flushes, _, _, _, by rw [hq, hr]⟩
  · exact ⟨_, _, _, _, _, _, by rw [hq]; rfl⟩

/-- **What a dispatch can come to.**  The transport is unusable or no permit is free, and nothing
happens; or a claim is made with a permit that was free. -/
theorem dispatch_cases (q : Queue) (usable : Bool) :
    (usable = false ∧ q.dispatch usable = (.unusable, q)) ∨
    (usable = true ∧ q.free = 0 ∧ q.dispatch usable = (.noPermit, q)) ∨
    ∃ free, usable = true ∧ q.free = free + 1 ∧
      q.dispatch usable = ({ q with free } : Queue).claim [] := by
  cases usable with
  | false => exact Or.inl ⟨rfl, rfl⟩
  | true =>
    refine Or.inr ?_
    rw [dispatch, Bool.not_true, if_neg Bool.false_ne_true]
    split
    · rename_i hfree
      exact Or.inl ⟨rfl, hfree, rfl⟩
    · rename_i free hfree
      exact Or.inr ⟨free, rfl, hfree, rfl⟩

theorem dispatch_frame (q : Queue) (usable : Bool) :
    ∃ free line flushes processing flights tickets,
      (q.dispatch usable).2 = { q with free, line, flushes, processing, flights, tickets } := by
  rcases q.dispatch_cases usable with ⟨-, hq⟩ | ⟨-, -, hq⟩ | ⟨free, -, -, hq⟩
  · exact ⟨_, _, _, _, _, _, by rw [hq]⟩
  · exact ⟨_, _, _, _, _, _, by rw [hq]⟩
  · obtain ⟨_, _, _, _, _, _, hc⟩ := ({ q with free } : Queue).claim_frame []
    exact ⟨_, _, _, _, _, _, by rw [hq, hc]⟩

/-! ## The end of a delivery -/

/-- The end of a delivery changes the store and the counts only, and not what calls of the store
fail. -/
theorem account_frame (q : Queue) (batch : Batch) (outcome : Outcome) :
    ∃ store delivered failedBatches, store.faults = q.store.faults ∧
      (q.account batch outcome).2 = { q with store, delivered, failedBatches } := by
  unfold account
  split
  · dsimp only
    split
    · rename_i store hd
      exact ⟨store, _, _, Store.faults_delete hd, rfl⟩
    · exact ⟨_, _, _, rfl, rfl⟩
  · exact ⟨_, _, _, rfl, rfl⟩

/-- Delivered events are removed unless removing is made to fail. -/
theorem account_failure {q : Queue} (hq : q.store.faults.delete = false) (batch : Batch)
    (outcome : Outcome) : (q.account batch outcome).1 = none := by
  unfold account
  split
  · dsimp only
    split
    · rfl
    · rename_i e he
      exact absurd he (Store.delete_ne_error hq _ e)
  · rfl

/-! ## Landings -/

/-- The queue after a batch was taken out of flight and before its permit goes back. -/
def withoutFlight (q : Queue) (flight : Flight) (outcome : Outcome) : Queue :=
  { q with
    processing := q.processing.filter fun id => !flight.batch.ids.contains id
    flights := q.flights.filter fun f => f.ticket != flight.ticket
    outcomes := (flight.ticket, outcome) :: q.outcomes }

/-- A landing takes the batch out of flight, wakes the parked flushes if that was the last one, and
gives the permit back. -/
theorem land_eq (q : Queue) (flight : Flight) (outcome : Outcome) :
    q.land flight outcome =
      (if (q.withoutFlight flight outcome).processing.isEmpty then
        (q.withoutFlight flight outcome).wakeParked
      else q.withoutFlight flight outcome).release := rfl

theorem land_frame (q : Queue) (flight : Flight) (outcome : Outcome) :
    ∃ free line flushes,
      q.land flight outcome = { q.withoutFlight flight outcome with free, line, flushes } := by
  rw [land_eq]
  split
  · obtain ⟨free, line, flushes, hq⟩ := (q.withoutFlight flight outcome).wakeParked.release_frame
    exact ⟨free, line, flushes, hq⟩
  · exact (q.withoutFlight flight outcome).release_frame

/-- What becomes of the store when a batch settles is up to the account of it. -/
theorem store_settle_of_flight {q : Queue} {ticket : Nat} {flight : Flight} (outcome : Outcome)
    (hf : q.flights.find? (fun f => f.ticket == ticket) = some flight) :
    (q.settle ticket outcome).2.store = (q.account flight.batch outcome).2.store := by
  obtain ⟨_, _, _, hland⟩ := (q.account flight.batch outcome).2.land_frame flight outcome
  simp only [settle, hf]
  rw [hland]
  rfl

/-! ## Steps of a flush -/

/-- Everything that a step of the flush `f`, the one of number `id`, can do: what it has to tell,
what becomes of the queue, and then of the flush. -/
inductive FlushMove (q : Queue) (id : Nat) (f : Flush) :
    Progress → Queue → (Flush → Flush) → Prop
  /-- It takes a free permit. -/
  | take (free : Nat) (hs : f.stage = .asking) (hfree : q.free = free + 1) :
      FlushMove q id f .moved { q with free } fun f => { f with stage := .holding }
  /-- It waits for a permit. -/
  | queue (hs : f.stage = .asking) (hfree : q.free = 0) :
      FlushMove q id f .moved { q with line := q.line ++ [id] } fun f => { f with stage := .inLine }
  /-- It claims a batch. -/
  | claim (batch : Batch) (hs : f.stage = .holding)
      (hc : q.claimable f.attempted = .ok batch.events) :
      FlushMove q id f (.sent ⟨q.tickets, batch⟩) (q.withFlight batch) fun f =>
        { f with stage := .asking, sent := f.sent ++ [⟨q.tickets, batch.ids⟩] }
  /-- It finds nothing to claim. -/
  | exhaust (hs : f.stage = .holding) (hc : q.claimable f.attempted = .ok []) :
      FlushMove q id f .moved q.release fun f => { f with stage := .joining f.sent }
  /-- It cannot read the store. -/
  | giveUp (e : StorageError) (hs : f.stage = .holding)
      (hc : q.claimable f.attempted = .error e) :
      FlushMove q id f (.unreadable e) q.release fun f => { f with stage := .joining f.sent }
  /-- It counts a batch that has settled. -/
  | join (s : Sent) (rest : List Sent) (outcome : Outcome) (hs : f.stage = .joining (s :: rest))
      (ho : q.outcome? s.ticket = some outcome) :
      FlushMove q id f .moved q fun f =>
        { f with stage := .joining rest, report := f.report.add s.ids.length outcome }
  /-- It returns, with nothing in flight. -/
  | finish (hs : f.stage = .joining []) (hp : q.processing = []) :
      FlushMove q id f (.returned f.report) q fun f => { f with stage := .returned }
  /-- It waits until nothing is in flight. -/
  | park (hs : f.stage = .joining []) (hp : q.processing ≠ []) :
      FlushMove q id f .moved q fun f => { f with stage := .parked }

theorem flushMove_of_flushClaim (q : Queue) (id : Nat) {f : Flush} (hs : f.stage = .holding) :
    ∃ q₀ g, FlushMove q id f (q.flushClaim id f).1 q₀ g ∧
      (q.flushClaim id f).2 = q₀.modifyFlush id g := by
  unfold flushClaim
  rcases q.claim_cases f.attempted with ⟨e, hc, hq⟩ | ⟨hc, hq⟩ | ⟨batch, hc, hq⟩
  · rw [hq]
    exact ⟨_, _, FlushMove.giveUp e hs hc, rfl⟩
  · rw [hq]
    exact ⟨_, _, FlushMove.exhaust hs hc, rfl⟩
  · rw [hq]
    exact ⟨_, _, FlushMove.claim batch hs hc, rfl⟩

/-- **A step of a flush makes one of the moves.** -/
theorem flushMove_of_flushStep {q q' : Queue} {id : Nat} {p : Progress}
    (h : q.flushStep id = some (p, q')) :
    ∃ f q₀ g, q.flushes[id]? = some f ∧ FlushMove q id f p q₀ g ∧ q' = q₀.modifyFlush id g := by
  unfold flushStep at h
  split at h
  · cases h
  · rename_i f hf
    refine ⟨f, ?_⟩
    split at h
    · rename_i hs
      unfold askPermit at h
      split at h
      · rename_i hfree
        cases h
        exact ⟨_, _, hf, FlushMove.queue hs hfree, rfl⟩
      · rename_i free hfree
        cases h
        exact ⟨_, _, hf, FlushMove.take free hs hfree, rfl⟩
    · cases h
    · rename_i hs
      have hq := Option.some.inj h
      obtain ⟨q₀, g, hm, hq'⟩ := q.flushMove_of_flushClaim id hs
      rw [hq] at hm hq'
      exact ⟨q₀, g, hf, hm, hq'⟩
    · rename_i hs
      split at h
      · rename_i hp
        cases h
        exact ⟨_, _, hf, FlushMove.finish hs (List.isEmpty_iff.1 hp), rfl⟩
      · rename_i hp
        cases h
        exact ⟨_, _, hf, FlushMove.park hs (by simpa using hp), rfl⟩
    · rename_i s rest hs
      obtain ⟨outcome, ho, heq⟩ := Option.map_eq_some_iff.1 h
      cases heq
      exact ⟨_, _, hf, FlushMove.join s rest outcome hs ho, rfl⟩
    · cases h
    · cases h

end Queue

end EventRelay
