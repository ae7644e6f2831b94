import EventRelay.Proofs.Queue.Exclusion
import EventRelay.Proofs.Queue.Flushes
import Mathlib.Algebra.Ring.Nat
import Mathlib.Data.List.Induction
import Mathlib.Data.List.Pairwise

/-!
# A flush among others

A flush is seldom alone: producers store events while it is under way, the runner and other flushes
claim batches, deliveries end and land in any order, and calls of the store fail.  A batch of the
flush that failed is back in the store long before the flush returns, where anyone may claim it.

* `Launch`, `Course.launches` — the batches that the steps of one flush dispatch in a run, each with
  what was stored when it was claimed.
* `launched_cases` — a step of a run either leaves a flush with the batches it had, or is a step of
  that flush which claims one more, past everything it has attempted.
* `sentBy_run` — what a flush remembers to have sent is what it has launched.
* `Reckoned.totals` — what the outcomes of batches add up to.
* `flush_among_others` — **each event is attempted at most once per flush, and the report counts the
  batches of this flush and no others**.
-/

namespace EventRelay.Queue

/-! ## Flushes stay -/

theorem length_release (q : Queue) : q.release.flushes.length = q.flushes.length := by
  unfold release
  split
  · rfl
  · exact List.length_modify _ _ _

theorem length_claim (q : Queue) (exclude : List EventId) :
    (q.claim exclude).2.flushes.length = q.flushes.length := by
  rcases q.claim_cases exclude with ⟨e, -, hq⟩ | ⟨-, hq⟩ | ⟨batch, -, hq⟩
  · rw [hq, length_release]
  · rw [hq, length_release]
  · rw [hq]
    rfl

theorem length_dispatch (q : Queue) (usable : Bool) :
    (q.dispatch usable).2.flushes.length = q.flushes.length := by
  rcases q.dispatch_cases usable with ⟨-, hq⟩ | ⟨-, -, hq⟩ | ⟨free, -, -, hq⟩
  · rw [hq]
  · rw [hq]
  · rw [hq, length_claim]

theorem length_land (q : Queue) (flight : Flight) (outcome : Outcome) :
    (q.land flight outcome).flushes.length = q.flushes.length := by
  rw [land_eq, length_release]
  split
  · exact List.length_map _
  · rfl

theorem FlushMove.length {q q₀ : Queue} {id : Nat} {f : Flush} {p : Progress} {g : Flush → Flush}
    (hm : FlushMove q id f p q₀ g) : q₀.flushes.length = q.flushes.length := by
  cases hm with
  | exhaust hs hc => exact length_release q
  | giveUp e hs hc => exact length_release q
  | _ => rfl

/-- A flush that was called is never forgotten. -/
theorem length_flushes_le {c c' : Course} {a : Action} (hact : c.act? a = some c') :
    c.queue.flushes.length ≤ c'.queue.flushes.length := by
  by_cases hside : a.isAside = true
  · obtain ⟨_, _, _, _, _, _, hq⟩ := Course.act?_aside hside hact
    exact Nat.le_of_eq (by rw [hq])
  cases a with
  | tick runner now =>
    obtain ⟨-, rfl⟩ := Course.act?_tick hact
    exact Nat.le_of_eq (length_dispatch c.queue c.usable).symm
  | dispatch =>
    cases hact
    exact Nat.le_of_eq (length_dispatch c.queue c.usable).symm
  | callFlush =>
    cases hact
    simp [Course.next, Queue.callFlush]
  | flushStep id =>
    obtain ⟨f, p, q₀, g, -, hm, rfl⟩ := Course.act?_flushStep hact
    exact Nat.le_of_eq (hm.length.symm.trans (List.length_modify _ _ _).symm)
  | finish ticket ending =>
    obtain ⟨flight, -, -, -, rfl⟩ := Course.act?_finish hact
    obtain ⟨_, _, _, -, hq⟩ := c.queue.account_frame flight.batch ending.outcome
    exact Nat.le_of_eq (by rw [Course.next, hq])
  | land ticket =>
    obtain ⟨flight, ending, -, -, -, rfl⟩ := Course.act?_land hact
    exact Nat.le_of_eq (length_land c.queue flight ending.outcome).symm
  | _ => exact absurd rfl hside

theorem length_flushes_le_run (c : Course) (actions : List Action) :
    c.queue.flushes.length ≤ (c.run actions).queue.flushes.length := by
  induction actions generalizing c with
  | nil => exact Nat.le_refl _
  | cons a actions ih =>
    rw [Course.run_cons]
    refine Nat.le_trans ?_ (ih (c.act a))
    rcases c.act_cases a with hact | hact
    · exact length_flushes_le hact
    · rw [hact]

/-- A flush that was called is still there after any action, perhaps changed. -/
theorem exists_flushChange {c : Course} (hl : c.queue.Lined) {id : Nat} {f : Flush}
    (hf : c.queue.flushes[id]? = some f) (a : Action) :
    ∃ f', (c.act a).queue.flushes[id]? = some f' ∧ (f' = f ∨ FlushChange c id f a f') := by
  rcases c.act_cases a with hact | hact
  · have hlt : id < (c.act a).queue.flushes.length :=
      Nat.lt_of_lt_of_le (List.getElem?_eq_some_iff.1 hf).1 (length_flushes_le hact)
    refine ⟨_, List.getElem?_eq_getElem hlt, Or.inr ?_⟩
    rcases flushChange_act? hl hact (List.getElem?_eq_getElem hlt) with ⟨f₀, hf₀, hch⟩ | ⟨-, hid, -⟩
    · rw [hf] at hf₀
      cases hf₀
      exact hch
    · rw [hid, List.getElem?_eq_none (Nat.le_refl _)] at hf
      cases hf
  · exact ⟨f, by rw [hact]; exact hf, Or.inl rfl⟩

/-! ## What a flush dispatches -/

/-- A move claims the next ticket or none. -/
theorem ticket_of_move {b b' : Books} {a : Action} (h : Books.Move b a b') :
    ∀ flight ∈ claims (b'.journal.drop b.journal.length), flight.ticket = b.tickets := by
  intro flight hf
  cases h with
  | quiet =>
    rw [List.drop_length] at hf
    cases hf
  | claim exclude batch ha hb =>
    rw [List.drop_left] at hf
    cases List.mem_singleton.1 hf
    rfl
  | _ =>
    rw [List.drop_left] at hf
    cases hf

/-- A batch that a flush has dispatched. -/
structure Launch where
  /-- What was stored when the batch was claimed. -/
  stored : List Event
  /-- The batch, with its ticket. -/
  flight : Flight

/-- What a flush remembers of it. -/
def Launch.sent (l : Launch) : Sent :=
  ⟨l.flight.ticket, l.flight.batch.ids⟩

/-- Is the action a step of the flush of this number? -/
def Action.isStepOf (id : Nat) : Action → Bool
  | .flushStep i => i == id
  | _ => false

namespace Course

/-- The batches that an action dispatches, if it is one of those that are asked for. -/
def launched (c : Course) (who : Action → Bool) (a : Action) : List Launch :=
  if who a then
    (claims ((c.act a).journal.drop c.journal.length)).map (Launch.mk c.queue.store.events)
  else []

/-- The batches that certain actions of a run dispatch, in order. -/
def launches (c : Course) (who : Action → Bool) : List Action → List Launch
  | [] => []
  | a :: actions => c.launched who a ++ (c.act a).launches who actions

/-- What the flush of a number remembers to have sent. -/
def sentBy (c : Course) (id : Nat) : List Sent :=
  match c.queue.flushes[id]? with
  | none => []
  | some f => f.sent

/-- The number of events in those batches whose calls have ended in a certain way. -/
def total (c : Course) (way : Ending → Bool) (ls : List Launch) : Nat :=
  ((ls.filter fun l => (c.ending? l.flight.ticket).any way).map fun l => l.flight.batch.size).sum

theorem launches_append (c : Course) (who : Action → Bool) (as bs : List Action) :
    c.launches who (as ++ bs) = c.launches who as ++ (c.run as).launches who bs := by
  induction as generalizing c with
  | nil => rfl
  | cons a as ih =>
    rw [List.cons_append, launches, launches, ih, List.append_assoc]
    rfl

theorem launches_concat (c : Course) (who : Action → Bool) (actions : List Action) (a : Action) :
    c.launches who (actions ++ [a]) = c.launches who actions ++ (c.run actions).launched who a := by
  rw [launches_append, launches, launches, List.append_nil]

theorem sentBy_of_getElem? {c : Course} {id : Nat} {f : Flush}
    (h : c.queue.flushes[id]? = some f) : c.sentBy id = f.sent := by
  rw [sentBy, h]

theorem sentBy_of_none {c : Course} {id : Nat} (h : c.queue.flushes[id]? = none) :
    c.sentBy id = [] := by
  rw [sentBy, h]

theorem launched_next {c : Course} {id : Nat} {queue : Queue} {notes : List Note}
    (h : c.act (.flushStep id) = c.next queue notes) :
    c.launched (Action.isStepOf id) (.flushStep id) = (claims notes).map (Launch.mk c.queue.store.events) := by
  rw [launched, Action.isStepOf, if_pos (beq_self_eq_true id), h, next, List.drop_left]

/-- An action changes what a flush has sent only if it is a step of the flush. -/
theorem sentBy_of_not_step {c : Course} (hl : c.queue.Lined) {id : Nat} {a : Action}
    (ha : a ≠ .flushStep id) : (c.act a).sentBy id = c.sentBy id := by
  rcases c.act_cases a with hact | hact
  · cases hf' : (c.act a).queue.flushes[id]? with
    | none =>
      have hlen := length_flushes_le hact
      rw [sentBy_of_none hf', sentBy_of_none]
      rw [List.getElem?_eq_none_iff] at hf' ⊢
      omega
    | some f' =>
      rw [sentBy_of_getElem? hf']
      rcases flushChange_act? hl hact hf' with ⟨f, hf, hch⟩ | ⟨-, rfl, rfl⟩
      · rw [sentBy_of_getElem? hf]
        cases hch with
        | move hm => exact absurd rfl ha
        | _ => rfl
      · rw [sentBy_of_none (List.getElem?_eq_none (Nat.le_refl _))]
  · rw [hact]

/-- **What an action does to the batches of a flush.**  Nothing; or it is a step of the flush that
claims one more batch, of events that are stored, not in flight, and not attempted by this flush
before. -/
theorem launched_cases {c : Course} (hl : c.queue.Lined) (id : Nat) (a : Action) :
    (c.launched (Action.isStepOf id) a = [] ∧ (c.act a).sentBy id = c.sentBy id) ∨
    ∃ batch : Batch, c.launched (Action.isStepOf id) a =
        [⟨c.queue.store.events, ⟨c.queue.tickets, batch⟩⟩] ∧
      batch.events = c.books.claimable ((c.sentBy id).flatMap Sent.ids) ∧
      (c.act a).sentBy id = c.sentBy id ++ [⟨c.queue.tickets, batch.ids⟩] := by
  by_cases ha : a = .flushStep id
  · subst ha
    rcases c.act_cases (.flushStep id) with hact | hact
    · obtain ⟨f, p, q₀, g, hf, hm, hc'⟩ := act?_flushStep hact
      rw [launched_next hc']
      have hsent : (c.act (.flushStep id)).sentBy id = (g f).sent := by
        refine sentBy_of_getElem? ?_
        rw [hc', next, getElem?_modifyFlush, if_pos rfl, hm.getElem? hl hf, Option.map_some]
      rw [hsent, sentBy_of_getElem? hf]
      cases hm with
      | claim batch hs hc => exact Or.inr ⟨batch, rfl, claimable_ok c.journal hc, rfl⟩
      | _ => exact Or.inl ⟨rfl, rfl⟩
    · refine Or.inl ⟨?_, by rw [hact]⟩
      rw [launched, hact, List.drop_length]
      split <;> rfl
  · refine Or.inl ⟨if_neg ?_, sentBy_of_not_step hl ha⟩
    cases a with
    | flushStep i =>
      intro hi
      rw [Action.isStepOf, beq_iff_eq] at hi
      exact ha (by rw [hi])
    | _ => exact Bool.false_ne_true

/-- The tickets of the batches that an action dispatches are new. -/
theorem launched_ticket (c : Course) (a : Action) (who : Action → Bool) :
    ∀ l ∈ c.launched who a, l.flight.ticket = c.queue.tickets := by
  intro l hl
  unfold launched at hl
  split at hl
  · obtain ⟨flight, hf, rfl⟩ := List.mem_map.1 hl
    exact ticket_of_move (c.move_act a) flight hf
  · cases hl

end Course

/-! ## Whole runs -/

section Runs

variable (settings : Settings) (store : Store) (id : Nat)

/-- What a flush remembers to have sent is what it has launched. -/
theorem sentBy_run (actions : List Action) :
    ((Course.begin settings store).run actions).sentBy id =
      ((Course.begin settings store).launches (Action.isStepOf id) actions).map Launch.sent := by
  induction actions using List.reverseRecOn with
  | nil => rfl
  | append_singleton actions a ih =>
    rw [Course.run_concat, Course.launches_concat, List.map_append]
    rcases Course.launched_cases (supplied_run settings store actions).lined id a with
      ⟨hnone, hsent⟩ | ⟨batch, hone, -, hsent⟩
    · rw [hsent, hnone, ih, List.map_nil, List.append_nil]
    · rw [hsent, hone, ih]
      rfl

/-- A launch takes no more than a batch may hold, in the order of the store. -/
theorem launches_fit (actions : List Action) :
    ∀ l ∈ (Course.begin settings store).launches (Action.isStepOf id) actions,
      l.flight.batch.size ≤ settings.normalized.batchSize ∧
      l.flight.batch.events.Sublist l.stored := by
  induction actions using List.reverseRecOn with
  | nil => exact nofun
  | append_singleton actions a ih =>
    intro l hmem
    rw [Course.launches_concat, List.mem_append] at hmem
    rcases hmem with hmem | hmem
    · exact ih l hmem
    · rcases Course.launched_cases (supplied_run settings store actions).lined id a with
        ⟨hnone, -⟩ | ⟨batch, hone, hb, -⟩
      · rw [hnone] at hmem
        cases hmem
      · rw [hone, List.mem_singleton] at hmem
        subst hmem
        have hsize := settings_run settings store actions
        rw [Batch.size, hb]
        refine ⟨?_, (List.take_sublist _ _).trans List.filter_sublist⟩
        rw [← hsize]
        exact List.length_take_le _ _

/-- No two launches of a flush share an id. -/
theorem launches_apart (actions : List Action) :
    ((Course.begin settings store).launches (Action.isStepOf id) actions).Pairwise
      fun a b => a.flight.batch.ids.Disjoint b.flight.batch.ids := by
  induction actions using List.reverseRecOn with
  | nil => exact List.Pairwise.nil
  | append_singleton actions a ih =>
    rw [Course.launches_concat]
    rcases Course.launched_cases (supplied_run settings store actions).lined id a with
      ⟨hnone, -⟩ | ⟨batch, hone, hb, -⟩
    · rw [hnone, List.append_nil]
      exact ih
    · rw [hone, List.pairwise_append]
      refine ⟨ih, List.pairwise_singleton _ _, ?_⟩
      intro l hmem l' hl'
      cases List.mem_singleton.1 hl'
      -- the ids of an earlier launch are among those attempted, which the claim passes over
      intro x hx hx'
      obtain ⟨e, he, rfl⟩ := List.mem_map.1 hx'
      rw [hb] at he
      refine (mem_claimable he).2.2 (List.mem_flatMap.2 ⟨l.sent, ?_, hx⟩)
      rw [sentBy_run]
      exact List.mem_map_of_mem hmem

/-- What was launched was claimed. -/
theorem launches_claimed (who : Action → Bool) (actions : List Action) :
    ∀ l ∈ (Course.begin settings store).launches who actions,
      l.flight ∈ claims ((Course.begin settings store).run actions).journal := by
  induction actions using List.reverseRecOn with
  | nil => exact nofun
  | append_singleton actions a ih =>
    intro l hmem
    rw [Course.launches_concat, List.mem_append] at hmem
    rw [Course.run_concat]
    generalize (Course.begin settings store).run actions = c at ih hmem ⊢
    obtain ⟨later, hlater⟩ := journal_extends (c.move_act a)
    have hj : (c.act a).journal = c.journal ++ later := hlater.symm
    rw [hj, claims_append]
    rcases hmem with hmem | hmem
    · exact List.mem_append_left _ (ih l hmem)
    · refine List.mem_append_right _ ?_
      rw [Course.launched, hj, List.drop_left] at hmem
      split at hmem
      · obtain ⟨flight, hflight, rfl⟩ := List.mem_map.1 hmem
        exact hflight
      · cases hmem

/-- A batch is launched by one action: those of certain actions and those of all others have no
ticket in common. -/
theorem launches_ticket_ne (who : Action → Bool) (actions : List Action) :
    ∀ l ∈ (Course.begin settings store).launches who actions,
    ∀ l' ∈ (Course.begin settings store).launches (fun a => !who a) actions,
      l.flight.ticket ≠ l'.flight.ticket := by
  induction actions using List.reverseRecOn with
  | nil => exact nofun
  | append_singleton actions a ih =>
    intro l hl l' hl'
    rw [Course.launches_concat, List.mem_append] at hl hl'
    have ht := tracked_run settings store actions
    have hbefore : ∀ (who' : Action → Bool), ∀ l ∈ (Course.begin settings store).launches who' actions,
        l.flight.ticket < ((Course.begin settings store).run actions).queue.tickets :=
      fun who' l hl => ht.claimed_ticket_lt (launches_claimed settings store who' actions l hl)
    have hnow := Course.launched_ticket ((Course.begin settings store).run actions) a
    rcases hl with hl | hl <;> rcases hl' with hl' | hl'
    · exact ih l hl l' hl'
    · have hlt := hbefore _ l hl
      rw [hnow _ l' hl']
      omega
    · have hlt := hbefore _ l' hl'
      rw [hnow _ l hl]
      omega
    · -- the last action is of one kind or of the other
      exfalso
      unfold Course.launched at hl hl'
      cases hwho : who a <;> simp [hwho] at hl hl'

end Runs

/-! ## What the report counts -/

/-- What the outcomes of batches add up to, in a certain way of ending. -/
def tally (outcome? : Nat → Option Outcome) (way : Outcome → Bool) (counted : List Sent) : Nat :=
  ((counted.filter fun s => (outcome? s.ticket).any way).map fun s => s.ids.length).sum

/-- Was the batch delivered? -/
def isDelivered : Outcome → Bool
  | .ok () => true
  | .error _ => false

theorem tally_concat {outcome? : Nat → Option Outcome} (way : Outcome → Bool) (counted : List Sent)
    {s : Sent} {outcome : Outcome} (ho : outcome? s.ticket = some outcome) :
    tally outcome? way (counted ++ [s]) =
      tally outcome? way counted + if way outcome then s.ids.length else 0 := by
  unfold tally
  rw [List.filter_append, List.map_append, List.sum_append]
  cases hway : way outcome <;> simp [ho, hway]

/-- A report counts batches, the events of those delivered and the events of the others. -/
theorem Reckoned.totals {outcome? : Nat → Option Outcome} {counted : List Sent} {report : Report}
    (h : Reckoned outcome? counted report) :
    report.batches = counted.length ∧ report.delivered = tally outcome? isDelivered counted ∧
      report.failed = tally outcome? (fun o => !isDelivered o) counted := by
  induction h with
  | nil => exact ⟨rfl, rfl, rfl⟩
  | concat s outcome _ ho ih =>
    obtain ⟨hbatches, hdelivered, hfailed⟩ := ih
    rw [tally_concat _ _ ho, tally_concat _ _ ho, List.length_append, ← hbatches, ← hdelivered,
      ← hfailed]
    cases outcome <;> exact ⟨rfl, rfl, rfl⟩

/-- The call of a batch that has landed has ended, with the outcome on record. -/
theorem Course.Reached.outcome_eq {c : Course} (h : c.Reached) {ticket : Nat}
    (ho : (c.queue.outcome? ticket).isSome = true) :
    ∃ ending, c.ending? ticket = some ending ∧ c.queue.outcome? ticket = some ending.outcome := by
  have hl : hasLanded c.books.journal ticket = true := by
    rw [← h.tracked.isSome_outcome]
    exact ho
  obtain ⟨ending, he⟩ := Option.isSome_iff_exists.1 (h.tracked.ended ticket hl)
  refine ⟨ending, he, ?_⟩
  have hlookup := h.tracked.outcomes ticket
  rw [if_pos hl, he] at hlookup
  exact hlookup

/-- Counted by outcome or by ending, launches that have landed add up to the same. -/
theorem tally_launches {c : Course} (h : c.Reached) {ls : List Launch}
    (hls : ∀ l ∈ ls, (c.queue.outcome? l.flight.ticket).isSome = true) (way : Outcome → Bool) :
    tally c.queue.outcome? way (ls.map Launch.sent) = c.total (fun e => way e.outcome) ls := by
  have hsame : ∀ l ∈ ls, (c.queue.outcome? l.flight.ticket).any way =
      (c.ending? l.flight.ticket).any fun e => way e.outcome := by
    intro l hl
    obtain ⟨ending, he, ho⟩ := h.outcome_eq (hls l hl)
    rw [he, ho]
    rfl
  have hsize : ∀ l : Launch, l.sent.ids.length = l.flight.batch.size := fun l => List.length_map _
  unfold tally Course.total
  rw [List.filter_map, List.map_map]
  congr 1
  rw [← List.filter_congr hsame]
  exact List.map_congr_left fun l _ => hsize l

/-- **A flush among others.**  Take any run, whatever is stored, claimed, delivered, removed or made
to fail in it, and any flush of it.

* The batches that the steps of the flush dispatch are not empty, hold no more events than a batch
  may, and hold them in the order in which they were stored.
* No two of them share an id, even though a batch that failed is claimable again at once.
* When the flush has returned, the calls for all these batches have ended.  Its report counts these
  batches, the events of those that were delivered, and the events of those whose calls failed or
  crashed.  No batch of another flush is among them. -/
theorem flush_among_others (settings : Settings) (store : Store) (actions : List Action) (id : Nat) :
    let start := Course.begin settings store
    let c := start.run actions
    let launches := start.launches (Action.isStepOf id) actions
    (∀ l ∈ launches, l.flight.batch.events ≠ [] ∧
      l.flight.batch.events.length ≤ settings.normalized.batchSize ∧
      l.flight.batch.events.Sublist l.stored) ∧
    launches.Pairwise (fun a b => a.flight.batch.ids.Disjoint b.flight.batch.ids) ∧
    (∀ report, c.queue.flushResult? id = some report →
      (∀ l ∈ launches, (c.ending? l.flight.ticket).isSome = true) ∧
      (∀ l ∈ launches, ∀ l' ∈ start.launches (fun a => !a.isStepOf id) actions,
        l.flight.ticket ≠ l'.flight.ticket) ∧
      report.batches = launches.length ∧
      report.delivered = c.total Ending.delivers launches ∧
      report.failed = c.total (fun e => !e.delivers) launches) := by
  intro start c launches
  have hreached : c.Reached := ⟨settings, store, actions, rfl⟩
  have hsent : c.sentBy id = launches.map Launch.sent := sentBy_run settings store id actions
  refine ⟨fun l hl => ⟨l.flight.batch.nonempty, launches_fit settings store id actions l hl⟩,
    launches_apart settings store id actions, fun report hreport => ?_⟩
  obtain ⟨f, hf, hst, rfl⟩ := flushResult?_eq_some hreport
  have hr : Reckoned c.queue.outcome? (launches.map Launch.sent) f.report := by
    obtain ⟨counted, hcounted, hr⟩ := hreached.accounted (List.mem_of_getElem? hf)
    rw [Flush.uncounted, hst, List.append_nil, ← Course.sentBy_of_getElem? hf, hsent] at hcounted
    rwa [hcounted]
  have hlanded : ∀ l ∈ launches, (c.queue.outcome? l.flight.ticket).isSome = true :=
    fun l hl => hr.settled (List.mem_map_of_mem hl)
  obtain ⟨hbatches, hdelivered, hfailed⟩ := hr.totals
  rw [tally_launches hreached hlanded] at hdelivered hfailed
  refine ⟨fun l hl => ?_, launches_ticket_ne settings store _ actions, ?_, hdelivered, hfailed⟩
  · obtain ⟨ending, he, -⟩ := hreached.outcome_eq (hlanded l hl)
    rw [he]
    rfl
  · rw [hbatches, List.length_map]

/-- Two events at two to a batch, in a store to which two more are pushed while a flush is under
way.  The first batch of the flush crashes and is back before the flush goes on; the runner claims
it again, and the flush passes over it. -/
def crowdedRun : List Action :=
  [.callFlush, .flushStep 0, .flushStep 0, .push [sampleEvent 3, sampleEvent 4] true,
    .finish 0 .crashed, .land 0, .tick 0 0, .flushStep 0, .flushStep 0, .flushStep 0,
    .finish 1 (.returned (.ok ())), .finish 2 (.returned (.ok ())), .land 2, .land 1, .flushStep 0,
    .flushStep 0, .flushStep 0, .flushStep 0, .flushStep 0]

/-- The flush has dispatched two batches and reports those; the one of the runner does not count. -/
theorem flush_among_others_crowded :
    let start := Course.begin { batchSize := 2, concurrency := 2 }
      { events := [sampleEvent 1, sampleEvent 2] }
    let c := start.run crowdedRun
    let launches := start.launches (Action.isStepOf 0) crowdedRun
    c.queue.tickets = 3 ∧
    c.queue.flushResult? 0 = some { batches := 2, delivered := 2, failed := 2 } ∧
    launches.map (fun l => l.flight.ticket) = [0, 2] ∧
    c.total Ending.delivers launches = 2 := by
  intro start c launches
  have hreturned : c.queue.flushResult? 0 = some { batches := 2, delivered := 2, failed := 2 } := by
    decide
  obtain ⟨-, -, hreport⟩ := flush_among_others { batchSize := 2, concurrency := 2 }
    { events := [sampleEvent 1, sampleEvent 2] } crowdedRun 0
  obtain ⟨-, -, -, hdelivered, -⟩ := hreport _ hreturned
  exact ⟨by decide, hreturned, by decide, hdelivered.symm⟩

end EventRelay.Queue
