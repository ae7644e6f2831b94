import EventRelay.Proofs.Queue.Permits

/-!
# The life of a flush

Many flushes can be under way at once.  An action touches few of them: the flush that makes a step,
the one at the head of the line when a permit is given back, and those that wait until nothing is in
flight.

* `FlushChange` — everything that an action can do to one flush; `flushChange_act?` says that there
  is nothing else, and that only a call adds a flush.
* `Flush.Accounted` — the report of a flush is what the outcomes of its own batches add up to,
  counted one by one in the order of dispatch.
* `accounted_run` — **reports are exact** after every run, for every flush.
-/

namespace EventRelay.Queue

/-! ## What an action does to a flush -/

/-- Everything that an action can do to the flush `f`, the one of number `i`. -/
inductive FlushChange (c : Course) (i : Nat) (f : Flush) : Action → Flush → Prop
  /-- Nothing. -/
  | stay {a : Action} (ha : a ≠ .flushStep i) : FlushChange c i f a f
  /-- It gets a permit that was given back. -/
  | permit {a : Action} (ha : a ≠ .flushStep i) (hs : f.stage = .inLine) :
      FlushChange c i f a { f with stage := .holding }
  /-- It wakes up, with nothing in flight any more. -/
  | wake (ticket : Nat) (hs : f.stage = .parked) :
      FlushChange c i f (.land ticket) { f with stage := .joining [] }
  /-- It makes a step. -/
  | move {p : Progress} {q₀ : Queue} {g : Flush → Flush} (hm : FlushMove c.queue i f p q₀ g) :
      FlushChange c i f (.flushStep i) (g f)

/-- A flush before and after a permit was given back, perhaps to it. -/
def Flush.Handed (f f' : Flush) : Prop :=
  f' = f ∨ f.stage = .inLine ∧ f' = { f with stage := .holding }

theorem Flush.Handed.change {f f' : Flush} (h : f.Handed f') (c : Course) {i : Nat} {a : Action}
    (ha : a ≠ .flushStep i) : FlushChange c i f a f' := by
  rcases h with rfl | ⟨hs, rfl⟩
  · exact FlushChange.stay ha
  · exact FlushChange.permit ha hs

namespace Lined

variable {q : Queue}

theorem handed_release (hl : q.Lined) {i : Nat} {f' : Flush}
    (hf : q.release.flushes[i]? = some f') : ∃ f, q.flushes[i]? = some f ∧ f.Handed f' := by
  unfold Queue.release at hf
  split at hf
  · exact ⟨f', hf, Or.inl rfl⟩
  · rename_i id rest hline
    rw [getElem?_modifyFlush] at hf
    split at hf
    · rename_i hid
      obtain ⟨f, hq, rfl⟩ := Option.map_eq_some_iff.1 hf
      obtain ⟨f₁, hf₁, hs⟩ := (hl.waiting id).1 (by rw [hline]; exact List.mem_cons_self)
      rw [hid] at hf₁
      have heq : f₁ = f := Option.some.inj (hf₁.symm.trans hq)
      subst heq
      exact ⟨f₁, hq, Or.inr ⟨hs, rfl⟩⟩
    · exact ⟨f', hf, Or.inl rfl⟩

theorem handed_claim (hl : q.Lined) (exclude : List EventId) {i : Nat} {f' : Flush}
    (hf : (q.claim exclude).2.flushes[i]? = some f') :
    ∃ f, q.flushes[i]? = some f ∧ f.Handed f' := by
  rcases q.claim_cases exclude with ⟨e, -, hq⟩ | ⟨-, hq⟩ | ⟨batch, -, hq⟩
  · rw [hq] at hf
    exact hl.handed_release hf
  · rw [hq] at hf
    exact hl.handed_release hf
  · rw [hq] at hf
    exact ⟨f', hf, Or.inl rfl⟩

theorem handed_dispatch (hl : q.Lined) (usable : Bool) {i : Nat} {f' : Flush}
    (hf : (q.dispatch usable).2.flushes[i]? = some f') :
    ∃ f, q.flushes[i]? = some f ∧ f.Handed f' := by
  rcases q.dispatch_cases usable with ⟨-, hq⟩ | ⟨-, -, hq⟩ | ⟨free, -, hfree, hq⟩
  · rw [hq] at hf
    exact ⟨f', hf, Or.inl rfl⟩
  · rw [hq] at hf
    exact ⟨f', hf, Or.inl rfl⟩
  · rw [hq] at hf
    exact (hl.take hfree).handed_claim [] hf

end Lined

/-- Before it changes the flush that makes it, a step can only hand a permit on. -/
theorem FlushMove.handed {q q₀ : Queue} {id : Nat} {f : Flush} {p : Progress} {g : Flush → Flush}
    (hm : FlushMove q id f p q₀ g) (hl : q.Lined) {i : Nat} {f' : Flush}
    (hf : q₀.flushes[i]? = some f') : ∃ f, q.flushes[i]? = some f ∧ f.Handed f' := by
  cases hm with
  | exhaust hs hc => exact hl.handed_release hf
  | giveUp e hs hc => exact hl.handed_release hf
  | _ => exact ⟨f', hf, Or.inl rfl⟩

/-- A step of a flush finds the flush as it was. -/
theorem FlushMove.getElem? {q q₀ : Queue} {id : Nat} {f : Flush} {p : Progress} {g : Flush → Flush}
    (hm : FlushMove q id f p q₀ g) (hl : q.Lined) (hf : q.flushes[id]? = some f) :
    q₀.flushes[id]? = some f := by
  cases hm with
  | exhaust hs hc => exact hl.getElem?_release hf (by rw [hs]; exact Stage.noConfusion)
  | giveUp e hs hc => exact hl.getElem?_release hf (by rw [hs]; exact Stage.noConfusion)
  | _ => exact hf

theorem flushChange_land {c : Course} (hl : c.queue.Lined) {flight : Flight} {outcome : Outcome}
    {i : Nat} {f' : Flush} (hf : (c.queue.land flight outcome).flushes[i]? = some f') :
    ∃ f, c.queue.flushes[i]? = some f ∧ FlushChange c i f (.land flight.ticket) f' := by
  have hwl : (c.queue.withoutFlight flight outcome).Lined := ⟨hl.nodup, hl.waiting, hl.full⟩
  rw [land_eq] at hf
  split at hf
  · obtain ⟨f₁, hf₁, hh⟩ := hwl.wakeParked.handed_release hf
    rw [wakeParked, List.getElem?_map] at hf₁
    obtain ⟨f, hq, rfl⟩ := Option.map_eq_some_iff.1 hf₁
    refine ⟨f, hq, ?_⟩
    by_cases hs : f.stage = .parked
    · rw [if_pos hs] at hh
      rcases hh with rfl | ⟨hs', -⟩
      · exact FlushChange.wake _ hs
      · cases hs'
    · rw [if_neg hs] at hh
      exact hh.change c Action.noConfusion
  · obtain ⟨f, hq, hh⟩ := hwl.handed_release hf
    exact ⟨f, hq, hh.change c Action.noConfusion⟩

/-- **What an action does to a flush.**  A flush that is there after an action was there before, and
made one of the changes; or the action was its call. -/
theorem flushChange_act? {c c' : Course} {a : Action} (hl : c.queue.Lined)
    (hact : c.act? a = some c') {i : Nat} {f' : Flush} (hf : c'.queue.flushes[i]? = some f') :
    (∃ f, c.queue.flushes[i]? = some f ∧ FlushChange c i f a f') ∨
    (a = .callFlush ∧ i = c.queue.flushes.length ∧
      f' = { stage := if c.usable then .asking else .returned }) := by
  have hstay : c'.queue.flushes = c.queue.flushes → a ≠ .flushStep i →
      ∃ f, c.queue.flushes[i]? = some f ∧ FlushChange c i f a f' := by
    intro heq ha
    rw [heq] at hf
    exact ⟨f', hf, FlushChange.stay ha⟩
  by_cases hside : a.isAside = true
  · obtain ⟨_, _, _, _, _, _, hq⟩ := Course.act?_aside hside hact
    refine Or.inl (hstay (by rw [hq]) ?_)
    rintro rfl
    cases hside
  cases a with
  | tick runner now =>
    obtain ⟨-, rfl⟩ := Course.act?_tick hact
    obtain ⟨f, hq, hh⟩ := hl.handed_dispatch c.usable hf
    exact Or.inl ⟨f, hq, hh.change c Action.noConfusion⟩
  | dispatch =>
    cases hact
    obtain ⟨f, hq, hh⟩ := hl.handed_dispatch c.usable hf
    exact Or.inl ⟨f, hq, hh.change c Action.noConfusion⟩
  | callFlush =>
    cases hact
    simp only [Course.next, Queue.callFlush, List.getElem?_append] at hf
    split at hf
    · exact Or.inl ⟨f', hf, FlushChange.stay Action.noConfusion⟩
    · rw [List.getElem?_singleton] at hf
      split at hf
      · cases hf
        exact Or.inr ⟨rfl, by omega, rfl⟩
      · cases hf
  | flushStep id =>
    obtain ⟨f, p, q₀, g, hq, hm, rfl⟩ := Course.act?_flushStep hact
    simp only [Course.next, getElem?_modifyFlush] at hf
    split at hf
    · rename_i hid
      subst hid
      rw [hm.getElem? hl hq, Option.map_some] at hf
      cases hf
      exact Or.inl ⟨f, hq, FlushChange.move hm⟩
    · rename_i hid
      obtain ⟨f₁, hq₁, hh⟩ := hm.handed hl hf
      refine Or.inl ⟨f₁, hq₁, hh.change c fun heq => hid ?_⟩
      exact Action.flushStep.inj heq
  | finish ticket ending =>
    obtain ⟨flight, -, -, -, rfl⟩ := Course.act?_finish hact
    obtain ⟨_, _, _, -, hq⟩ := c.queue.account_frame flight.batch ending.outcome
    exact Or.inl (hstay (by rw [Course.next, hq]) Action.noConfusion)
  | land ticket =>
    obtain ⟨flight, ending, rfl, -, -, rfl⟩ := Course.act?_land hact
    exact Or.inl (flushChange_land hl hf)
  | _ => exact absurd rfl hside

/-! ## What a flush has returned -/

theorem flushResult?_eq {q : Queue} {id : Nat} {f : Flush} (hf : q.flushes[id]? = some f) :
    q.flushResult? id = if f.stage = .returned then some f.report else none := by
  unfold flushResult?
  rw [hf]
  obtain ⟨stage, sent, report⟩ := f
  cases stage <;> rfl

/-- A report is that of a flush which has returned. -/
theorem flushResult?_eq_some {q : Queue} {id : Nat} {report : Report}
    (h : q.flushResult? id = some report) :
    ∃ f, q.flushes[id]? = some f ∧ f.stage = .returned ∧ f.report = report := by
  cases hf : q.flushes[id]? with
  | none =>
    rw [flushResult?, hf] at h
    cases h
  | some f =>
    rw [flushResult?_eq hf] at h
    split at h
    · rename_i hst
      exact ⟨f, rfl, hst, Option.some.inj h⟩
    · cases h

/-! ## What a flush counts -/

/-- The batches of a flush that it has not counted yet. -/
def Flush.uncounted (f : Flush) : List Sent :=
  match f.stage with
  | .asking => f.sent
  | .inLine => f.sent
  | .holding => f.sent
  | .joining left => left
  | .parked => []
  | .returned => []

/-- A report counts the outcomes of batches, one by one. -/
inductive Reckoned (outcome? : Nat → Option Outcome) : List Sent → Report → Prop
  /-- At first nothing was counted. -/
  | nil : Reckoned outcome? [] {}
  /-- One more batch has an outcome and is counted. -/
  | concat {counted : List Sent} {report : Report} (s : Sent) (outcome : Outcome)
      (h : Reckoned outcome? counted report) (ho : outcome? s.ticket = some outcome) :
      Reckoned outcome? (counted ++ [s]) (report.add s.ids.length outcome)

/-- A flush has counted its batches up to those that are left. -/
def Flush.Accounted (outcome? : Nat → Option Outcome) (f : Flush) : Prop :=
  ∃ counted, f.sent = counted ++ f.uncounted ∧ Reckoned outcome? counted f.report

theorem Reckoned.mono {outcome? outcome?' : Nat → Option Outcome}
    (hle : ∀ ticket outcome, outcome? ticket = some outcome → outcome?' ticket = some outcome)
    {counted : List Sent} {report : Report} (h : Reckoned outcome? counted report) :
    Reckoned outcome?' counted report := by
  induction h with
  | nil => exact Reckoned.nil
  | concat s outcome _ ho ih => exact Reckoned.concat s outcome ih (hle _ _ ho)

/-- Nothing was counted. -/
theorem Reckoned.of_nil {outcome? : Nat → Option Outcome} {report : Report}
    (h : Reckoned outcome? [] report) : report = {} := by
  generalize hall : ([] : List Sent) = all at h
  cases h with
  | nil => rfl
  | concat s outcome hr ho => simp at hall

/-- The batch that was counted last. -/
theorem Reckoned.of_concat {outcome? : Nat → Option Outcome} {counted : List Sent} {s : Sent}
    {report : Report} (h : Reckoned outcome? (counted ++ [s]) report) :
    ∃ before outcome, Reckoned outcome? counted before ∧ outcome? s.ticket = some outcome ∧
      report = before.add s.ids.length outcome := by
  generalize hall : counted ++ [s] = all at h
  cases h with
  | nil => simp at hall
  | concat s' outcome hr ho =>
    obtain ⟨rfl, hs⟩ := List.append_inj' hall rfl
    cases hs
    exact ⟨_, outcome, hr, ho, rfl⟩

/-- Every batch that was counted has an outcome. -/
theorem Reckoned.settled {outcome? : Nat → Option Outcome} {counted : List Sent} {report : Report}
    (h : Reckoned outcome? counted report) {s : Sent} (hs : s ∈ counted) :
    (outcome? s.ticket).isSome = true := by
  induction h with
  | nil => cases hs
  | concat s' outcome _ ho ih =>
    rw [List.mem_append, List.mem_singleton] at hs
    rcases hs with hs | rfl
    · exact ih hs
    · rw [ho]
      rfl

/-- A step of a flush keeps its account. -/
theorem Flush.Accounted.move {q q₀ : Queue} {id : Nat} {f : Flush} {p : Progress}
    {g : Flush → Flush} (h : f.Accounted q.outcome?) (hm : FlushMove q id f p q₀ g) :
    (g f).Accounted q.outcome? := by
  obtain ⟨counted, hsent, hr⟩ := h
  unfold Flush.uncounted at hsent
  cases hm with
  | take free hs hfree =>
    rw [hs] at hsent
    exact ⟨counted, hsent, hr⟩
  | queue hs hfree =>
    rw [hs] at hsent
    exact ⟨counted, hsent, hr⟩
  | claim batch hs hc =>
    -- nothing was counted before all batches are dispatched
    rw [hs] at hsent
    have hnil : counted = [] := List.self_eq_append_left.1 hsent
    subst hnil
    exact ⟨[], rfl, hr⟩
  | exhaust hs hc =>
    rw [hs] at hsent
    exact ⟨counted, hsent, hr⟩
  | giveUp e hs hc =>
    rw [hs] at hsent
    exact ⟨counted, hsent, hr⟩
  | join s rest outcome hs ho =>
    rw [hs] at hsent
    exact ⟨counted ++ [s], by rw [List.append_assoc]; exact hsent, hr.concat s outcome ho⟩
  | finish hs hp =>
    rw [hs] at hsent
    exact ⟨counted, hsent, hr⟩
  | park hs hp =>
    rw [hs] at hsent
    exact ⟨counted, hsent, hr⟩

/-- Whatever happens to a flush, it keeps its account. -/
theorem Flush.Accounted.change {c : Course} {i : Nat} {f f' : Flush} {a : Action}
    (h : f.Accounted c.queue.outcome?) (hc : FlushChange c i f a f') :
    f'.Accounted c.queue.outcome? := by
  cases hc with
  | stay ha => exact h
  | permit ha hs =>
    obtain ⟨counted, hsent, hr⟩ := h
    rw [Flush.uncounted, hs] at hsent
    exact ⟨counted, hsent, hr⟩
  | wake ticket hs =>
    obtain ⟨counted, hsent, hr⟩ := h
    rw [Flush.uncounted, hs] at hsent
    exact ⟨counted, hsent, hr⟩
  | move hm => exact h.move hm

/-- **Reports are exact.**  After every run, every flush has counted its own batches one by one in
the order of dispatch, up to those that are left, each with the outcome on record. -/
theorem accounted_run (settings : Settings) (store : Store) (actions : List Action) :
    let c := (Course.begin settings store).run actions
    ∀ f ∈ c.queue.flushes, f.Accounted c.queue.outcome? := by
  refine Course.run_induction
    (P := fun c => ∀ f ∈ c.queue.flushes, f.Accounted c.queue.outcome?) ?_ ?_ actions
  · intro f hf
    cases hf
  · intro before a h f' hf'
    have ht := tracked_run settings store before
    have ht' := tracked_run settings store (before ++ [a])
    rw [Course.run_concat] at ht'
    generalize hc : (Course.begin settings store).run before = c at h ht hf' ht' ⊢
    have hl : c.queue.Lined := by
      rw [← hc]
      exact (supplied_run settings store before).lined
    rcases c.act_cases a with hact | hact
    · obtain ⟨i, hi⟩ := List.mem_iff_getElem?.1 hf'
      have hmono : ∀ ticket outcome, c.queue.outcome? ticket = some outcome →
          (c.act a).queue.outcome? ticket = some outcome :=
        fun ticket outcome ho => ht.outcome_mono ht' (journal_extends (c.move_act a)) ho
      have hnow : f'.Accounted c.queue.outcome? := by
        rcases flushChange_act? hl hact hi with ⟨f, hq, hch⟩ | ⟨-, -, rfl⟩
        · exact (h f (List.mem_of_getElem? hq)).change hch
        · refine ⟨[], ?_, Reckoned.nil⟩
          unfold Flush.uncounted
          split <;> rfl
      obtain ⟨counted, hsent, hr⟩ := hnow
      exact ⟨counted, hsent, hr.mono hmono⟩
    · rw [hact] at hf' ⊢
      exact h f' hf'

theorem Course.Reached.accounted {c : Course} (h : c.Reached) {f : Flush}
    (hf : f ∈ c.queue.flushes) : f.Accounted c.queue.outcome? := by
  obtain ⟨settings, store, actions, rfl⟩ := h
  exact accounted_run settings store actions f hf

end EventRelay.Queue
