import EventRelay.Proofs.Queue.Interference
import EventRelay.Proofs.Queue.Order

/-!
# Dispatch and the usability of the transport

Whether the transport is usable is asked at two doors.  A tick and a dispatch by hand ask every time
they are about to claim a batch.  A flush asks once, when it is called: with an unusable transport it
returns at once, and otherwise it claims batch after batch without asking again.

* `Course.CalledWhileUsable` — the transport was usable when the flush of a number was called.
* `calledWhileUsable_run` — **only such a flush is ever under way**; `turnedAway_run` — any other has
  returned without having dispatched anything, and stays that way.
* `dispatch_asks_at_the_door` — so a batch that is claimed is claimed with a usable transport, or by a
  flush that was called with one; for whole runs, and for ids in flight as well.
* `claimed_while_unusable` — a flush does go on claiming when the transport has become unusable.
-/

namespace EventRelay.Queue

/-! ## Calls of a flush -/

/-- In a run, the transport was usable when the flush of this number was called. -/
def Course.CalledWhileUsable (start : Course) (actions : List Action) (id : Nat) : Prop :=
  ∃ before after, actions = before ++ .callFlush :: after ∧
    (start.run before).queue.flushes.length = id ∧ (start.run before).usable = true

theorem Course.CalledWhileUsable.concat {start : Course} {actions : List Action} {id : Nat}
    (h : start.CalledWhileUsable actions id) (a : Action) :
    start.CalledWhileUsable (actions ++ [a]) id := by
  obtain ⟨before, after, rfl, hid, hu⟩ := h
  exact ⟨before, after ++ [a], by simp, hid, hu⟩

/-- A flush that has returned is not touched by anything. -/
theorem FlushChange.eq_of_returned {c : Course} {i : Nat} {f f' : Flush} {a : Action}
    (h : FlushChange c i f a f') (hf : f.stage = .returned) : f' = f := by
  cases h with
  | stay ha => rfl
  | permit ha hs => simp [hf] at hs
  | wake ticket hs => simp [hf] at hs
  | move hm => cases hm <;> simp_all

/-- A flush that is under way after an action was under way before, or was called by the action with
a usable transport. -/
theorem underWay_act? {c c' : Course} {a : Action} (hl : c.queue.Lined) (hact : c.act? a = some c')
    {id : Nat} {f' : Flush} (hf' : c'.queue.flushes[id]? = some f') (hs : f'.stage ≠ .returned) :
    (∃ f, c.queue.flushes[id]? = some f ∧ f.stage ≠ .returned) ∨
    (a = .callFlush ∧ id = c.queue.flushes.length ∧ c.usable = true) := by
  rcases flushChange_act? hl hact hf' with ⟨f, hf, hch⟩ | ⟨ha, hid, rfl⟩
  · refine Or.inl ⟨f, hf, fun hr => hs ?_⟩
    rw [hch.eq_of_returned hr, hr]
  · refine Or.inr ⟨ha, hid, ?_⟩
    by_contra hu
    simp [hu] at hs

/-- **Only flushes that were called with a usable transport are under way.** -/
theorem calledWhileUsable_run (settings : Settings) (store : Store) (actions : List Action) :
    ∀ id f, ((Course.begin settings store).run actions).queue.flushes[id]? = some f →
      f.stage ≠ .returned → (Course.begin settings store).CalledWhileUsable actions id := by
  induction actions using List.reverseRecOn with
  | nil =>
    intro id f hf
    simp [Course.begin, ofStore] at hf
  | append_singleton actions a ih =>
    intro id f hf hs
    have hl := (supplied_run settings store actions).lined
    rw [Course.run_concat] at hf
    rcases Course.act_cases ((Course.begin settings store).run actions) a with hact | hact
    · rcases underWay_act? hl hact hf hs with ⟨f₀, hf₀, hs₀⟩ | ⟨rfl, rfl, hu⟩
      · exact (ih id f₀ hf₀ hs₀).concat a
      · exact ⟨actions, [], rfl, rfl, hu⟩
    · rw [hact] at hf
      exact (ih id f hf hs).concat a

/-- A flush that is called with an unusable transport has returned at once. -/
theorem getElem?_callFlush (c : Course) :
    (c.act .callFlush).queue.flushes[c.queue.flushes.length]? =
      some { stage := if c.usable then .asking else .returned } := by
  simp [Course.act, Course.act?, Course.next, callFlush]

/-- **A flush that is turned away at its call has returned with nothing**, and stays that way
whatever happens afterwards. -/
theorem turnedAway_run {c : Course} (hc : c.Reached) (hu : c.usable = false) (after : List Action) :
    ((c.act .callFlush).run after).queue.flushes[c.queue.flushes.length]? =
      some { stage := .returned } := by
  induction after using List.reverseRecOn with
  | nil =>
    have hcall := getElem?_callFlush c
    rw [hu] at hcall
    exact hcall
  | append_singleton after a ih =>
    have hl := ((hc.act .callFlush).run after).supplied.lined
    obtain ⟨f', hf', hch⟩ := exists_flushChange hl ih a
    rw [Course.run_concat, hf']
    rcases hch with rfl | hch
    · rfl
    · rw [hch.eq_of_returned rfl]

/-! ## Claims -/

/-- An id becomes in flight only when a batch that holds it is claimed. -/
theorem claimed_of_processing {b b' : Books} {a : Action} (h : Books.Move b a b') {id : EventId}
    (hid : id ∈ b'.processing) (hnew : id ∉ b.processing) :
    ∃ flight : Flight, b'.journal = b.journal ++ [.claimed flight] ∧ id ∈ flight.batch.ids := by
  cases h with
  | claim exclude batch ha hb =>
    rcases List.mem_append.1 hid with hid | hid
    · exact absurd hid hnew
    · exact ⟨_, rfl, List.mem_eraseDups.1 hid⟩
  | land flight ending hf he => exact absurd (List.mem_of_mem_filter hid) hnew
  | _ => exact absurd hid hnew

/-- **Usability is asked at the door.**  Take any run, in which the transport becomes usable or
unusable at any moment, and any action after it.

* A batch that the action claims is claimed while the transport is usable, unless the action is a
  step of a flush; then the transport was usable when that flush was called.
* So while the transport is unusable no event becomes in flight but by such a flush.
* A flush that is called while the transport is unusable dispatches nothing at all, and returns an
  empty report. -/
theorem dispatch_asks_at_the_door (settings : Settings) (store : Store) (actions : List Action)
    (a : Action) :
    let start := Course.begin settings store
    let c := start.run actions
    (∀ flight, (c.act a).journal = c.journal ++ [.claimed flight] →
      c.usable = true ∨ ∃ id, a = .flushStep id ∧ start.CalledWhileUsable actions id) ∧
    (c.usable = false → ∀ id ∈ (c.act a).queue.processing, id ∈ c.queue.processing ∨
      ∃ flush, a = .flushStep flush ∧ start.CalledWhileUsable actions flush) ∧
    (∀ before after, actions = before ++ .callFlush :: after → (start.run before).usable = false →
      let id := (start.run before).queue.flushes.length
      start.launches (Action.isStepOf id) actions = [] ∧ c.queue.flushResult? id = some {}) := by
  intro start c
  have hclaim : ∀ flight, (c.act a).journal = c.journal ++ [.claimed flight] →
      c.usable = true ∨ ∃ id, a = .flushStep id ∧ start.CalledWhileUsable actions id := by
    intro flight hj
    rcases Course.claimed_by hj with ⟨hu, -⟩ | ⟨id, f, ha, hf, hs, -⟩
    · exact Or.inl hu
    · exact Or.inr ⟨id, ha, calledWhileUsable_run settings store actions id f hf (by simp [hs])⟩
  refine ⟨hclaim, fun hu id hid => ?_, ?_⟩
  · by_cases hold : id ∈ c.queue.processing
    · exact Or.inl hold
    · obtain ⟨flight, hj, -⟩ := claimed_of_processing (c.move_act a) hid hold
      rcases hclaim flight hj with husable | hflush
      · rw [hu] at husable
        cases husable
      · exact Or.inr hflush
  · intro before after hactions hu id
    have hf : c.queue.flushes[id]? = some { stage := .returned } := by
      have hreached : (start.run before).Reached := ⟨settings, store, before, rfl⟩
      have hturned := turnedAway_run hreached hu after
      rwa [← Course.run_cons, ← Course.run_append, ← hactions] at hturned
    refine ⟨?_, by rw [flushResult?_eq hf]; rfl⟩
    have hsent := sentBy_run settings store id actions
    rw [Course.sentBy_of_getElem? hf] at hsent
    exact List.map_eq_nil_iff.1 hsent.symm

/-- One event to a batch and one batch at a time.  A flush is called and has dispatched the first
batch when the transport becomes unusable; a second flush is turned away; the first batch is
delivered and lands, so that the first flush has a permit again. -/
def unusableRun : List Action :=
  [.callFlush, .flushStep 0, .flushStep 0, .usability false, .callFlush,
    .finish 0 (.returned (.ok ())), .flushStep 0, .land 0]

/-- After that run a dispatch by hand claims nothing, although an event is stored and nothing is in
flight, and the second flush has returned with nothing. -/
theorem dispatch_asks_at_the_door_unusable :
    let start := Course.begin { batchSize := 1, concurrency := 1 }
      { events := [sampleEvent 1, sampleEvent 2] }
    let c := start.run unusableRun
    c.usable = false ∧ c.queue.store.events.map Event.id = [.ofNat 2] ∧ c.queue.processing = [] ∧
    (∀ flight, (c.act .dispatch).journal ≠ c.journal ++ [.claimed flight]) ∧
    c.queue.flushResult? 1 = some {} := by
  intro start c
  obtain ⟨hclaim, -, hturned⟩ := dispatch_asks_at_the_door { batchSize := 1, concurrency := 1 }
    { events := [sampleEvent 1, sampleEvent 2] } unusableRun .dispatch
  have hu : c.usable = false := by decide
  refine ⟨hu, by decide, by decide, fun flight hj => ?_, ?_⟩
  · rcases hclaim flight hj with husable | ⟨id, ha, -⟩
    · exact absurd (hu.symm.trans husable) Bool.false_ne_true
    · cases ha
  · exact (hturned (unusableRun.take 4) (unusableRun.drop 5) rfl (by decide)).2

/-- **A flush goes on while the transport is unusable.**  After that run the transport is unusable
and nothing is in flight; the next step of the flush claims the second event all the same. -/
theorem claimed_while_unusable :
    let c := (Course.begin { batchSize := 1, concurrency := 1 }
      { events := [sampleEvent 1, sampleEvent 2] }).run unusableRun
    c.usable = false ∧ c.queue.processing = [] ∧
    (c.act (.flushStep 0)).queue.processing = [.ofNat 2] ∧
    (claims c.journal).map (fun f => f.batch.ids) = [[.ofNat 1]] ∧
    (claims (c.act (.flushStep 0)).journal).map (fun f => f.batch.ids) = [[.ofNat 1], [.ofNat 2]] := by
  decide

end EventRelay.Queue
