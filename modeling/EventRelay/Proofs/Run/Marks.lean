import EventRelay.Proofs.Run.Drift
import EventRelay.Proofs.Transport.Timing

/-!
# The marks that calls leave

What calls do on their way can be read off the world afterwards: the attempts are in their books, every
leaf has used up the cues it gave, and the calls of leaves are on record with their instants.

* `World.Marked` — the world after some marks.
* `World.marked_perform`, `World.marked_record` — a leaf that is asked, an attempt that is entered.
* `World.marked_enqueue`, `World.marked_change`, `World.marked_post` — nothing else leaves marks.
-/

namespace EventRelay.Run

/-- What the record of calls and the cues of a leaf depend on: its name, and the cue of each call. -/
def Leaf.part (p : Leaf) : String × (Nat → Cue) :=
  (p.name, p.cueAt)

/-- The part of a leaf after some calls. -/
def afterCalls (calls : Nat) (part : String × (Nat → Cue)) : String × (Nat → Cue) :=
  (part.1, fun n => part.2 (calls + n))

theorem afterCalls_zero (part : String × (Nat → Cue)) : afterCalls 0 part = part := by
  simp [afterCalls]

theorem afterCalls_afterCalls (m n : Nat) (part : String × (Nat → Cue)) :
    afterCalls n (afterCalls m part) = afterCalls (m + n) part := by
  simp [afterCalls, Nat.add_assoc]

theorem Leaf.part_advanced (p : Leaf) (calls : Nat) :
    (p.advanced calls).part = afterCalls calls p.part := by
  have hcues : (p.advanced calls).cueAt = fun n => p.cueAt (calls + n) := by
    funext n
    exact p.cueAt_advanced calls n
  rw [part, hcues]
  rfl

namespace World

/-- The call that a mark leaves on record. -/
def callOf (w : World) : Mark → Option Call
  | .asked leaf time batch _ => w.leaves[leaf]?.map fun p => ⟨p.name, time, batch.ids⟩
  | .entered _ _ => none

/-- The world `w'` is `w` after these marks. -/
structure Marked (w : World) (ms : List Mark) (w' : World) : Prop where
  /-- The attempts are in their books. -/
  books : ∀ i, w'.books[i]? = w.books[i]?.map (· ++ Mark.entries i ms)
  /-- Every leaf has used up the cues it gave. -/
  leaves : ∀ i, w'.leaves[i]?.map Leaf.part =
    (w.leaves[i]?.map Leaf.part).map (afterCalls (Mark.cues i ms).length)
  /-- The cues are those of its script. -/
  scripted : ∀ i p, w.leaves[i]? = some p →
    Mark.cues i ms = (List.range (Mark.cues i ms).length).map p.cueAt
  /-- The calls are on record. -/
  calls : w'.calls = (ms.filterMap w.callOf).reverse ++ w.calls

variable {w w' w'' : World} {ms ns : List Mark}

/-- Without marks books, leaves and the record stay. -/
theorem Marked.of_aside (hbooks : w'.books = w.books)
    (hleaves : ∀ i : Nat, w'.leaves[i]?.map Leaf.part = w.leaves[i]?.map Leaf.part)
    (hcalls : w'.calls = w.calls) : w.Marked [] w' := by
  refine ⟨fun i => ?_, fun i => ?_, fun i p _ => rfl, hcalls⟩
  · rw [hbooks]
    cases w.books[i]? <;> simp [Mark.entries]
  · rw [hleaves]
    cases w.leaves[i]? <;> simp [Mark.cues, afterCalls_zero]

theorem Marked.refl (w : World) : w.Marked [] w :=
  .of_aside rfl (fun _ => rfl) rfl

theorem Marked.callOf_eq (h : w.Marked ms w') : w'.callOf = w.callOf := by
  funext m
  cases m with
  | entered book attempt => rfl
  | asked leaf time batch cue =>
    have hnames := congrArg (Option.map fun part : String × (Nat → Cue) =>
      (⟨part.1, time, batch.ids⟩ : Call)) (h.leaves leaf)
    simp only [Option.map_map, Function.comp_def, Leaf.part, afterCalls] at hnames
    exact hnames

theorem Marked.trans (h : w.Marked ms w') (h' : w'.Marked ns w'') : w.Marked (ms ++ ns) w'' := by
  refine ⟨fun i => ?_, fun i => ?_, fun i p hp => ?_, ?_⟩
  · rw [h'.books, h.books, Option.map_map, Mark.entries_append]
    congr 1
    funext b
    exact List.append_assoc _ _ _
  · rw [h'.leaves, h.leaves, Option.map_map, Mark.cues_append, List.length_append]
    congr 1
    funext part
    exact afterCalls_afterCalls _ _ part
  · obtain ⟨p', hp', hpart⟩ : ∃ p', w'.leaves[i]? = some p' ∧
        p'.part = afterCalls (Mark.cues i ms).length p.part := by
      have hleaves := h.leaves i
      rw [hp, Option.map_some, Option.map_some, Option.map_eq_some_iff] at hleaves
      exact hleaves
    have hcue : p'.cueAt = fun n => p.cueAt ((Mark.cues i ms).length + n) :=
      congrArg Prod.snd hpart
    rw [Mark.cues_append, List.length_append, List.range_add, List.map_append, List.map_map]
    congr 1
    · exact h.scripted i p hp
    · rw [h'.scripted i p' hp', hcue]
      simp [Function.comp_def]
  · rw [h'.calls, h.calls, h.callOf_eq, List.filterMap_append, List.reverse_append,
      List.append_assoc]

/-! ## What leaves marks -/

/-- **A leaf that is asked** leaves a mark. -/
theorem marked_perform (w : World) (leaf : Nat) (batch : Batch) :
    w.Marked [.asked leaf w.now batch (w.perform leaf batch).1] (w.perform leaf batch).2 := by
  have hcues : ∀ i, Mark.cues i [.asked leaf w.now batch (w.perform leaf batch).1] =
      if leaf = i then [(w.perform leaf batch).1] else [] := by
    intro i
    by_cases hi : leaf = i <;> simp [Mark.cues, hi]
  refine ⟨fun i => ?_, fun i => ?_, fun i p hp => ?_, ?_⟩
  · obtain ⟨_, _, hframe⟩ := w.perform_frame leaf batch
    rw [hframe]
    cases w.books[i]? <;> simp [Mark.entries]
  · rw [(w.follows_perform leaf batch).leaves i, answers_performed, hcues]
    cases w.leaves[i]? with
    | none => rfl
    | some p => by_cases hi : leaf = i <;> simp [hi, Leaf.part_advanced]
  · rw [hcues]
    by_cases hi : leaf = i
    · subst hi
      rw [if_pos rfl, w.perform_cue hp]
      rfl
    · rw [if_neg hi]
      rfl
  · cases hp : w.leaves[leaf]? with
    | none => simp [perform, callOf, hp]
    | some p => cases hs : p.script <;> simp [perform, callOf, hp, hs, modifyLeaf]

/-- **An attempt that is entered** leaves a mark. -/
theorem marked_record (w : World) (book : Nat) (attempt : Retry.Attempt) :
    w.Marked [.entered book attempt] (w.record book attempt) := by
  refine ⟨fun i => ?_, fun i => ?_, fun i p _ => rfl, rfl⟩
  · rw [record, List.getElem?_modify]
    cases w.books[i]? with
    | none => rfl
    | some entries => by_cases hi : book = i <;> simp [Mark.entries, hi]
  · show w.leaves[i]?.map Leaf.part = _
    cases w.leaves[i]? <;> simp [Mark.cues, afterCalls_zero]

/-! ## What leaves none -/

/-- A line in the log leaves no mark. -/
theorem marked_note (w : World) (line : Log.Line) : w.Marked [] (w.note line) :=
  .of_aside rfl (fun _ => rfl) rfl

/-- Nor does whether leaves are usable. -/
theorem marked_change (w : World) (changes : List (String × Bool)) :
    w.Marked [] (w.change changes) := by
  induction changes generalizing w with
  | nil => exact .refl w
  | cons c changes ih =>
    have hone : w.Marked [] (w.change [c]) := by
      rw [change, List.foldl_cons, List.foldl_nil]
      dsimp only
      split
      · exact .refl w
      · rename_i leaf _
        refine .of_aside rfl (fun i => ?_) rfl
        rw [modifyLeaf, List.getElem?_modify]
        cases w.leaves[i]? with
        | none => rfl
        | some p =>
          by_cases hi : leaf = i
          · simp only [hi, if_true, Option.map_some]
            rfl
          · simp only [hi, if_false, Option.map_some]
            rfl
    exact hone.trans (ih (w.change [c]))

/-- Nor does a collector. -/
theorem marked_post (w : World) (endpoint : String) (batch : Batch) :
    w.Marked [] (w.post endpoint batch).2 := by
  obtain ⟨_, hframe⟩ := w.post_frame endpoint batch
  rw [hframe]
  exact .of_aside rfl (fun _ => rfl) rfl

/-- Nor does a queue that stores events. -/
theorem marked_enqueue (w : World) (depot : Nat) (events : List Event) :
    w.Marked [] (w.enqueue depot events).2 := by
  have hstart : ∀ w : World, (w.startRunner depot).books = w.books ∧
      (w.startRunner depot).leaves = w.leaves ∧ (w.startRunner depot).calls = w.calls := by
    intro w
    unfold startRunner
    split
    · exact ⟨rfl, rfl, rfl⟩
    · split <;> exact ⟨rfl, rfl, rfl⟩
  unfold enqueue
  split
  · exact .refl w
  · split
    · exact .refl w
    · dsimp only
      split
      · refine .of_aside (hstart _).1 (fun i => ?_) (hstart _).2.2
        rw [(hstart _).2.1]
        rfl
      · exact .of_aside rfl (fun _ => rfl) rfl

end World

end EventRelay.Run
