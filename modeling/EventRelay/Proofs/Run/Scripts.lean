import EventRelay.Proofs.Transport.Exchanges
import EventRelay.Run.World

/-!
# Leaves that follow their scripts

A world in which nothing goes on but one call: there are no queues and no tasks, and the scripts of
its leaves make no leaf crash and change no usability.

* `World.Steady` — such a world.
* `World.Follows` — what exchanges have done to it: the leaves have ended as their scripts say, each
  call of a leaf used up one cue, and every call is on record.
* `World.follows_perform` — a leaf that takes a batch follows its script.
-/

namespace EventRelay.Run

open Dialogue

/-- The cue of a call of the leaf, by the number of calls before it. -/
def Leaf.cueAt (p : Leaf) (n : Nat) : Cue :=
  p.script.getD n p.fallback

/-- The leaf after some calls. -/
def Leaf.advanced (p : Leaf) (calls : Nat) : Leaf :=
  { p with script := p.script.drop calls }

/-- How a leaf has ended, each time it was asked. -/
def answers (xs : List Exchange) (leaf : Nat) : List Outcome :=
  xs.filterMap fun x =>
    match x.request with
    | .perform asked _ => if asked = leaf then some x.outcome else none
    | _ => none

namespace World

/-- Nothing goes on in the world, and its scripts are steady. -/
structure Steady (w : World) : Prop where
  /-- There are no queues. -/
  depots : w.depots = []
  /-- No task can go on. -/
  ready : w.ready = []
  /-- No task sleeps. -/
  sleeping : w.sleeping = []
  /-- No cue makes a leaf crash or changes usability. -/
  cues : ∀ p ∈ w.leaves, ∀ n, (p.cueAt n).Steady

/-- What a call leaves on record: the leaf and the events, or nothing if there is no such leaf. -/
def heardOf (w : World) (x : Exchange) : Option (String × List EventId) :=
  match x.request with
  | .perform leaf batch => w.leaves[leaf]?.map fun p => (p.name, batch.ids)
  | _ => none

/-- The calls on record, the latest first. -/
def onRecord (w : World) : List (String × List EventId) :=
  w.calls.map fun c => (c.name, c.ids)

/-- The world `w'` is `w` after these exchanges. -/
structure Follows (w : World) (xs : List Exchange) (w' : World) : Prop where
  /-- Each call of a leaf has used up a cue. -/
  leaves : ∀ i, w'.leaves[i]? = w.leaves[i]?.map (Leaf.advanced · (answers xs i).length)
  /-- The leaves have ended as their scripts say. -/
  scripted : ∀ i p, w.leaves[i]? = some p →
    answers xs i = (List.range (answers xs i).length).map fun n => (p.cueAt n).outcome
  /-- Every call is on record. -/
  recorded : w'.onRecord = (xs.filterMap w.heardOf).reverse ++ w.onRecord

end World

/-! ## Answers -/

theorem answers_append (xs ys : List Exchange) (leaf : Nat) :
    answers (xs ++ ys) leaf = answers xs leaf ++ answers ys leaf :=
  List.filterMap_append

theorem Leaf.advanced_of_nil {p : Leaf} (hs : p.script = []) (n : Nat) : p.advanced n = p := by
  obtain ⟨scripted, name, usable, script, fallback⟩ := p
  subst hs
  simp [Leaf.advanced]

theorem Leaf.advanced_advanced (p : Leaf) (m n : Nat) :
    (p.advanced m).advanced n = p.advanced (m + n) := by
  simp [Leaf.advanced]

theorem Leaf.cueAt_advanced (p : Leaf) (m n : Nat) : (p.advanced m).cueAt n = p.cueAt (m + n) := by
  simp [Leaf.advanced, Leaf.cueAt, List.getD]

namespace World

variable {w w' w'' : World} {xs ys : List Exchange}

/-! ## Exchanges one after another -/

/-- Exchanges with others than leaves leave the leaves alone. -/
theorem Follows.of_aside (hleaves : w'.leaves = w.leaves) (hcalls : w'.calls = w.calls)
    (hxs : ∀ i, answers xs i = []) (hheard : xs.filterMap w.heardOf = []) : w.Follows xs w' := by
  refine ⟨fun i => ?_, fun i p _ => ?_, ?_⟩
  · rw [hleaves, hxs]
    cases w.leaves[i]? <;> rfl
  · rw [hxs]
    rfl
  · rw [hheard, onRecord, hcalls]
    rfl

theorem Follows.refl (w : World) : w.Follows [] w :=
  .of_aside rfl rfl (fun _ => rfl) rfl

/-- The usability of leaves stays as it is. -/
theorem Follows.usability (h : w.Follows xs w') : w'.usability = w.usability := by
  funext leaf
  rw [World.usability, World.usability, h.leaves, Option.map_map]
  rfl

theorem Follows.heardOf (h : w.Follows xs w') : w'.heardOf = w.heardOf := by
  funext x
  unfold World.heardOf
  cases x.request with
  | perform leaf batch =>
    dsimp only
    rw [h.leaves, Option.map_map]
    rfl
  | _ => rfl

theorem Follows.trans (h : w.Follows xs w') (h' : w'.Follows ys w'') : w.Follows (xs ++ ys) w'' := by
  refine ⟨fun i => ?_, fun i p hp => ?_, ?_⟩
  · rw [h'.leaves, h.leaves, Option.map_map, answers_append, List.length_append]
    congr 1
    funext p
    exact p.advanced_advanced _ _
  · have hp' : w'.leaves[i]? = some (p.advanced (answers xs i).length) := by
      rw [h.leaves, hp, Option.map_some]
    rw [answers_append, List.length_append, List.range_add, List.map_append, List.map_map]
    congr 1
    · exact h.scripted i p hp
    · refine (h'.scripted i _ hp').trans (List.map_congr_left fun n _ => ?_)
      rw [Leaf.cueAt_advanced, Function.comp_apply]
  · rw [h'.recorded, h.recorded, h.heardOf, List.filterMap_append, List.reverse_append,
      List.append_assoc]

/-! ## Steady worlds -/

theorem Steady.of_follows (hw : w.Steady) (h : w.Follows xs w') (hdepots : w'.depots = w.depots)
    (hready : w'.ready = w.ready) (hsleeping : w'.sleeping = w.sleeping) : w'.Steady := by
  refine ⟨hdepots.trans hw.depots, hready.trans hw.ready, hsleeping.trans hw.sleeping, ?_⟩
  intro p hp n
  obtain ⟨i, hi⟩ := List.mem_iff_getElem?.1 hp
  rw [h.leaves, Option.map_eq_some_iff] at hi
  obtain ⟨p₀, hp₀, rfl⟩ := hi
  rw [Leaf.cueAt_advanced]
  exact hw.cues p₀ (List.mem_of_getElem? hp₀) _

/-- The exchange that a leaf makes with its cue. -/
def performed (w : World) (leaf : Nat) (batch : Batch) : Exchange :=
  ⟨.perform leaf batch, (w.perform leaf batch).1.outcome⟩

theorem answers_performed (w : World) (leaf i : Nat) (batch : Batch) :
    answers [w.performed leaf batch] i =
      if leaf = i then [(w.perform leaf batch).1.outcome] else [] := by
  by_cases hi : leaf = i <;> simp [answers, performed, hi]

/-- A leaf that takes a batch touches nothing but the leaves and the record. -/
theorem perform_frame (w : World) (leaf : Nat) (batch : Batch) :
    ∃ leaves calls, (w.perform leaf batch).2 = { w with leaves, calls } := by
  unfold perform
  split
  · exact ⟨_, _, rfl⟩
  · dsimp only
    split <;> exact ⟨_, _, rfl⟩

/-- The cue is the next one of the script. -/
theorem perform_cue (w : World) {leaf : Nat} {p : Leaf} (hp : w.leaves[leaf]? = some p)
    (batch : Batch) : (w.perform leaf batch).1 = p.cueAt 0 := by
  cases hs : p.script <;> simp [perform, hp, hs, Leaf.cueAt]

/-- **A leaf that takes a batch follows its script.** -/
theorem follows_perform (w : World) (leaf : Nat) (batch : Batch) :
    w.Follows [w.performed leaf batch] (w.perform leaf batch).2 := by
  cases hp : w.leaves[leaf]? with
  | none =>
    have hsame : (w.perform leaf batch).2 = w := by simp only [perform, hp]
    refine ⟨fun i => ?_, fun i p hi => ?_, ?_⟩
    · rw [hsame, answers_performed]
      by_cases hi : leaf = i
      · rw [← hi, hp]
        rfl
      · rw [if_neg hi]
        cases w.leaves[i]? <;> rfl
    · have hne : leaf ≠ i := by
        rintro rfl
        rw [hp] at hi
        cases hi
      rw [answers_performed, if_neg hne]
      rfl
    · rw [hsame]
      simp [heardOf, performed, hp]
  | some p =>
    have hleaves : ∀ i, (w.perform leaf batch).2.leaves[i]? =
        if leaf = i then some (p.advanced 1) else w.leaves[i]? := by
      intro i
      by_cases hi : leaf = i
      · subst hi
        cases hs : p.script with
        | nil => simp [perform, hp, hs, Leaf.advanced_of_nil hs]
        | cons cue script => simp [perform, hp, hs, Leaf.advanced, modifyLeaf]
      · cases hs : p.script <;> simp [perform, hp, hs, modifyLeaf, hi]
    have hcalls : (w.perform leaf batch).2.onRecord = (p.name, batch.ids) :: w.onRecord := by
      cases hs : p.script <;> simp [perform, hp, hs, onRecord, modifyLeaf]
    refine ⟨fun i => ?_, fun i q hq => ?_, ?_⟩
    · rw [hleaves, answers_performed]
      by_cases hi : leaf = i
      · rw [if_pos hi, if_pos hi, ← hi, hp]
        rfl
      · rw [if_neg hi, if_neg hi]
        cases w.leaves[i]? <;> rfl
    · rw [answers_performed, w.perform_cue hp]
      by_cases hi : leaf = i
      · rw [if_pos hi]
        rw [← hi, hp] at hq
        cases hq
        rfl
      · rw [if_neg hi]
        rfl
    · rw [hcalls]
      simp [heardOf, performed, hp]

end World

end EventRelay.Run
