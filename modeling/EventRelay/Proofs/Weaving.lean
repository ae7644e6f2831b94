import Mathlib.Data.List.Basic

/-!
# Interleavings

Several things that go on at once leave one list of what happened, in which the lists of each of them
are woven together.

* `Woven` — taking the next element of some part again and again uses up all parts.
* `Woven.ahead`, `Woven.concat` — what the parts do first may stand in front, part by part, and what
  one of them does last at the end.
* `Woven.filterMap` — what is picked from an interleaving is an interleaving of what is picked.
* `Woven.perm`, `Woven.sublist` — nothing is lost or added, and each part keeps its order.
* `perm_flatMap_filter` — a list taken apart by keys is all there.
-/

namespace EventRelay

/-- The list `whole` is an interleaving of `parts`. -/
inductive Woven {α : Type} : List (List α) → List α → Prop
  /-- All parts are used up. -/
  | nil {parts : List (List α)} (h : ∀ p ∈ parts, p = []) : Woven parts []
  /-- The next element is the next one of some part. -/
  | next {parts : List (List α)} {x : α} {rest whole : List α} (i : Nat)
      (hi : parts[i]? = some (x :: rest)) (h : Woven (parts.set i rest) whole) :
      Woven parts (x :: whole)

namespace Woven

variable {α β : Type} {parts : List (List α)} {whole : List α}

/-- What one part does first may stand in front. -/
theorem prepend {i : Nat} {p : List α} (hi : parts[i]? = some p) (xs : List α)
    (h : Woven parts whole) : Woven (parts.set i (xs ++ p)) (xs ++ whole) := by
  have hbound : i < parts.length := (List.getElem?_eq_some_iff.1 hi).1
  induction xs with
  | nil =>
    have hsame : parts.set i p = parts := by
      rw [List.getElem?_eq_some_iff] at hi
      obtain ⟨_, rfl⟩ := hi
      exact List.set_getElem_self _
    rwa [List.nil_append, List.nil_append, hsame]
  | cons x xs ih =>
    have hnext : (parts.set i (x :: (xs ++ p)))[i]? = some (x :: (xs ++ p)) :=
      List.getElem?_set_self hbound
    refine .next i hnext ?_
    rw [List.set_set]
    exact ih

/-- What one part does last may stand at the end. -/
theorem concat {i : Nat} {p : List α} (hi : parts[i]? = some p) (ys : List α)
    (h : Woven parts whole) : Woven (parts.set i (p ++ ys)) (whole ++ ys) := by
  induction h generalizing i p with
  | @nil parts h =>
    have hp : p = [] := h p (List.mem_of_getElem? hi)
    have hfront := (Woven.nil h).prepend hi ys
    rw [hp, List.append_nil] at hfront
    rw [hp]
    exact hfront
  | @next parts x rest whole j hj h ih =>
    have hbound : i < parts.length := (List.getElem?_eq_some_iff.1 hi).1
    by_cases hij : i = j
    · subst hij
      rw [hi] at hj
      cases hj
      have hrest := ih (List.getElem?_set_self hbound)
      rw [List.set_set] at hrest
      refine .next i (List.getElem?_set_self hbound) ?_
      rw [List.set_set]
      exact hrest
    · have hrest := ih (i := i) (p := p) (by rw [List.getElem?_set_ne (Ne.symm hij), hi])
      rw [List.set_comm _ _ (Ne.symm hij)] at hrest
      refine .next j ?_ hrest
      rw [List.getElem?_set_ne hij, hj]

/-- What every part does first may stand in front, part by part, even if some parts do nothing. -/
theorem ahead_of (before : List (List α)) {xss : List (List α)} (hlength : xss.length = parts.length)
    (h : Woven (before ++ parts) whole) :
    Woven (before ++ List.zipWith (· ++ ·) xss parts) (xss.flatten ++ whole) := by
  induction xss generalizing before parts with
  | nil =>
    have hparts : parts = [] := List.eq_nil_of_length_eq_zero hlength.symm
    subst hparts
    exact h
  | cons xs xss ih =>
    cases parts with
    | nil => cases hlength
    | cons p parts =>
      have hrest : Woven ((before ++ [p]) ++ List.zipWith (· ++ ·) xss parts)
          (xss.flatten ++ whole) := by
        refine ih (before ++ [p]) (Nat.succ.inj hlength) ?_
        rwa [List.append_assoc, List.singleton_append]
      rw [List.append_assoc, List.singleton_append] at hrest
      have hp : (before ++ p :: List.zipWith (· ++ ·) xss parts)[before.length]? = some p := by simp
      have hfront := hrest.prepend hp xs
      rwa [List.set_append_right _ _ (Nat.le_refl _), Nat.sub_self, List.set_cons_zero,
        ← List.append_assoc] at hfront

theorem ahead {xss : List (List α)} (hlength : xss.length = parts.length) (h : Woven parts whole) :
    Woven (List.zipWith (· ++ ·) xss parts) (xss.flatten ++ whole) :=
  ahead_of [] hlength h

/-- What is picked from an interleaving is an interleaving of what is picked from the parts. -/
theorem filterMap (f : α → Option β) (h : Woven parts whole) :
    Woven (parts.map (List.filterMap f)) (whole.filterMap f) := by
  induction h with
  | nil h =>
    refine .nil fun p hp => ?_
    obtain ⟨q, hq, rfl⟩ := List.mem_map.1 hp
    rw [h q hq, List.filterMap_nil]
  | @next parts x rest whole i hi h ih =>
    rw [List.map_set] at ih
    have hpart : (parts.map (List.filterMap f))[i]? = some ((x :: rest).filterMap f) := by
      rw [List.getElem?_map, hi, Option.map_some]
    cases hx : f x with
    | none =>
      rw [List.filterMap_cons_none hx] at hpart ⊢
      rw [List.getElem?_eq_some_iff] at hpart
      obtain ⟨_, hpart⟩ := hpart
      rwa [← hpart, List.set_getElem_self] at ih
    | some y =>
      rw [List.filterMap_cons_some hx] at hpart ⊢
      exact .next i hpart ih

/-- Nothing is lost or added. -/
theorem perm (h : Woven parts whole) : whole.Perm parts.flatten := by
  induction h with
  | nil h => rw [List.flatten_eq_nil_iff.2 h]
  | @next parts x rest whole i hi h ih =>
    obtain ⟨hbound, hpart⟩ := List.getElem?_eq_some_iff.1 hi
    have hsplit : parts = parts.take i ++ (x :: rest) :: parts.drop (i + 1) := by
      rw [← hpart, List.getElem_cons_drop, List.take_append_drop]
    have hset : (parts.set i rest).flatten =
        (parts.take i).flatten ++ (rest ++ (parts.drop (i + 1)).flatten) := by
      rw [List.set_eq_take_append_cons_drop, if_pos hbound, List.flatten_append, List.flatten_cons]
    rw [hset] at ih
    rw [hsplit, List.flatten_append, List.flatten_cons]
    exact (ih.cons x).trans List.perm_middle.symm

/-- Each part keeps its order. -/
theorem sublist (h : Woven parts whole) : ∀ p ∈ parts, p.Sublist whole := by
  induction h with
  | nil h =>
    intro p hp
    rw [h p hp]
  | @next parts x rest whole i hi h ih =>
    intro p hp
    obtain ⟨j, hj⟩ := List.mem_iff_getElem?.1 hp
    by_cases hij : i = j
    · subst hij
      rw [hi] at hj
      cases hj
      have hbound := (List.getElem?_eq_some_iff.1 hi).1
      exact (ih rest (List.mem_set hbound rest)).cons_cons x
    · refine (ih p (List.mem_iff_getElem?.2 ⟨j, ?_⟩)).cons x
      rw [List.getElem?_set_ne hij, hj]

end Woven

/-! ## Parts by keys -/

/-- Taking elements key by key takes each of them once, if the keys are distinct and cover them. -/
theorem perm_flatMap_filter {α κ : Type} [BEq κ] [LawfulBEq κ] (key : α → κ) {keys : List κ}
    (hkeys : keys.Nodup) {xs : List α} (hcover : ∀ x ∈ xs, key x ∈ keys) :
    (keys.flatMap fun k => xs.filter fun x => key x == k).Perm xs := by
  induction keys generalizing xs with
  | nil =>
    have hnil : xs = [] := List.eq_nil_iff_forall_not_mem.2 fun x hx => by cases hcover x hx
    simp [hnil]
  | cons k keys ih =>
    obtain ⟨hk, hkeys⟩ := List.nodup_cons.1 hkeys
    have hothers : (keys.flatMap fun k' => xs.filter fun x => key x == k') =
        keys.flatMap fun k' => (xs.filter fun x => key x != k).filter fun x => key x == k' := by
      refine List.flatMap_congr fun k' hk' => ?_
      have hne : k' ≠ k := fun heq => hk (heq ▸ hk')
      rw [List.filter_filter]
      refine List.filter_congr fun x _ => ?_
      rw [Bool.eq_iff_iff]
      simp only [Bool.and_eq_true, beq_iff_eq, bne_iff_ne]
      exact ⟨fun hx => ⟨hx, hx ▸ hne⟩, And.left⟩
    have hrest : ∀ x ∈ xs.filter (fun x => key x != k), key x ∈ keys := by
      intro x hx
      obtain ⟨hmem, hne⟩ := List.mem_filter.1 hx
      rcases List.mem_cons.1 (hcover x hmem) with heq | hmem
      · simp [heq] at hne
      · exact hmem
    rw [List.flatMap_cons, hothers]
    refine ((ih hkeys hrest).append_left _).trans ?_
    exact List.filter_append_perm (fun x => key x == k) xs

end EventRelay
