import Mathlib.Data.List.Nodup

/-!
# Consecutive chunks

A list cut into consecutive chunks of one size, the last possibly shorter.  A queue that is drained
front to back, a batch at a time, goes through the chunks of its store.

* `chunk`, `chunkCount`, `chunks` — the chunks of a list, one by one and all of them.
* `portion` — the elements of some of the chunks, in order.  A list is shared out between two
  opposite portions (`length_portion_add`), and a filter that treats the elements of a chunk alike
  leaves a portion (`filter_eq_portion`).
* `chunk_unique`, `filter_not_take` — where an element is, when elements are told apart by a key.
-/

namespace EventRelay.Queue

variable {α β : Type} {size : Nat} {l : List α}

/-- The chunk of a number, counted from zero. -/
def chunk (size : Nat) (l : List α) (i : Nat) : List α :=
  (l.drop (i * size)).take size

/-- How many chunks it takes to hold `n` elements. -/
def chunkCount (size n : Nat) : Nat :=
  (n + size - 1) / size

/-- All chunks of a list. -/
def chunks (size : Nat) (l : List α) : List (List α) :=
  (List.range (chunkCount size l.length)).map (chunk size l)

/-- The elements of those of the first `n` chunks that are selected. -/
def portion (size : Nat) (l : List α) (p : Nat → Bool) (n : Nat) : List α :=
  ((List.range n).filter p).flatMap (chunk size l)

/-! ## Chunks and prefixes -/

theorem take_succ_mul (size : Nat) (l : List α) (i : Nat) :
    l.take ((i + 1) * size) = l.take (i * size) ++ chunk size l i := by
  rw [Nat.add_mul, Nat.one_mul, List.take_add]
  rfl

theorem chunkCount_le (hsize : 1 ≤ size) (n i : Nat) : chunkCount size n ≤ i ↔ n ≤ i * size := by
  rw [chunkCount, Nat.div_le_iff_le_mul_add_pred hsize, Nat.mul_comm size i]
  omega

theorem chunk_eq_nil (hsize : 1 ≤ size) (l : List α) (i : Nat) :
    chunk size l i = [] ↔ chunkCount size l.length ≤ i := by
  rw [chunkCount_le hsize, chunk, List.take_eq_nil_iff, List.drop_eq_nil_iff]
  omega

/-- The chunks hold the whole list. -/
theorem take_chunkCount (hsize : 1 ≤ size) (l : List α) :
    l.take (chunkCount size l.length * size) = l :=
  List.take_of_length_le ((chunkCount_le hsize _ _).1 (Nat.le_refl _))

/-- The first chunks, one after the other. -/
theorem flatMap_chunk (size : Nat) (l : List α) (n : Nat) :
    (List.range n).flatMap (chunk size l) = l.take (n * size) := by
  induction n with
  | zero => simp
  | succ n ih =>
    rw [List.range_succ, List.flatMap_append, ih, take_succ_mul]
    simp

/-! ## Portions -/

theorem portion_succ (size : Nat) (l : List α) (p : Nat → Bool) (n : Nat) :
    portion size l p (n + 1) = portion size l p n ++ if p n then chunk size l n else [] := by
  unfold portion
  rw [List.range_succ, List.filter_append, List.flatMap_append]
  cases hp : p n <;> simp [hp]

/-- Every element of the first chunks is in one of two opposite portions. -/
theorem length_portion_add (size : Nat) (l : List α) (p : Nat → Bool) (n : Nat) :
    (portion size l p n).length + (portion size l (fun i => !p i) n).length =
      (l.take (n * size)).length := by
  induction n with
  | zero => simp [portion]
  | succ n ih =>
    rw [portion_succ, portion_succ, take_succ_mul, List.length_append, List.length_append,
      List.length_append, ← ih]
    cases p n <;> simp <;> omega

/-- A filter that treats the elements of each chunk alike leaves whole chunks. -/
theorem filter_eq_portion {keep : α → Bool} {p : Nat → Bool} (n : Nat)
    (h : ∀ i < n, ∀ x ∈ chunk size l i, keep x = p i) :
    (l.take (n * size)).filter keep = portion size l p n := by
  induction n with
  | zero => simp [portion]
  | succ n ih =>
    have hchunk : (chunk size l n).filter keep = if p n then chunk size l n else [] := by
      have hn := h n (Nat.lt_succ_self n)
      split
      · rename_i hp
        exact List.filter_eq_self.2 fun x hx => by rw [hn x hx, hp]
      · rename_i hp
        exact List.filter_eq_nil_iff.2 fun x hx => by rw [hn x hx]; exact hp
    rw [take_succ_mul, List.filter_append, portion_succ, hchunk]
    rw [ih fun i hi => h i (Nat.lt_succ_of_lt hi)]

/-! ## Elements with a key -/

theorem getElem?_of_mem_chunk {i : Nat} {x : α} (h : x ∈ chunk size l i) :
    ∃ j < size, l[i * size + j]? = some x := by
  obtain ⟨j, hj⟩ := List.mem_iff_getElem?.1 h
  rw [chunk, List.getElem?_take] at hj
  split at hj
  · rename_i hlt
    rw [List.getElem?_drop] at hj
    exact ⟨j, hlt, hj⟩
  · cases hj

/-- Elements with one key are in one chunk, when keys are distinct. -/
theorem chunk_unique {key : α → β} (hnd : (l.map key).Nodup) {i j : Nat} {x y : α}
    (hx : x ∈ chunk size l i) (hy : y ∈ chunk size l j) (hkey : key x = key y) : i = j := by
  obtain ⟨a, ha, hxa⟩ := getElem?_of_mem_chunk hx
  obtain ⟨b, hb, hyb⟩ := getElem?_of_mem_chunk hy
  have hlt : i * size + a < (l.map key).length := by
    rw [List.length_map]
    exact (List.getElem?_eq_some_iff.1 hxa).1
  have hpos : i * size + a = j * size + b := by
    refine (List.getElem?_inj hlt hnd).1 ?_
    rw [List.getElem?_map, List.getElem?_map, hxa, hyb, Option.map_some, Option.map_some, hkey]
  have hdiv : ∀ k r, r < size → (k * size + r) / size = k := by
    intro k r hr
    rw [Nat.mul_comm, Nat.mul_add_div (Nat.zero_lt_of_lt hr), Nat.div_eq_of_lt hr, Nat.add_zero]
  rw [← hdiv i a ha, hpos, hdiv j b hb]

/-- Without the keys of its first elements a list is what comes after them. -/
theorem filter_not_take [BEq β] [LawfulBEq β] {key : α → β} (hnd : (l.map key).Nodup) (n : Nat) :
    l.filter (fun x => !((l.take n).map key).contains (key x)) = l.drop n := by
  have hsplit := hnd
  rw [← List.take_append_drop n l, List.map_append, List.nodup_append] at hsplit
  have hfirst : (l.take n).filter (fun x => !((l.take n).map key).contains (key x)) = [] := by
    refine List.filter_eq_nil_iff.2 fun x hx => ?_
    rw [Bool.not_eq_true', Bool.not_eq_false, List.contains_iff_mem]
    exact List.mem_map_of_mem hx
  have hrest : (l.drop n).filter (fun x => !((l.take n).map key).contains (key x)) = l.drop n := by
    refine List.filter_eq_self.2 fun x hx => ?_
    rw [Bool.not_eq_true', ← Bool.not_eq_true, List.contains_iff_mem]
    exact fun hm => hsplit.2.2 _ hm _ (List.mem_map_of_mem hx) rfl
  calc l.filter (fun x => !((l.take n).map key).contains (key x))
      = (l.take n ++ l.drop n).filter (fun x => !((l.take n).map key).contains (key x)) := by
        rw [List.take_append_drop]
    _ = l.drop n := by rw [List.filter_append, hfirst, hrest, List.nil_append]

end EventRelay.Queue
