import EventRelay.Proofs.Resolve.Watching
import EventRelay.Proofs.Weaving
import Mathlib.Data.List.Sort

/-!
# The timetable of a resolution

When the entries of a list settle and when they run to their end, as one list of what happens with the
instant of each.  All deferred entries are awaited at once, so the whole takes as long as the slowest of
them, and the factories come last.

* `settlementsOf`, `runsOf` — what happens in some beats.
* `Timetable` — what should happen: each deferred entry settles once, when it is due, and completes if
  it meets the limit; then, at the final instant, each factory runs once, in order.
* `timetable_resolve`, `elapsed_resolve` — **the beats of a resolution keep to that**, and its final
  instant is that of the slowest deferred entry.
* `deferred_mem_runsOf` — an entry that has missed the limit never completes.
* `woven_pairBeats`, `ends_pairBeats` — **two lists side by side** keep to their own timetables, and the
  whole ends with the later of them.
-/

namespace EventRelay.Resolve

/-! ## What happens in beats -/

/-- The slots that settle, each with its instant. -/
def settlementsOf (beats : List Beat) : List (Nat × Nat) :=
  beats.flatMap fun b => b.settled.map fun s => (b.instant, s.1)

/-- The entries that run to their end, each with its instant. -/
def runsOf (beats : List Beat) : List (Nat × Ran) :=
  beats.flatMap fun b => b.ran.map fun r => (b.instant, r)

theorem runsOf_append (first second : List Beat) :
    runsOf (first ++ second) = runsOf first ++ runsOf second :=
  List.flatMap_append

/-! ## What should happen -/

/-- The settlements of the deferred entries. -/
def deferredSettlements (timeout : Nat) (entries : List Entry) : List (Nat × Nat) :=
  entries.zipIdx.filterMap fun
    | (.deferred delay result, i) => some ((Entry.deferred delay result).settlesAt timeout, i)
    | _ => none

/-- The completions of the deferred entries: those that meet the limit, each after its delay. -/
def deferredCompletions (timeout : Nat) (entries : List Entry) : List (Nat × Ran) :=
  entries.zipIdx.filterMap fun
    | (.deferred (some delay) _, i) => if delay ≤ timeout then some (delay, .deferred i) else none
    | _ => none

/-- The slots of the factories, in order. -/
def factorySlots (entries : List Entry) : List Nat :=
  entries.zipIdx.filterMap fun
    | (.factory _, i) => some i
    | _ => none

/-- The beats resolve the entries and end at `final`. -/
structure Timetable (timeout : Nat) (entries : List Entry) (beats : List Beat) (final : Nat) :
    Prop where
  /-- Each beat comes after the one before. -/
  later : beats.Pairwise fun a b => a.instant < b.instant
  /-- The last one comes at the final instant. -/
  ends : beats.getLast?.map Beat.instant = some final
  /-- Each deferred entry settles once, when it is due; after the last of them the factories settle. -/
  settled : ∃ early, early.Perm (deferredSettlements timeout entries) ∧
    settlementsOf beats = early ++ (factorySlots entries).map fun i => (final, i)
  /-- The deferred entries that meet the limit complete once; after the last of them each factory runs
  once, in order, at the final instant. -/
  ran : ∃ early, early.Perm (deferredCompletions timeout entries) ∧
    runsOf beats = early ++ (factorySlots entries).map fun i => (final, .factory i)

/-! ## Deferred entries and factories -/

theorem deferredSettlements_eq (timeout : Nat) (entries : List Entry) :
    deferredSettlements timeout entries =
      (deferredEntries entries).map fun w => (w.due timeout, w.index) := by
  rw [deferredSettlements, deferredEntries, List.map_filterMap]
  refine List.filterMap_congr fun x _ => ?_
  obtain ⟨e, i⟩ := x
  cases e with
  | deferred delay result => cases delay <;> rfl
  | value c => rfl
  | factory result => rfl

theorem deferredCompletions_eq (timeout : Nat) (entries : List Entry) :
    deferredCompletions timeout entries =
      (deferredEntries entries).flatMap fun w =>
        (w.completed timeout).map fun r => (w.due timeout, r) := by
  rw [deferredCompletions, deferredEntries]
  induction entries.zipIdx with
  | nil => rfl
  | cons x xs ih =>
    obtain ⟨e, i⟩ := x
    cases e with
    | value c => exact ih
    | factory result => exact ih
    | deferred delay result =>
      simp only [List.filterMap_cons, List.flatMap_cons]
      rw [← ih]
      cases delay with
      | none => rfl
      | some d => by_cases hd : d ≤ timeout <;> simp [Waiting.completed, Waiting.due, inTime, hd]

theorem factorySlots_eq (entries : List Entry) :
    factorySlots entries = (factories entries).map Prod.fst := by
  rw [factorySlots, factories, List.map_filterMap]
  refine List.filterMap_congr fun x _ => ?_
  obtain ⟨e, i⟩ := x
  cases e <;> rfl

/-- Only deferred entries take time. -/
theorem latest_due (timeout : Nat) (entries : List Entry) :
    latest ((deferredEntries entries).map (Waiting.due timeout)) =
      latest (entries.map (Entry.settlesAt timeout)) := by
  refine eq_of_forall_ge_iff fun bound => ?_
  simp only [latest_le_iff, List.forall_mem_map]
  constructor
  · intro h e he
    obtain ⟨i, hi⟩ := List.mem_iff_getElem?.1 he
    cases e with
    | value c => exact Nat.zero_le _
    | factory result => exact Nat.zero_le _
    | deferred delay result =>
      have hmem : (⟨i, delay, result⟩ : Waiting) ∈ deferredEntries entries :=
        List.mem_filterMap.2 ⟨(.deferred delay result, i), List.mem_zipIdx_iff_getElem?.2 hi, rfl⟩
      have hdue := h _ hmem
      cases delay <;> exact hdue
  · intro h w hw
    obtain ⟨⟨e, i⟩, hmem, hw⟩ := List.mem_filterMap.1 hw
    have he := h e (List.mem_of_getElem? (List.mem_zipIdx_iff_getElem?.1 hmem))
    cases e with
    | value c => cases hw
    | factory result => cases hw
    | deferred delay result =>
      cases hw
      cases delay <;> exact he

/-! ## The beats of a resolution -/

/-- The looks of a watch settle every entry once, when it is due. -/
theorem Watched.settlements {timeout now : Nat} {ws : List Waiting} {looks : List Beat}
    (h : Watched timeout now ws looks) :
    (settlementsOf looks).Perm (ws.map fun w => (w.due timeout, w.index)) := by
  have hlooks : settlementsOf looks = (looks.flatMap fun b => dueAt timeout b.instant ws).map
      fun w => (w.due timeout, w.index) := by
    rw [settlementsOf, List.map_flatMap]
    refine List.flatMap_congr fun b hb => ?_
    rw [(h.shows b hb).settled, List.map_map]
    refine List.map_congr_left fun w hw => ?_
    have hdue : w.due timeout = b.instant := by simpa using (List.mem_filter.1 hw).2
    rw [hdue]
    rfl
  rw [hlooks]
  exact h.perm_flatMap.map _

/-- The looks of a watch complete every entry that meets the limit once, when it is due. -/
theorem Watched.completions {timeout now : Nat} {ws : List Waiting} {looks : List Beat}
    (h : Watched timeout now ws looks) :
    (runsOf looks).Perm
      (ws.flatMap fun w => (w.completed timeout).map fun r => (w.due timeout, r)) := by
  have hlooks : runsOf looks = (looks.flatMap fun b => dueAt timeout b.instant ws).flatMap
      fun w => (w.completed timeout).map fun r => (w.due timeout, r) := by
    rw [runsOf, List.flatMap_assoc]
    refine List.flatMap_congr fun b hb => ?_
    rw [(h.shows b hb).ran, List.map_flatMap]
    refine List.flatMap_congr fun w hw => ?_
    have hdue : w.due timeout = b.instant := by simpa using (List.mem_filter.1 hw).2
    rw [hdue]
  rw [hlooks]
  exact h.perm_flatMap.flatMap_right _

/-- **A resolution keeps to its timetable.** -/
theorem timetable_resolve (timeout : Nat) (entries : List Entry) :
    Timetable timeout entries (resolve timeout entries).beats
      (latest (entries.map (Entry.settlesAt timeout))) := by
  obtain ⟨before, last, hwatched, hbeats⟩ := exists_beats_resolve timeout entries
  have hlast : last.instant = latest (entries.map (Entry.settlesAt timeout)) := by
    obtain ⟨before', last', heq, hlast⟩ := hwatched.ends
    obtain ⟨-, hsame⟩ := List.append_inj' heq rfl
    cases hsame
    rw [hlast, latest_due, Nat.zero_max]
  obtain ⟨hsettled, hran⟩ := factoryBeat_shows last.instant (factories entries)
  rw [hbeats, ← hlast]
  refine ⟨?_, ?_, ⟨settlementsOf (before ++ [last]), ?_, ?_⟩, runsOf (before ++ [last]), ?_, ?_⟩
  · have hlater := hwatched.later
    rw [List.pairwise_append] at hlater ⊢
    simpa [Beat.append] using hlater
  · rw [List.getLast?_concat]
    rfl
  · rw [deferredSettlements_eq]
    exact hwatched.settlements
  · simp [settlementsOf, Beat.append, hsettled, factorySlots_eq, Function.comp_def]
  · rw [deferredCompletions_eq]
    exact hwatched.completions
  · simp [runsOf, Beat.append, hran, factorySlots_eq, Function.comp_def]

/-- **A deferred entry completes exactly if it meets the limit**, and only after its delay. -/
theorem deferred_mem_runsOf {timeout : Nat} {entries : List Entry} {time i : Nat} :
    (time, Ran.deferred i) ∈ runsOf (resolve timeout entries).beats ↔
      ∃ result, entries[i]? = some (.deferred (some time) result) ∧ time ≤ timeout := by
  obtain ⟨early, hearly, hruns⟩ := (timetable_resolve timeout entries).ran
  have hnone : (time, Ran.deferred i) ∉ (factorySlots entries).map fun j =>
      (latest (entries.map (Entry.settlesAt timeout)), Ran.factory j) := by simp
  rw [hruns, List.mem_append, or_iff_left hnone, hearly.mem_iff, deferredCompletions,
    List.mem_filterMap]
  constructor
  · rintro ⟨⟨e, j⟩, hmem, hrun⟩
    split at hrun
    · rename_i delay result _ heq
      cases heq
      split at hrun
      · rename_i hle
        cases hrun
        exact ⟨result, List.mem_zipIdx_iff_getElem?.1 hmem, hle⟩
      · cases hrun
    · cases hrun
  · rintro ⟨result, hentry, hle⟩
    exact ⟨(.deferred (some time) result, i), List.mem_zipIdx_iff_getElem?.2 hentry, if_pos hle⟩

/-- **A resolution takes as long as its slowest deferred entry.** -/
theorem elapsed_resolve (timeout : Nat) (entries : List Entry) :
    (resolve timeout entries).elapsed = latest (entries.map (Entry.settlesAt timeout)) := by
  rw [Resolution.elapsed, (timetable_resolve timeout entries).ends, Option.getD_some]

/-! ## Two lists side by side -/

/-- Of sorted numbers the distinct ones are strictly sorted. -/
theorem pairwise_lt_eraseDups {ts : List Nat} (h : ts.Pairwise (· ≤ ·)) :
    ts.eraseDups.Pairwise (· < ·) := by
  induction hn : ts.length using Nat.strongRecOn generalizing ts with
  | _ n ih =>
    cases ts with
    | nil => exact List.Pairwise.nil
    | cons t ts =>
      obtain ⟨hfirst, hrest⟩ := List.pairwise_cons.1 h
      rw [List.eraseDups_cons]
      refine List.pairwise_cons.2 ⟨fun s hs => ?_, ih _ ?_ (hrest.filter _) rfl⟩
      · obtain ⟨hmem, hne⟩ := List.mem_filter.1 (List.mem_eraseDups.1 hs)
        have hle := hfirst s hmem
        have hne : s ≠ t := by simpa using hne
        omega
      · have hlength := List.length_filter_le (fun s => !s == t) ts
        rw [← hn, List.length_cons]
        omega

/-- The instants at which one of two lists is looked at. -/
def instantsOf (first second : List Beat) : List Nat :=
  (((first ++ second).map Beat.instant).mergeSort fun a b => decide (a ≤ b)).eraseDups

theorem instantsOf_sorted (first second : List Beat) :
    (instantsOf first second).Pairwise (· < ·) := by
  refine pairwise_lt_eraseDups ?_
  have htrans : ∀ a b c : Nat, decide (a ≤ b) = true → decide (b ≤ c) = true →
      decide (a ≤ c) = true := by
    simp only [decide_eq_true_eq]
    exact fun a b c => Nat.le_trans
  have htotal : ∀ a b : Nat, (decide (a ≤ b) || decide (b ≤ a)) = true := by
    simpa using Nat.le_total
  have hsorted := List.pairwise_mergeSort htrans htotal ((first ++ second).map Beat.instant)
  exact hsorted.imp fun hle => by simpa using hle

theorem mem_instantsOf {first second : List Beat} {t : Nat} :
    t ∈ instantsOf first second ↔ ∃ b ∈ first ++ second, b.instant = t := by
  rw [instantsOf, List.mem_eraseDups, List.mem_mergeSort, List.mem_map]

/-- Taking a list instant by instant gives it back. -/
theorem flatMap_partsAt {ts : List Nat} (hts : ts.Pairwise (· < ·)) {beats : List Beat}
    (hlater : beats.Pairwise fun a b => a.instant < b.instant)
    (hcover : ∀ b ∈ beats, b.instant ∈ ts) : ts.flatMap (partsAt · beats) = beats := by
  have hnodup : ts.Nodup := hts.imp Nat.ne_of_lt
  have hparts : (ts.flatMap (partsAt · beats)).Pairwise fun a b => a.instant < b.instant := by
    rw [List.pairwise_flatMap]
    refine ⟨fun t _ => hlater.filter _, hts.imp fun {s t} hlt a ha b hb => ?_⟩
    have has : a.instant = s := by simpa using (List.mem_filter.1 ha).2
    have hbt : b.instant = t := by simpa using (List.mem_filter.1 hb).2
    omega
  have hasymm : ∀ a b : Beat, a ∈ ts.flatMap (partsAt · beats) → b ∈ beats →
      a.instant < b.instant → b.instant < a.instant → a = b := by
    intro a b _ _ hab hba
    omega
  exact List.Perm.eq_of_pairwise hasymm hparts hlater
    (perm_flatMap_filter Beat.instant hnodup hcover)

/-- Parts of one beat, put together. -/
theorem foldl_append (parts : List Beat) (b : Beat) :
    (parts.foldl Beat.append b).instant = b.instant ∧
      (parts.foldl Beat.append b).ran = b.ran ++ parts.flatMap Beat.ran := by
  induction parts generalizing b with
  | nil => simp
  | cons p parts ih =>
    obtain ⟨hinstant, hran⟩ := ih (b.append p)
    rw [List.foldl_cons, hinstant, hran]
    simp [Beat.append]

/-- The parts of both lists at an instant, in the order of the turn. -/
def turnParts (first second : List Beat) (t turn : Nat) : List Beat :=
  if turn % 2 = 0 then partsAt t first ++ partsAt t second else partsAt t second ++ partsAt t first

theorem pairBeats_eq (first second : List Beat) :
    pairBeats first second = (instantsOf first second).zipIdx.map fun p =>
      (turnParts first second p.1 p.2).foldl Beat.append { instant := p.1 } :=
  rfl

theorem instants_pairBeats (first second : List Beat) :
    (pairBeats first second).map Beat.instant = instantsOf first second := by
  rw [pairBeats_eq, List.map_map]
  calc _ = (instantsOf first second).zipIdx.map Prod.fst :=
        List.map_congr_left fun p _ => (foldl_append _ _).1
    _ = instantsOf first second := List.zipIdx_map_fst 0 _

theorem instant_of_mem_turnParts {first second : List Beat} {t turn : Nat} {b : Beat}
    (h : b ∈ turnParts first second t turn) : b.instant = t := by
  have hmem : b ∈ partsAt t first ∨ b ∈ partsAt t second := by
    rw [turnParts] at h
    split at h
    · exact List.mem_append.1 h
    · exact (List.mem_append.1 h).symm
  rcases hmem with hmem | hmem <;> simpa using (List.mem_filter.1 hmem).2

theorem runsOf_pairBeats (first second : List Beat) :
    runsOf (pairBeats first second) =
      (instantsOf first second).zipIdx.flatMap fun p => runsOf (turnParts first second p.1 p.2) := by
  rw [pairBeats_eq, runsOf, List.flatMap_map]
  refine List.flatMap_congr fun p _ => ?_
  obtain ⟨hinstant, hran⟩ :=
    foldl_append (turnParts first second p.1 p.2) ({ instant := p.1 } : Beat)
  rw [hinstant, hran, List.nil_append, List.map_flatMap, runsOf]
  refine List.flatMap_congr fun b hb => ?_
  rw [instant_of_mem_turnParts hb]

/-- At every instant one list goes first and the other second. -/
theorem woven_turnParts (first second : List Beat) (ps : List (Nat × Nat)) :
    Woven [ps.flatMap fun p => runsOf (partsAt p.1 first),
        ps.flatMap fun p => runsOf (partsAt p.1 second)]
      (ps.flatMap fun p => runsOf (turnParts first second p.1 p.2)) := by
  induction ps with
  | nil => exact .nil (by simp)
  | cons p ps ih =>
    simp only [List.flatMap_cons]
    rw [turnParts]
    split
    · rw [runsOf_append, List.append_assoc]
      exact (ih.prepend (i := 1) rfl (runsOf (partsAt p.1 second))).prepend (i := 0) rfl
        (runsOf (partsAt p.1 first))
    · rw [runsOf_append, List.append_assoc]
      exact (ih.prepend (i := 0) rfl (runsOf (partsAt p.1 first))).prepend (i := 1) rfl
        (runsOf (partsAt p.1 second))

theorem flatMap_zipIdx {α : Type} (ts : List Nat) (f : Nat → List α) :
    (ts.zipIdx.flatMap fun p => f p.1) = ts.flatMap f := by
  rw [← List.flatMap_map Prod.fst f, List.zipIdx_map_fst]

/-- **Side by side, each list runs as it would alone**: what runs is an interleaving of both. -/
theorem woven_pairBeats {first second : List Beat}
    (hfirst : first.Pairwise fun a b => a.instant < b.instant)
    (hsecond : second.Pairwise fun a b => a.instant < b.instant) :
    Woven [runsOf first, runsOf second] (runsOf (pairBeats first second)) := by
  have hwhole : ∀ beats : List Beat, beats.Pairwise (fun a b => a.instant < b.instant) →
      (∀ b ∈ beats, b ∈ first ++ second) →
      ((instantsOf first second).zipIdx.flatMap fun p => runsOf (partsAt p.1 beats)) =
        runsOf beats := by
    intro beats hlater hsub
    have hcover : ∀ b ∈ beats, b.instant ∈ instantsOf first second :=
      fun b hb => mem_instantsOf.2 ⟨b, hsub b hb, rfl⟩
    have hparts := flatMap_partsAt (instantsOf_sorted first second) hlater hcover
    rw [flatMap_zipIdx _ fun t => runsOf (partsAt t beats)]
    simp only [runsOf]
    rw [← List.flatMap_assoc, hparts]
  have hwoven := woven_turnParts first second (instantsOf first second).zipIdx
  rw [hwhole first hfirst fun b hb => List.mem_append_left _ hb,
    hwhole second hsecond fun b hb => List.mem_append_right _ hb] at hwoven
  rw [runsOf_pairBeats]
  exact hwoven

/-- The last instant of sorted beats is the latest one. -/
theorem ends_iff {ts : List Nat} (hts : ts.Pairwise (· < ·)) {final : Nat} :
    ts.getLast? = some final ↔ final ∈ ts ∧ ∀ t ∈ ts, t ≤ final := by
  constructor
  · intro h
    obtain ⟨before, rfl⟩ := List.getLast?_eq_some_iff.1 h
    refine ⟨by simp, fun t ht => ?_⟩
    rcases List.mem_append.1 ht with ht | ht
    · exact Nat.le_of_lt ((List.pairwise_append.1 hts).2.2 t ht final (by simp))
    · exact (List.mem_singleton.1 ht).le
  · rintro ⟨hmem, hle⟩
    have hne : ts ≠ [] := List.ne_nil_of_mem hmem
    obtain ⟨before, last, rfl⟩ := List.eq_nil_or_concat' ts |>.resolve_left hne
    rcases List.mem_append.1 hmem with hmem | hmem
    · have hlt := (List.pairwise_append.1 hts).2.2 final hmem last (by simp)
      have hlast := hle last (by simp)
      omega
    · rw [List.mem_singleton.1 hmem, List.getLast?_concat]

/-- **The whole ends with the later of both.** -/
theorem ends_pairBeats {first second : List Beat} {a b : Nat}
    (hfirst : first.Pairwise fun a b => a.instant < b.instant)
    (hsecond : second.Pairwise fun a b => a.instant < b.instant)
    (ha : first.getLast?.map Beat.instant = some a)
    (hb : second.getLast?.map Beat.instant = some b) :
    (pairBeats first second).getLast?.map Beat.instant = some (max a b) := by
  rw [← List.getLast?_map] at ha hb ⊢
  rw [ends_iff (List.pairwise_map.2 hfirst)] at ha
  rw [ends_iff (List.pairwise_map.2 hsecond)] at hb
  rw [instants_pairBeats, ends_iff (instantsOf_sorted first second)]
  have hmem : ∀ t, t ∈ instantsOf first second ↔
      t ∈ first.map Beat.instant ∨ t ∈ second.map Beat.instant := by
    intro t
    rw [mem_instantsOf, ← List.mem_map, List.map_append, List.mem_append]
  constructor
  · rw [hmem]
    rcases Nat.le_total a b with hab | hab
    · rw [Nat.max_eq_right hab]
      exact Or.inr hb.1
    · rw [Nat.max_eq_left hab]
      exact Or.inl ha.1
  · intro t ht
    rcases (hmem t).1 ht with ht | ht
    · exact le_max_of_le_left (ha.2 t ht)
    · exact le_max_of_le_right (hb.2 t ht)

end EventRelay.Resolve
