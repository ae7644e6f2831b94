import EventRelay.Proofs.Weaving
import EventRelay.Resolve
import Mathlib.Data.List.Basic
import Mathlib.Algebra.Order.Group.Nat

/-!
# Watching over deferred entries

The looks at the entries that wait.  An entry is due at its delay or at the limit, whichever comes
first, and a look that comes no later than that settles it exactly if it is due.  So, of the looks that
`watch` takes, each settles the entries that are due at its instant, and no entry is forgotten.

* `lookAll_of_le` — what one look at all entries comes to.
* `nextInstant_le`, `nextInstant_mem` — the next instant is the first at which an entry is due.
* `Watched`, `watched_watch` — **the looks of a watch**: strictly later from one to the next, each
  showing what is due at its instant, the last one at the last instant at which an entry is due.
* `Watched.perm_flatMap` — over all looks, every entry is shown once.
* `exists_beats_resolve` — the beats of a resolution are such looks, with the factories in the last.
-/

namespace EventRelay.Resolve

variable {timeout now : Nat} {w : Waiting} {ws : List Waiting}

/-! ## One entry -/

/-- What a waiting entry comes to. -/
def Waiting.outcome (timeout : Nat) (w : Waiting) : Context :=
  if inTime timeout w.delay then contextOf w.result else .error Context.timeoutMessage

/-- The run that a waiting entry completes: none if it misses the limit. -/
def Waiting.completed (timeout : Nat) (w : Waiting) : List Ran :=
  if inTime timeout w.delay then [.deferred w.index] else []

/-- Before it is due, an entry goes on waiting. -/
theorem look_eq_none (h : now < w.due timeout) : w.look timeout now = none := by
  obtain ⟨index, delay, result⟩ := w
  cases delay with
  | none =>
    have hlimit : ¬timeout ≤ now := Nat.not_le.2 h
    simp [Waiting.look, inTime, hlimit]
  | some d =>
    have hfirst : now < min d timeout := h
    have hdelay : ¬d ≤ now := by omega
    have hlimit : ¬timeout ≤ now := by omega
    simp [Waiting.look, inTime, hdelay, hlimit]

/-- When it is due, an entry settles, and completes if it meets the limit. -/
theorem look_due (timeout : Nat) (w : Waiting) :
    ∃ part, w.look timeout (w.due timeout) = some part ∧ part.instant = w.due timeout ∧
      part.settled = [(w.index, w.outcome timeout)] ∧ part.ran = w.completed timeout := by
  obtain ⟨index, delay, result⟩ := w
  rw [Waiting.look, Waiting.due, Waiting.outcome, Waiting.completed]
  cases delay with
  | none =>
    simp only [inTime, Nat.le_refl, Bool.false_eq_true, if_true, if_false]
    exact ⟨_, rfl, rfl, rfl, rfl⟩
  | some d =>
    by_cases hd : d ≤ timeout
    · have hdue : min d timeout = d := by omega
      simp only [hdue, inTime, hd, Nat.le_refl, decide_true, if_true]
      exact ⟨_, rfl, rfl, rfl, rfl⟩
    · have hdue : min d timeout = timeout := by omega
      simp only [hdue, inTime, hd, Nat.le_refl, decide_false, Bool.false_eq_true, if_true, if_false]
      exact ⟨_, rfl, rfl, rfl, rfl⟩

theorem due_le (timeout : Nat) (w : Waiting) : w.due timeout ≤ timeout := by
  rw [Waiting.due]
  split
  · exact Nat.le_refl _
  · exact Nat.min_le_right _ _

/-! ## A look at all entries -/

/-- The entries that are due at an instant. -/
def dueAt (timeout instant : Nat) (ws : List Waiting) : List Waiting :=
  ws.filter fun w => w.due timeout == instant

/-- The entries that are not. -/
def notDueAt (timeout instant : Nat) (ws : List Waiting) : List Waiting :=
  ws.filter fun w => w.due timeout != instant

/-- The beat shows what is due at its instant: these entries settle, and those complete that meet the
limit. -/
structure Shows (timeout : Nat) (ws : List Waiting) (b : Beat) : Prop where
  /-- The entries settle. -/
  settled : b.settled =
    (dueAt timeout b.instant ws).map fun w => (w.index, w.outcome timeout)
  /-- The entries that meet the limit complete. -/
  ran : b.ran = (dueAt timeout b.instant ws).flatMap (Waiting.completed timeout)

/-- **A look at all entries** that comes no later than any is due shows those that are due, and leaves
the others. -/
theorem lookAll_of_le (h : ∀ w ∈ ws, now ≤ w.due timeout) :
    (lookAll timeout now ws).1.instant = now ∧ Shows timeout ws (lookAll timeout now ws).1 ∧
      (lookAll timeout now ws).2 = notDueAt timeout now ws := by
  induction ws with
  | nil => exact ⟨rfl, ⟨rfl, rfl⟩, rfl⟩
  | cons w ws ih =>
    obtain ⟨hinstant, hshows, hleft⟩ := ih fun v hv => h v (List.mem_cons_of_mem w hv)
    obtain ⟨hsettled, hran⟩ := hshows
    rw [hinstant] at hsettled hran
    by_cases hdue : w.due timeout = now
    · subst hdue
      obtain ⟨part, hlook, hat, hpart, hcompleted⟩ := look_due timeout w
      simp only [lookAll, hlook]
      refine ⟨hat, ⟨?_, ?_⟩, ?_⟩
      · simp [Beat.append, hpart, hat, hsettled, dueAt]
      · simp [Beat.append, hcompleted, hat, hran, dueAt]
      · simp [hleft, notDueAt]
    · have hlook : w.look timeout now = none :=
        look_eq_none (Nat.lt_of_le_of_ne (h w List.mem_cons_self) (Ne.symm hdue))
      simp only [lookAll, hlook]
      refine ⟨hinstant, ⟨?_, ?_⟩, ?_⟩
      · simp [hinstant, hsettled, dueAt, hdue]
      · simp [hinstant, hran, dueAt, hdue]
      · simp [hleft, notDueAt, hdue]

/-! ## The next instant -/

theorem nextInstant_le (h : w ∈ ws) : nextInstant timeout ws ≤ w.due timeout := by
  suffices hfold : ∀ limit, ws.foldl (fun acc v => min acc (v.due timeout)) limit ≤ limit ∧
      ∀ v ∈ ws, ws.foldl (fun acc v => min acc (v.due timeout)) limit ≤ v.due timeout from
    (hfold timeout).2 w h
  clear h
  induction ws with
  | nil => simp
  | cons v ws ih =>
    intro limit
    obtain ⟨hlimit, hws⟩ := ih (min limit (v.due timeout))
    rw [List.foldl_cons]
    refine ⟨by omega, fun u hu => ?_⟩
    rcases List.mem_cons.1 hu with rfl | hu
    · omega
    · exact hws u hu

/-- At the next instant some entry is due. -/
theorem nextInstant_mem (timeout : Nat) (h : ws ≠ []) :
    ∃ w ∈ ws, w.due timeout = nextInstant timeout ws := by
  have hfold : ∀ limit, ws.foldl (fun acc v => min acc (v.due timeout)) limit = limit ∨
      ∃ w ∈ ws, w.due timeout = ws.foldl (fun acc v => min acc (v.due timeout)) limit := by
    clear h
    induction ws with
    | nil => simp
    | cons v ws ih =>
      intro limit
      rw [List.foldl_cons]
      rcases ih (min limit (v.due timeout)) with hlimit | ⟨u, hu, hdue⟩
      · rw [hlimit]
        rcases Nat.le_total limit (v.due timeout) with hle | hle
        · exact Or.inl (Nat.min_eq_left hle)
        · exact Or.inr ⟨v, List.mem_cons_self, (Nat.min_eq_right hle).symm⟩
      · exact Or.inr ⟨u, List.mem_cons_of_mem v hu, hdue⟩
  rcases hfold timeout with hlimit | hdue
  · -- nothing is due before the limit, so the first entry is due at the limit
    obtain ⟨v, hv⟩ := List.exists_mem_of_ne_nil ws h
    have hnext : nextInstant timeout ws = timeout := hlimit
    have hle : nextInstant timeout ws ≤ v.due timeout := nextInstant_le hv
    exact ⟨v, hv, by have := due_le timeout v; omega⟩
  · exact hdue

/-! ## The looks of a watch -/

/-- The latest of some instants, zero if there are none. -/
def latest (instants : List Nat) : Nat :=
  instants.foldr max 0

theorem latest_le_iff {instants : List Nat} {bound : Nat} :
    latest instants ≤ bound ↔ ∀ t ∈ instants, t ≤ bound := by
  induction instants with
  | nil => simp [latest]
  | cons t ts ih =>
    have hcons : latest (t :: ts) = max t (latest ts) := rfl
    rw [hcons, Nat.max_le, ih, List.forall_mem_cons]

/-- The looks at `ws` from `now` on. -/
structure Watched (timeout now : Nat) (ws : List Waiting) (looks : List Beat) : Prop where
  /-- Each shows what is due at its instant. -/
  shows : ∀ b ∈ looks, Shows timeout ws b
  /-- Each comes after the one before. -/
  later : looks.Pairwise fun a b => a.instant < b.instant
  /-- None comes before `now`. -/
  since : ∀ b ∈ looks, now ≤ b.instant
  /-- Whenever an entry is due, there is a look. -/
  covers : ∀ w ∈ ws, ∃ b ∈ looks, b.instant = w.due timeout
  /-- The last one is when the last entry is due. -/
  ends : ∃ before last, looks = before ++ [last] ∧
    last.instant = max now (latest (ws.map (Waiting.due timeout)))

theorem mem_notDueAt {instant : Nat} :
    w ∈ notDueAt timeout instant ws ↔ w ∈ ws ∧ w.due timeout ≠ instant := by
  simp [notDueAt]

/-- What is due later has not been due yet. -/
theorem dueAt_notDueAt {instant : Nat} (h : instant ≠ now) :
    dueAt timeout instant (notDueAt timeout now ws) = dueAt timeout instant ws := by
  rw [dueAt, notDueAt, List.filter_filter, dueAt]
  refine List.filter_congr fun v _ => ?_
  rw [Bool.eq_iff_iff]
  simp only [Bool.and_eq_true, beq_iff_eq, bne_iff_ne]
  exact ⟨And.left, fun hv => ⟨hv, hv ▸ h⟩⟩

/-- If nothing else is due, one look is enough. -/
theorem watched_single {b : Beat} (hinstant : b.instant = now)
    (hshows : Shows timeout ws b) (hleft : notDueAt timeout now ws = []) :
    Watched timeout now ws [b] := by
  have hdue : ∀ w ∈ ws, w.due timeout = now := by
    intro w hw
    by_contra hne
    have hmem : w ∈ notDueAt timeout now ws := mem_notDueAt.2 ⟨hw, hne⟩
    rw [hleft] at hmem
    cases hmem
  refine ⟨by simpa using hshows, List.pairwise_singleton _ b, by simp [hinstant], ?_, [], b, rfl, ?_⟩
  · intro w hw
    exact ⟨b, List.mem_singleton_self b, hinstant.trans (hdue w hw).symm⟩
  · have hlatest : latest (ws.map (Waiting.due timeout)) ≤ now := by
      rw [latest_le_iff]
      simpa using fun w hw => (hdue w hw).le
    omega

/-- A look, and the looks at what it leaves. -/
theorem Watched.cons {b : Beat} {looks : List Beat} {next : Nat} (hinstant : b.instant = now)
    (hshows : Shows timeout ws b) (hnext : now < next)
    (hleast : ∃ w ∈ notDueAt timeout now ws, w.due timeout = next)
    (hrest : Watched timeout next (notDueAt timeout now ws) looks) :
    Watched timeout now ws (b :: looks) := by
  refine ⟨?_, ?_, ?_, ?_, ?_⟩
  · intro a ha
    rcases List.mem_cons.1 ha with rfl | ha
    · exact hshows
    · have hsince := hrest.since a ha
      have hne : a.instant ≠ now := by omega
      obtain ⟨hsettled, hran⟩ := hrest.shows a ha
      rw [dueAt_notDueAt hne] at hsettled hran
      exact ⟨hsettled, hran⟩
  · refine List.pairwise_cons.2 ⟨fun a ha => ?_, hrest.later⟩
    have hsince := hrest.since a ha
    omega
  · intro a ha
    rcases List.mem_cons.1 ha with rfl | ha
    · exact hinstant.ge
    · have hsince := hrest.since a ha
      omega
  · intro w hw
    by_cases hdue : w.due timeout = now
    · exact ⟨b, List.mem_cons_self, hinstant.trans hdue.symm⟩
    · obtain ⟨a, ha, hat⟩ := hrest.covers w (mem_notDueAt.2 ⟨hw, hdue⟩)
      exact ⟨a, List.mem_cons_of_mem b ha, hat⟩
  · obtain ⟨before, last, hlooks, hlast⟩ := hrest.ends
    refine ⟨b :: before, last, by rw [hlooks]; rfl, ?_⟩
    rw [hlast]
    -- both sides are below the same bounds: what is left out is due now, and now is before next
    refine eq_of_forall_ge_iff fun bound => ?_
    simp only [Nat.max_le, latest_le_iff, List.forall_mem_map]
    constructor
    · rintro ⟨hbound, hleft⟩
      refine ⟨by omega, fun w hw => ?_⟩
      by_cases hdue : w.due timeout = now
      · omega
      · exact hleft w (mem_notDueAt.2 ⟨hw, hdue⟩)
    · rintro ⟨-, hws⟩
      obtain ⟨w, hw, hdue⟩ := hleast
      exact ⟨hdue ▸ hws w (mem_notDueAt.1 hw).1, fun v hv => hws v (mem_notDueAt.1 hv).1⟩

/-- **A watch is such a series of looks**, if it may take one more than there are entries. -/
theorem watched_watch {fuel : Nat} (h : ∀ w ∈ ws, now ≤ w.due timeout)
    (hfuel : (notDueAt timeout now ws).length < fuel) :
    Watched timeout now ws (watch timeout fuel now ws) := by
  induction fuel generalizing now ws with
  | zero => exact absurd hfuel (Nat.not_lt_zero _)
  | succ fuel ih =>
    obtain ⟨hinstant, hshows, hleft⟩ := lookAll_of_le h
    rw [watch]
    split
    · rename_i b heq
      rw [heq] at hinstant hshows hleft
      exact watched_single hinstant hshows hleft.symm
    · rename_i b left hne heq
      rw [heq] at hinstant hshows hleft
      simp only at hinstant hshows hleft
      subst hleft
      have hne : notDueAt timeout now ws ≠ [] := fun hnil => hne (by rw [hnil] at heq ⊢)
      obtain ⟨v, hv, hdue⟩ := nextInstant_mem timeout hne
      have hnext : now < nextInstant timeout (notDueAt timeout now ws) := by
        have hnow := h v (mem_notDueAt.1 hv).1
        have hother := (mem_notDueAt.1 hv).2
        omega
      refine Watched.cons hinstant hshows hnext ⟨v, hv, hdue⟩ (ih (fun u hu => nextInstant_le hu) ?_)
      -- the next look settles an entry
      have hless : (notDueAt timeout (nextInstant timeout (notDueAt timeout now ws))
          (notDueAt timeout now ws)).length < (notDueAt timeout now ws).length := by
        refine List.length_filter_lt_length_iff_exists.2 ⟨v, hv, ?_⟩
        simp [hdue]
      omega

/-! ## All looks together -/

/-- The instants of the looks are distinct. -/
theorem Watched.nodup {looks : List Beat} (h : Watched timeout now ws looks) :
    (looks.map Beat.instant).Nodup :=
  List.pairwise_map.2 (h.later.imp fun hlt => Nat.ne_of_lt hlt)

/-- **Over all looks every entry is shown once.** -/
theorem Watched.perm_flatMap {looks : List Beat} (h : Watched timeout now ws looks) :
    (looks.flatMap fun b => dueAt timeout b.instant ws).Perm ws := by
  have hcover : ∀ w ∈ ws, w.due timeout ∈ looks.map Beat.instant := by
    intro w hw
    obtain ⟨b, hb, hat⟩ := h.covers w hw
    exact List.mem_map.2 ⟨b, hb, hat⟩
  have hperm := perm_flatMap_filter (Waiting.due timeout) h.nodup hcover
  rwa [List.flatMap_map] at hperm

/-! ## The beats of a resolution -/

/-- The lines of a look are not part of what it shows. -/
theorem Watched.withOpening {looks : List Beat} (h : Watched timeout now ws looks)
    (lines : List Log.Line) : Watched timeout now ws (withOpening lines looks) := by
  obtain ⟨hshows, hlater, hsince, hcovers, hends⟩ := h
  cases looks with
  | nil => exact ⟨hshows, hlater, hsince, hcovers, hends⟩
  | cons b rest =>
    rw [List.forall_mem_cons] at hshows hsince
    rw [List.pairwise_cons] at hlater
    simp only [List.exists_mem_cons_iff] at hcovers
    refine ⟨?_, ?_, ?_, ?_, ?_⟩
    · exact List.forall_mem_cons.2 ⟨⟨hshows.1.settled, hshows.1.ran⟩, hshows.2⟩
    · exact List.pairwise_cons.2 hlater
    · exact List.forall_mem_cons.2 hsince
    · simpa only [Resolve.withOpening, List.exists_mem_cons_iff] using hcovers
    · obtain ⟨before, last, hlooks, hlast⟩ := hends
      cases before with
      | nil =>
        obtain ⟨rfl, rfl⟩ := List.cons.inj hlooks
        exact ⟨[], _, rfl, hlast⟩
      | cons b' before =>
        obtain ⟨rfl, rfl⟩ := List.cons.inj hlooks
        exact ⟨_ :: before, last, rfl, hlast⟩

theorem withFactories_concat (made : List (Nat × Except String Context)) (before : List Beat)
    (last : Beat) :
    withFactories made (before ++ [last]) =
      before ++ [last.append (factoryBeat last.instant made)] := by
  induction before with
  | nil => rfl
  | cons b before ih =>
    have hne : before ++ [last] ≠ [] := by simp
    rw [List.cons_append, withFactories, ih, List.cons_append]
    exact hne

/-- The factories settle and complete in order. -/
theorem factoryBeat_shows (instant : Nat) (made : List (Nat × Except String Context)) :
    (factoryBeat instant made).settled = made.map (fun m => (m.1, contextOf m.2)) ∧
      (factoryBeat instant made).ran = made.map (fun m => .factory m.1) := by
  suffices hfold : ∀ b : Beat,
      (made.foldl (fun acc m => acc.append (resultBeat instant "Context factory failed"
        (.factory m.1) m.1 m.2)) b).settled = b.settled ++ made.map (fun m => (m.1, contextOf m.2)) ∧
      (made.foldl (fun acc m => acc.append (resultBeat instant "Context factory failed"
        (.factory m.1) m.1 m.2)) b).ran = b.ran ++ made.map (fun m => .factory m.1) by
    simpa [factoryBeat] using hfold { instant }
  induction made with
  | nil => simp
  | cons m made ih =>
    intro b
    obtain ⟨hsettled, hran⟩ := ih (b.append (resultBeat instant _ (.factory m.1) m.1 m.2))
    rw [List.foldl_cons, hsettled, hran]
    simp [Beat.append, resultBeat]

/-- **The beats of a resolution** are the looks at its deferred entries; after the last of them, in the
same beat, the factories run. -/
theorem exists_beats_resolve (timeout : Nat) (entries : List Entry) :
    ∃ before last, Watched timeout 0 (deferredEntries entries) (before ++ [last]) ∧
      (resolve timeout entries).beats =
        before ++ [last.append (factoryBeat last.instant (factories entries))] := by
  have hlength : (notDueAt timeout 0 (deferredEntries entries)).length <
      (deferredEntries entries).length + 1 :=
    Nat.lt_succ_of_le (List.length_filter_le _ _)
  have hwatched := (watched_watch (fun w _ => Nat.zero_le _) hlength).withOpening
    (openingLines timeout (deferredEntries entries).length)
  obtain ⟨before, last, hlooks, hlast⟩ := hwatched.ends
  rw [hlooks] at hwatched
  refine ⟨before, last, hwatched, ?_⟩
  rw [resolve]
  simp only [hlooks, withFactories_concat]

end EventRelay.Resolve
