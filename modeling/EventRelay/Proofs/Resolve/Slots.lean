import EventRelay.Proofs.Resolve.Watching
import Mathlib.Data.List.Forall2

/-!
# Slot by slot

The contexts of a resolution.  Values stand in their slots from the start; what settles is put into the
slot that was remembered for it, deferred entries first and factories last.  Since every slot that
starts with a placeholder is settled by the entry it belongs to, and by no other, each slot ends up
with what its own entry comes to.

* `Offers`, `Expires` — an entry itself gives a context, or misses the limit.
* `fill_eq` — settling contexts that all agree with a list gives that list.
* `contexts_resolve` — **the contexts are what the entries come to, one by one**.
* `resolve_slotwise` — so slots do not depend on each other, and no placeholder is left behind.
-/

namespace EventRelay.Resolve

variable {timeout : Nat}

/-! ## What an entry may give -/

/-- The entry itself gives the context within the limit. -/
inductive Offers (timeout : Nat) : Entry → Context → Prop
  /-- A value is there. -/
  | value (c : Context) : Offers timeout (.value c) c
  /-- A deferred entry is ready in time. -/
  | ready {delay : Nat} (h : delay ≤ timeout) (c : Context) :
      Offers timeout (.deferred (some delay) (.ok c)) c
  /-- A deferred entry fails in time. -/
  | failed {delay : Nat} (h : delay ≤ timeout) (text : String) :
      Offers timeout (.deferred (some delay) (.error text)) (.error text)
  /-- A factory makes it. -/
  | made (c : Context) : Offers timeout (.factory (.ok c)) c
  /-- A factory fails. -/
  | broken (text : String) : Offers timeout (.factory (.error text)) (.error text)

/-- The entry misses the limit. -/
inductive Expires (timeout : Nat) : Entry → Prop
  /-- It is ready too late. -/
  | late {delay : Nat} (h : timeout < delay) (result : Except String Context) :
      Expires timeout (.deferred (some delay) result)
  /-- It is never ready. -/
  | never (result : Except String Context) : Expires timeout (.deferred none result)

/-- What belongs into the slot of an entry: what it gives, or the error about the limit. -/
def Fits (timeout : Nat) (e : Entry) (c : Context) : Prop :=
  Offers timeout e c ∨ (Expires timeout e ∧ c = .error "timeout")

/-- An entry comes to what belongs into its slot. -/
theorem fits_outcome (timeout : Nat) (e : Entry) : Fits timeout e (e.outcome timeout) := by
  cases e with
  | value c => exact Or.inl (.value c)
  | deferred delay result =>
    cases delay with
    | none => exact Or.inr ⟨.never result, rfl⟩
    | some d =>
      rw [Entry.outcome]
      by_cases hd : d ≤ timeout
      · rw [if_pos (by simpa [inTime] using hd)]
        cases result with
        | ok c => exact Or.inl (.ready hd c)
        | error text => exact Or.inl (.failed hd text)
      · rw [if_neg (by simpa [inTime] using hd)]
        exact Or.inr ⟨.late (Nat.lt_of_not_le hd) result, rfl⟩
  | factory result =>
    cases result with
    | ok c => exact Or.inl (.made c)
    | error text => exact Or.inl (.broken text)

/-- The placeholder is not the error about the limit. -/
theorem placeholder_ne_timeout : placeholder ≠ .error "timeout" := by
  intro h
  have hmessage := congrArg Context.errorMessage? h
  revert hmessage
  decide

/-- An entry comes to the placeholder only if it gives it. -/
theorem outcome_eq_placeholder (e : Entry) :
    e.outcome timeout = placeholder ↔ Offers timeout e placeholder := by
  constructor
  · intro h
    rcases h ▸ fits_outcome timeout e with hoffers | ⟨-, heq⟩
    · exact hoffers
    · exact absurd heq placeholder_ne_timeout
  · intro h
    generalize placeholder = c at h
    cases h with
    | value => rfl
    | ready h => simp [Entry.outcome, inTime, h, contextOf]
    | failed h => simp [Entry.outcome, inTime, h, contextOf]
    | made => rfl
    | broken => rfl

/-! ## The remembered slots -/

theorem mem_deferredEntries {entries : List Entry} {w : Waiting} :
    w ∈ deferredEntries entries ↔ entries[w.index]? = some (.deferred w.delay w.result) := by
  rw [deferredEntries, List.mem_filterMap]
  constructor
  · rintro ⟨⟨e, i⟩, hmem, hw⟩
    rw [List.mem_zipIdx_iff_getElem?] at hmem
    cases e with
    | deferred delay result =>
      cases hw
      exact hmem
    | value c => cases hw
    | factory result => cases hw
  · intro h
    exact ⟨(.deferred w.delay w.result, w.index), List.mem_zipIdx_iff_getElem?.2 h, rfl⟩

theorem mem_factories {entries : List Entry} {i : Nat} {result : Except String Context} :
    (i, result) ∈ factories entries ↔ entries[i]? = some (.factory result) := by
  rw [factories, List.mem_filterMap]
  constructor
  · rintro ⟨⟨e, j⟩, hmem, hw⟩
    rw [List.mem_zipIdx_iff_getElem?] at hmem
    cases e with
    | factory result =>
      cases hw
      exact hmem
    | value c => cases hw
    | deferred delay result => cases hw
  · intro h
    exact ⟨(.factory result, i), List.mem_zipIdx_iff_getElem?.2 h, rfl⟩

/-! ## Filling the slots -/

/-- **Settling contexts that all agree with a list gives that list**, if the slots that are not settled
agree with it from the start. -/
theorem fill_eq {start target : List Context} {settled : List (Nat × Context)}
    (hlength : start.length = target.length)
    (hsettled : ∀ s ∈ settled, target[s.1]? = some s.2)
    (hothers : ∀ i, i ∉ settled.map Prod.fst → start[i]? = target[i]?) :
    fill start settled = target := by
  induction settled generalizing start with
  | nil => exact List.ext_getElem? fun i => hothers i (by simp)
  | cons s settled ih =>
    rw [fill, List.foldl_cons]
    rw [List.forall_mem_cons] at hsettled
    refine ih (by rw [List.length_set, hlength]) hsettled.2 fun i hi => ?_
    by_cases his : s.1 = i
    · subst his
      have hbound : s.1 < start.length := by
        rw [hlength]
        exact (List.getElem?_eq_some_iff.1 hsettled.1).1
      rw [List.getElem?_set_self hbound, hsettled.1]
    · rw [List.getElem?_set_ne his]
      refine hothers i ?_
      rw [List.map_cons, List.mem_cons]
      rintro (heq | hmem)
      · exact his heq.symm
      · exact hi hmem

/-- What settles in a resolution, over all beats: every deferred entry and every factory, once. -/
theorem settled_perm (timeout : Nat) (entries : List Entry) :
    ((resolve timeout entries).beats.flatMap Beat.settled).Perm
      ((deferredEntries entries).map (fun w => (w.index, w.outcome timeout)) ++
        (factories entries).map fun m => (m.1, contextOf m.2)) := by
  obtain ⟨before, last, hwatched, hbeats⟩ := exists_beats_resolve timeout entries
  have hlooks : (before ++ [last]).flatMap Beat.settled =
      ((before ++ [last]).flatMap fun b => dueAt timeout b.instant (deferredEntries entries)).map
        fun w => (w.index, w.outcome timeout) := by
    rw [List.map_flatMap]
    exact List.flatMap_congr fun b hb => (hwatched.shows b hb).settled
  have hall : (resolve timeout entries).beats.flatMap Beat.settled =
      (before ++ [last]).flatMap Beat.settled ++
        (factories entries).map fun m => (m.1, contextOf m.2) := by
    rw [hbeats, List.flatMap_append, List.flatMap_singleton, Beat.append,
      (factoryBeat_shows last.instant (factories entries)).1, List.flatMap_append,
      List.flatMap_singleton, List.append_assoc]
  rw [hall, hlooks]
  exact (hwatched.perm_flatMap.map _).append_right _

/-- **The contexts of a resolution are what its entries come to**, one by one. -/
theorem contexts_resolve (timeout : Nat) (entries : List Entry) :
    (resolve timeout entries).contexts = entries.map (Entry.outcome timeout) := by
  have hperm := settled_perm timeout entries
  have hfill : (resolve timeout entries).contexts =
      fill (slots entries) ((resolve timeout entries).beats.flatMap Beat.settled) := rfl
  rw [hfill]
  refine fill_eq (by rw [slots, List.length_map, List.length_map]) ?_ ?_
  · intro s hs
    rw [List.getElem?_map]
    rcases List.mem_append.1 (hperm.mem_iff.1 hs) with hdeferred | hfactory
    · obtain ⟨w, hw, rfl⟩ := List.mem_map.1 hdeferred
      rw [mem_deferredEntries.1 hw]
      rfl
    · obtain ⟨m, hm, rfl⟩ := List.mem_map.1 hfactory
      rw [mem_factories.1 hm]
      rfl
  · -- an entry whose slot is not settled is a value, or missing
    intro i hi
    rw [(hperm.map Prod.fst).mem_iff, List.map_append, List.mem_append, List.map_map,
      List.map_map] at hi
    rw [slots, List.getElem?_map, List.getElem?_map]
    cases he : entries[i]? with
    | none => rfl
    | some e =>
      cases e with
      | value c => rfl
      | deferred delay result =>
        exact absurd (Or.inl (List.mem_map.2
          ⟨⟨i, delay, result⟩, mem_deferredEntries.2 he, rfl⟩)) hi
      | factory result =>
        exact absurd (Or.inr (List.mem_map.2 ⟨(i, result), mem_factories.2 he, rfl⟩)) hi

/-- **Resolution is slot by slot.**  There are as many contexts as entries, and each is what belongs into
the slot of its entry.  A placeholder stands in a slot in the end exactly if the entry itself gave one.
Another entry in one slot changes this slot only. -/
theorem resolve_slotwise (timeout : Nat) (entries : List Entry) :
    (resolve timeout entries).contexts.length = entries.length ∧
      List.Forall₂ (Fits timeout) entries (resolve timeout entries).contexts ∧
      (∀ i : Nat, (resolve timeout entries).contexts[i]? = some placeholder ↔
        ∃ e, entries[i]? = some e ∧ Offers timeout e placeholder) ∧
      ∀ i e, ∃ c, Fits timeout e c ∧
        (resolve timeout (entries.set i e)).contexts = (resolve timeout entries).contexts.set i c := by
  refine ⟨?_, ?_, fun i => ?_, fun i e => ⟨e.outcome timeout, fits_outcome timeout e, ?_⟩⟩
  · rw [contexts_resolve, List.length_map]
  · rw [contexts_resolve, List.forall₂_map_right_iff, List.forall₂_same]
    exact fun e _ => fits_outcome timeout e
  · rw [contexts_resolve, List.getElem?_map, Option.map_eq_some_iff]
    exact exists_congr fun e => and_congr_right fun _ => outcome_eq_placeholder e
  · rw [contexts_resolve, contexts_resolve, List.map_set]

end EventRelay.Resolve
