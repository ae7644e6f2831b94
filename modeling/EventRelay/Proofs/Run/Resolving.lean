import EventRelay.Proofs.Resolve.Timetable
import EventRelay.Proofs.Run.Clockwork
import EventRelay.Proofs.Run.LifeCycle
import EventRelay.Proofs.Transport.Law
import EventRelay.Run.Track

/-!
# When a draft is resolved

The two lists of a draft are resolved side by side, and the call that tracks it follows their beats on
the clock of the world before it goes on.

* `followBeats_append`, `takes_followBeats` — to follow beats takes as long as the last of them.
* `takes_resolving_beat` — the call comes to each beat at its instant.
* `takes_resolving` — **the resolution of a draft takes as long as the slower of its lists**.
* `resolution_schedule` — the whole timetable, of one list and of both.
-/

namespace EventRelay.Run

open Dialogue Resolve

/-! ## Following beats -/

/-- The last instant of some beats, or `now` if there are none. -/
def lastInstant (now : Nat) (beats : List Beat) : Nat :=
  (beats.getLast?.map Beat.instant).getD now

theorem lastInstant_cons (now : Nat) (b : Beat) (beats : List Beat) :
    lastInstant now (b :: beats) = lastInstant b.instant beats := by
  cases beats with
  | nil => rfl
  | cons c beats => rw [lastInstant, lastInstant, List.getLast?_cons_cons, List.getLast?_cons]; rfl

/-- To follow beats is to follow the first of them and then the others. -/
theorem followBeats_append (now : Nat) (before after : List Beat) (next : Dialogue) :
    Tracker.followBeats now (before ++ after) next =
      Tracker.followBeats now before
        (Tracker.followBeats (lastInstant now before) after next) := by
  induction before generalizing now with
  | nil => rfl
  | cons b before ih =>
    rw [List.cons_append, Tracker.followBeats, ih, Tracker.followBeats, lastInstant_cons]

/-- **To follow beats takes as long as the last of them.** -/
theorem takes_followBeats {now : Nat} {beats : List Beat}
    (hlater : (now :: beats.map Beat.instant).Pairwise (· ≤ ·)) {next : Dialogue} {t t' : Nat}
    {o : Outcome} {ms : List Mark} :
    Takes (Tracker.followBeats now beats next) t t' o ms ↔
      Takes next (t + (lastInstant now beats - now)) t' o ms := by
  induction beats generalizing now t with
  | nil =>
    rw [Tracker.followBeats, lastInstant, List.getLast?_nil, Option.map_none, Option.getD_none,
      Nat.sub_self, Nat.add_zero]
  | cons b beats ih =>
    obtain ⟨hfirst, hrest⟩ := List.pairwise_cons.1 hlater
    have hnow : now ≤ b.instant := hfirst _ (by simp)
    have hlast : b.instant ≤ lastInstant b.instant beats := by
      cases hl : beats.getLast? with
      | none => simp [lastInstant, hl]
      | some c =>
        have hmem : c.instant ∈ beats.map Beat.instant :=
          List.mem_map.2 ⟨c, List.mem_of_getLast? hl, rfl⟩
        simpa [lastInstant, hl] using (List.pairwise_cons.1 hrest).1 _ hmem
    have hstep : Takes (Tracker.followBeats now (b :: beats) next) t t' o ms ↔
        Takes (.notes b.lines (Tracker.followBeats b.instant beats next)) (t + (b.instant - now))
          t' o ms := Iff.rfl
    have htime : t + (b.instant - now) + (lastInstant b.instant beats - b.instant) =
        t + (lastInstant now (b :: beats) - now) := by
      rw [lastInstant_cons]
      omega
    rw [hstep, takes_notes, ih hrest, htime]

/-! ## Both lists -/

section Both

variable (t : Tracker) (draft : Draft)

/-- The beats of both lists of a draft. -/
def draftBeats : List Beat :=
  pairBeats (resolve t.timeout draft.locations).beats (resolve t.timeout draft.globals).beats

/-- How long both lists take. -/
def draftTime : Nat :=
  max (resolve t.timeout draft.locations).elapsed (resolve t.timeout draft.globals).elapsed

theorem draftBeats_later : (draftBeats t draft).Pairwise fun a b => a.instant < b.instant := by
  have hsorted := instantsOf_sorted (resolve t.timeout draft.locations).beats
    (resolve t.timeout draft.globals).beats
  rw [← instants_pairBeats] at hsorted
  exact List.pairwise_map.1 hsorted

theorem draftBeats_from_start :
    (0 :: (draftBeats t draft).map Beat.instant).Pairwise (· ≤ ·) := by
  refine List.pairwise_cons.2 ⟨fun _ _ => Nat.zero_le _, List.pairwise_map.2 ?_⟩
  exact (draftBeats_later t draft).imp Nat.le_of_lt

theorem lastInstant_draftBeats : lastInstant 0 (draftBeats t draft) = draftTime t draft := by
  have hlocations := timetable_resolve t.timeout draft.locations
  have hglobals := timetable_resolve t.timeout draft.globals
  have hends := ends_pairBeats hlocations.later hglobals.later hlocations.ends hglobals.ends
  rw [lastInstant, draftBeats, hends, Option.getD_some, draftTime, elapsed_resolve, elapsed_resolve]

variable {t draft}

/-- **The call comes to each beat at its instant.** -/
theorem takes_resolving_beat {before after : List Beat} {b : Beat}
    (hbeats : draftBeats t draft = before ++ b :: after) {next : Dialogue} {start t' : Nat}
    {o : Outcome} {ms : List Mark} :
    Takes (t.resolving draft next) start t' o ms ↔
      Takes (.notes b.lines (Tracker.followBeats b.instant after next)) (start + b.instant)
        t' o ms := by
  have hsorted := draftBeats_from_start t draft
  have hsplit : draftBeats t draft = (before ++ [b]) ++ after := by
    rw [hbeats, List.append_assoc, List.singleton_append]
  have hresolving : t.resolving draft next =
      Tracker.followBeats 0 (before ++ [b]) (Tracker.followBeats b.instant after next) := by
    have hlast : lastInstant 0 (before ++ [b]) = b.instant := by simp [lastInstant]
    have hall : t.resolving draft next = Tracker.followBeats 0 (draftBeats t draft) next := rfl
    rw [hall, hsplit, followBeats_append, hlast]
  have hfirst : (0 :: (before ++ [b]).map Beat.instant).Pairwise (· ≤ ·) := by
    rw [hsplit, List.map_append, ← List.cons_append] at hsorted
    exact (List.pairwise_append.1 hsorted).1
  rw [hresolving, takes_followBeats hfirst, takes_notes]
  simp [lastInstant]

/-- **The resolution of a draft takes as long as the slower of its lists.** -/
theorem takes_resolving {next : Dialogue} {start t' : Nat} {o : Outcome} {ms : List Mark} :
    Takes (t.resolving draft next) start t' o ms ↔
      Takes next (start + draftTime t draft) t' o ms := by
  have hall : t.resolving draft next = Tracker.followBeats 0 (draftBeats t draft) next := rfl
  rw [hall, takes_followBeats (draftBeats_from_start t draft), lastInstant_draftBeats,
    Nat.sub_zero]

/-- It cannot crash. -/
theorem calm_resolving {next : Dialogue} (h : Calm next) : Calm (t.resolving draft next) := by
  have hbeats : ∀ (now : Nat) (beats : List Beat), Calm (Tracker.followBeats now beats next) := by
    intro now beats
    induction beats generalizing now with
    | nil => exact h
    | cons b beats ih => exact calm_notes (ih b.instant)
  exact hbeats 0 _

end Both

/-! ## Tracking -/

/-- To hand an event over cannot crash. -/
theorem calm_sending (t : Tracker) (e : Event) : Calm (t.sending e) := by
  refine calm_notes (Calm.bind (fun o => ?_) _ (Transport.calm_handle (.single e) t.transport))
  cases o <;> trivial

/-- What tracking a draft calls. -/
theorem call_of_track {t : Tracker} {u : Usability} {id : EventId} {time : UInt64} {draft : Draft}
    {e : Event} {call : Dialogue} (h : t.track u id time draft = .tracked e call) :
    call = t.resolving draft (t.sending e) := by
  rw [Tracker.track] at h
  split at h
  · cases h
  · split at h
    · cases h
    · cases h
      rfl

/-- The call of a tracker has handed the event over when both lists were resolved. -/
theorem track_takes {w : World} {cs : Nat → Queue.Course} (hk : Kept w [] cs) {t : Tracker}
    {u : Usability} {id : EventId} {time : UInt64} {draft : Draft} {e : Event} {call : Dialogue}
    (h : t.track u id time draft = .tracked e call) {o : Outcome} {w' : World}
    (htalk : w.talk call = (some o, w')) :
    ∃ ms, Takes (t.sending e) (w.now + draftTime t draft) w'.now o ms := by
  obtain ⟨ms, htakes, -⟩ := World.talk_takes hk htalk
  rw [call_of_track h, takes_resolving] at htakes
  exact ⟨ms, htakes⟩

/-- **The timetable of a resolution.**

For one list of entries and any limit: the resolution takes as long as its slowest deferred entry, which
counts for no more than the limit, and no time if there is none.  Each deferred entry settles once, when
it is due; after the last of them, and all at the final instant, each factory runs once, in order.  A
deferred entry completes exactly if it meets the limit, and then only after its own delay.

For the two lists of a draft: what runs is an interleaving of what runs in each of them alone, so each
keeps to its own timetable, and the call that tracks the draft comes to each beat at its instant.  The
call goes on, and hands the event over, when the slower list has ended.  Whatever else goes on in the
world meanwhile, the call comes to its end, and if nothing does it cannot have crashed. -/
theorem resolution_schedule :
    (∀ (timeout : Nat) (entries : List Entry),
      (resolve timeout entries).elapsed = latest (entries.map (Entry.settlesAt timeout)) ∧
      Timetable timeout entries (resolve timeout entries).beats (resolve timeout entries).elapsed ∧
      ∀ time i, (time, Ran.deferred i) ∈ runsOf (resolve timeout entries).beats ↔
        ∃ result, entries[i]? = some (.deferred (some time) result) ∧ time ≤ timeout) ∧
    ∀ (t : Tracker) (draft : Draft),
      Woven [runsOf (resolve t.timeout draft.locations).beats,
        runsOf (resolve t.timeout draft.globals).beats] (runsOf (draftBeats t draft)) ∧
      (∀ before b after, draftBeats t draft = before ++ b :: after →
        ∀ next start t' o ms, Takes (t.resolving draft next) start t' o ms ↔
          Takes (.notes b.lines (Tracker.followBeats b.instant after next)) (start + b.instant)
            t' o ms) ∧
      (∀ next start t' o ms, Takes (t.resolving draft next) start t' o ms ↔
        Takes next (start + max (resolve t.timeout draft.locations).elapsed
          (resolve t.timeout draft.globals).elapsed) t' o ms) ∧
      (∀ (w : World) before id time e call, w.Fresh → w.Possible before →
        t.track (w.follow before).usability id time draft = .tracked e call →
        (∃ arrival w', (w.follow before).Sees call arrival w') ∧
        ∀ o w', (w.follow before).talk call = (some o, w') →
          ∃ ms, Takes (t.sending e) ((w.follow before).now + draftTime t draft) w'.now o ms) ∧
      ∀ (w : World) id time e call, w.Steady →
        t.track w.usability id time draft = .tracked e call →
        ∃ o w', w.talk call = (some o, w') ∧
          ∃ ms, Takes (t.sending e) (w.now + draftTime t draft) w'.now o ms := by
  refine ⟨fun timeout entries => ⟨elapsed_resolve timeout entries, ?_, ?_⟩, fun t draft =>
    ⟨?_, ?_, ?_, ?_, ?_⟩⟩
  · rw [elapsed_resolve]
    exact timetable_resolve timeout entries
  · intro time i
    exact deferred_mem_runsOf
  · exact woven_pairBeats (timetable_resolve t.timeout draft.locations).later
      (timetable_resolve t.timeout draft.globals).later
  · intro before b after hbeats next start t' o ms
    exact takes_resolving_beat hbeats
  · intro next start t' o ms
    exact takes_resolving
  · intro w before id time e call hw hp htrack
    obtain ⟨cs, hkept, -⟩ := hw.kept
    obtain ⟨cs', hkept', -⟩ := kept_run hkept hp
    exact ⟨World.exists_sees hkept' call, fun o w' htalk => track_takes hkept' htrack htalk⟩
  · intro w id time e call hw htrack
    have hcalm : Calm call := by
      rw [call_of_track htrack]
      exact calm_resolving (calm_sending t e)
    obtain ⟨o, w', ms, htalk, htakes, -⟩ := World.seen_through hw hcalm
    rw [call_of_track htrack, takes_resolving] at htakes
    exact ⟨o, w', htalk, ms, htakes⟩

/-! ## A draft with a context that never comes -/

/-- A tracker over the debug sink. -/
def debugTracker : Tracker :=
  { trackerId := "shop", applicationId := "shop", timeout := 5, plugins := [], transport := .debug }

/-- A draft whose first list misses the limit, while the second is done after two milliseconds. -/
def unevenDraft : Draft :=
  { eventType := "PressEvent"
    locations := [.factory (.ok { typeName := "Section", id := "menu" }),
      .deferred none (.ok { typeName := "Section", id := "home" })]
    globals := [.factory (.error "no camera"),
      .deferred (some 2) (.ok { typeName := "Section", id := "shop" })] }

/-- The debug sink takes no time. -/
theorem takes_debugTracker {e : Event} {t t' : Nat} {o : Outcome} {ms : List Mark}
    (h : Takes (debugTracker.sending e) t t' o ms) : t' = t := by
  rw [Tracker.sending, takes_notes] at h
  obtain ⟨t₁, o₁, ms₁, ms₂, hdebug, hend, -⟩ := takes_bind _ h
  have hsink : Takes (.notes [Transport.debugLine e] (.finish (.ok ()))) t t₁ o₁ ms₁ := hdebug
  obtain ⟨rfl, -, -⟩ := takes_notes.1 hsink
  cases o₁ with
  | ok u => exact hend.1
  | error err => exact hend.1

/-- Each list keeps to its own timetable, and the event is handed over after five milliseconds. -/
theorem resolution_schedule_uneven :
    runsOf (resolve 5 unevenDraft.locations).beats = [(5, .factory 0)] ∧
    runsOf (resolve 5 unevenDraft.globals).beats = [(2, .deferred 1), (2, .factory 0)] ∧
    ({} : World).Steady ∧ ({} : World).Fresh ∧
    ∃ e call, debugTracker.track ({} : World).usability (.ofNat 1) 0 unevenDraft =
        .tracked e call ∧
      ∃ o w', ({} : World).talk call = (some o, w') ∧ w'.now = 5 := by
  have hsteady : ({} : World).Steady := ⟨rfl, rfl, rfl, nofun⟩
  have hfresh : ({} : World).Fresh := ⟨rfl, rfl, nofun⟩
  obtain ⟨hlist, hboth⟩ := resolution_schedule
  obtain ⟨-, -, -, hworld, hends⟩ := hboth debugTracker unevenDraft
  have htime : draftTime debugTracker unevenDraft = 5 := by
    rw [draftTime, (hlist _ _).1, (hlist _ _).1]
    decide
  refine ⟨by rfl, by rfl, hsteady, hfresh, _, _, rfl, ?_⟩
  obtain ⟨o, w', htalk, -⟩ := hends {} (.ofNat 1) 0 _ _ hsteady rfl
  obtain ⟨ms, htakes⟩ := (hworld {} [] (.ofNat 1) 0 _ _ hfresh trivial rfl).2 o w' htalk
  refine ⟨o, w', htalk, ?_⟩
  rw [takes_debugTracker htakes, htime]
  rfl

end EventRelay.Run
