import EventRelay.Proofs.Run.Together
import EventRelay.Proofs.Transport.Law
import EventRelay.Proofs.Transport.Retrying

/-!
# Retries in a world

A retry over a leaf that follows a script, and several calls of one retry that are held at once.

* `Leaf.trials` — how the calls of a leaf end, and how long they take.
* `retry_scripted` — **a retry over a scripted leaf**: which calls of the leaf are made and when, what
  is in the book, when it ends and what it tells.
* `retries_interleaved` — **several calls of one retry**, over any transport: each goes as if it were
  alone, and the book is an interleaving of what each of them enters.
* `retries_together` — the same whoever goes first.
* `retry_loop` — both, with the bounds on the number of calls.
-/

namespace EventRelay.Run

open Dialogue Retry

/-- How the calls of a leaf end, and how long they take. -/
def Leaf.trials (p : Leaf) (i : Nat) : Trial :=
  ⟨(p.cueAt i).outcome, (p.cueAt i).delay⟩

/-! ## A scripted leaf -/

section Scripted

variable {policy : Policy} {book leaf count start finish : Nat} {b : Batch} {name : String}
  {script : Nat → Trial} {marks : Nat → List Mark} {o : Outcome} {ms : List Mark}

/-- The marks of a retry over a leaf, if it gave these cues. -/
theorem marks_of_sink {cues : Nat → Cue}
    (h : Rounds policy book (Transport.handle b (.sink leaf name)) start 0 script marks count
      finish o ms)
    (hcues : ∀ i < count,
      marks i = [.asked leaf (start + startsAfter policy script i) b (cues i)]) :
    ms = (List.range count).flatMap fun i =>
      [.asked leaf (start + startsAfter policy script i) b (cues i),
        .entered book (attemptAt policy script i)] := by
  rw [h.marked, Nat.sub_zero, ← List.range_eq_range']
  refine List.flatMap_congr fun i hi => ?_
  rw [hcues i (List.mem_range.1 hi)]
  rfl

/-- If the leaf has followed its script, the calls are those of the script. -/
theorem trials_of_sink {w w' : World} {p : Leaf} (hp : w.leaves[leaf]? = some p)
    (hmarked : w.Marked ms w')
    (h : Rounds policy book (Transport.handle b (.sink leaf name)) start 0 script marks count
      finish o ms) :
    (∀ i < count, script i = p.trials i) ∧
      ms.filterMap w.callOf = (List.range count).map fun i =>
        ⟨p.name, start + startsAfter policy script i, b.ids⟩ := by
  obtain ⟨cues, hcues⟩ := h.of_sink
  have hms := marks_of_sink h fun i hi => (hcues i hi).2
  have hgiven : Mark.cues leaf ms = (List.range count).map cues := by
    rw [hms, Mark.cues, List.filterMap_flatMap, ← List.flatMap_pure_eq_map]
    refine List.flatMap_congr fun i _ => ?_
    simp
  have hscripted := hmarked.scripted leaf p hp
  rw [hgiven, List.length_map, List.length_range] at hscripted
  constructor
  · intro i hi
    have hcue : cues i = p.cueAt i :=
      List.map_inj_left.1 hscripted i (List.mem_range.2 hi)
    rw [(hcues i hi).1, hcue]
    rfl
  · rw [hms, List.filterMap_flatMap, ← List.flatMap_pure_eq_map]
    refine List.flatMap_congr fun i _ => ?_
    simp [World.callOf, hp]

/-- **A retry over a scripted leaf.** -/
theorem retry_scripted {w : World} (hw : w.Steady) {p : Leaf} (hp : w.leaves[leaf]? = some p)
    {records : List Attempt} (hbook : w.books[book]? = some records) (policy : Policy) (b : Batch)
    (name : String) :
    ∃ count, IsLeast {n | 1 ≤ n ∧ Stops policy p.trials n} count ∧ ∃ w',
      w.handle (.retry book policy (.sink leaf name)) b = (some (resultOf p.trials count), w') ∧
      w'.calls = ((List.range count).map fun i =>
        ⟨p.name, w.now + startsAfter policy p.trials i, b.ids⟩).reverse ++ w.calls ∧
      w'.books[book]? = some (records ++ (List.range count).map (attemptAt policy p.trials)) ∧
      w'.now = w.now + ((List.range count).map fun i => (p.trials i).duration).sum +
        ((List.range count).map fun i => (waitBefore policy i).onClock).sum := by
  obtain ⟨o, w', ms, htalk, htakes, hmarked⟩ :=
    World.seen_through hw (Transport.calm_handle b (.retry book policy (.sink leaf name)))
  obtain ⟨script, marks, count, hrounds⟩ := rounds_of_retry htakes
  obtain ⟨hsame, hcalls⟩ := trials_of_sink hp hmarked hrounds
  have hpos : 0 < count := hrounds.some_call
  have hstarts : ∀ i < count, startsAfter policy script i = startsAfter policy p.trials i :=
    fun i hi => startsAfter_congr fun j hj => hsame j (Nat.lt_trans hj hi)
  refine ⟨count, least_congr hsame hrounds.least, w', ?_, ?_, ?_, ?_⟩
  · rw [World.handle, htalk, hrounds.outcome, resultOf_congr hpos hsame]
  · rw [hmarked.calls, hcalls]
    congr 2
    refine List.map_congr_left fun i hi => ?_
    rw [hstarts i (List.mem_range.1 hi)]
  · have hnone : ∀ i < count, Mark.entries book (marks i) = [] := fun i hi =>
      entries_handle b (.sink leaf name) (by simp [booksIn]) (hrounds.calls i (Nat.zero_le i) hi)
    rw [hmarked.books, hbook, Option.map_some, hrounds.entries hnone]
    congr 2
    refine List.map_congr_left fun i hi => ?_
    rw [attemptAt, attemptAt, hsame i (List.mem_range.1 hi)]
  · have hlast : count - 1 + 1 = count := by omega
    have hends : endsAfter policy script (count - 1) = endsAfter policy p.trials (count - 1) :=
      endsAfter_congr fun i hi => hsame i (by omega)
    rw [hrounds.ends, hends, endsAfter_eq_sum, hlast, Nat.add_assoc]

end Scripted

/-! ## Several calls at once -/

/-- A call of a retry: how the calls of its inner transport end, and how many were made. -/
structure RetryCall where
  /-- The calls of the inner transport. -/
  script : Nat → Trial
  /-- Their number. -/
  count : Nat

namespace RetryCall

/-- What it comes to. -/
def outcome (r : RetryCall) : Outcome :=
  resultOf r.script r.count

/-- What it enters in the book. -/
def records (policy : Policy) (r : RetryCall) : List Attempt :=
  (List.range r.count).map (attemptAt policy r.script)

/-- How long it takes. -/
def duration (policy : Policy) (r : RetryCall) : Nat :=
  ((List.range r.count).map fun i => (r.script i).duration).sum +
    ((List.range r.count).map fun i => (waitBefore policy i).onClock).sum

/-- Started at `start`, the retry calls `call` as the script says and stops as soon as it should. -/
structure Goes (policy : Policy) (call : Dialogue) (start : Nat) (r : RetryCall) : Prop where
  /-- The number of calls is the least at which it stops. -/
  least : IsLeast {n | 1 ≤ n ∧ Stops policy r.script n} r.count
  /-- The calls go as the script says. -/
  calls : ∀ i < r.count, ∃ ms, Takes call (start + startsAfter policy r.script i)
    (start + endsAfter policy r.script i) (r.script i).outcome ms

end RetryCall

/-- A call of a retry that starts after some time. -/
def lateCall (policy : Policy) (book : Nat) (inner : Transport) (c : Nat × Batch) : Dialogue :=
  .pause (.ms c.1) (Transport.handle c.2 (.retry book policy inner))

section Interleaved

variable {policy : Policy} {book : Nat} {inner : Transport}

/-- A call of a retry, by itself. -/
theorem retryCall_of_takes (hbook : book ∉ booksIn inner) {c : Nat × Batch} {t t' : Nat}
    {o : Outcome} {ms : List Mark} (h : Takes (lateCall policy book inner c) t t' o ms) :
    ∃ r : RetryCall, r.Goes policy (Transport.handle c.2 inner) (t + c.1) ∧ o = r.outcome ∧
      Mark.entries book ms = r.records policy ∧ t' = t + c.1 + r.duration policy := by
  obtain ⟨script, marks, count, hrounds⟩ := rounds_of_retry (t := t + c.1) h
  have hlast : count - 1 + 1 = count := Nat.sub_add_cancel hrounds.some_call
  refine ⟨⟨script, count⟩, ⟨hrounds.least, fun i hi => ?_⟩, hrounds.outcome, ?_, ?_⟩
  · exact ⟨marks i, hrounds.calls i (Nat.zero_le i) hi⟩
  · exact hrounds.entries fun i hi =>
      entries_handle c.2 inner hbook (hrounds.calls i (Nat.zero_le i) hi)
  · rw [hrounds.ends, endsAfter_eq_sum, hlast]
    rfl

/-- Several calls of a retry. -/
theorem retryCalls_of_takes (hbook : book ∉ booksIn inner) {calls : List (Nat × Batch)}
    {t t' : Nat} {os : List Outcome} {mss : List (List Mark)}
    (h : TakesAll (calls.map (lateCall policy book inner)) t t' os mss) :
    ∃ rs : List RetryCall,
      List.Forall₂ (fun c r => r.Goes policy (Transport.handle c.2 inner) (t + c.1)) calls rs ∧
      os = rs.map RetryCall.outcome ∧
      mss.map (Mark.entries book) = rs.map (RetryCall.records policy) ∧
      t' = (List.zipWith (fun c r => t + c.1 + r.duration policy) calls rs).foldr max t := by
  induction calls generalizing t' os mss with
  | nil =>
    obtain ⟨rfl, rfl, rfl⟩ := h
    exact ⟨[], .nil, rfl, rfl, rfl⟩
  | cons c calls ih =>
    obtain ⟨t₁, o, ms, t₂, os', mss', hone, hrest, rfl, rfl, rfl⟩ := h
    obtain ⟨r, hgoes, rfl, hentries, rfl⟩ := retryCall_of_takes hbook hone
    obtain ⟨rs, hall, rfl, hbooks, rfl⟩ := ih hrest
    refine ⟨r :: rs, .cons hgoes hall, rfl, ?_, rfl⟩
    rw [List.map_cons, List.map_cons, hentries, hbooks]

/-- **Several calls of one retry** that are held at once. -/
theorem retries_interleaved {w : World} (hw : w.Steady) (hbook : book ∉ booksIn inner)
    (policy : Policy) (calls : List (Nat × Batch)) (settle : List Outcome → Outcome) :
    ∃ w' rs woven,
      w.talk (.all (calls.map (lateCall policy book inner)) fun os => .finish (settle os)) =
        (some (settle (rs.map RetryCall.outcome)), w') ∧
      List.Forall₂ (fun c r => RetryCall.Goes policy (Transport.handle c.2 inner) (w.now + c.1) r)
        calls rs ∧
      Woven (rs.map (RetryCall.records policy)) woven ∧
      w'.books[book]? = w.books[book]?.map (· ++ woven) ∧
      w'.now = (List.zipWith (fun c r => w.now + c.1 + r.duration policy) calls rs).foldr max
        w.now := by
  have hcalm : Calm (.all (calls.map (lateCall policy book inner)) fun os => .finish (settle os)) := by
    refine ⟨calmAll_iff.2 fun d hd => ?_, fun _ => trivial⟩
    obtain ⟨c, -, rfl⟩ := List.mem_map.1 hd
    exact Transport.calm_handle c.2 (.retry book policy inner)
  obtain ⟨o, w', ms, htalk, htakes, hmarked⟩ := World.seen_through hw hcalm
  obtain ⟨t₁, os, mss, woven, rest, hparts, hwoven, rfl, hend, rfl, rfl⟩ := htakes
  obtain ⟨rs, hall, rfl, hbooks, rfl⟩ := retryCalls_of_takes hbook hparts
  refine ⟨w', rs, Mark.entries book woven, htalk, hall, ?_, ?_, hend⟩
  · rw [← hbooks]
    exact hwoven.filterMap _
  · rw [hmarked.books, List.append_nil]

/-- Calls that have ended, whoever went first, have taken their time. -/
theorem takesAll_of_shares {ds : List Dialogue} {os : List Outcome} {mss : List (List Mark)}
    {start now : Nat} (hos : os.length = ds.length) (hmss : mss.length = ds.length)
    (h : ∀ (i : Nat) d r ms, ds[i]? = some d → (os.map Running.done)[i]? = some r →
      mss[i]? = some ms → Share start now d r ms) : ∃ t', TakesAll ds start t' os mss := by
  induction ds generalizing os mss with
  | nil =>
    exact ⟨start, rfl, List.eq_nil_of_length_eq_zero hos, List.eq_nil_of_length_eq_zero hmss⟩
  | cons d ds ih =>
    obtain ⟨o, os, rfl⟩ := List.exists_cons_of_length_eq_add_one hos
    obtain ⟨ms, mss, rfl⟩ := List.exists_cons_of_length_eq_add_one hmss
    obtain ⟨t₂, hrest⟩ := ih (Nat.succ.inj hos) (Nat.succ.inj hmss) fun i => h (i + 1)
    cases h 0 d (.done o) ms rfl rfl rfl with
    | ended hone => exact ⟨_, _, o, ms, t₂, os, mss, hone, hrest, rfl, rfl, rfl⟩
    | waits _ ha => cases ha

/-- **Several calls of one retry, whoever goes first.** -/
theorem retries_together (hbook : book ∉ booksIn inner) {w w' : World} {calls : List (Nat × Batch)}
    {os : List Outcome}
    (h : Together w (calls.map (lateCall policy book inner)) w' (os.map .done)) :
    ∃ rs woven,
      List.Forall₂ (fun c r => RetryCall.Goes policy (Transport.handle c.2 inner) (w.now + c.1) r)
        calls rs ∧
      os = rs.map RetryCall.outcome ∧
      Woven (rs.map (RetryCall.records policy)) woven ∧
      w'.books[book]? = w.books[book]?.map (· ++ woven) := by
  obtain ⟨mss, whole, hwoven, hmarked, hmss, hos, hshare⟩ := shares_of_together h
  rw [List.length_map] at hos
  obtain ⟨t', hparts⟩ := takesAll_of_shares hos hmss hshare
  obtain ⟨rs, hall, rfl, hbooks, -⟩ := retryCalls_of_takes hbook hparts
  refine ⟨rs, Mark.entries book whole, hall, rfl, ?_, hmarked.books book⟩
  rw [← hbooks]
  exact hwoven.filterMap _

end Interleaved

/-! ## The loop -/

/-- A retry succeeds if its last call does. -/
theorem resultOf_eq_ok_iff {script : Nat → Trial} {count : Nat} :
    resultOf script count = .ok () ↔ (script (count - 1)).outcome = .ok () := by
  rw [resultOf]
  cases (script (count - 1)).outcome with
  | ok u => exact ⟨fun _ => rfl, fun _ => rfl⟩
  | error e => simp [told]

/-- A call without a failure text has succeeded. -/
theorem failureText_eq_none_iff {o : Outcome} : failureText o = none ↔ o = .ok () := by
  cases o with
  | ok u => exact ⟨fun _ => rfl, fun _ => rfl⟩
  | error e => simp [failureText]

/-- **The loop of a retry.**  Whatever the calls of the inner transport come to, their number keeps to
the bounds, and the last one decides what the retry tells and what its last entry says.  Over a scripted
leaf the calls, the book, the clock and the result are exactly those of the script; and several calls of
one retry that go on at once, whoever goes first, each go as if alone, with their entries interleaved in
the book. -/
theorem retry_loop (policy : Policy) :
    (∀ script count, IsLeast {n | 1 ≤ n ∧ Stops policy script n} count →
      count ≤ max policy.maxAttempts 1 ∧ (policy.maxAttempts < 2 ^ 32 → count < 2 ^ 32) ∧
      (∀ limit, policy.maxRetry = some limit →
        ∀ i < count, limit ≤ startsAfter policy script i → i + 1 = count) ∧
      (resultOf script count = .ok () ↔ (script (count - 1)).outcome = .ok ()) ∧
      (∀ e, (script (count - 1)).outcome = .error e →
        resultOf script count = .error (.retryExhausted count e.message)) ∧
      ((attemptAt policy script (count - 1)).error = none ↔ resultOf script count = .ok ())) ∧
    (∀ (w : World) (leaf book : Nat) (p : Leaf) (records : List Attempt) (b : Batch) (name : String),
      w.Steady → w.leaves[leaf]? = some p → w.books[book]? = some records →
      ∃ count, IsLeast {n | 1 ≤ n ∧ Stops policy p.trials n} count ∧ ∃ w',
        w.handle (.retry book policy (.sink leaf name)) b = (some (resultOf p.trials count), w') ∧
        w'.calls = ((List.range count).map fun i =>
          ⟨p.name, w.now + startsAfter policy p.trials i, b.ids⟩).reverse ++ w.calls ∧
        w'.books[book]? = some (records ++ (List.range count).map (attemptAt policy p.trials)) ∧
        w'.now = w.now + ((List.range count).map fun i => (p.trials i).duration).sum +
          ((List.range count).map fun i => (waitBefore policy i).onClock).sum) ∧
    ∀ (w : World) (book : Nat) (inner : Transport) (calls : List (Nat × Batch)),
      book ∉ booksIn inner →
      (w.Steady → ∀ settle : List Outcome → Outcome, ∃ w' rs woven,
        w.talk (.all (calls.map (lateCall policy book inner)) fun os => .finish (settle os)) =
          (some (settle (rs.map RetryCall.outcome)), w') ∧
        List.Forall₂
          (fun c r => RetryCall.Goes policy (Transport.handle c.2 inner) (w.now + c.1) r) calls rs ∧
        Woven (rs.map (RetryCall.records policy)) woven ∧
        w'.books[book]? = w.books[book]?.map (· ++ woven) ∧
        w'.now = (List.zipWith (fun c r => w.now + c.1 + r.duration policy) calls rs).foldr max
          w.now) ∧
      ∀ w' os, Together w (calls.map (lateCall policy book inner)) w' (os.map .done) →
        ∃ rs woven, List.Forall₂
            (fun c r => RetryCall.Goes policy (Transport.handle c.2 inner) (w.now + c.1) r)
            calls rs ∧
          os = rs.map RetryCall.outcome ∧ Woven (rs.map (RetryCall.records policy)) woven ∧
          w'.books[book]? = w.books[book]?.map (· ++ woven) := by
  refine ⟨fun script count h => ?_, fun w leaf book p records b name hw hp hbook => ?_,
    fun w book inner calls hbook => ⟨fun hw settle => ?_, fun w' os h => ?_⟩⟩
  · have hcount := count_le h
    refine ⟨hcount, fun hword => by omega, fun limit hlimit i hi => last_of_late h hlimit hi,
      resultOf_eq_ok_iff, fun e he => ?_, ?_⟩
    · rw [resultOf, he]
      rfl
    · exact failureText_eq_none_iff.trans resultOf_eq_ok_iff.symm
  · exact retry_scripted hw hp hbook policy b name
  · exact retries_interleaved hw hbook policy calls settle
  · exact retries_together hbook h

/-! ## A leaf that fails once -/

/-- A leaf that fails after three milliseconds, and succeeds from then on. -/
def failsOnce : Leaf :=
  { scripted := true, name := "flaky", script := [{ delay := 3, outcome := .error .notUsable }] }

/-- A world with this leaf and an empty book. -/
def flakyWorld : World :=
  { leaves := [failsOnce], books := [[]] }

theorem steady_flakyWorld : flakyWorld.Steady := by
  refine ⟨rfl, rfl, rfl, fun p hp n => ?_⟩
  rw [List.mem_singleton.1 hp]
  rcases n with _ | n
  · exact ⟨rfl, rfl⟩
  · exact ⟨rfl, rfl⟩

/-- Of at most three attempts two are made over the flaky leaf. -/
theorem failsOnce_count {count : Nat}
    (h : IsLeast {n | 1 ≤ n ∧ Stops { maxAttempts := 3 } failsOnce.trials n} count) : count = 2 := by
  have hle : count ≤ 2 := h.2 ⟨by omega, Or.inl rfl⟩
  have hone : count ≠ 1 := by
    rintro rfl
    rcases h.1.2 with hok | hallowed | ⟨_, _, hlimit, -⟩
    · cases hok
    · exact absurd hallowed (by decide)
    · cases hlimit
  have hpos : 1 ≤ count := h.1.1
  omega

/-- Over the debug sink one attempt is enough, and takes no time. -/
theorem resume_debugCall (w : World) :
    (resume (.ofDialogue (lateCall { maxAttempts := 3 } 0 .debug (0, Transport.relayBatch))) w).1 =
      .done (.ok ()) := by
  show (advance (Transport.attempts (Transport.handle Transport.relayBatch .debug)
    Transport.debug.name Transport.relayBatch.size 0 { maxAttempts := 3 } w.now 2 1 (.ms 0)) w).1 = _
  rw [Transport.attempts]
  rfl

/-- Two calls of a retry over the debug sink come to an end, the second one first. -/
theorem together_debug : ∃ w', Together flakyWorld
    ([(0, Transport.relayBatch), (0, Transport.relayBatch)].map
      (lateCall { maxAttempts := 3 } 0 .debug)) w' ([.ok (), .ok ()].map .done) := by
  have hbegun : Together flakyWorld ([(0, Transport.relayBatch), (0, Transport.relayBatch)].map
      (lateCall { maxAttempts := 3 } 0 .debug)) flakyWorld _ := .begun
  have hended := (hbegun.turn 1 rfl).turn 0 rfl
  rw [resume_debugCall, resume_debugCall] at hended
  exact ⟨_, hended⟩

/-- The first attempt over the flaky leaf fails and the second succeeds; and of two calls over the debug
sink that take turns each makes one attempt. -/
theorem retry_loop_flaky :
    flakyWorld.Steady ∧
    (∃ w', flakyWorld.handle (.retry 0 { maxAttempts := 3 } (.sink 0 "flaky"))
        Transport.relayBatch = (some (.ok ()), w') ∧
      w'.books[0]? = some [⟨1, .ms 0, some TransportError.notUsable.message⟩,
        ⟨2, Policy.delay { maxAttempts := 3 } 0, none⟩]) ∧
    ∃ w', Together flakyWorld ([(0, Transport.relayBatch), (0, Transport.relayBatch)].map
        (lateCall { maxAttempts := 3 } 0 .debug)) w' ([.ok (), .ok ()].map .done) ∧
      ∃ (rs : List RetryCall) (woven : List Attempt),
        [.ok (), .ok ()] = rs.map RetryCall.outcome ∧
        Woven (rs.map (RetryCall.records { maxAttempts := 3 })) woven ∧
        w'.books[0]? = some woven := by
  obtain ⟨-, hscripted, hcalls⟩ := retry_loop { maxAttempts := 3 }
  refine ⟨steady_flakyWorld, ?_, ?_⟩
  · obtain ⟨count, hleast, w', hends, -, hbook, -⟩ := hscripted flakyWorld 0 0 failsOnce []
      Transport.relayBatch "flaky" steady_flakyWorld rfl rfl
    cases failsOnce_count hleast
    exact ⟨w', hends, hbook⟩
  · obtain ⟨w', htogether⟩ := together_debug
    obtain ⟨-, hend⟩ := hcalls flakyWorld 0 .debug _ (by simp [booksIn])
    obtain ⟨rs, woven, -, hos, hwoven, hbook⟩ := hend w' _ htogether
    exact ⟨w', htogether, rs, woven, hos, hwoven, hbook⟩

end EventRelay.Run
