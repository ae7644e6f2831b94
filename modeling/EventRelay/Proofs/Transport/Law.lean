import EventRelay.Proofs.Run.Talks
import EventRelay.Proofs.Transport.Delivery

/-!
# The delivery law

What a tree of transports may be relied on for, whatever its leaves answer and however long they
take: the calls of the tree end, they get to usable leaves only, and success means that every leaf
that had to take the batch has taken it.  The queue removes events from its store on the strength of
that success.

* `calm_handle` — no call of a transport crashes by itself.
* `delivery_law` — the law for all ways in which a call can go, and for the call that a world sees
  through, which is one of them.
-/

namespace EventRelay.Transport

open Dialogue Run

/-! ## No call crashes -/

theorem calm_attempts {call : Dialogue} (hcall : Calm call) (name : String) (events book : Nat)
    (policy : Retry.Policy) (started left attempt : Nat) (delay : Span) :
    Calm (attempts call name events book policy started left attempt delay) := by
  induction left generalizing attempt delay with
  | zero =>
    rw [attempts]
    refine Calm.bind (fun o => ?_) call hcall
    cases o with
    | ok _ => exact calm_notes trivial
    | error e => exact fun _ => trivial
  | succ left ih =>
    rw [attempts]
    refine Calm.bind (fun o => ?_) call hcall
    cases o with
    | ok _ => exact calm_notes trivial
    | error e =>
      intro now
      dsimp only
      split
      · trivial
      · exact ih _ _

theorem calm_settleGroup (names : List String) (b : Batch) (outcomes : List Outcome) :
    Calm (settleGroup names b outcomes) := by
  unfold settleGroup
  dsimp only
  split
  · trivial
  · exact calm_notes trivial

mutual

theorem calm_handle (b : Batch) : (t : Transport) → Calm (handle b t)
  | .sink _ _ => by
    intro cue hc
    refine ⟨hc.changes, ?_⟩
    rw [hc.crashes, if_neg Bool.false_ne_true]
    trivial
  | .debug => calm_notes trivial
  | .http _ endpoint => by
    intro reply
    unfold settleReply
    split <;> trivial
  | .queued _ _ => by
    intro result
    cases result <;> trivial
  | .retry _ _ inner => fun _ => calm_attempts (calm_handle b inner) _ _ _ _ _ _ _ _
  | .switch children => fun u => calm_first u b children
  | .group children => by
    intro u
    dsimp only
    split
    · trivial
    · exact ⟨calm_usable u b children, calm_settleGroup _ b⟩

theorem calm_first (u : Usability) (b : Batch) : (ts : List Transport) → Calm (handleFirst u b ts)
  | [] => trivial
  | t :: ts => by
    rw [handleFirst]
    split
    · exact calm_handle b t
    · exact calm_first u b ts

theorem calm_usable (u : Usability) (b : Batch) : (ts : List Transport) →
    CalmAll (handleUsable u b ts)
  | [] => trivial
  | t :: ts => by
    rw [handleUsable]
    split
    · exact ⟨calm_handle b t, calm_usable u b ts⟩
    · exact calm_usable u b ts

end

/-! ## The law -/

variable {t : Transport} {u : Usability} {b : Batch}

/-- What holds of all requests of a call that has come to its end holds of those made so far. -/
theorem forall_request_of_ends {p : Exchange → Prop}
    (hends : ∀ {xs o}, Ends u (t.handle b) xs o → ∀ x ∈ xs, p x) {xs : List Exchange} {d : Dialogue}
    (hl : Leads u (t.handle b) xs d) : ∀ x ∈ xs, p x := by
  obtain ⟨ys, o, hl'⟩ := ((calm_handle b t).leads hl).completes
  intro x hx
  exact hends (hl.trans hl').ends x (List.mem_append_left ys hx)

/-- A request of the tree is one of a usable leaf that the call gets to. -/
theorem leaf_of_asked (ht : t.usable u = true) {r : Request} (hr : r ∈ t.asked u b) :
    ∃ leaf ∈ t.reach u, leaf.usable u = true ∧ r ∈ leaf.requests b := by
  obtain ⟨leaf, hleaf, hr⟩ := List.mem_flatMap.1 hr
  exact ⟨leaf, hleaf, usable_of_reach t ht hleaf, hr⟩

/-- A switch or group that cannot be used ends at once. -/
theorem ends_of_unusable {children : List Transport} (ht : t = .switch children ∨ t = .group children)
    (hu : t.usable u = false) {xs : List Exchange} {o : Outcome} (h : Ends u (t.handle b) xs o) :
    xs = [] ∧ o = .error .notUsable := by
  rcases ht with rfl | rfl
  · have hd : Ends u (handleFirst u b children) xs o := h
    rw [handleFirst_of_unusable hu] at hd
    exact hd
  · have hnames : usableNames u children = [] := usableNames_eq_nil.2 hu
    rw [handle, Ends, hnames] at h
    exact h

/-- **The delivery law.**  Let the usability of leaves stay as it is while a tree of transports
handles a batch; leaves may end in any way, after any time, and calls held at once may take turns in
any order.

* Every call ends: it makes no infinite number of steps, and from wherever it is it comes to an end.
* If the tree is usable, all requests so far are those of usable leaves in its reach.  At its end it
  has made at least one; if it has succeeded, every request of every leaf in its reach has, as often
  as the leaf is there; and if nothing in it tries again, it has made each of these requests exactly
  once, and has succeeded exactly if all of them have.
* If a switch or group is not usable, it makes no request and fails for that reason.
* A world in which nothing else goes on sees the call through, in one of these ways, and its leaves
  follow their scripts. -/
theorem delivery_law (t : Transport) (u : Usability) (b : Batch) :
    Acc (After u) (t.handle b) ∧
    (∀ xs d, Leads u (t.handle b) xs d → ∃ ys o, Leads u d ys (.finish o)) ∧
    (t.usable u = true →
      (∀ xs d, Leads u (t.handle b) xs d → ∀ x ∈ xs,
        ∃ leaf ∈ t.reach u, leaf.usable u = true ∧ x.request ∈ leaf.requests b) ∧
      ∀ xs o, Leads u (t.handle b) xs (.finish o) →
        xs ≠ [] ∧
        (o = .ok () → ((t.asked u b).map Request.accepted).Subperm xs) ∧
        (t.isRetryFree = true →
          (xs.map Exchange.request).Perm (t.asked u b) ∧
          (o = .ok () ↔ ∀ x ∈ xs, x.succeeded))) ∧
    (t.usable u = false → ∀ children, t = .switch children ∨ t = .group children →
      (∀ xs d, Leads u (t.handle b) xs d → xs = []) ∧
      ∀ xs o, Leads u (t.handle b) xs (.finish o) → o = .error .notUsable) ∧
    ∀ w : World, w.Steady → w.usability = u →
      ∃ xs o w', w.handle t b = (some o, w') ∧ w.Follows xs w' ∧
        Leads u (t.handle b) xs (.finish o) := by
  have hcalm := calm_handle b t
  have hdelivers : t.usable u = true → Delivers u false (t.asked u b) (t.handle b) :=
    delivers_handle b t fun hexact => absurd hexact Bool.false_ne_true
  refine ⟨acc _, fun xs d hl => (hcalm.leads hl).completes, fun ht => ⟨?_, ?_⟩, ?_, ?_⟩
  · intro xs d hl
    refine forall_request_of_ends (fun hends x hx => ?_) hl
    exact leaf_of_asked ht ((hdelivers ht).inside hends x hx)
  · intro xs o hl
    have hends := hl.ends
    refine ⟨(hdelivers ht).asks hends, ?_, fun hfree => ?_⟩
    · rintro rfl
      exact (hdelivers ht).complete hends
    · have honce : Delivers u true (t.asked u b) (t.handle b) := delivers_handle b t (fun _ => hfree) ht
      exact honce.once rfl hends
  · intro hu children ht
    refine ⟨fun xs d hl => ?_, fun xs o hl => (ends_of_unusable ht hu hl.ends).2⟩
    have hnone : ∀ x ∈ xs, False :=
      forall_request_of_ends (fun hends x hx => by
        rw [(ends_of_unusable ht hu hends).1] at hx
        cases hx) hl
    exact List.eq_nil_iff_forall_not_mem.2 hnone
  · rintro w hw rfl
    exact w.talk_leads hw hcalm

/-- A switch whose first child cannot be used, with a group of two behind it. -/
def relayTree : Transport :=
  .switch [.sink 0 "first", .group [.sink 1 "left", .sink 2 "right"]]

/-- The leaves of that tree; the last one fails once. -/
def relayWorld : World where
  leaves :=
    [{ scripted := true, name := "first", usable := false },
     { scripted := true, name := "left" },
     { scripted := true, name := "right", script := [{ outcome := .error (.sendFailed "down") }] }]

/-- A batch of one event. -/
def relayBatch : Batch where
  events :=
    [{ eventType := "PressEvent", id := .ofNat 7, time := 0, locationStack := [],
       globalContexts := [] }]
  nonempty := List.cons_ne_nil _ _

/-- The group gets the batch, both its members are asked once, and the failure of one is the failure
of the call. -/
theorem delivery_law_relay :
    relayTree.usable relayWorld.usability = true ∧
    (relayWorld.handle relayTree relayBatch).1 =
      some (.error (.groupFailed 1 2 ["right: Transport send failed: down"])) ∧
    ∃ xs, relayWorld.Follows xs (relayWorld.handle relayTree relayBatch).2 ∧
      (xs.map Exchange.request).Perm [.perform 1 relayBatch, .perform 2 relayBatch] ∧
      ¬∀ x ∈ xs, x.succeeded := by
  have hsteady : relayWorld.Steady := by
    refine ⟨rfl, rfl, rfl, fun p hp n => ?_⟩
    simp only [relayWorld, List.mem_cons, List.not_mem_nil, or_false] at hp
    rcases hp with rfl | rfl | rfl <;> cases n <;> exact ⟨rfl, rfl⟩
  have hhandle : relayWorld.handle relayTree relayBatch =
      (some (.error (.groupFailed 1 2 ["right: Transport send failed: down"])),
        (relayWorld.handle relayTree relayBatch).2) := by
    rw [World.handle, World.talk, World.run_eq_of_isSome 1 rfl]
    rfl
  obtain ⟨-, -, husable, -, hworld⟩ := delivery_law relayTree relayWorld.usability relayBatch
  obtain ⟨xs, o, w', hends, hfollows, hleads⟩ := hworld relayWorld hsteady rfl
  cases hhandle.symm.trans hends
  obtain ⟨-, -, honce⟩ := (husable (by decide)).2 xs _ hleads
  obtain ⟨hperm, hok⟩ := honce (by decide)
  refine ⟨by decide, congrArg Prod.fst hhandle, xs, hfollows, hperm, fun hall => ?_⟩
  cases hok.2 hall

end EventRelay.Transport
