import EventRelay.Proofs.Transport.Exchanges
import Mathlib.Data.List.Perm.Subperm

/-!
# What composed transports deliver

A tree of switches, groups and retries hands a batch on to leaves.  While usability stays as it is,
the tree itself says which leaves are meant:

* `Transport.reach` — the leaves that a call can get to: a switch gets to those of the child that it
  selects (`reach_switch`), a group to those of all its usable children (`reach_group`).
* `Transport.usable_of_reach` — **selection and usability agree**: a usable tree gets to usable leaves
  only.
* `Transport.asked` — the requests that these leaves make for a batch.

`Delivers` is what the call of a tree promises: it asks for nothing else, it asks for something, and
**when it succeeds, everything it had to ask for has succeeded**; where nothing is tried again, each
request is made exactly once, and the call succeeds exactly if all of them do.  There is one lemma
for each kind of transport, and `delivers_handle` puts them together along the tree.
-/

namespace EventRelay

open Dialogue

namespace Transport

/-! ## The leaves of a call -/

mutual

/-- The leaves that a call gets to. -/
def reach (u : Usability) : Transport → List Transport
  | .sink leaf name => [.sink leaf name]
  | .debug => [.debug]
  | .http leaf endpoint => [.http leaf endpoint]
  | .queued queue delivery => [.queued queue delivery]
  | .retry _ _ inner => reach u inner
  | .switch children => reachFirst u children
  | .group children => reachUsable u children

/-- The leaves of the first usable child. -/
def reachFirst (u : Usability) : List Transport → List Transport
  | [] => []
  | t :: ts => if t.usable u then reach u t else reachFirst u ts

/-- The leaves of all usable children. -/
def reachUsable (u : Usability) : List Transport → List Transport
  | [] => []
  | t :: ts => if t.usable u then reach u t ++ reachUsable u ts else reachUsable u ts

end

/-- A switch gets to the leaves of the child that it selects. -/
theorem reach_switch (u : Usability) (children : List Transport) :
    reach u (.switch children) = ((selected u children).map (reach u)).getD [] := by
  rw [reach]
  induction children with
  | nil => rfl
  | cons t ts ih =>
    rw [reachFirst, selected, List.find?_cons]
    cases ht : t.usable u
    · exact ih
    · rfl

/-- A group gets to the leaves of its usable children, one child after the other. -/
theorem reach_group (u : Usability) (children : List Transport) :
    reach u (.group children) = (children.filter (usable u)).flatMap (reach u) := by
  rw [reach]
  induction children with
  | nil => rfl
  | cons t ts ih =>
    rw [reachUsable, List.filter_cons]
    cases ht : t.usable u
    · exact ih
    · rw [if_pos rfl, if_pos rfl, List.flatMap_cons, ih]

/-- The requests that a leaf makes for a batch: one, but the debug sink logs each event. -/
def requests (b : Batch) : Transport → List Request
  | .sink leaf _ => [.perform leaf b]
  | .debug => b.events.map fun e => .log (debugLine e)
  | .http _ endpoint => [.post endpoint b]
  | .queued queue _ => [.enqueue queue b.events]
  | _ => []

/-- The requests that the leaves of a call make. -/
def asked (u : Usability) (b : Batch) (t : Transport) : List Request :=
  (t.reach u).flatMap (requests b)

mutual

/-- Is nothing tried again?  What a queue does later is not part of the call. -/
def isRetryFree : Transport → Bool
  | .retry _ _ _ => false
  | .switch children => areRetryFree children
  | .group children => areRetryFree children
  | _ => true

/-- Do none of several transports try again? -/
def areRetryFree : List Transport → Bool
  | [] => true
  | t :: ts => t.isRetryFree && areRetryFree ts

end

mutual

/-- **Selection and usability agree**: a usable tree gets to usable leaves only. -/
theorem usable_of_reach {u : Usability} {leaf : Transport} :
    (t : Transport) → t.usable u = true → leaf ∈ t.reach u → leaf.usable u = true
  | .sink _ _, ht, hl => by rwa [List.mem_singleton.1 hl]
  | .debug, ht, hl => by rwa [List.mem_singleton.1 hl]
  | .http _ _, ht, hl => by rwa [List.mem_singleton.1 hl]
  | .queued _ _, ht, hl => by rwa [List.mem_singleton.1 hl]
  | .retry _ _ inner, ht, hl => usable_of_reach inner ht hl
  | .switch children, _, hl => usable_of_reachFirst children hl
  | .group children, _, hl => usable_of_reachUsable children hl

theorem usable_of_reachFirst {u : Usability} {leaf : Transport} :
    (ts : List Transport) → leaf ∈ reachFirst u ts → leaf.usable u = true
  | t :: ts, hl => by
    rw [reachFirst] at hl
    split at hl
    · rename_i ht
      exact usable_of_reach t ht hl
    · exact usable_of_reachFirst ts hl

theorem usable_of_reachUsable {u : Usability} {leaf : Transport} :
    (ts : List Transport) → leaf ∈ reachUsable u ts → leaf.usable u = true
  | t :: ts, hl => by
    rw [reachUsable] at hl
    split at hl
    · rename_i ht
      rcases List.mem_append.1 hl with hl | hl
      · exact usable_of_reach t ht hl
      · exact usable_of_reachUsable ts hl
    · exact usable_of_reachUsable ts hl

end

/-! ## What a call promises -/

/-- What a call promises that has to make these requests; `exact` says that it makes each once. -/
structure Delivers (u : Usability) (exact : Bool) (requests : List Request) (d : Dialogue) :
    Prop where
  /-- It makes no other request. -/
  inside : ∀ {xs o}, Ends u d xs o → ∀ x ∈ xs, x.request ∈ requests
  /-- It makes at least one. -/
  asks : ∀ {xs o}, Ends u d xs o → xs ≠ []
  /-- When it succeeds, all of them have. -/
  complete : ∀ {xs}, Ends u d xs (.ok ()) → (requests.map Request.accepted).Subperm xs
  /-- Each is made once, and it succeeds exactly if all of them do. -/
  once : exact = true → ∀ {xs o}, Ends u d xs o →
    (xs.map Exchange.request).Perm requests ∧ (o = .ok () ↔ ∀ x ∈ xs, x.succeeded)

/-- The same for calls that are held at once. -/
structure DeliversAll (u : Usability) (exact : Bool) (requests : List Request)
    (ds : List Dialogue) : Prop where
  /-- They make no other request. -/
  inside : ∀ {xs os}, EndsAll u ds xs os → ∀ x ∈ xs, x.request ∈ requests
  /-- They make at least one. -/
  asks : ds ≠ [] → ∀ {xs os}, EndsAll u ds xs os → xs ≠ []
  /-- When they all succeed, all requests have. -/
  complete : ∀ {xs os}, EndsAll u ds xs os → (∀ o ∈ os, o = .ok ()) →
    (requests.map Request.accepted).Subperm xs
  /-- Each is made once, and they all succeed exactly if all requests do. -/
  once : exact = true → ∀ {xs os}, EndsAll u ds xs os →
    (xs.map Exchange.request).Perm requests ∧ ((∀ o ∈ os, o = .ok ()) ↔ ∀ x ∈ xs, x.succeeded)

theorem map_accepted {xs : List Exchange} (h : ∀ x ∈ xs, x.succeeded) :
    (xs.map Exchange.request).map Request.accepted = xs := by
  rw [List.map_map]
  refine (List.map_congr_left fun x hx => ?_).trans (List.map_id xs)
  rw [Function.comp_apply, Request.accepted, ← h x hx]
  rfl

variable {u : Usability} {exact : Bool}

/-- A call that makes each request once makes no other, and fails none of them when it succeeds. -/
theorem Delivers.of_once {requests : List Request} {d : Dialogue} (hne : requests ≠ [])
    (h : ∀ {xs o}, Ends u d xs o →
      (xs.map Exchange.request).Perm requests ∧ (o = .ok () ↔ ∀ x ∈ xs, x.succeeded)) :
    Delivers u exact requests d where
  inside hd x hx := (h hd).1.subset (List.mem_map_of_mem hx)
  asks hd := by
    rintro rfl
    exact hne (h hd).1.nil_eq.symm
  complete {xs} hd := by
    obtain ⟨hperm, hok⟩ := h hd
    have hsame := map_accepted (hok.1 rfl)
    have hback : (requests.map Request.accepted).Perm xs := by
      rw [← hsame]
      exact (hperm.map _).symm
    exact hback.subperm
  once _ := h

/-! ## Leaves -/

theorem delivers_sink (leaf : Nat) (name : String) (b : Batch) :
    Delivers u exact (requests b (.sink leaf name)) (handle b (.sink leaf name)) := by
  refine .of_once (List.cons_ne_nil _ _) ?_
  rintro _ o ⟨cue, ys, hc, rfl, hd⟩
  rw [follow, hc.crashes, if_neg Bool.false_ne_true] at hd
  obtain ⟨rfl, rfl⟩ := hd
  exact ⟨.refl _, by simp [Exchange.succeeded]⟩

theorem delivers_http (leaf : Nat) (endpoint : String) (b : Batch) :
    Delivers u exact (requests b (.http leaf endpoint)) (handle b (.http leaf endpoint)) := by
  refine .of_once (List.cons_ne_nil _ _) ?_
  rintro _ o ⟨reply, ys, rfl, hd⟩
  -- the line about a delivery is not one of the debug sink
  have hend : ys = [] ∧ o = outcomeOfReply reply := by
    unfold settleReply at hd
    split at hd
    · rename_i hok
      obtain ⟨zs, rfl, rfl, rfl⟩ := hd
      exact ⟨rfl, hok.symm⟩
    · rename_i e herror
      obtain ⟨rfl, rfl⟩ := hd
      exact ⟨rfl, herror.symm⟩
  obtain ⟨rfl, rfl⟩ := hend
  exact ⟨.refl _, by simp [Exchange.succeeded]⟩

theorem delivers_queued (queue : Nat) (delivery : Transport) (b : Batch) :
    Delivers u exact (requests b (.queued queue delivery)) (handle b (.queued queue delivery)) := by
  refine .of_once (List.cons_ne_nil _ _) ?_
  rintro _ o ⟨result, ys, rfl, hd⟩
  have hend : ys = [] ∧ o = stored result := by
    cases result with
    | ok _ => exact hd
    | error e => exact hd
  obtain ⟨rfl, rfl⟩ := hend
  exact ⟨.refl _, by simp [Exchange.succeeded]⟩

theorem delivers_debug (b : Batch) : Delivers u exact (requests b .debug) (handle b .debug) := by
  have hne : requests b .debug ≠ [] := by simp [requests, b.nonempty]
  refine .of_once hne fun {xs o} hd => ?_
  obtain ⟨ys, rfl, rfl, rfl⟩ := ends_notes.1 hd
  have hxs : (b.events.map debugLine).flatMap heard ++ [] =
      (requests b .debug).map Request.accepted := by
    rw [List.append_nil, List.flatMap_map, requests, List.map_map]
    exact List.map_eq_flatMap.symm
  rw [hxs]
  constructor
  · rw [List.map_map]
    exact List.Perm.of_eq (List.map_id _)
  · simp [Exchange.succeeded, Request.accepted]

/-! ## Calls held at once -/

theorem deliversAll_nil : DeliversAll u exact [] [] where
  inside := by
    rintro _ _ ⟨rfl, rfl⟩
    simp
  asks := fun hne => absurd rfl hne
  complete := by
    rintro _ _ ⟨rfl, rfl⟩ _
    exact .refl _
  once := by
    rintro _ _ _ ⟨rfl, rfl⟩
    simp

theorem DeliversAll.cons {rs rs' : List Request} {d : Dialogue} {ds : List Dialogue}
    (hd : Delivers u exact rs d) (hds : DeliversAll u exact rs' ds) :
    DeliversAll u exact (rs ++ rs') (d :: ds) where
  inside := by
    rintro xs _ ⟨ys, o, zs, os, he, hes, hperm, rfl⟩ x hx
    rcases List.mem_append.1 (hperm.subset hx) with hy | hz
    · exact List.mem_append_left _ (hd.inside he x hy)
    · exact List.mem_append_right _ (hds.inside hes x hz)
  asks := by
    rintro - xs _ ⟨ys, o, zs, os, he, hes, hperm, rfl⟩ rfl
    have hnil := List.append_eq_nil_iff.1 hperm.nil_eq.symm
    exact hd.asks he hnil.1
  complete := by
    rintro xs _ ⟨ys, o, zs, os, he, hes, hperm, rfl⟩ hok
    obtain ⟨rfl, hoks⟩ := List.forall_mem_cons.1 hok
    rw [List.map_append]
    exact ((hd.complete he).append (hds.complete hes hoks)).trans hperm.symm.subperm
  once := by
    rintro hexact xs _ ⟨ys, o, zs, os, he, hes, hperm, rfl⟩
    obtain ⟨hp, hok⟩ := hd.once hexact he
    obtain ⟨hps, hoks⟩ := hds.once hexact hes
    constructor
    · have hmap := hperm.map Exchange.request
      rw [List.map_append] at hmap
      exact hmap.trans (hp.append hps)
    · rw [List.forall_mem_cons, hok, hoks, ← List.forall_mem_append]
      exact ⟨fun h x hx => h x (hperm.subset hx), fun h x hx => h x (hperm.symm.subset hx)⟩

/-! ## Groups -/

/-- A group has no failures to tell of exactly if no member failed. -/
theorem failures_eq_nil {names : List String} {outcomes : List Outcome}
    (hlen : names.length = outcomes.length) :
    failures names outcomes = [] ↔ ∀ o ∈ outcomes, o = .ok () := by
  induction names generalizing outcomes with
  | nil => simp [List.eq_nil_of_length_eq_zero hlen.symm, failures]
  | cons name names ih =>
    cases outcomes with
    | nil => cases hlen
    | cons o outcomes =>
      cases o with
      | error e => simp [failures]
      | ok _ =>
        have hlen' : names.length = outcomes.length := Nat.succ.inj hlen
        simp [failures, ih hlen']

/-- A group has succeeded exactly if all its members have, and asks nobody when it has. -/
theorem ends_settleGroup {names : List String} {b : Batch} {outcomes : List Outcome}
    (hlen : names.length = outcomes.length) {xs : List Exchange} {o : Outcome}
    (h : Ends u (settleGroup names b outcomes) xs o) :
    xs = [] ∧ (o = .ok () ↔ ∀ o' ∈ outcomes, o' = .ok ()) := by
  rw [← failures_eq_nil hlen]
  unfold settleGroup at h
  dsimp only at h
  split at h
  · rename_i hempty
    obtain ⟨_, rfl, rfl, rfl⟩ := h
    exact ⟨rfl, fun _ => List.isEmpty_iff.1 hempty, fun _ => rfl⟩
  · rename_i hfailed
    obtain ⟨ys, rfl, rfl, rfl⟩ := ends_notes.1 h
    constructor
    · rw [List.append_nil, List.flatMap_map]
      exact List.flatMap_eq_nil_iff.2 fun _ _ => rfl
    · exact ⟨nofun, fun hnil => absurd (List.isEmpty_iff.2 hnil) hfailed⟩

theorem length_endsAll {ds : List Dialogue} {xs : List Exchange} {os : List Outcome}
    (h : EndsAll u ds xs os) : os.length = ds.length := by
  induction ds generalizing xs os with
  | nil =>
    obtain ⟨-, rfl⟩ := h
    rfl
  | cons d ds ih =>
    obtain ⟨_, _, _, os', -, hes, -, rfl⟩ := h
    rw [List.length_cons, List.length_cons, ih hes]

theorem DeliversAll.group {rs : List Request} {ds : List Dialogue} (h : DeliversAll u exact rs ds)
    (hne : ds ≠ []) {names : List String} (hlen : names.length = ds.length) (b : Batch) :
    Delivers u exact rs (.all ds (settleGroup names b)) := by
  -- the members make all the exchanges, and the outcome is decided by theirs
  have hgroup : ∀ {xs o}, Ends u (.all ds (settleGroup names b)) xs o →
      ∃ os, EndsAll u ds xs os ∧ (o = .ok () ↔ ∀ o' ∈ os, o' = .ok ()) := by
    rintro _ o ⟨ys, os, zs, hes, hsettle, rfl⟩
    have hlens : names.length = os.length := by rw [hlen, length_endsAll hes]
    obtain ⟨rfl, hok⟩ := ends_settleGroup hlens hsettle
    exact ⟨os, by rwa [List.append_nil], hok⟩
  refine ⟨fun hd => ?_, fun hd => ?_, fun hd => ?_, fun hexact xs o hd => ?_⟩
  · obtain ⟨os, hes, -⟩ := hgroup hd
    exact h.inside hes
  · obtain ⟨os, hes, -⟩ := hgroup hd
    exact h.asks hne hes
  · obtain ⟨os, hes, hok⟩ := hgroup hd
    exact h.complete hes (hok.1 rfl)
  · obtain ⟨os, hes, hok⟩ := hgroup hd
    rw [hok]
    exact h.once hexact hes

theorem length_usableNames (u : Usability) (b : Batch) (ts : List Transport) :
    (usableNames u ts).length = (handleUsable u b ts).length := by
  induction ts with
  | nil => rfl
  | cons t ts ih =>
    rw [usableNames, handleUsable]
    split
    · rw [List.length_cons, List.length_cons, ih]
    · exact ih

/-- A group has usable members exactly if it is usable. -/
theorem usableNames_eq_nil {u : Usability} {ts : List Transport} :
    usableNames u ts = [] ↔ anyUsable u ts = false := by
  induction ts with
  | nil => simp [usableNames, anyUsable]
  | cons t ts ih =>
    rw [usableNames, anyUsable]
    split
    · rename_i ht
      simp [ht]
    · rename_i ht
      rw [ih, Bool.eq_false_iff.2 ht, Bool.false_or]

/-- The call of a usable group. -/
theorem handle_group {u : Usability} {ts : List Transport} (hts : anyUsable u ts = true) (b : Batch) :
    ∃ names, names.length = (handleUsable u b ts).length ∧ handleUsable u b ts ≠ [] ∧
      ∀ xs o, Ends u (handle b (.group ts)) xs o ↔
        Ends u (.all (handleUsable u b ts) (settleGroup names b)) xs o := by
  cases hnames : usableNames u ts with
  | nil =>
    rw [usableNames_eq_nil.1 hnames] at hts
    cases hts
  | cons name names =>
    have hlen := length_usableNames u b ts
    rw [hnames] at hlen
    refine ⟨name :: names, hlen, ?_, fun xs o => ?_⟩
    · intro hnil
      rw [hnil] at hlen
      cases hlen
    · rw [handle, Ends, hnames]

/-! ## Retries -/

/-- Lines that are not of the debug sink are no exchanges. -/
theorem ends_note_quiet {line : Log.Line} (hline : line.source ≠ .debugSink) {d : Dialogue}
    {xs : List Exchange} {o : Outcome} : Ends u (.note line d) xs o ↔ Ends u d xs o := by
  rw [Ends, heard, if_neg hline]
  simp

/-- **An attempt, and what follows it**: the retry has succeeded with it, or given up, or tries
again. -/
theorem ends_attempts {call : Dialogue} {name : String} {events book : Nat} {policy : Retry.Policy}
    {started left attempt : Nat} {delay : Span} {xs : List Exchange} {o : Outcome}
    (h : Ends u (attempts call name events book policy started left attempt delay) xs o) :
    ∃ ys o' zs, Ends u call ys o' ∧ xs = ys ++ zs ∧
      ((o' = .ok () ∧ o = .ok () ∧ zs = []) ∨ (o ≠ .ok () ∧ zs = []) ∨
        ∃ left' delay', left = left' + 1 ∧
          Ends u (attempts call name events book policy started left' (attempt + 1) delay') zs o) := by
  have hgiveUp : ∀ {elapsed e zs}, Ends u (giveUp name attempt elapsed e) zs o →
      o ≠ .ok () ∧ zs = [] := by
    intro elapsed e zs hd
    obtain ⟨rfl, rfl⟩ := (ends_note_quiet (show Log.Source.retry ≠ .debugSink by decide)).1 hd
    exact ⟨nofun, rfl⟩
  rw [attempts] at h
  obtain ⟨ys, o', zs, hcall, hrest, rfl⟩ := ends_bind call h
  refine ⟨ys, o', zs, hcall, rfl, ?_⟩
  cases o' with
  | ok _ =>
    obtain ⟨as, rfl, rfl, rfl⟩ := ends_notes.1 hrest
    refine Or.inl ⟨rfl, rfl, ?_⟩
    unfold recoveredLines
    split <;> rfl
  | error e =>
    obtain ⟨now, hrest⟩ := hrest
    cases left with
    | zero => exact Or.inr (Or.inl (hgiveUp hrest))
    | succ left =>
      dsimp only at hrest
      split at hrest
      · exact Or.inr (Or.inl (hgiveUp hrest))
      · have hagain := (ends_note_quiet (show Log.Source.retry ≠ .debugSink by decide)).1 hrest
        exact Or.inr (Or.inr ⟨left, _, rfl, hagain⟩)

/-- A call that begins with a call and may go on with others of the same kind. -/
theorem Delivers.again {rs : List Request} {call d : Dialogue} (h : Delivers u exact rs call)
    (hd : ∀ {xs o}, Ends u d xs o → ∃ ys o' zs, Ends u call ys o' ∧ xs = ys ++ zs ∧
      ((o' = .ok () ∧ o = .ok () ∧ zs = []) ∨ (o ≠ .ok () ∧ zs = []) ∨
        ∃ d', Delivers u false rs d' ∧ Ends u d' zs o)) :
    Delivers u false rs d := by
  refine ⟨fun hends => ?_, fun hends => ?_, fun hends => ?_, nofun⟩
  · obtain ⟨ys, o', zs, hcall, rfl, hrest⟩ := hd hends
    intro x hx
    rcases List.mem_append.1 hx with hy | hz
    · exact h.inside hcall x hy
    · rcases hrest with ⟨-, -, rfl⟩ | ⟨-, rfl⟩ | ⟨d', hd', hends'⟩
      · cases hz
      · cases hz
      · exact hd'.inside hends' x hz
  · obtain ⟨ys, o', zs, hcall, rfl, -⟩ := hd hends
    exact List.append_ne_nil_of_left_ne_nil (h.asks hcall) _
  · obtain ⟨ys, o', zs, hcall, rfl, hrest⟩ := hd hends
    rcases hrest with ⟨rfl, -, rfl⟩ | ⟨hfailed, -⟩ | ⟨d', hd', hends'⟩
    · rw [List.append_nil]
      exact h.complete hcall
    · exact absurd rfl hfailed
    · -- the last attempt has done it all by itself
      exact (hd'.complete hends').trans (List.sublist_append_right ys zs).subperm

theorem Delivers.attempts {rs : List Request} {call : Dialogue} (h : Delivers u exact rs call)
    (name : String) (events book : Nat) (policy : Retry.Policy) (started left attempt : Nat)
    (delay : Span) :
    Delivers u false rs
      (attempts call name events book policy started left attempt delay) := by
  induction left generalizing attempt delay with
  | zero =>
    refine h.again fun hends => ?_
    obtain ⟨ys, o', zs, hcall, hxs, hrest⟩ := ends_attempts hends
    rcases hrest with hdone | hfailed | ⟨left', _, hleft, -⟩
    · exact ⟨ys, o', zs, hcall, hxs, Or.inl hdone⟩
    · exact ⟨ys, o', zs, hcall, hxs, Or.inr (Or.inl hfailed)⟩
    · cases hleft
  | succ left ih =>
    refine h.again fun hends => ?_
    obtain ⟨ys, o', zs, hcall, hxs, hrest⟩ := ends_attempts hends
    rcases hrest with hdone | hfailed | ⟨left', delay', hleft, hagain⟩
    · exact ⟨ys, o', zs, hcall, hxs, Or.inl hdone⟩
    · exact ⟨ys, o', zs, hcall, hxs, Or.inr (Or.inl hfailed)⟩
    · cases hleft
      exact ⟨ys, o', zs, hcall, hxs, Or.inr (Or.inr ⟨_, ih (attempt + 1) delay', hagain⟩)⟩

/-! ## Trees -/

/-- Calls that end alike promise alike. -/
theorem Delivers.congr {rs : List Request} {d d' : Dialogue} (h : Delivers u exact rs d)
    (hd : ∀ {xs o}, Ends u d' xs o → Ends u d xs o) : Delivers u exact rs d' :=
  ⟨fun he => h.inside (hd he), fun he => h.asks (hd he), fun he => h.complete (hd he),
    fun hexact _ _ he => h.once hexact (hd he)⟩

theorem Delivers.clock {rs : List Request} {next : Nat → Dialogue}
    (h : ∀ now, Delivers u exact rs (next now)) : Delivers u exact rs (.clock next) :=
  ⟨fun ⟨now, he⟩ => (h now).inside he, fun ⟨now, he⟩ => (h now).asks he,
    fun ⟨now, he⟩ => (h now).complete he, fun hexact _ _ ⟨now, he⟩ => (h now).once hexact he⟩

-- The recursion follows `handle`: a tree, the first usable child of a switch, the usable children
-- of a group.
mutual

/-- **What a usable tree of transports delivers.** -/
theorem delivers_handle {u : Usability} {exact : Bool} (b : Batch) : (t : Transport) →
    (exact = true → t.isRetryFree = true) → t.usable u = true →
      Delivers u exact (asked u b t) (handle b t)
  | .sink leaf name, _, _ => by
    rw [asked, reach, List.flatMap_singleton]
    exact delivers_sink leaf name b
  | .debug, _, _ => by
    rw [asked, reach, List.flatMap_singleton]
    exact delivers_debug b
  | .http leaf endpoint, _, _ => by
    rw [asked, reach, List.flatMap_singleton]
    exact delivers_http leaf endpoint b
  | .queued queue delivery, _, _ => by
    rw [asked, reach, List.flatMap_singleton]
    exact delivers_queued queue delivery b
  | .retry book policy inner, hexact, ht => by
    have hinexact : exact = false := by
      refine Bool.eq_false_iff.2 fun he => ?_
      cases hexact he
    have hinner : Delivers u false (asked u b inner) (handle b inner) :=
      delivers_handle b inner nofun ht
    rw [hinexact]
    exact .clock fun started => hinner.attempts _ _ _ _ _ _ _ _
  | .switch children, hexact, ht => (delivers_first b children hexact ht).congr fun hd => hd
  | .group children, hexact, ht => by
    obtain ⟨names, hlen, hne, hends⟩ := handle_group ht b
    exact ((delivers_usable b children hexact).group hne hlen b).congr fun hd => (hends _ _).1 hd

theorem delivers_first {u : Usability} {exact : Bool} (b : Batch) : (ts : List Transport) →
    (exact = true → areRetryFree ts = true) → anyUsable u ts = true →
      Delivers u exact ((reachFirst u ts).flatMap (requests b)) (handleFirst u b ts)
  | t :: ts, hexact, hts => by
    rw [reachFirst, handleFirst]
    by_cases ht : t.usable u = true
    · rw [if_pos ht, if_pos ht]
      have hfree : exact = true → t.isRetryFree = true := by
        intro he
        have hall := hexact he
        rw [areRetryFree, Bool.and_eq_true] at hall
        exact hall.1
      refine (delivers_handle b t hfree ht).congr fun hd => ?_
      exact (ends_note_quiet (show Log.Source.switch ≠ .debugSink by decide)).1 hd
    · rw [if_neg ht, if_neg ht]
      have hfree : exact = true → areRetryFree ts = true := by
        intro he
        have hall := hexact he
        rw [areRetryFree, Bool.and_eq_true] at hall
        exact hall.2
      rw [anyUsable, Bool.eq_false_iff.2 ht, Bool.false_or] at hts
      exact delivers_first b ts hfree hts

theorem delivers_usable {u : Usability} {exact : Bool} (b : Batch) : (ts : List Transport) →
    (exact = true → areRetryFree ts = true) →
      DeliversAll u exact ((reachUsable u ts).flatMap (requests b)) (handleUsable u b ts)
  | [], _ => deliversAll_nil
  | t :: ts, hexact => by
    have hfree : exact = true → t.isRetryFree = true ∧ areRetryFree ts = true := by
      intro he
      have hall := hexact he
      rwa [areRetryFree, Bool.and_eq_true] at hall
    have hrest := delivers_usable (u := u) b ts fun he => (hfree he).2
    rw [reachUsable, handleUsable]
    by_cases ht : t.usable u = true
    · rw [if_pos ht, if_pos ht, List.flatMap_append]
      exact .cons (delivers_handle b t (fun he => (hfree he).1) ht) hrest
    · rw [if_neg ht, if_neg ht]
      exact hrest

end

/-! ## Trees that cannot be used -/

theorem handleFirst_of_unusable {u : Usability} {ts : List Transport} (hts : anyUsable u ts = false)
    (b : Batch) : handleFirst u b ts = .finish (.error .notUsable) := by
  induction ts with
  | nil => rfl
  | cons t ts ih =>
    rw [anyUsable, Bool.or_eq_false_iff] at hts
    rw [handleFirst, hts.1, if_neg Bool.false_ne_true]
    exact ih hts.2

end Transport

end EventRelay
