import EventRelay.Transport.Handle
import Mathlib.Data.List.Perm.Basic

/-!
# What a call asks for

A call in progress asks others to take events — leaves, collectors, queues, the log of the debug
sink — and goes on from their answers.  Here the answers are free: a leaf may end in any way as long
as it does not crash and leaves the usability of others alone, time may pass between any two steps,
and calls that are held at once may take turns in any order.

* `Dialogue.Step`, `Dialogue.Leads` — one step and many, with the exchanges made on the way, while
  the usability of the leaves stays as it is.
* `Dialogue.acc` — **every call ends**: no call makes infinitely many steps.
* `Dialogue.Calm.completes` — a call that cannot crash gets to its end from wherever it is.
* `Dialogue.Ends` — the exchanges and the outcome of a whole call, read off its tree; `Leads.ends`
  says that every call that has come to its end is of this kind.  Exchanges of calls that are held
  at once are known up to their order.
-/

namespace EventRelay

/-- A cue that lets the leaf end, and does nothing else. -/
structure Cue.Steady (cue : Cue) : Prop where
  /-- The usability of all leaves stays as it is. -/
  changes : cue.changes = []
  /-- The leaf does not crash. -/
  crashes : cue.crashes = false

namespace Dialogue

/-! ## Exchanges -/

/-- Someone is asked to take events. -/
inductive Request where
  /-- A scripted leaf. -/
  | perform (leaf : Nat) (batch : Batch)
  /-- A collector. -/
  | post (endpoint : String) (batch : Batch)
  /-- A queue. -/
  | enqueue (queue : Nat) (events : List Event)
  /-- The log of the debug sink, one event at a time. -/
  | log (line : Log.Line)

/-- A request, and how it ended for the one who was asked. -/
structure Exchange where
  /-- The request. -/
  request : Request
  /-- Its end. -/
  outcome : Outcome

/-- The exchange with someone who takes the events. -/
def Request.accepted (r : Request) : Exchange :=
  ⟨r, .ok ()⟩

/-- Has the exchange ended well? -/
def Exchange.succeeded (x : Exchange) : Prop :=
  x.outcome = .ok ()

/-- The lines of the debug sink are requests; all others only tell what happens. -/
def heard (line : Log.Line) : List Exchange :=
  if line.source = .debugSink then [(Request.log line).accepted] else []

/-- What storing events comes to. -/
def stored : Except StorageError Unit → Outcome
  | .ok () => .ok ()
  | .error e => .error (.ofStorage e)

/-! ## Steps -/

/-- One step of a call, and the exchange it makes if it makes one.  The leaves stay as usable as `u`
says. -/
inductive Step (u : Usability) : Dialogue → List Exchange → Dialogue → Prop
  /-- It learns which leaves are usable. -/
  | look (next : Usability → Dialogue) : Step u (.look next) [] (next u)
  /-- It learns the time. -/
  | clock (next : Nat → Dialogue) (now : Nat) : Step u (.clock next) [] (next now)
  /-- It writes a line. -/
  | note (line : Log.Line) (next : Dialogue) : Step u (.note line next) (heard line) next
  /-- A leaf takes the batch and gives its cue. -/
  | perform (leaf : Nat) (batch : Batch) (next : Cue → Dialogue) (cue : Cue) (hc : cue.Steady) :
      Step u (.perform leaf batch next) [⟨.perform leaf batch, cue.outcome⟩] (next cue)
  /-- A collector replies. -/
  | post (endpoint : String) (batch : Batch) (next : Reply → Dialogue) (reply : Reply) :
      Step u (.post endpoint batch next)
        [⟨.post endpoint batch, Transport.outcomeOfReply reply⟩] (next reply)
  /-- It changes nothing. -/
  | change (changes : List (String × Bool)) (next : Dialogue) : Step u (.change changes next) [] next
  /-- It keeps its books. -/
  | record (book : Nat) (attempt : Retry.Attempt) (next : Dialogue) :
      Step u (.record book attempt next) [] next
  /-- A queue stores the events, or fails to. -/
  | enqueue (queue : Nat) (events : List Event) (next : Except StorageError Unit → Dialogue)
      (result : Except StorageError Unit) :
      Step u (.enqueue queue events next) [⟨.enqueue queue events, stored result⟩] (next result)
  /-- It has waited. -/
  | pause (span : Span) (next : Dialogue) : Step u (.pause span next) [] next
  /-- One of its parts makes a step. -/
  | part (before : List Dialogue) {d d' : Dialogue} {xs : List Exchange} (after : List Dialogue)
      (next : List Outcome → Dialogue) (hs : Step u d xs d') :
      Step u (.all (before ++ d :: after) next) xs (.all (before ++ d' :: after) next)
  /-- All its parts have ended. -/
  | join (outcomes : List Outcome) (next : List Outcome → Dialogue) :
      Step u (.all (outcomes.map .finish) next) [] (next outcomes)

/-- Any number of steps. -/
inductive Leads (u : Usability) : Dialogue → List Exchange → Dialogue → Prop
  /-- None. -/
  | refl (d : Dialogue) : Leads u d [] d
  /-- One, and more. -/
  | head {d d₁ d₂ : Dialogue} {xs ys : List Exchange} (hs : Step u d xs d₁) (hl : Leads u d₁ ys d₂) :
      Leads u d (xs ++ ys) d₂

variable {u : Usability}

theorem Step.leads {d d' : Dialogue} {xs : List Exchange} (h : Step u d xs d') :
    Leads u d xs d' := by
  have hl := Leads.head h (.refl d')
  rwa [List.append_nil] at hl

theorem Leads.trans {d₁ d₂ d₃ : Dialogue} {xs ys : List Exchange} (h : Leads u d₁ xs d₂)
    (h' : Leads u d₂ ys d₃) : Leads u d₁ (xs ++ ys) d₃ := by
  induction h with
  | refl d => exact h'
  | head hs _ ih =>
    rw [List.append_assoc]
    exact .head hs (ih h')

/-- A part of a call can go on by itself. -/
theorem Leads.part {d d' : Dialogue} {xs : List Exchange} (h : Leads u d xs d')
    (before after : List Dialogue) (next : List Outcome → Dialogue) :
    Leads u (.all (before ++ d :: after) next) xs (.all (before ++ d' :: after) next) := by
  induction h with
  | refl d => exact .refl _
  | head hs _ ih => exact .head (.part before after next hs) ih

/-! ## Every call ends -/

/-- The call `d'` is what is left of `d` after a step. -/
def After (u : Usability) (d' d : Dialogue) : Prop :=
  ∃ xs, Step u d xs d'

/-- One of several calls makes a step. -/
def AfterOne (u : Usability) (ds' ds : List Dialogue) : Prop :=
  ∃ before d d' after, ds = before ++ d :: after ∧ ds' = before ++ d' :: after ∧ After u d' d

theorem acc_cons {d : Dialogue} (hd : Acc (After u) d) {ds : List Dialogue}
    (hds : Acc (AfterOne u) ds) : Acc (AfterOne u) (d :: ds) := by
  induction hd generalizing ds with
  | intro d _ ihd =>
    induction hds with
    | intro ds hds ihds =>
      refine Acc.intro _ ?_
      rintro _ ⟨before, x, x', after, heq, rfl, hstep⟩
      cases before with
      | nil =>
        obtain ⟨rfl, rfl⟩ := List.cons.inj heq
        exact ihd x' hstep (Acc.intro _ hds)
      | cons y before =>
        obtain ⟨rfl, rfl⟩ := List.cons.inj heq
        exact ihds _ ⟨before, x, x', after, rfl, rfl, hstep⟩

theorem acc_all {parts : List Dialogue} (hparts : Acc (AfterOne u) parts)
    {next : List Outcome → Dialogue} (hnext : ∀ outcomes, Acc (After u) (next outcomes)) :
    Acc (After u) (.all parts next) := by
  induction hparts with
  | intro parts _ ih =>
    refine Acc.intro _ ?_
    rintro d' ⟨xs, hstep⟩
    cases hstep with
    | part before after _ hs => exact ih _ ⟨before, _, _, after, rfl, rfl, xs, hs⟩
    | join outcomes _ => exact hnext outcomes

-- A call is a tree without infinite branches, and a step goes to a branch; only the steps of parts
-- leave the tree in place, and they shrink a part.
mutual

/-- **Every call ends.** -/
theorem acc : (d : Dialogue) → Acc (After u) d
  | .finish _ => Acc.intro _ fun _ ⟨_, h⟩ => nomatch h
  | .crash => Acc.intro _ fun _ ⟨_, h⟩ => nomatch h
  | .look next => Acc.intro _ fun _ ⟨_, h⟩ => by cases h; exact acc (next u)
  | .clock next => Acc.intro _ fun _ ⟨_, h⟩ => by cases h; exact acc (next _)
  | .note _ next => Acc.intro _ fun _ ⟨_, h⟩ => by cases h; exact acc next
  | .perform _ _ next => Acc.intro _ fun _ ⟨_, h⟩ => by cases h; exact acc (next _)
  | .post _ _ next => Acc.intro _ fun _ ⟨_, h⟩ => by cases h; exact acc (next _)
  | .change _ next => Acc.intro _ fun _ ⟨_, h⟩ => by cases h; exact acc next
  | .record _ _ next => Acc.intro _ fun _ ⟨_, h⟩ => by cases h; exact acc next
  | .enqueue _ _ next => Acc.intro _ fun _ ⟨_, h⟩ => by cases h; exact acc (next _)
  | .pause _ next => Acc.intro _ fun _ ⟨_, h⟩ => by cases h; exact acc next
  | .all parts next => acc_all (acc_parts parts) fun outcomes => acc (next outcomes)

/-- Calls that are held at once end. -/
theorem acc_parts : (ds : List Dialogue) → Acc (AfterOne u) ds
  | [] => Acc.intro _ fun _ ⟨before, _, _, _, heq, _, _⟩ => by cases before <;> cases heq
  | d :: ds => acc_cons (acc d) (acc_parts ds)

end

/-! ## Calls that cannot crash -/

mutual

/-- The call crashes under no circumstances, and changes no usability. -/
def Calm : Dialogue → Prop
  | .finish _ => True
  | .crash => False
  | .look next => ∀ u, Calm (next u)
  | .clock next => ∀ now, Calm (next now)
  | .note _ next => Calm next
  | .perform _ _ next => ∀ cue : Cue, cue.Steady → Calm (next cue)
  | .post _ _ next => ∀ reply, Calm (next reply)
  | .change changes next => changes = [] ∧ Calm next
  | .record _ _ next => Calm next
  | .enqueue _ _ next => ∀ result, Calm (next result)
  | .pause _ next => Calm next
  | .all parts next => CalmAll parts ∧ ∀ outcomes, Calm (next outcomes)

/-- None of several calls crashes. -/
def CalmAll : List Dialogue → Prop
  | [] => True
  | d :: ds => Calm d ∧ CalmAll ds

end

theorem calmAll_iff {ds : List Dialogue} : CalmAll ds ↔ ∀ d ∈ ds, Calm d := by
  induction ds with
  | nil => simp [CalmAll]
  | cons d ds ih => simp [CalmAll, ih]

theorem Calm.step {d d' : Dialogue} {xs : List Exchange} (hd : Calm d) (h : Step u d xs d') :
    Calm d' := by
  induction h with
  | look next => exact hd u
  | clock next now => exact hd now
  | note line next => exact hd
  | perform leaf batch next cue hc => exact hd cue hc
  | post endpoint batch next reply => exact hd reply
  | change changes next => exact hd.2
  | record book attempt next => exact hd
  | enqueue queue events next result => exact hd result
  | pause span next => exact hd
  | join outcomes next => exact hd.2 outcomes
  | @part before d d' _ after next _ ih =>
    refine ⟨calmAll_iff.2 fun p hp => ?_, hd.2⟩
    have hparts := calmAll_iff.1 hd.1
    rcases List.mem_append.1 hp with hbefore | hrest
    · exact hparts p (List.mem_append_left _ hbefore)
    · rcases List.mem_cons.1 hrest with rfl | hafter
      · exact ih (hparts d (by simp))
      · exact hparts p (by simp [hafter])

theorem Calm.leads {d d' : Dialogue} {xs : List Exchange} (hd : Calm d) (h : Leads u d xs d') :
    Calm d' := by
  induction h with
  | refl d => exact hd
  | head hs _ ih => exact ih (hd.step hs)

mutual

/-- A call that cannot crash has ended or makes a step. -/
theorem Calm.progress (u : Usability) :
    (d : Dialogue) → Calm d → (∃ outcome, d = .finish outcome) ∨ ∃ xs d', Step u d xs d'
  | .finish outcome, _ => Or.inl ⟨outcome, rfl⟩
  | .look next, _ => Or.inr ⟨_, _, .look next⟩
  | .clock next, _ => Or.inr ⟨_, _, .clock next 0⟩
  | .note line next, _ => Or.inr ⟨_, _, .note line next⟩
  | .perform leaf batch next, _ => Or.inr ⟨_, _, .perform leaf batch next {} ⟨rfl, rfl⟩⟩
  | .post endpoint batch next, _ => Or.inr ⟨_, _, .post endpoint batch next (.broken "")⟩
  | .change changes next, _ => Or.inr ⟨_, _, .change changes next⟩
  | .record book attempt next, _ => Or.inr ⟨_, _, .record book attempt next⟩
  | .enqueue queue events next, _ => Or.inr ⟨_, _, .enqueue queue events next (.ok ())⟩
  | .pause span next, _ => Or.inr ⟨_, _, .pause span next⟩
  | .all parts next, hd => by
    rcases CalmAll.progress u parts hd.1 with ⟨outcomes, rfl⟩ | ⟨before, d, after, xs, d', rfl, hs⟩
    · exact Or.inr ⟨_, _, .join outcomes next⟩
    · exact Or.inr ⟨_, _, .part before after next hs⟩

/-- Of several calls that cannot crash, all have ended or one makes a step. -/
theorem CalmAll.progress (u : Usability) : (ds : List Dialogue) → CalmAll ds →
    (∃ outcomes : List Outcome, ds = outcomes.map .finish) ∨
    ∃ before d after xs d', ds = before ++ d :: after ∧ Step u d xs d'
  | [], _ => Or.inl ⟨[], rfl⟩
  | d :: ds, hds => by
    rcases Calm.progress u d hds.1 with ⟨outcome, rfl⟩ | ⟨xs, d', hs⟩
    · rcases CalmAll.progress u ds hds.2 with ⟨outcomes, rfl⟩ | ⟨before, d, after, xs, d', rfl, hs⟩
      · exact Or.inl ⟨outcome :: outcomes, rfl⟩
      · exact Or.inr ⟨.finish outcome :: before, d, after, xs, d', rfl, hs⟩
    · exact Or.inr ⟨[], d, ds, xs, d', rfl, hs⟩

end

/-- **A call that cannot crash gets to its end.** -/
theorem Calm.completes {d : Dialogue} (hd : Calm d) : ∃ xs outcome, Leads u d xs (.finish outcome) := by
  induction acc (u := u) d with
  | intro d _ ih =>
    rcases Calm.progress u d hd with ⟨outcome, rfl⟩ | ⟨xs, d', hs⟩
    · exact ⟨[], outcome, .refl _⟩
    · obtain ⟨ys, outcome, hl⟩ := ih d' ⟨xs, hs⟩ (hd.step hs)
      exact ⟨xs ++ ys, outcome, .head hs hl⟩

/-! ## Whole calls -/

mutual

/-- The call can end with these exchanges and this outcome. -/
def Ends (u : Usability) : Dialogue → List Exchange → Outcome → Prop
  | .finish outcome, xs, o => xs = [] ∧ o = outcome
  | .crash, _, _ => False
  | .look next, xs, o => Ends u (next u) xs o
  | .clock next, xs, o => ∃ now, Ends u (next now) xs o
  | .note line next, xs, o => ∃ ys, xs = heard line ++ ys ∧ Ends u next ys o
  | .perform leaf batch next, xs, o => ∃ cue ys, cue.Steady ∧
      xs = ⟨.perform leaf batch, cue.outcome⟩ :: ys ∧ Ends u (next cue) ys o
  | .post endpoint batch next, xs, o => ∃ reply ys,
      xs = ⟨.post endpoint batch, Transport.outcomeOfReply reply⟩ :: ys ∧ Ends u (next reply) ys o
  | .change _ next, xs, o => Ends u next xs o
  | .record _ _ next, xs, o => Ends u next xs o
  | .enqueue queue events next, xs, o => ∃ result ys,
      xs = ⟨.enqueue queue events, stored result⟩ :: ys ∧ Ends u (next result) ys o
  | .pause _ next, xs, o => Ends u next xs o
  | .all parts next, xs, o => ∃ ys outcomes zs,
      EndsAll u parts ys outcomes ∧ Ends u (next outcomes) zs o ∧ xs = ys ++ zs

/-- Several calls, held at once, can end with these outcomes; their exchanges come in any order. -/
def EndsAll (u : Usability) : List Dialogue → List Exchange → List Outcome → Prop
  | [], xs, os => xs = [] ∧ os = []
  | d :: ds, xs, os => ∃ ys o zs os', Ends u d ys o ∧ EndsAll u ds zs os' ∧
      xs.Perm (ys ++ zs) ∧ os = o :: os'

end

theorem endsAll_part {d d' : Dialogue} {xs : List Exchange}
    (hpart : ∀ {ys o}, Ends u d' ys o → Ends u d (xs ++ ys) o) {before after : List Dialogue}
    {ys : List Exchange} {os : List Outcome} (h : EndsAll u (before ++ d' :: after) ys os) :
    EndsAll u (before ++ d :: after) (xs ++ ys) os := by
  induction before generalizing ys os with
  | nil =>
    obtain ⟨as, o, bs, os', hd, hrest, hperm, rfl⟩ := h
    refine ⟨xs ++ as, o, bs, os', hpart hd, hrest, ?_, rfl⟩
    rw [List.append_assoc]
    exact hperm.append_left xs
  | cons p before ih =>
    obtain ⟨as, o, bs, os', hp, hrest, hperm, rfl⟩ := h
    refine ⟨as, o, xs ++ bs, os', hp, ih hrest, ?_, rfl⟩
    exact (hperm.append_left xs).trans (List.perm_append_comm_assoc xs as bs)

theorem endsAll_finish (outcomes : List Outcome) : EndsAll u (outcomes.map .finish) [] outcomes := by
  induction outcomes with
  | nil => exact ⟨rfl, rfl⟩
  | cons o outcomes ih => exact ⟨[], o, [], outcomes, ⟨rfl, rfl⟩, ih, .refl _, rfl⟩

/-- What can end after a step could end before it. -/
theorem Step.ends {d d' : Dialogue} {xs : List Exchange} (h : Step u d xs d') {ys : List Exchange}
    {o : Outcome} (hd : Ends u d' ys o) : Ends u d (xs ++ ys) o := by
  induction h generalizing ys o with
  | look next => exact hd
  | clock next now => exact ⟨now, hd⟩
  | note line next => exact ⟨ys, rfl, hd⟩
  | perform leaf batch next cue hc => exact ⟨cue, ys, hc, rfl, hd⟩
  | post endpoint batch next reply => exact ⟨reply, ys, rfl, hd⟩
  | change changes next => exact hd
  | record book attempt next => exact hd
  | enqueue queue events next result => exact ⟨result, ys, rfl, hd⟩
  | pause span next => exact hd
  | join outcomes next => exact ⟨[], outcomes, ys, endsAll_finish outcomes, hd, rfl⟩
  | part before after next _ ih =>
    obtain ⟨as, outcomes, bs, hparts, hnext, rfl⟩ := hd
    exact ⟨_, outcomes, bs, endsAll_part ih hparts, hnext, (List.append_assoc _ _ _).symm⟩

/-- **A call that has come to its end has ended**, with the exchanges made on the way. -/
theorem Leads.ends {d : Dialogue} {xs : List Exchange} {o : Outcome}
    (h : Leads u d xs (.finish o)) : Ends u d xs o := by
  have hfrom : ∀ {d d' : Dialogue} {xs ys : List Exchange}, Leads u d xs d' → Ends u d' ys o →
      Ends u d (xs ++ ys) o := by
    intro d d' xs ys hl hd'
    induction hl with
    | refl d => exact hd'
    | head hs _ ih =>
      rw [List.append_assoc]
      exact hs.ends (ih hd')
  have hends := hfrom h (⟨rfl, rfl⟩ : Ends u (.finish o) [] o)
  rwa [List.append_nil] at hends

/-! ## Calls made of calls -/

/-- One call after another. -/
theorem ends_bind {k : Outcome → Dialogue} {o : Outcome} :
    (d : Dialogue) → {xs : List Exchange} → Ends u (d.bind k) xs o →
      ∃ ys o' zs, Ends u d ys o' ∧ Ends u (k o') zs o ∧ xs = ys ++ zs
  | .finish outcome, xs, h => ⟨[], outcome, xs, ⟨rfl, rfl⟩, h, rfl⟩
  | .crash, _, h => h.elim
  | .look next, _, h => ends_bind (next u) h
  | .clock next, _, h => by
    obtain ⟨now, h⟩ := h
    obtain ⟨ys, o', zs, hd, hk, rfl⟩ := ends_bind (next now) h
    exact ⟨ys, o', zs, ⟨now, hd⟩, hk, rfl⟩
  | .note line next, _, h => by
    obtain ⟨_, rfl, h⟩ := h
    obtain ⟨ys, o', zs, hd, hk, rfl⟩ := ends_bind next h
    exact ⟨heard line ++ ys, o', zs, ⟨ys, rfl, hd⟩, hk, (List.append_assoc _ _ _).symm⟩
  | .perform leaf batch next, _, h => by
    obtain ⟨cue, _, hc, rfl, h⟩ := h
    obtain ⟨ys, o', zs, hd, hk, rfl⟩ := ends_bind (next cue) h
    exact ⟨_ :: ys, o', zs, ⟨cue, ys, hc, rfl, hd⟩, hk, rfl⟩
  | .post endpoint batch next, _, h => by
    obtain ⟨reply, _, rfl, h⟩ := h
    obtain ⟨ys, o', zs, hd, hk, rfl⟩ := ends_bind (next reply) h
    exact ⟨_ :: ys, o', zs, ⟨reply, ys, rfl, hd⟩, hk, rfl⟩
  | .change _ next, _, h => ends_bind next h
  | .record _ _ next, _, h => ends_bind next h
  | .enqueue queue events next, _, h => by
    obtain ⟨result, _, rfl, h⟩ := h
    obtain ⟨ys, o', zs, hd, hk, rfl⟩ := ends_bind (next result) h
    exact ⟨_ :: ys, o', zs, ⟨result, ys, rfl, hd⟩, hk, rfl⟩
  | .pause _ next, _, h => ends_bind next h
  | .all parts next, _, h => by
    obtain ⟨as, outcomes, bs, hparts, h, rfl⟩ := h
    obtain ⟨ys, o', zs, hd, hk, rfl⟩ := ends_bind (next outcomes) h
    exact ⟨as ++ ys, o', zs, ⟨as, outcomes, ys, hparts, hd, rfl⟩, hk, (List.append_assoc _ _ _).symm⟩

theorem Calm.bind {k : Outcome → Dialogue} (hk : ∀ o, Calm (k o)) :
    (d : Dialogue) → Calm d → Calm (d.bind k)
  | .finish outcome, _ => hk outcome
  | .crash, h => h.elim
  | .look next, h => fun u => Calm.bind hk (next u) (h u)
  | .clock next, h => fun now => Calm.bind hk (next now) (h now)
  | .note _ next, h => Calm.bind hk next h
  | .perform _ _ next, h => fun cue hc => Calm.bind hk (next cue) (h cue hc)
  | .post _ _ next, h => fun reply => Calm.bind hk (next reply) (h reply)
  | .change _ next, h => ⟨h.1, Calm.bind hk next h.2⟩
  | .record _ _ next, h => Calm.bind hk next h
  | .enqueue _ _ next, h => fun result => Calm.bind hk (next result) (h result)
  | .pause _ next, h => Calm.bind hk next h
  | .all _ next, h => ⟨h.1, fun outcomes => Calm.bind hk (next outcomes) (h.2 outcomes)⟩

/-- Log lines are exchanges if they are lines of the debug sink. -/
theorem ends_notes {lines : List Log.Line} {d : Dialogue} {xs : List Exchange} {o : Outcome} :
    Ends u (.notes lines d) xs o ↔ ∃ ys, xs = lines.flatMap heard ++ ys ∧ Ends u d ys o := by
  induction lines generalizing xs with
  | nil => simp [notes]
  | cons line lines ih =>
    have hcons : Ends u (.notes (line :: lines) d) xs o ↔
        ∃ ys, xs = heard line ++ ys ∧ Ends u (.notes lines d) ys o := Iff.rfl
    simp only [hcons, ih, List.flatMap_cons, List.append_assoc]
    constructor
    · rintro ⟨_, rfl, ys, rfl, hd⟩
      exact ⟨ys, rfl, hd⟩
    · rintro ⟨ys, rfl, hd⟩
      exact ⟨_, rfl, ys, rfl, hd⟩

theorem calm_notes {lines : List Log.Line} {d : Dialogue} (hd : Calm d) : Calm (.notes lines d) := by
  induction lines with
  | nil => exact hd
  | cons line lines ih => exact ih

end Dialogue

end EventRelay
