import EventRelay.Proofs.Run.Drift
import EventRelay.Proofs.Run.Tracking

/-!
# Posting to the collector

A delivery posts its batch to the collector, again and again until the collector accepts it or the
attempts are used up.  What the collector has accepted follows from the requests it received and the
replies it had ready.

* `acceptedOf` — the batches among some requests that were accepted.
* `Collector.Hears` — a collector has received some requests.
* `World.Posted` — a batch was posted, a number of times, and at most the last time with success.
* `Relays`, `advance_relays` — **a delivery ends with the first success**, or with a failure when the
  attempts are used up; otherwise it waits, with fewer attempts left.
-/

namespace EventRelay

/-- Does the reply accept the batch? -/
def Reply.accepts : Reply → Bool
  | .response status _ => Status.isSuccess status
  | .timedOut _ => false
  | .unreachable _ => false
  | .broken _ => false

theorem isOk_outcomeOfReply (reply : Reply) :
    (Transport.outcomeOfReply reply).isOk = reply.accepts := by
  cases reply with
  | response status body =>
    rw [Transport.outcomeOfReply, Reply.accepts]
    split
    · rename_i hstatus
      rw [hstatus]
      rfl
    · rename_i hstatus
      rw [Bool.eq_false_iff.2 hstatus]
      rfl
  | timedOut detail => rfl
  | unreachable detail => rfl
  | broken detail => rfl

namespace Run

/-! ## The collector -/

/-- The batches that are accepted among some requests, if these replies are given, and everything is
accepted after the last of them. -/
def acceptedOf : List Reply → List (String × Batch) → List Batch
  | _, [] => []
  | [], request :: requests => request.2 :: acceptedOf [] requests
  | reply :: replies, request :: requests =>
    if reply.accepts then request.2 :: acceptedOf replies requests else acceptedOf replies requests

theorem acceptedOf_append (replies : List Reply) (earlier later : List (String × Batch)) :
    acceptedOf replies (earlier ++ later) =
      acceptedOf replies earlier ++ acceptedOf (replies.drop earlier.length) later := by
  induction earlier generalizing replies with
  | nil => cases replies <;> rfl
  | cons request earlier ih =>
    cases replies with
    | nil =>
      have hrest := ih []
      rw [List.drop_nil] at hrest
      simp [acceptedOf, hrest]
    | cons reply replies =>
      simp only [List.cons_append, acceptedOf, List.length_cons, List.drop_succ_cons]
      split
      · rw [ih, List.cons_append]
      · exact ih replies

/-- The collector `c` has become `c'` by these requests. -/
structure Collector.Hears (c : Collector) (requests : List (String × Batch)) (c' : Collector) :
    Prop where
  /-- They are on record, the latest first. -/
  received : c'.received = requests.reverse ++ c.received
  /-- Each of them has used up a reply, while there were some. -/
  replies : c'.replies = c.replies.drop requests.length

theorem Collector.Hears.refl (c : Collector) : c.Hears [] c := ⟨rfl, rfl⟩

theorem Collector.Hears.trans {c c' c'' : Collector} {earlier later : List (String × Batch)}
    (h : c.Hears earlier c') (h' : c'.Hears later c'') : c.Hears (earlier ++ later) c'' := by
  refine ⟨?_, ?_⟩
  · rw [h'.received, h.received, List.reverse_append, List.append_assoc]
  · rw [h'.replies, h.replies, List.drop_drop, List.length_append]

/-! ## Posting a batch -/

namespace World

/-- Nothing is done to queues, tasks, leaves and the collector. -/
structure Idles (w w' : World) : Prop where
  /-- The queues, the tasks and the time. -/
  same : w.Same w'
  /-- The leaves. -/
  leaves : w'.leaves = w.leaves
  /-- The collector. -/
  collector : w'.collector = w.collector

theorem Idles.trans {w w' w'' : World} (h : w.Idles w') (h' : w'.Idles w'') : w.Idles w'' :=
  ⟨h.same.trans h'.same, h'.leaves.trans h.leaves, h'.collector.trans h.collector⟩

theorem idles_note (w : World) (line : Log.Line) : w.Idles (w.note line) :=
  ⟨w.same_note line, rfl, rfl⟩

theorem idles_record (w : World) (book : Nat) (attempt : Retry.Attempt) :
    w.Idles (w.record book attempt) :=
  ⟨w.same_record book attempt, rfl, rfl⟩

theorem idles_setAlarm (w : World) (instant : Nat) : w.Idles (w.setAlarm instant).2 :=
  ⟨⟨rfl, rfl, rfl, rfl⟩, rfl, rfl⟩

theorem idles_notes (w : World) (lines : List Log.Line) : w.Idles (w.notes lines) := by
  induction lines generalizing w with
  | nil => exact ⟨.refl w, rfl, rfl⟩
  | cons line lines ih => exact (w.idles_note line).trans (ih (w.note line))

/-- The batch was posted a number of times, at most the last time with success, and `accepted` says
whether it was. -/
structure Posted (w : World) (b : Batch) (accepted : Bool) (w' : World) : Prop where
  /-- Nothing is done to queues and tasks, and no time passes. -/
  same : w.Same w'
  /-- Nothing is done to leaves. -/
  leaves : w'.leaves = w.leaves
  /-- The collector has heard of nothing else, and has accepted the batch once or not at all. -/
  heard : ∃ requests, w.collector.Hears requests w'.collector ∧
    acceptedOf w.collector.replies requests = if accepted then [b] else []

variable {w w₁ w' : World} {b : Batch} {accepted : Bool}

theorem Posted.usability (h : w.Posted b accepted w') : w'.usability = w.usability := by
  unfold World.usability
  rw [h.leaves]

/-- The batch was not posted at all. -/
theorem Idles.posted (h : w.Idles w') (b : Batch) : w.Posted b false w' := by
  refine ⟨h.same, h.leaves, [], ?_, ?_⟩
  · rw [h.collector]
    exact .refl _
  · cases w.collector.replies <;> rfl

theorem Posted.after (h : w.Posted b accepted w₁) (hidle : w₁.Idles w') :
    w.Posted b accepted w' := by
  obtain ⟨requests, hheard, htaken⟩ := h.heard
  rw [← hidle.collector] at hheard
  exact ⟨h.same.trans hidle.same, hidle.leaves.trans h.leaves, requests, hheard, htaken⟩

/-- A batch that was not accepted is posted again. -/
theorem Posted.again (h : w.Posted b false w₁) (h' : w₁.Posted b accepted w') :
    w.Posted b accepted w' := by
  obtain ⟨earlier, hheard, htaken⟩ := h.heard
  obtain ⟨later, hheard', htaken'⟩ := h'.heard
  refine ⟨h.same.trans h'.same, h'.leaves.trans h.leaves, earlier ++ later, hheard.trans hheard', ?_⟩
  rw [acceptedOf_append, htaken, ← hheard.replies, htaken']
  rfl

/-- **A request to the collector.**  Without an address, or if nobody listens there, it is not
received, and fails. -/
theorem posted_post (w : World) (endpoint : String) (b : Batch) :
    w.Posted b (w.post endpoint b).1.accepts (w.post endpoint b).2 := by
  have hnone : w.Posted b false w := Idles.posted ⟨.refl w, rfl, rfl⟩ b
  unfold World.post
  split
  · exact hnone
  · rename_i a _
    split
    · cases hreplies : w.collector.replies with
      | nil =>
        exact ⟨⟨rfl, rfl, rfl, rfl⟩, rfl, [(a.target, b)], ⟨rfl, by rw [hreplies]; rfl⟩,
          by rw [hreplies]; rfl⟩
      | cons reply replies =>
        refine ⟨⟨rfl, rfl, rfl, rfl⟩, rfl, [(a.target, b)], ⟨rfl, by rw [hreplies]; rfl⟩, ?_⟩
        rw [hreplies, acceptedOf]
        cases replies <;> rfl
    · exact hnone

end World

/-! ## The way to the collector -/

/-- Retries of posts to one endpoint. -/
def relay (policy : Retry.Policy) (endpoint : String) : Transport :=
  .retry 0 policy (.switch [.http 0 endpoint])

/-- The call under the retries. -/
def relayCall (endpoint : String) (b : Batch) : Dialogue :=
  Transport.handle b (.switch [.http 0 endpoint])

variable {policy : Retry.Policy} {endpoint : String} {b : Batch}

/-- A call posts the batch once. -/
theorem advance_relayCall (he : endpoint.isEmpty = false) {w : World} (hu : w.usability 0 = true)
    (b : Batch) (next : Outcome → Dialogue) :
    ∃ o w', w.Posted b o.isOk w' ∧
      advance ((relayCall endpoint b).bind next) w = advance (next o) w' := by
  have husable : (Transport.http 0 endpoint).usable w.usability = true := by
    simp [Transport.usable, hu, he]
  let w₁ := w.note (Transport.selectedLine (.http 0 endpoint) b)
  have hposted := ((w.idles_note _).posted b).again (w₁.posted_post endpoint b)
  have hcall : advance ((relayCall endpoint b).bind next) w =
      advance ((Transport.settleReply endpoint b (w₁.post endpoint b).1).bind next)
        (w₁.post endpoint b).2 := by
    simp only [relayCall, Transport.handle, Transport.handleFirst, Dialogue.bind, advance, husable,
      if_true, w₁]
  rw [hcall]
  rw [← isOk_outcomeOfReply] at hposted
  refine ⟨Transport.outcomeOfReply (w₁.post endpoint b).1, ?_⟩
  rw [Transport.settleReply]
  cases ho : Transport.outcomeOfReply (w₁.post endpoint b).1 with
  | ok u =>
    rw [ho] at hposted
    exact ⟨_, hposted.after (World.idles_note _ _), rfl⟩
  | error e =>
    rw [ho] at hposted
    exact ⟨_, hposted, rfl⟩

/-- What is left of a delivery of the batch, with this many attempts left. -/
inductive Relays (policy : Retry.Policy) (endpoint : String) (b : Batch) : Nat → Dialogue → Prop
  /-- It has not begun. -/
  | begun (line : Log.Line) :
      Relays policy endpoint b policy.attemptsAllowed
        (.note line (Transport.handle b (relay policy endpoint)))
  /-- It tries again. -/
  | again (name : String) (events started left attempt : Nat) (delay : Span) :
      Relays policy endpoint b left
        (Transport.attempts (relayCall endpoint b) name events 0 policy started left attempt delay)

/-- What a turn of a delivery can come to. -/
inductive Relayed (policy : Retry.Policy) (endpoint : String) (b : Batch) (left : Nat) (w : World) :
    Running × World → Prop
  /-- It has ended, with success if the batch was accepted. -/
  | ended {o : Outcome} {w' : World} (h : w.Posted b o.isOk w') :
      Relayed policy endpoint b left w (.done o, w')
  /-- It waits, with fewer attempts left. -/
  | waits {alarm : Alarm} {d : Dialogue} {w' : World} {left' : Nat} (h : w.Posted b false w')
      (hless : left' < left) (hd : Relays policy endpoint b left' d) :
      Relayed policy endpoint b left w (.asleep alarm d, w')

theorem Relayed.mono {left left' : Nat} (hle : left ≤ left') {w : World} {result : Running × World}
    (h : Relayed policy endpoint b left w result) : Relayed policy endpoint b left' w result := by
  cases h with
  | ended h => exact .ended h
  | waits h hless hd => exact .waits h (Nat.lt_of_lt_of_le hless hle) hd

theorem Relayed.after {left : Nat} {w w₁ : World} {result : Running × World}
    (hposted : w.Posted b false w₁) (h : Relayed policy endpoint b left w₁ result) :
    Relayed policy endpoint b left w result := by
  cases h with
  | ended h => exact .ended (hposted.again h)
  | waits h hless hd => exact .waits (hposted.again h) hless hd

/-- After a success a delivery writes, and ends. -/
theorem relayed_success {left : Nat} {w w₁ : World} (h : w.Posted b true w₁)
    (attempt : Retry.Attempt) (lines : List Log.Line) :
    Relayed policy endpoint b left w
      (advance (.record 0 attempt (.notes lines (.finish (.ok ())))) w₁) := by
  have hend : advance (.record 0 attempt (.notes lines (.finish (.ok ())))) w₁ =
      (.done (.ok ()), (w₁.record 0 attempt).notes lines) := by
    rw [advance, advance_notes, advance]
  rw [hend]
  exact .ended (h.after ((w₁.idles_record 0 attempt).trans (World.idles_notes _ lines)))

/-- A delivery that gives up writes, and ends. -/
theorem relayed_giveUp {left : Nat} {w w₁ : World} (h : w.Posted b false w₁) (name : String)
    (attempt elapsed : Nat) (e : TransportError) :
    Relayed policy endpoint b left w (advance (Transport.giveUp name attempt elapsed e) w₁) := by
  rw [Transport.giveUp, advance, advance]
  exact .ended (h.after (w₁.idles_note _))

/-- The attempts of a delivery, until it has to wait. -/
theorem advance_attempts (he : endpoint.isEmpty = false) {w : World} (hu : w.usability 0 = true)
    (b : Batch) (name : String) (events started left attempt : Nat) (delay : Span) :
    Relayed policy endpoint b left w (advance (Transport.attempts (relayCall endpoint b) name events
      0 policy started left attempt delay) w) := by
  induction left generalizing w attempt delay with
  | zero =>
    rw [Transport.attempts]
    obtain ⟨o, w₁, hposted, hcall⟩ := advance_relayCall he hu b _
    rw [hcall]
    cases o with
    | ok u => exact relayed_success hposted _ _
    | error e =>
      simp only [advance]
      exact relayed_giveUp (hposted.after (w₁.idles_record 0 _)) _ _ _ _
  | succ left ih =>
    rw [Transport.attempts]
    obtain ⟨o, w₁, hposted, hcall⟩ := advance_relayCall he hu b _
    rw [hcall]
    cases o with
    | ok u => exact relayed_success hposted _ _
    | error e =>
      have hrecorded := hposted.after (w₁.idles_record 0 ⟨attempt, delay, some e.message⟩)
      simp only [advance]
      split
      · exact relayed_giveUp hrecorded _ _ _ _
      · simp only [advance]
        have hnoted := hrecorded.after (World.idles_note _
          (Transport.againLine name attempt (policy.delay (attempt - 1)) e))
        split
        · -- without a wait the next attempt follows in the same turn
          refine Relayed.after hnoted (.mono (Nat.le_succ left) (ih ?_ _ _))
          rw [hnoted.usability]
          exact hu
        · exact .waits (hnoted.after (World.idles_setAlarm _ _)) (Nat.lt_succ_self left) (.again ..)

/-- **A delivery ends with the first success**, or when its attempts are used up. -/
theorem advance_relays (he : endpoint.isEmpty = false) {w : World} (hu : w.usability 0 = true)
    {left : Nat} {d : Dialogue} (h : Relays policy endpoint b left d) :
    Relayed policy endpoint b left w (advance d w) := by
  cases h with
  | begun line =>
    have hbegun : advance (.note line (Transport.handle b (relay policy endpoint))) w =
        advance (Transport.attempts (relayCall endpoint b) (Transport.switch [.http 0 endpoint]).name
          b.size 0 policy w.now (policy.attemptsAllowed - 1) 1 (.ms 0)) (w.note line) := by
      simp only [relay, relayCall, Transport.handle, advance]
      rfl
    have hnoted : (w.note line).usability 0 = true := hu
    rw [hbegun]
    refine Relayed.after ((w.idles_note line).posted b) (.mono (Nat.sub_le _ 1) ?_)
    exact advance_attempts he hnoted b _ _ _ _ _ _
  | again name events started left attempt delay =>
    exact advance_attempts he hu b name events started left attempt delay

end Run

end EventRelay
