import EventRelay.Proofs.Queue.Books
import Mathlib.Data.List.Nodup

/-!
# The flights of a journal

A batch is claimed, its call ends, and it lands; the journal has a note of each, and the ticket ties
them together.  This file says that the queue keeps its own records of flights in step with the
journal (`Books.Tracked`):

* tickets are given out in order, so that no two batches share one (`Books.Tracked.eq_of_ticket`);
* in flight are exactly the batches that were claimed and have not landed
  (`Books.Tracked.mem_flights`);
* a call ends at most once, and a batch lands only after its call has ended;
* an outcome is on record exactly when the batch has landed (`Books.Tracked.outcomes`).

`tracked_run` is the statement for whole runs.
-/

namespace EventRelay.Queue

/-! ## Reading the journal -/

/-- The batches that were claimed, in order. -/
def claims (journal : List Note) : List Flight :=
  journal.filterMap Note.claims?

/-- Has the batch of a ticket landed? -/
def hasLanded (journal : List Note) (ticket : Nat) : Bool :=
  journal.any (·.lands ticket)

/-- The batches that were claimed and have not landed. -/
def aloft (journal : List Note) : List Flight :=
  (claims journal).filter fun f => !hasLanded journal f.ticket

theorem claims_append (as bs : List Note) : claims (as ++ bs) = claims as ++ claims bs :=
  List.filterMap_append

theorem claims_concat_quiet {note : Note} (h : note.claims? = none) (journal : List Note) :
    claims (journal ++ [note]) = claims journal := by
  rw [claims_append]
  simp [claims, h]

theorem hasLanded_append (as bs : List Note) (ticket : Nat) :
    hasLanded (as ++ bs) ticket = (hasLanded as ticket || hasLanded bs ticket) :=
  List.any_append

theorem hasLanded_concat_quiet {note : Note} {ticket : Nat} (h : note.lands ticket = false)
    (journal : List Note) : hasLanded (journal ++ [note]) ticket = hasLanded journal ticket := by
  rw [hasLanded_append]
  simp [hasLanded, h]

theorem hasLanded_iff {journal : List Note} {ticket : Nat} :
    hasLanded journal ticket = true ↔ ∃ flight, .landed flight ∈ journal ∧ flight.ticket = ticket := by
  unfold hasLanded
  rw [List.any_eq_true]
  constructor
  · rintro ⟨note, hn, hl⟩
    cases note with
    | landed flight => exact ⟨flight, hn, by simpa [Note.lands] using hl⟩
    | _ => cases hl
  · rintro ⟨flight, hn, rfl⟩
    exact ⟨_, hn, by simp [Note.lands]⟩

/-! ## The invariant -/

/-- The records of flights agree with the journal. -/
structure Books.Tracked (b : Books) : Prop where
  /-- Tickets were given out in order. -/
  tickets : (claims b.journal).map Flight.ticket = List.range b.tickets
  /-- In flight is what was claimed and has not landed. -/
  flights : b.flights = aloft b.journal
  /-- A call that has ended was that of a claimed batch, and ended once. -/
  handled : ∀ flight ending failure, .handled flight ending failure ∈ b.journal →
    flight ∈ claims b.journal ∧ b.ending? flight.ticket = some ending
  /-- What has landed was claimed. -/
  landed : ∀ flight, .landed flight ∈ b.journal → flight ∈ claims b.journal
  /-- The call of a batch that has landed has ended. -/
  ended : ∀ ticket, hasLanded b.journal ticket = true → (b.ending? ticket).isSome = true
  /-- Outcomes are those of the batches that have landed. -/
  outcomes : ∀ ticket, b.outcomes.lookup ticket =
    if hasLanded b.journal ticket then (b.ending? ticket).map Ending.outcome else none

namespace Books

theorem ending?_concat (b : Books) (b' : Books) {note : Note}
    (hj : b'.journal = b.journal ++ [note]) (ticket : Nat) :
    b'.ending? ticket = (b.ending? ticket).or (note.ending? ticket) := by
  unfold ending?
  rw [hj, List.findSome?_append]
  cases hn : note.ending? ticket <;> simp [hn]

theorem ending?_concat_quiet (b : Books) (b' : Books) {note : Note}
    (hj : b'.journal = b.journal ++ [note]) {ticket : Nat} (hn : note.ending? ticket = none) :
    b'.ending? ticket = b.ending? ticket := by
  rw [b.ending?_concat b' hj, hn, Option.or_none]

namespace Tracked

variable {b : Books}

/-! ## What it says -/

theorem claimed_ticket_lt (h : b.Tracked) {f : Flight} (hf : f ∈ claims b.journal) :
    f.ticket < b.tickets := by
  have hmem : f.ticket ∈ (claims b.journal).map Flight.ticket := List.mem_map_of_mem hf
  rw [h.tickets] at hmem
  exact List.mem_range.1 hmem

/-- A ticket belongs to one batch. -/
theorem eq_of_ticket (h : b.Tracked) {f g : Flight} (hf : f ∈ claims b.journal)
    (hg : g ∈ claims b.journal) (he : f.ticket = g.ticket) : f = g := by
  have hnd : ((claims b.journal).map Flight.ticket).Nodup := by
    rw [h.tickets]
    exact List.nodup_range
  exact List.inj_on_of_nodup_map hnd hf hg he

theorem mem_flights (h : b.Tracked) {f : Flight} :
    f ∈ b.flights ↔ f ∈ claims b.journal ∧ hasLanded b.journal f.ticket = false := by
  rw [h.flights, aloft, List.mem_filter, Bool.not_eq_true']

theorem claimed_of_mem (h : b.Tracked) {f : Flight} (hf : f ∈ b.flights) : f ∈ claims b.journal :=
  (h.mem_flights.1 hf).1

theorem flights_tickets_nodup (h : b.Tracked) : (b.flights.map Flight.ticket).Nodup := by
  have hsub : (b.flights.map Flight.ticket).Sublist ((claims b.journal).map Flight.ticket) := by
    rw [h.flights]
    exact List.filter_sublist.map _
  rw [h.tickets] at hsub
  exact hsub.nodup List.nodup_range

/-- The next ticket is new. -/
theorem next_not_landed (h : b.Tracked) : hasLanded b.journal b.tickets = false := by
  refine Bool.eq_false_iff.2 fun hl => ?_
  obtain ⟨flight, hm, ht⟩ := hasLanded_iff.1 hl
  have hlt := h.claimed_ticket_lt (h.landed flight hm)
  omega

/-- The next ticket belongs to no call that has ended. -/
theorem ending?_next (h : b.Tracked) : b.ending? b.tickets = none := by
  refine List.findSome?_eq_none_iff.2 fun note hnote => ?_
  cases note with
  | handled flight ending failure =>
    have hlt := h.claimed_ticket_lt (h.handled _ _ _ hnote).1
    simp only [Note.ending?]
    rw [if_neg (by omega)]
  | _ => rfl

/-- A batch has an outcome once it has landed. -/
theorem isSome_outcome (h : b.Tracked) (ticket : Nat) :
    (b.outcomes.lookup ticket).isSome = hasLanded b.journal ticket := by
  rw [h.outcomes]
  by_cases hl : hasLanded b.journal ticket = true
  · rw [if_pos hl, Option.isSome_map, h.ended ticket hl, hl]
  · rw [if_neg hl, Bool.eq_false_iff.2 hl]
    rfl

/-- An outcome that is on record stays on record. -/
theorem outcome_mono (h : b.Tracked) {b' : Books} (h' : b'.Tracked)
    (hj : b.journal <+: b'.journal) {ticket : Nat} {outcome : Outcome}
    (ho : b.outcomes.lookup ticket = some outcome) : b'.outcomes.lookup ticket = some outcome := by
  obtain ⟨later, hlater⟩ := hj
  rw [h.outcomes] at ho
  split at ho
  · rename_i hl
    obtain ⟨ending, he, rfl⟩ := Option.map_eq_some_iff.1 ho
    have hl' : hasLanded b'.journal ticket = true := by
      rw [← hlater, hasLanded_append, hl, Bool.true_or]
    have he' : b'.ending? ticket = some ending := by
      rw [ending?] at he
      rw [ending?, ← hlater, List.findSome?_append, he, Option.some_or]
    rw [h'.outcomes, if_pos hl', he', Option.map_some]
  · cases ho

/-! ## Preservation -/

/-- Calls that have ended, after one more note. -/
theorem handled_concat (h : b.Tracked) {b' : Books} {note : Note}
    (hj : b'.journal = b.journal ++ [note])
    (hn : ∀ flight ending failure, note = .handled flight ending failure →
      flight ∈ claims b.journal ∧ b.ending? flight.ticket = none)
    {flight : Flight} {ending : Ending} {failure : Option StorageError}
    (hm : .handled flight ending failure ∈ b'.journal) :
    flight ∈ claims b'.journal ∧ b'.ending? flight.ticket = some ending := by
  rw [b.ending?_concat b' hj, hj, claims_append]
  rw [hj, List.mem_append, List.mem_singleton] at hm
  rcases hm with hm | hm
  · obtain ⟨hc, he⟩ := h.handled flight ending failure hm
    exact ⟨List.mem_append_left _ hc, by rw [he, Option.some_or]⟩
  · obtain ⟨hc, he⟩ := hn flight ending failure hm.symm
    exact ⟨List.mem_append_left _ hc, by simp [he, ← hm, Note.ending?]⟩

/-- Batches that have landed, after one more note. -/
theorem landed_concat (h : b.Tracked) {b' : Books} {note : Note}
    (hj : b'.journal = b.journal ++ [note])
    (hn : ∀ flight, note = .landed flight → flight ∈ claims b.journal) {flight : Flight}
    (hm : .landed flight ∈ b'.journal) : flight ∈ claims b'.journal := by
  rw [hj, claims_append]
  rw [hj, List.mem_append, List.mem_singleton] at hm
  rcases hm with hm | hm
  · exact List.mem_append_left _ (h.landed flight hm)
  · exact List.mem_append_left _ (hn flight hm.symm)

/-- A note that is not about flights changes nothing. -/
theorem concat_quiet (h : b.Tracked) {b' : Books} {note : Note}
    (hj : b'.journal = b.journal ++ [note]) (ht : b'.tickets = b.tickets)
    (hf : b'.flights = b.flights) (ho : b'.outcomes = b.outcomes) (hc : note.claims? = none)
    (hl : ∀ ticket, note.lands ticket = false) (he : ∀ ticket, note.ending? ticket = none) :
    b'.Tracked := by
  have hclaims : claims b'.journal = claims b.journal := by rw [hj, claims_concat_quiet hc]
  have hland : ∀ ticket, hasLanded b'.journal ticket = hasLanded b.journal ticket := by
    intro ticket
    rw [hj, hasLanded_concat_quiet (hl ticket)]
  have hend : ∀ ticket, b'.ending? ticket = b.ending? ticket :=
    fun ticket => b.ending?_concat_quiet b' hj (he ticket)
  refine ⟨by rw [hclaims, ht, h.tickets], ?_, fun _ _ _ => h.handled_concat hj ?_,
    fun _ => h.landed_concat hj ?_, ?_, ?_⟩
  · rw [hf, h.flights, aloft, aloft, hclaims]
    exact List.filter_congr fun f _ => by rw [hland]
  · rintro flight ending failure rfl
    have hnone := he flight.ticket
    simp [Note.ending?] at hnone
  · rintro flight rfl
    have hnone := hl flight.ticket
    simp [Note.lands] at hnone
  · intro ticket
    rw [hland, hend]
    exact h.ended ticket
  · intro ticket
    rw [ho, hland, hend]
    exact h.outcomes ticket

theorem concat_claimed (h : b.Tracked) {b' : Books} {batch : Batch}
    (hj : b'.journal = b.journal ++ [.claimed ⟨b.tickets, batch⟩])
    (ht : b'.tickets = b.tickets + 1) (hf : b'.flights = b.flights ++ [⟨b.tickets, batch⟩])
    (ho : b'.outcomes = b.outcomes) : b'.Tracked := by
  have hclaims : claims b'.journal = claims b.journal ++ [⟨b.tickets, batch⟩] := by
    rw [hj, claims_append]
    rfl
  have hland : ∀ ticket, hasLanded b'.journal ticket = hasLanded b.journal ticket := by
    intro ticket
    rw [hj, hasLanded_concat_quiet rfl]
  have hend : ∀ ticket, b'.ending? ticket = b.ending? ticket :=
    fun ticket => b.ending?_concat_quiet b' hj rfl
  refine ⟨?_, ?_, fun _ _ _ => h.handled_concat hj nofun, fun _ => h.landed_concat hj nofun, ?_, ?_⟩
  · rw [hclaims, List.map_append, h.tickets, ht, List.range_succ]
    rfl
  · have hnext : hasLanded b'.journal b.tickets = false := by rw [hland, h.next_not_landed]
    rw [hf, h.flights, aloft, aloft, hclaims, List.filter_append]
    congr 1
    · exact List.filter_congr fun f _ => by rw [hland]
    · simp [hnext]
  · intro ticket
    rw [hland, hend]
    exact h.ended ticket
  · intro ticket
    rw [ho, hland, hend]
    exact h.outcomes ticket

theorem concat_handled (h : b.Tracked) {b' : Books} {flight : Flight} {ending : Ending}
    {failure : Option StorageError} (hm : flight ∈ b.flights)
    (hn : b.ending? flight.ticket = none)
    (hj : b'.journal = b.journal ++ [.handled flight ending failure])
    (ht : b'.tickets = b.tickets) (hf : b'.flights = b.flights)
    (ho : b'.outcomes = b.outcomes) : b'.Tracked := by
  have hclaims : claims b'.journal = claims b.journal := by rw [hj, claims_concat_quiet rfl]
  have hland : ∀ ticket, hasLanded b'.journal ticket = hasLanded b.journal ticket := by
    intro ticket
    rw [hj, hasLanded_concat_quiet rfl]
  have hend : ∀ ticket e, b.ending? ticket = some e → b'.ending? ticket = some e := by
    intro ticket e he
    rw [b.ending?_concat b' hj, he, Option.some_or]
  refine ⟨by rw [hclaims, ht, h.tickets], ?_, fun _ _ _ => h.handled_concat hj ?_,
    fun _ => h.landed_concat hj nofun, ?_, ?_⟩
  · rw [hf, h.flights, aloft, aloft, hclaims]
    exact List.filter_congr fun f _ => by rw [hland]
  · intro _ _ _ hnote
    cases hnote
    exact ⟨h.claimed_of_mem hm, hn⟩
  · intro ticket hl
    rw [hland] at hl
    obtain ⟨e, he⟩ := Option.isSome_iff_exists.1 (h.ended ticket hl)
    rw [hend ticket e he]
    rfl
  · intro ticket
    rw [ho, hland, h.outcomes ticket]
    by_cases hl : hasLanded b.journal ticket = true
    · obtain ⟨e, he⟩ := Option.isSome_iff_exists.1 (h.ended ticket hl)
      rw [if_pos hl, if_pos hl, he, hend ticket e he]
    · rw [if_neg hl, if_neg hl]

theorem concat_landed (h : b.Tracked) {b' : Books} {flight : Flight} {ending : Ending}
    (hm : flight ∈ b.flights) (he : b.ending? flight.ticket = some ending)
    (hj : b'.journal = b.journal ++ [.landed flight]) (ht : b'.tickets = b.tickets)
    (hf : b'.flights = b.flights.filter fun f => f.ticket != flight.ticket)
    (ho : b'.outcomes = (flight.ticket, ending.outcome) :: b.outcomes) : b'.Tracked := by
  have hclaims : claims b'.journal = claims b.journal := by rw [hj, claims_concat_quiet rfl]
  have hland : ∀ ticket, hasLanded b'.journal ticket =
      (hasLanded b.journal ticket || flight.ticket == ticket) := by
    intro ticket
    rw [hj, hasLanded_append]
    simp [hasLanded, Note.lands]
  have hend : ∀ ticket, b'.ending? ticket = b.ending? ticket :=
    fun ticket => b.ending?_concat_quiet b' hj rfl
  refine ⟨by rw [hclaims, ht, h.tickets], ?_, fun _ _ _ => h.handled_concat hj nofun,
    fun _ => h.landed_concat hj ?_, ?_, ?_⟩
  · rw [hf, h.flights, aloft, aloft, hclaims, List.filter_filter]
    refine List.filter_congr fun f _ => ?_
    rw [hland, Bool.not_or, Bool.and_comm, Bool.beq_comm]
    rfl
  · intro _ hnote
    cases hnote
    exact h.claimed_of_mem hm
  · intro ticket hl
    rw [hland, Bool.or_eq_true, beq_iff_eq] at hl
    rw [hend]
    rcases hl with hl | rfl
    · exact h.ended ticket hl
    · rw [he]
      rfl
  · intro ticket
    rw [ho, hland, hend, List.lookup_cons]
    by_cases ht' : ticket = flight.ticket
    · subst ht'
      simp [he]
    · have hne : (ticket == flight.ticket) = false := beq_eq_false_iff_ne.2 ht'
      have hne' : (flight.ticket == ticket) = false := beq_eq_false_iff_ne.2 (Ne.symm ht')
      rw [hne, hne', Bool.or_false]
      exact h.outcomes ticket

end Tracked

end Books

/-- **Every move keeps the records of flights in step with the journal.** -/
theorem tracked_move {b b' : Books} {a : Action} (h : Books.Move b a b') (hb : b.Tracked) :
    b'.Tracked := by
  cases h with
  | quiet => exact hb
  | accept events ha => exact hb.concat_quiet rfl rfl rfl rfl rfl (fun _ => rfl) (fun _ => rfl)
  | delete ids => exact hb.concat_quiet rfl rfl rfl rfl rfl (fun _ => rfl) (fun _ => rfl)
  | clear => exact hb.concat_quiet rfl rfl rfl rfl rfl (fun _ => rfl) (fun _ => rfl)
  | claim exclude batch ha hbatch => exact hb.concat_claimed rfl rfl rfl rfl
  | deliver flight ending hf hn hd => exact hb.concat_handled hf hn rfl rfl rfl rfl
  | retain flight ending failure hf hn hd => exact hb.concat_handled hf hn rfl rfl rfl rfl
  | fail flight ending hf hn hd => exact hb.concat_handled hf hn rfl rfl rfl rfl
  | land flight ending hf he => exact hb.concat_landed hf he rfl rfl rfl rfl

theorem tracked_run (settings : Settings) (store : Store) (actions : List Action) :
    ((Course.begin settings store).run actions).books.Tracked := by
  refine Course.run_books (P := Books.Tracked) tracked_move ?_ actions
  refine ⟨rfl, rfl, ?_, ?_, ?_, fun _ => rfl⟩
  · intro flight ending failure hm
    cases List.mem_singleton.1 hm
  · intro flight hm
    cases List.mem_singleton.1 hm
  · intro ticket hl
    cases hl

theorem Course.Reached.tracked {c : Course} (h : c.Reached) : c.books.Tracked := by
  obtain ⟨settings, store, actions, rfl⟩ := h
  exact tracked_run settings store actions

end EventRelay.Queue
