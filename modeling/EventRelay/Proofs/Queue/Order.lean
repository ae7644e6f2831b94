import EventRelay.Proofs.Queue.Chunks
import EventRelay.Proofs.Queue.Interference
import EventRelay.Proofs.Queue.SingleDelivery
import Mathlib.Data.List.Perm.Subperm

/-!
# The order of dispatch

Events are stored in the order of acceptance, and a claim takes the first ones that it may.  Whether
batches then go out in that order depends on what the claim has to pass over: events in flight, and,
for a flush, events that it has attempted.

* `undelivered` — the accepted events that were not delivered, oldest first; as long as only
  deliveries remove events, this is what the store holds (`events_eq_undelivered`).
* `Course.claimed_by` — who claims a batch, with what, and past what.
* `claimable_eq_drop` — as long as nothing has failed, everything that was dispatched is in flight or
  delivered, so that **the next claim starts where the last one ended**.
* `dispatched_prefix_run` — so the dispatched batches are the first events that were accepted.
-/

namespace EventRelay.Queue

/-! ## Reading the journal -/

/-- The events of the batches dispatched so far, in the order of dispatch. -/
def dispatched (journal : List Note) : List Event :=
  (claims journal).flatMap fun f => f.batch.events

/-- The events delivered so far, in the order of delivery. -/
def deliveredEvents (journal : List Note) : List Event :=
  (deliveries journal).flatMap Batch.events

/-- The accepted events that were not delivered, oldest first. -/
def undelivered (journal : List Note) : List Event :=
  (accepted journal).filter fun e => !(deliveredIds journal).contains e.id

/-- Has the call for a batch failed? -/
def Note.fails : Note → Bool
  | .handled _ ending _ => !ending.delivers
  | _ => false

theorem dispatched_append (as bs : List Note) :
    dispatched (as ++ bs) = dispatched as ++ dispatched bs := by
  simp [dispatched, claims_append]

theorem dispatched_concat_quiet {note : Note} (h : note.claims? = none) (journal : List Note) :
    dispatched (journal ++ [note]) = dispatched journal := by
  simp [dispatched, claims_concat_quiet h]

theorem accepted_extends (as bs : List Note) : accepted as <+: accepted (as ++ bs) := by
  rw [accepted_append]
  exact List.prefix_append _ _

theorem map_id_deliveredEvents (journal : List Note) :
    (deliveredEvents journal).map Event.id = deliveredIds journal := by
  rw [deliveredEvents, deliveredIds, List.map_flatMap]
  rfl

theorem mem_dispatched_ids {journal : List Note} {id : EventId} :
    id ∈ (dispatched journal).map Event.id ↔ ∃ f ∈ claims journal, id ∈ f.batch.ids := by
  simp only [dispatched, Batch.ids, List.map_flatMap, List.mem_flatMap]

/-! ## Journals in which only deliveries remove events -/

/-- Delivered batches were removed, no id was accepted twice, and nothing was removed directly. -/
def Untouched (journal : List Note) : Prop :=
  Undisturbed journal ∧ ∀ note ∈ journal, note.isDirectRemoval = false

theorem Untouched.of_append {as bs : List Note} (h : Untouched (as ++ bs)) : Untouched as :=
  ⟨h.1.of_append, fun note hn => h.2 note (List.mem_append_left _ hn)⟩

/-- The store holds the accepted events that were not delivered. -/
theorem events_eq_undelivered {b : Books} (hs : b.Stored) (hone : b.Singular)
    (hu : Untouched b.journal) : b.events = undelivered b.journal := by
  have hsub : b.events.Sublist (accepted b.journal) := by
    rw [show b.events = pending b.journal from hs]
    exact pending_sublist b.journal
  have hpart : b.events.Sublist (undelivered b.journal) := by
    have hfilter := hsub.filter fun e => !(deliveredIds b.journal).contains e.id
    have hall : b.events.filter (fun e => !(deliveredIds b.journal).contains e.id) = b.events := by
      refine List.filter_eq_self.2 fun e he => ?_
      simpa using hone.gone e he
    rwa [hall] at hfilter
  refine hpart.eq_of_length_le ?_
  have hnd : (undelivered b.journal).Nodup := (List.Nodup.of_map _ hu.1.2).filter _
  refine (List.subperm_of_subset hnd fun e he => ?_).length_le
  obtain ⟨hacc, hnot⟩ := List.mem_filter.1 he
  rcases stored_or_delivered hs hu.2 hacc with hm | hm
  · exact hm
  · simp [hm] at hnot

theorem Course.Reached.events_eq_undelivered {c : Course} (h : c.Reached)
    (hu : Untouched c.journal) : c.queue.store.events = undelivered c.journal := by
  obtain ⟨settings, store, actions, rfl⟩ := h
  exact Queue.events_eq_undelivered (stored_run settings store actions)
    (singular_run settings store actions hu.1) hu

theorem Course.journal_act (c : Course) (a : Action) :
    ∃ later, (c.act a).journal = c.journal ++ later := by
  obtain ⟨later, hlater⟩ := journal_extends (c.move_act a)
  exact ⟨later, hlater.symm⟩

/-! ## Who claims, and past what -/

/-- A dispatch that sends a batch had a usable transport and a free permit, and took what can be
claimed. -/
theorem dispatch_sent {q : Queue} {usable : Bool} {flight : Flight}
    (h : (q.dispatch usable).1 = .sent flight) :
    usable = true ∧ 1 ≤ q.free ∧ q.claimable [] = .ok flight.batch.events := by
  rcases q.dispatch_cases usable with ⟨-, hq⟩ | ⟨-, -, hq⟩ | ⟨free, husable, hfree, hq⟩
  · rw [hq] at h
    cases h
  · rw [hq] at h
    cases h
  · have hpos : 1 ≤ q.free := by omega
    rw [hq] at h
    rcases ({ q with free } : Queue).claim_cases [] with ⟨e, -, hc⟩ | ⟨-, hc⟩ | ⟨batch, hb, hc⟩
    · rw [hc] at h
      cases h
    · rw [hc] at h
      cases h
    · rw [hc] at h
      cases h
      exact ⟨husable, hpos, hb⟩

theorem Dispatch.sent_of_notes {d : Dispatch} {flight : Flight} (h : d.notes = [.claimed flight]) :
    d = .sent flight := by
  cases d with
  | sent g =>
    cases h
    rfl
  | _ => cases h

theorem mayClaim_of_claimed {b b' : Books} {a : Action} {flight : Flight} (h : Books.Move b a b')
    (hj : b'.journal = b.journal ++ [.claimed flight]) : a.mayClaim = true := by
  cases h with
  | quiet =>
    have hlen := congrArg List.length hj
    simp at hlen
  | claim exclude batch ha hb => exact ha
  | _ =>
    have hnote := List.append_cancel_left hj
    cases hnote

/-- **Who claims a batch.**  The runner or a dispatch by hand, with a usable transport and a permit
that was free, and past the events in flight only; or a flush with the permit that it holds, past what
it has attempted as well. -/
theorem Course.claimed_by {c : Course} {a : Action} {flight : Flight}
    (hj : (c.act a).journal = c.journal ++ [.claimed flight]) :
    (c.usable = true ∧ 1 ≤ c.queue.free ∧ flight.batch.events = c.books.claimable []) ∨
    ∃ id f, a = .flushStep id ∧ c.queue.flushes[id]? = some f ∧ f.stage = .holding ∧
      flight.batch.events = c.books.claimable f.attempted := by
  have hdispatch : (c.queue.dispatch c.usable).1.notes = [.claimed flight] →
      c.usable = true ∧ 1 ≤ c.queue.free ∧ flight.batch.events = c.books.claimable [] := by
    intro hn
    obtain ⟨husable, hfree, hb⟩ := dispatch_sent (Dispatch.sent_of_notes hn)
    exact ⟨husable, hfree, claimable_ok c.journal hb⟩
  have hmay := mayClaim_of_claimed (c.move_act a) hj
  rcases c.act_cases a with hact | hact
  · cases a with
    | tick runner now =>
      obtain ⟨-, hc'⟩ := act?_tick hact
      rw [hc'] at hj
      exact Or.inl (hdispatch (List.append_cancel_left hj))
    | dispatch => exact Or.inl (hdispatch (List.append_cancel_left hj))
    | flushStep id =>
      obtain ⟨f, p, q₀, g, hf, hm, hc'⟩ := act?_flushStep hact
      rw [hc'] at hj
      have hp : p.notes = [.claimed flight] := List.append_cancel_left hj
      cases hm with
      | claim batch hs hb =>
        cases hp
        exact Or.inr ⟨id, f, rfl, hf, hs, claimable_ok c.journal hb⟩
      | _ => cases hp
    | _ => cases hmay
  · rw [hact] at hj
    have hlen := congrArg List.length hj
    simp at hlen

/-- What a flush has attempted was dispatched. -/
theorem Course.Reached.dispatched_of_attempted {c : Course} (h : c.Reached) {f : Flush}
    (hf : f ∈ c.queue.flushes) {id : EventId} (hid : id ∈ f.attempted) :
    id ∈ (dispatched c.journal).map Event.id := by
  obtain ⟨settings, store, actions, rfl⟩ := h
  obtain ⟨i, hi⟩ := List.mem_iff_getElem?.1 hf
  have hsent := sentBy_run settings store i actions
  rw [Course.sentBy_of_getElem? hi] at hsent
  obtain ⟨s, hs, hid⟩ := List.mem_flatMap.1 hid
  rw [hsent] at hs
  obtain ⟨l, hl, rfl⟩ := List.mem_map.1 hs
  exact mem_dispatched_ids.2 ⟨l.flight, launches_claimed settings store _ actions l hl, hid⟩

/-! ## As long as nothing has failed -/

/-- What was delivered was dispatched. -/
theorem dispatched_of_delivered {b : Books} (ht : b.Tracked) {id : EventId}
    (hid : id ∈ deliveredIds b.journal) : id ∈ (dispatched b.journal).map Event.id := by
  obtain ⟨batch, hb, hid⟩ := List.mem_flatMap.1 hid
  obtain ⟨note, hn, hd⟩ := List.mem_filterMap.1 hb
  cases note with
  | handled f ending failure =>
    simp only [Note.delivered?] at hd
    split at hd
    · cases hd
      exact mem_dispatched_ids.2 ⟨f, (ht.handled f ending failure hn).1, hid⟩
    · cases hd
  | _ => cases hd

/-- What was dispatched is in flight or delivered, unless something has failed. -/
theorem processing_or_delivered {b : Books} (ht : b.Tracked) (hx : b.Exclusive)
    (hok : ∀ note ∈ b.journal, note.fails = false) {id : EventId}
    (hid : id ∈ (dispatched b.journal).map Event.id) :
    id ∈ b.processing ∨ id ∈ deliveredIds b.journal := by
  obtain ⟨f, hf, hid⟩ := mem_dispatched_ids.1 hid
  by_cases hl : hasLanded b.journal f.ticket = true
  · refine Or.inr ?_
    obtain ⟨ending, he⟩ := Option.isSome_iff_exists.1 (ht.ended f.ticket hl)
    obtain ⟨note, hn, he⟩ := List.exists_of_findSome?_eq_some he
    cases note with
    | handled g ending' failure =>
      simp only [Note.ending?] at he
      split at he
      · rename_i hticket
        have hgf : g = f := ht.eq_of_ticket (ht.handled g ending' failure hn).1 hf hticket
        have hd : ending'.delivers = true := by simpa [Note.fails] using hok _ hn
        rw [← hgf] at hid
        exact mem_deliveredIds hn hd hid
      · cases he
    | _ => cases he
  · exact Or.inl ((hx.processing id).2 ⟨f, ht.mem_flights.2 ⟨hf, Bool.eq_false_iff.2 hl⟩, hid⟩)

/-- **The next claim starts where the last one ended**, if nothing has failed and the claim passes
over nothing else but what was dispatched. -/
theorem claimable_eq_drop {b : Books} (ht : b.Tracked) (hx : b.Exclusive)
    (hevents : b.events = undelivered b.journal) (hu : Untouched b.journal)
    (hok : ∀ note ∈ b.journal, note.fails = false) {exclude : List EventId}
    (hex : ∀ id ∈ exclude, id ∈ (dispatched b.journal).map Event.id)
    (hpre : dispatched b.journal <+: accepted b.journal) :
    b.claimable exclude =
      ((accepted b.journal).drop (dispatched b.journal).length).take b.settings.batchSize := by
  have htake := List.prefix_iff_eq_take.1 hpre
  have hkeep : b.events.filter (fun e => !b.processing.contains e.id && !exclude.contains e.id) =
      (accepted b.journal).filter fun e =>
        !((dispatched b.journal).map Event.id).contains e.id := by
    rw [hevents, undelivered, List.filter_filter]
    refine List.filter_congr fun e _ => ?_
    rw [Bool.eq_iff_iff]
    simp only [Bool.and_eq_true, Bool.not_eq_true', ← Bool.not_eq_true, List.contains_iff_mem]
    constructor
    · rintro ⟨⟨hp, -⟩, hdel⟩ hd
      exact (processing_or_delivered ht hx hok hd).elim hp hdel
    · intro hd
      refine ⟨⟨fun hp => hd ?_, fun he => hd (hex _ he)⟩, fun hdel => hd ?_⟩
      · obtain ⟨f, hf, hid⟩ := (hx.processing _).1 hp
        exact mem_dispatched_ids.2 ⟨f, ht.claimed_of_mem hf, hid⟩
      · exact dispatched_of_delivered ht hdel
  have hdrop : (accepted b.journal).filter (fun e =>
        !(((accepted b.journal).take (dispatched b.journal).length).map Event.id).contains e.id) =
      (accepted b.journal).drop (dispatched b.journal).length :=
    filter_not_take hu.1.2 (dispatched b.journal).length
  rw [← htake] at hdrop
  rw [Books.claimable, Store.select, hkeep, hdrop]

/-- One more action keeps the order. -/
theorem dispatched_prefix_act {c : Course} (hr : c.Reached) (a : Action)
    (hu : Untouched (c.act a).journal) (hok : ∀ note ∈ (c.act a).journal, note.fails = false)
    (hpre : dispatched c.journal <+: accepted c.journal) :
    dispatched (c.act a).journal <+: accepted (c.act a).journal := by
  obtain ⟨later, hlater⟩ := c.journal_act a
  rw [hlater] at hu hok
  have hu₀ : Untouched c.journal := hu.of_append
  have hok₀ : ∀ note ∈ c.journal, note.fails = false :=
    fun note hn => hok note (List.mem_append_left _ hn)
  have hmove := c.move_act a
  generalize hb : (c.act a).books = b' at hmove
  have hjournal : (c.act a).journal = b'.journal := by
    rw [← hb]
    rfl
  cases hmove with
  | quiet =>
    rw [hjournal]
    exact hpre
  | claim exclude batch ha hbatch =>
    have hclaim : (c.act a).journal = c.journal ++ [.claimed ⟨c.books.tickets, batch⟩] := hjournal
    have hevents := hr.events_eq_undelivered hu₀
    -- whoever claims passes over nothing but what was dispatched
    have hnext : batch.events =
        ((accepted c.journal).drop (dispatched c.journal).length).take c.books.settings.batchSize := by
      rcases Course.claimed_by hclaim with ⟨-, -, hb⟩ | ⟨_, f, -, hf, -, hb⟩
      · exact hb.trans (claimable_eq_drop hr.tracked hr.exclusive hevents hu₀ hok₀ nofun hpre)
      · exact hb.trans (claimable_eq_drop hr.tracked hr.exclusive hevents hu₀ hok₀
          (fun id hid => hr.dispatched_of_attempted (List.mem_of_getElem? hf) hid) hpre)
    have hmore : dispatched (c.act a).journal = (accepted c.journal).take
        ((dispatched c.journal).length + c.books.settings.batchSize) := by
      rw [List.take_add, ← hnext, ← List.prefix_iff_eq_take.1 hpre, hclaim, dispatched_append]
      simp [dispatched, claims, Note.claims?]
    rw [hmore, hclaim]
    exact (List.take_prefix _ _).trans (accepted_extends _ _)
  | _ =>
    rw [hjournal, dispatched_concat_quiet rfl]
    exact hpre.trans (accepted_extends _ _)

theorem dispatched_prefix_run (settings : Settings) (store : Store) (actions : List Action)
    (hu : Untouched ((Course.begin settings store).run actions).journal)
    (hok : ∀ note ∈ ((Course.begin settings store).run actions).journal, note.fails = false) :
    dispatched ((Course.begin settings store).run actions).journal <+:
      accepted ((Course.begin settings store).run actions).journal := by
  refine Course.run_induction (P := fun c => Untouched c.journal →
    (∀ note ∈ c.journal, note.fails = false) → dispatched c.journal <+: accepted c.journal)
    ?_ ?_ actions hu hok
  · intro _ _
    exact List.nil_prefix
  · intro before a ih hu hok
    obtain ⟨later, hlater⟩ := Course.journal_act ((Course.begin settings store).run before) a
    refine dispatched_prefix_act ⟨settings, store, before, rfl⟩ a hu hok (ih ?_ ?_)
    · rw [hlater] at hu
      exact hu.of_append
    · intro note hn
      refine hok note ?_
      rw [hlater]
      exact List.mem_append_left _ hn

end EventRelay.Queue
