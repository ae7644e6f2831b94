import EventRelay.Proofs.Command.Handover

/-!
# What is printed about a flush

`queue flush` and `track` print a line with four numbers.

* `Report.flush_inj` — **the numbers can be read back from the line.**
* `flushLine?`, `trackLines?` — the line, and what `track` prints, as far as they can be computed in
  some number of turns; `flushWorld_of_flushLine?`, `trackInWorld_of_trackLines?` — what they compute is
  what is printed.
-/

namespace EventRelay.Command

open Run

/-! ## Reading numbers -/

/-- The word does not begin with a digit, so that a number in front of it ends there. -/
def EndsNumber (word : String) : Prop :=
  (word.toList.head?.any fun c => !c.isDigit) = true

instance (word : String) : Decidable (EndsNumber word) :=
  inferInstanceAs (Decidable (_ = true))

/-- A number in front of a word is as long as there are digits. -/
theorem takeWhile_toString_append (n : Nat) {word : String} (hword : EndsNumber word) (s : String) :
    (toString n ++ (word ++ s)).toList.takeWhile Char.isDigit = Nat.toDigits 10 n := by
  have hnumber : (toString n).toList = Nat.toDigits 10 n := by
    rw [Nat.toString_eq_ofList_toDigits, String.toList_ofList]
  have hdigits : ∀ c ∈ Nat.toDigits 10 n, c.isDigit = true :=
    fun c hc => Nat.isDigit_of_mem_toDigits (by decide) (by decide) hc
  obtain ⟨c, hhead, hc⟩ := (Option.any_eq_true _ _).1 hword
  obtain ⟨cs, hcs⟩ := List.head?_eq_some_iff.1 hhead
  rw [String.toList_append, String.toList_append, hnumber, hcs, List.takeWhile_append_of_pos hdigits,
    List.cons_append, List.takeWhile_cons_of_neg (by simpa using hc), List.append_nil]

/-- A number can be read off the beginning of a text. -/
theorem toString_append_inj {m n : Nat} {word s t : String} (hword : EndsNumber word)
    (h : toString m ++ (word ++ s) = toString n ++ (word ++ t)) : m = n ∧ s = t := by
  have hdigits : Nat.toDigits 10 m = Nat.toDigits 10 n := by
    rw [← takeWhile_toString_append m hword s, h, takeWhile_toString_append n hword t]
  obtain rfl : m = n := by
    rw [← Nat.ofDigitChars_ten_toDigits (n := m), hdigits, Nat.ofDigitChars_ten_toDigits]
  exact ⟨rfl, (String.append_right_inj _).1 ((String.append_right_inj _).1 h)⟩

/-- The line about a flush, number by number. -/
theorem Report.flush_eq (r : Queue.Report) (n : Nat) :
    flush r n = "Flushed " ++ (toString r.batches ++ (" batch(es): " ++ (toString r.delivered ++
      (" delivered, " ++ (toString r.failed ++ (" failed, " ++ (toString n ++
        (" remaining" ++ "")))))))) := by
  show s!"Flushed {r.batches} batch(es): {r.delivered} delivered, {r.failed} failed, {n} remaining" = _
  simp only [String.append_assoc]
  rfl

/-- **What is printed about a flush says what was counted.** -/
theorem Report.flush_inj {r r' : Queue.Report} {n n' : Nat} (h : flush r n = flush r' n') :
    r = r' ∧ n = n' := by
  obtain ⟨batches, delivered, failed⟩ := r
  obtain ⟨batches', delivered', failed'⟩ := r'
  rw [flush_eq, flush_eq] at h
  have hbatches := toString_append_inj (by decide) ((String.append_right_inj _).1 h)
  have hdelivered := toString_append_inj (by decide) hbatches.2
  have hfailed := toString_append_inj (by decide) hdelivered.2
  have hremaining := toString_append_inj (by decide) hfailed.2
  rw [Queue.Report.mk.injEq]
  exact ⟨⟨hbatches.1, hdelivered.1, hfailed.1⟩, hremaining.1⟩

/-! ## Computing what is printed -/

/-- What is printed about a flush of the queue of a world, if it is over within `n` turns. -/
def flushLine? (n : Nat) (w : World) : Option String :=
  let (id, w) := w.callFlush 0
  match World.awaitFor n true w (.flush 0 id) with
  | some (some (.flushed report), w) => some (Report.flush report (remaining w))
  | _ => none

theorem flushWorld_of_flushLine? {n : Nat} {w : World} {line : String}
    (h : flushLine? n w = some line) : (flushWorld w).1 = .ok line := by
  rw [flushLine?] at h
  dsimp only at h
  split at h
  · rename_i report w' hends
    cases h
    simp only [flushWorld, World.flush, (World.reaches_of_awaitFor hends).run]
  · cases h

/-- What is printed about an event that a tracker hands over, and about the flush after that, if each
of them is over within `n` turns. -/
def trackLines? (n : Nat) (t : Tracker) (w : World) (e : Event) : Option String :=
  match World.awaitFor n true w (.talk (.ofDialogue (.pause (.ms 0) (t.sending e)))) with
  | some (some (.ended (.ok ())), w) =>
    (flushLine? n w).map fun line => Report.tracked e ++ "\n" ++ line
  | _ => none

theorem trackInWorld_of_trackLines? {t : Tracker} {delivery : Transport}
    (ht : t.transport = .group [.queued 0 delivery, .debug]) (hactive : t.active = true) {n : Nat}
    {w : World} {id : EventId} {time : UInt64} {eventType : String} {locations globals : List Context}
    {text : String}
    (h : trackLines? n t (w.stopRunner 0) (t.eventOf (draftOf eventType locations globals) id time) =
      some text) :
    (trackInWorld t true w id time (draftOf eventType locations globals)).1 = .ok text := by
  rw [trackLines?] at h
  split at h
  · rename_i w' hends
    obtain ⟨line, hline, rfl⟩ := Option.map_eq_some_iff.1 h
    have hflush := flushWorld_of_flushLine? hline
    simp only [trackInWorld, if_true, World.track, track_active ht hactive, resolving_draftOf,
      World.talk, (World.reaches_of_awaitFor hends).run]
    split
    · rename_i report w'' heq
      rw [heq] at hflush
      cases hflush
      rfl
    · rename_i e w'' heq
      rw [heq] at hflush
      cases hflush
  · cases h

end EventRelay.Command
