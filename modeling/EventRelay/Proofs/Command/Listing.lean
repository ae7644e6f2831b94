import EventRelay.Proofs.Command.Sessions
import EventRelay.Proofs.Text.Tables

/-!
# What the list of pending events says

The list that is shown and the number of pending events reach the printed text separately.  The text
is read back: its table has one row for each of the first pending events, in order, and no other, and
under the table stands how many are shown if some are left out.

One thing that the text says is wrong: a list that shows nothing calls the queue empty, and it shows
nothing also if it was asked for nothing (`nothing_shown_reads_empty`).
-/

namespace EventRelay

open Text Text.Table

/-! ## Ids -/

namespace EventId

theorem hexChar_visible : ∀ d, d < 16 → Json.hexChar d ≠ ' ' ∧ Json.hexChar d ≠ '\n' := by
  decide

theorem visible_of_mem_hexDigits {count n : Nat} {c : Char} (h : c ∈ hexDigits count n) :
    c ≠ ' ' ∧ c ≠ '\n' := by
  induction count generalizing n with
  | zero => cases h
  | succ count ih =>
    rw [hexDigits, List.mem_append, List.mem_singleton] at h
    rcases h with h | rfl
    · exact ih h
    · exact hexChar_visible _ (Nat.mod_lt _ (by decide))

theorem visible_of_mem_chars {id : EventId} {c : Char} (h : c ∈ id.chars) : c ≠ ' ' ∧ c ≠ '\n' := by
  have hdigits : ∀ c ∈ hexDigits 32 id.toNat, c ≠ ' ' ∧ c ≠ '\n' := fun c => visible_of_mem_hexDigits
  simp only [chars, List.mem_append, List.mem_cons] at h
  rcases h with h | rfl | h | rfl | h | rfl | h | rfl | h
  · exact hdigits c (List.mem_of_mem_take h)
  · decide
  · exact hdigits c (List.mem_of_mem_drop (List.mem_of_mem_take h))
  · decide
  · exact hdigits c (List.mem_of_mem_drop (List.mem_of_mem_take h))
  · decide
  · exact hdigits c (List.mem_of_mem_drop (List.mem_of_mem_take h))
  · decide
  · exact hdigits c (List.mem_of_mem_drop h)

theorem length_chars (id : EventId) : id.chars.length = 36 := by
  simp [chars, length_hexDigits]

/-- A row can be recognised by the id that it begins with. -/
theorem isKey_text (id : EventId) : IsKey id.text := by
  have htext : id.text.toList = id.chars := String.toList_ofList
  constructor
  · intro hmem
    rw [htext] at hmem
    exact (visible_of_mem_chars hmem).2 rfl
  · cases hchars : id.chars with
    | nil => exact absurd (hchars ▸ id.length_chars) (by decide)
    | cons c cs =>
      have hc : c ∈ id.chars := hchars ▸ List.mem_cons_self
      exact ⟨c, cs, htext.trans hchars, (visible_of_mem_chars hc).1⟩

end EventId

/-! ## The text -/

namespace Command

namespace Report

/-- The line about events that are left out. -/
def shownLine (shown pending : Nat) : String :=
  s!"Showing {shown} of {pending} pending event(s)"

theorem shownNote_eq (shown pending : Nat) :
    shownNote shown pending = shownLine shown pending ++ "\n" ++ "" := by
  rw [shownLine, String.append_empty, String.append_assoc]
  rfl

theorem oneLine_toString (n : Nat) : OneLine (toString n) := by
  intro hmem
  have hdigits : '\n' ∈ Nat.toDigits 10 n := by simpa using hmem
  exact absurd (Nat.isDigit_of_mem_toDigits (by decide) (by decide) hdigits) (by decide)

theorem oneLine_shownLine (shown pending : Nat) : OneLine (shownLine shown pending) := by
  simp only [shownLine, oneLine_append]
  refine ⟨⟨⟨⟨?_, oneLine_toString shown⟩, ?_⟩, oneLine_toString pending⟩, ?_⟩ <;> decide

theorem split_heading {title : String} (h : OneLine title) :
    split '\n' (heading title) = [title, "".pushn '-' title.utf8ByteSize] := by
  have hline : OneLine ("".pushn '-' title.utf8ByteSize) := oneLine_pushn (by decide) (by decide)
  rw [heading, split_append, split_of_not_mem h, split_of_not_mem hline]
  rfl

theorem split_heading_append (body : String) :
    split '\n' (heading "Pending events" ++ "\n\n" ++ body) =
      ["Pending events", "--------------", ""] ++ split '\n' body := by
  have hbreaks : heading "Pending events" ++ "\n\n" =
      heading "Pending events" ++ "\n" ++ "" ++ "\n" := by
    rw [String.append_empty, String.append_assoc]
    rfl
  have hblank : split '\n' "" = [""] := by decide
  rw [hbreaks, split_append, split_append, split_heading (by decide), hblank]
  rfl

/-- The lines of a list of no events. -/
theorem lines_list_nil (pending : Nat) :
    split '\n' (list [] pending) =
      ["Pending events", "--------------", "", "Queue is empty.", ""] := by
  have hbody : split '\n' "Queue is empty.\n" = ["Queue is empty.", ""] := by decide
  rw [list, split_heading_append, if_pos List.isEmpty_nil, hbody]
  rfl

/-- The lines of any other list: the title, the table, and perhaps the line about the rest. -/
theorem lines_list {shown : List Event} (hshown : shown ≠ []) (pending : Nat) :
    split '\n' (list shown pending) =
      ["Pending events", "--------------", ""] ++
        split '\n' (render listHeading (shown.map listRow)) ++
        ((if shown.length < pending then [shownLine shown.length pending] else []) ++ [""]) := by
  have hblank : split '\n' "" = [""] := by decide
  rw [list, split_heading_append, if_neg (mt List.isEmpty_iff.1 hshown), split_append,
    List.append_assoc]
  by_cases hfewer : shown.length < pending
  · rw [if_pos hfewer, if_pos hfewer, shownNote_eq, split_append,
      split_of_not_mem (oneLine_shownLine _ _), hblank]
  · rw [if_neg hfewer, if_neg hfewer, hblank, List.nil_append]

/-- The id that a row of the list begins with. -/
def idOf (row : List String) : Option EventId :=
  EventId.ofChars? (keyOf 36 row)

/-- The row of an event, in a list of events. -/
def rowIn (shown : List Event) (e : Event) : List String :=
  rowLines (widths (listHeading :: shown.map listRow)) (listRow e)

theorem idOf_rowIn {shown : List Event} {e : Event} :
    idOf (rowIn shown e) = some e.id := by
  have htext : e.id.text.toList = e.id.chars := String.toList_ofList
  obtain ⟨w, ws, hwidths⟩ : ∃ w ws, widths (listHeading :: shown.map listRow) = w :: ws := by
    refine List.exists_cons_of_ne_nil (widths_ne_nil (by decide) ?_)
    intro row hrow
    obtain ⟨e, -, rfl⟩ := List.mem_map.1 hrow
    exact List.cons_ne_nil _ _
  have hkey : keyOf 36 (rowIn shown e) = e.id.chars := by
    have hread := keyOf_rowLines e.id.isKey_text.oneLine w ws (listRow e).tail
    rwa [htext, e.id.length_chars, ← hwidths] at hread
  rw [idOf, hkey, EventId.ofChars?_chars]

theorem not_mem_table {line : String} (h : isDrawn line = false) (shown : List Event) :
    line ∉ split '\n' (render listHeading (shown.map listRow)) := by
  intro hmem
  rw [isDrawn_of_mem_render hmem] at h
  cases h

theorem toList_shownLine (shown pending : Nat) :
    ∃ rest, (shownLine shown pending).toList = 'S' :: rest := by
  have hbegin : shownLine shown pending = "Showing " ++
      (toString shown ++ " of " ++ toString pending ++ " pending event(s)") := by
    simp only [shownLine, String.append_assoc]
    rfl
  exact ⟨_, by rw [hbegin, String.toList_append]; rfl⟩

/-- The line about events that are left out is no other line of a list. -/
theorem shownLine_ne (shown pending : Nat) {line : String} (h : startsWith 'S' line = false) :
    shownLine shown pending ≠ line := by
  rintro rfl
  obtain ⟨rest, hline⟩ := toList_shownLine shown pending
  simp [startsWith, hline] at h

theorem isDrawn_shownLine (shown pending : Nat) : isDrawn (shownLine shown pending) = false := by
  obtain ⟨rest, hline⟩ := toList_shownLine shown pending
  simp [isDrawn, startsWith, hline]

/-- **The table has a row for each event that is shown**, in order, and no other row. -/
theorem rowsOf_list (shown : List Event) (pending : Nat) :
    rowsOf (split '\n' (list shown pending)) = shown.map (rowIn shown) := by
  by_cases hshown : shown = []
  · rw [hshown, lines_list_nil]
    decide
  · have htop : ∀ line ∈ ["Pending events", "--------------", ""], startsWith '╞' line = false := by
      decide
    have hrows : ∀ row ∈ shown.map listRow, ∃ key cells, row = key :: cells ∧ IsKey key := by
      intro row hrow
      obtain ⟨e, -, rfl⟩ := List.mem_map.1 hrow
      exact ⟨_, _, rfl, e.id.isKey_text⟩
    have hbelow : ∀ line ∈ (if shown.length < pending then [shownLine shown.length pending]
        else []) ++ [""], startsWith '│' line = false := by
      obtain ⟨rest, hline⟩ := toList_shownLine shown.length pending
      by_cases hfewer : shown.length < pending <;> simp [hfewer, startsWith, hline]
    have hheading : listHeading ≠ [] := List.cons_ne_nil _ _
    rw [lines_list hshown, rowsOf_render hheading hrows htop hbelow, List.map_map]
    refine List.map_congr_left fun e _ => ?_
    rw [Function.comp_apply, rowIn]

theorem ids_list (shown : List Event) (pending : Nat) :
    (rowsOf (split '\n' (list shown pending))).map idOf = shown.map fun e => some e.id := by
  rw [rowsOf_list, List.map_map]
  refine List.map_congr_left fun e _ => ?_
  rw [Function.comp_apply, idOf_rowIn]

/-- A list calls the queue empty exactly if it shows nothing. -/
theorem empty_mem_list (shown : List Event) (pending : Nat) :
    "Queue is empty." ∈ split '\n' (list shown pending) ↔ shown = [] := by
  by_cases hshown : shown = []
  · rw [hshown, lines_list_nil]
    decide
  · have hletter : startsWith 'S' "Queue is empty." = false := by decide
    have hundrawn : isDrawn "Queue is empty." = false := by decide
    have hnote := (shownLine_ne shown.length pending hletter).symm
    have htable := not_mem_table hundrawn shown
    rw [lines_list hshown]
    by_cases hfewer : shown.length < pending <;> simp [hfewer, hshown, hnote, htable]

/-- A list says how much it shows exactly if it shows something and leaves something out. -/
theorem shownLine_mem_list (shown : List Event) (pending : Nat) :
    shownLine shown.length pending ∈ split '\n' (list shown pending) ↔
      shown ≠ [] ∧ shown.length < pending := by
  have hother : ∀ line ∈ ["Pending events", "--------------", "", "Queue is empty.", ""],
      shownLine shown.length pending ≠ line := by
    intro line hline
    apply shownLine_ne
    revert line
    decide
  by_cases hshown : shown = []
  · rw [hshown, lines_list_nil]
    simpa [hshown] using hother
  · have htable := not_mem_table (isDrawn_shownLine shown.length pending) shown
    rw [lines_list hshown]
    by_cases hfewer : shown.length < pending
    · simp [hfewer, hshown]
    · have habove : ∀ line ∈ ["Pending events", "--------------", ""],
          shownLine shown.length pending ≠ line :=
        fun line hline => hother line (List.mem_append_left ["Queue is empty.", ""] hline)
      simpa [hfewer, htable] using habove

end Report

/-! ## The command -/

/-- The number of events that a list shows, of a number of pending events. -/
def shownOf (limit : Option Nat) (pending : Nat) : Nat :=
  limit.elim pending fun most => min most pending

theorem shownOf_le (limit : Option Nat) (pending : Nat) : shownOf limit pending ≤ pending := by
  cases limit with
  | none => exact Nat.le_refl _
  | some most => exact Nat.min_le_right _ _

theorem shownOf_eq_zero {limit : Option Nat} {pending : Nat} :
    shownOf limit pending = 0 ↔ pending = 0 ∨ limit = some 0 := by
  cases limit with
  | none => simp [shownOf]
  | some most =>
    simp only [shownOf, Option.elim_some, Option.some.injEq]
    omega

theorem select_take (limit : Option Nat) (events : List Event) :
    Store.select limit (fun _ => true) events = events.take (shownOf limit events.length) := by
  rw [select_true]
  cases limit with
  | none => exact List.take_length.symm
  | some most => exact (List.take_eq_take_iff.2 (by simp [shownOf])).symm

variable {config : Config.Settings} {s : Surroundings} {path : String} {db : Store.Database}
  {slot : Store.Slot}

/-- The list is printed of what the slot holds. -/
theorem execute_list (hplace : config.queue.place? s.place.dataDirectory = some path)
    (hopen : Pipeline.openSlot config s.place path = .ok (db, slot)) (limit : Option Nat)
    (id : EventId) (time : UInt64) :
    (execute config s id time (.queue (.list limit))).1 =
      .ok (Report.list (slot.events.take (shownOf limit slot.events.length)) slot.events.length) := by
  rw [← select_take]
  simp only [execute, runQueue, hplace, hopen]

/-- **What the printed list says.**  Its table has a row for each of the first pending events, in
order, and no other.  It calls the queue empty if nothing is pending, and also if nothing was asked
for; it says how many of the events it shows if some but not all are shown. -/
theorem list_read_back (hplace : config.queue.place? s.place.dataDirectory = some path)
    (hopen : Pipeline.openSlot config s.place path = .ok (db, slot)) (limit : Option Nat)
    (id : EventId) (time : UInt64) :
    ∃ out, (execute config s id time (.queue (.list limit))).1 = .ok out ∧
      let lines := Text.split '\n' out
      let n := slot.events.length
      let k := limit.elim n fun most => min most n
      rowsOf lines = (slot.events.take k).map (Report.rowIn (slot.events.take k)) ∧
      (rowsOf lines).map Report.idOf = (slot.events.take k).map (fun e => some e.id) ∧
      ("Queue is empty." ∈ lines ↔ n = 0 ∨ limit = some 0) ∧
      (Report.shownLine k n ∈ lines ↔ k < n ∧ limit ≠ some 0) := by
  have hlength : (slot.events.take (shownOf limit slot.events.length)).length =
      shownOf limit slot.events.length := by
    rw [List.length_take, Nat.min_eq_left (shownOf_le _ _)]
  have hnone : slot.events.take (shownOf limit slot.events.length) = [] ↔
      slot.events.length = 0 ∨ limit = some 0 := by
    rw [← List.length_eq_zero_iff, hlength, shownOf_eq_zero]
  have hnote := Report.shownLine_mem_list (slot.events.take (shownOf limit slot.events.length))
    slot.events.length
  rw [hlength, Ne, hnone, not_or] at hnote
  refine ⟨_, execute_list hplace hopen limit id time, Report.rowsOf_list _ _, Report.ids_list _ _,
    (Report.empty_mem_list _ _).trans hnone, hnote.trans ?_⟩
  constructor
  · rintro ⟨⟨-, hasked⟩, hfewer⟩
    exact ⟨hfewer, hasked⟩
  · rintro ⟨hfewer, hasked⟩
    exact ⟨⟨Nat.ne_of_gt (Nat.zero_lt_of_lt hfewer), hasked⟩, hfewer⟩

theorem openSlot_shop :
    Pipeline.openSlot shopConfig shop.place "queue" =
      .ok (shop.database "queue", ⟨slotName shopConfig, shopEvents⟩) := by
  rw [serviceable_shop.openSlot, ← serviceable_shop.pending_eq, pending_shop]

/-- Two of three events are listed. -/
theorem list_read_back_shop :
    ∃ out, (execute shopConfig shop (.ofNat 4) 0 (.queue (.list (some 2)))).1 = .ok out ∧
      (rowsOf (Text.split '\n' out)).map Report.idOf = [some (.ofNat 1), some (.ofNat 2)] ∧
      "Queue is empty." ∉ Text.split '\n' out ∧
      Report.shownLine 2 3 ∈ Text.split '\n' out := by
  obtain ⟨out, hout, -, hids, hempty, hnote⟩ :=
    list_read_back serviceable_shop.place openSlot_shop (some 2) (.ofNat 4) 0
  exact ⟨out, hout, hids, mt hempty.1 (by decide), hnote.2 (by decide)⟩

/-- **A list that was asked for nothing calls the queue empty**, and does not say that it leaves
something out, though three events are pending. -/
theorem nothing_shown_reads_empty :
    Pipeline.openSlot shopConfig shop.place "queue" =
      .ok (shop.database "queue", ⟨slotName shopConfig, shopEvents⟩) ∧ shopEvents.length = 3 ∧
    ∃ out, (execute shopConfig shop (.ofNat 4) 0 (.queue (.list (some 0)))).1 = .ok out ∧
      "Queue is empty." ∈ Text.split '\n' out ∧ Report.shownLine 0 3 ∉ Text.split '\n' out := by
  refine ⟨openSlot_shop, rfl, _, execute_list serviceable_shop.place openSlot_shop _ _ _, ?_, ?_⟩
  · exact (Report.empty_mem_list [] 3).2 rfl
  · exact mt (Report.shownLine_mem_list [] 3).1 fun h => h.1 rfl

end Command

end EventRelay
