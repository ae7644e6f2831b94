import EventRelay.Text.Table
import Mathlib.Data.List.SplitBy

/-!
# Tables read back

A drawn table is only text.  What it says is recovered from the lines of that text alone: those with a
border below the rule under the heading belong to rows, and a line that is blank where the first column
begins goes on with the row before it.

* `Text.split_intercalate` — lines that are joined are found again.
* `Text.Table.rowsOf` — the reader; `Text.Table.rowsOf_render` — **the rows of a table are read back**,
  in order and no other, if the first cell of each row is a word.
-/

namespace EventRelay.Text

/-! ## Texts in parts -/

theorem splitChars_eq_splitOn (separator : Char) (cs : List Char) :
    splitChars separator cs = cs.splitOn separator := by
  induction cs with
  | nil => rfl
  | cons c cs ih =>
    rw [splitChars, ih, List.splitOn_eq_splitOnP, List.splitOn_eq_splitOnP,
      List.splitOnP_cons_eq_if_modifyHead]
    by_cases hc : c = separator
    · rw [if_pos hc, if_pos (beq_iff_eq.2 hc)]
    · rw [if_neg hc, if_neg (mt beq_iff_eq.1 hc)]
      cases h : List.splitOnP (· == separator) cs with
      | nil => exact absurd h (List.splitOnP_ne_nil _ _)
      | cons part parts => rfl

/-- No part holds the separator. -/
theorem not_mem_of_mem_splitChars {separator : Char} {cs part : List Char}
    (h : part ∈ splitChars separator cs) : separator ∉ part := by
  induction cs generalizing part with
  | nil =>
    cases List.mem_singleton.1 h
    exact List.not_mem_nil
  | cons c cs ih =>
    rw [splitChars] at h
    by_cases hc : c = separator
    · rw [if_pos hc, List.mem_cons] at h
      rcases h with rfl | h
      · exact List.not_mem_nil
      · exact ih h
    · rw [if_neg hc] at h
      cases hparts : splitChars separator cs with
      | nil => exact absurd hparts (splitChars_eq_splitOn separator cs ▸ List.splitOn_ne_nil _ _)
      | cons first parts =>
        simp only [hparts, List.mem_cons] at h ih
        rcases h with rfl | h
        · exact List.not_mem_cons_of_ne_of_not_mem (Ne.symm hc) (ih (.inl rfl))
        · exact ih (.inr h)

theorem not_mem_of_mem_split {separator : Char} {s part : String} (h : part ∈ split separator s) :
    separator ∉ part.toList := by
  obtain ⟨cs, hcs, rfl⟩ := List.mem_map.1 h
  rw [String.toList_ofList]
  exact not_mem_of_mem_splitChars hcs

theorem split_of_not_mem {separator : Char} {s : String} (h : separator ∉ s.toList) :
    split separator s = [s] := by
  have hone : s.toList.splitOn separator = [s.toList] := by
    rw [List.splitOn_eq_splitOnP]
    exact List.splitOnP_eq_singleton fun c hc => by simpa using ne_of_mem_of_not_mem hc h
  rw [split, splitChars_eq_splitOn, hone, List.map_singleton, String.ofList_toList]

theorem split_append (a b : String) :
    split '\n' (a ++ "\n" ++ b) = split '\n' a ++ split '\n' b := by
  have hchars : (a ++ "\n" ++ b).toList = a.toList ++ '\n' :: b.toList := by simp
  rw [split, hchars, splitChars_eq_splitOn, List.splitOn_eq_splitOnP,
    List.splitOnP_append_cons _ _ (by simp), List.map_append, split, split]
  simp only [splitChars_eq_splitOn, List.splitOn_eq_splitOnP]

/-! ## Single lines -/

/-- A text without a line break. -/
def OneLine (s : String) : Prop :=
  '\n' ∉ s.toList

instance (s : String) : Decidable (OneLine s) :=
  inferInstanceAs (Decidable ('\n' ∉ s.toList))

@[simp]
theorem oneLine_append {a b : String} : OneLine (a ++ b) ↔ OneLine a ∧ OneLine b := by
  simp [OneLine]

@[simp]
theorem toList_pushn (s : String) (c : Char) (n : Nat) :
    (s.pushn c n).toList = s.toList ++ List.replicate n c := by
  induction n with
  | zero => exact (List.append_nil _).symm
  | succ n ih =>
    have hpush : s.pushn c (n + 1) = (s.pushn c n).push c := rfl
    rw [hpush, String.toList_push, ih, List.replicate_succ', List.append_assoc]

theorem oneLine_pushn {s : String} {c : Char} {n : Nat} (h : OneLine s) (hc : c ≠ '\n') :
    OneLine (s.pushn c n) := by
  rw [OneLine, toList_pushn, List.mem_append, not_or]
  exact ⟨h, fun hmem => hc (List.eq_of_mem_replicate hmem).symm⟩

theorem oneLine_intercalate {separator : String} {ls : List String} (hseparator : OneLine separator)
    (h : ∀ l ∈ ls, OneLine l) : OneLine (separator.intercalate ls) := by
  induction ls with
  | nil => exact List.not_mem_nil
  | cons l ls ih =>
    have hfirst := h l List.mem_cons_self
    by_cases hrest : ls = []
    · rwa [hrest, String.intercalate_singleton]
    · rw [String.intercalate_cons_of_ne_nil hrest, oneLine_append, oneLine_append]
      exact ⟨⟨hfirst, hseparator⟩, ih fun l' hl' => h l' (List.mem_cons_of_mem _ hl')⟩

/-- **Lines that are joined are found again.** -/
theorem split_intercalate {ls : List String} (hne : ls ≠ []) (h : ∀ l ∈ ls, OneLine l) :
    split '\n' ("\n".intercalate ls) = ls := by
  induction ls with
  | nil => exact absurd rfl hne
  | cons l ls ih =>
    have hfirst := split_of_not_mem (h l List.mem_cons_self)
    by_cases hrest : ls = []
    · rw [hrest, String.intercalate_singleton, hfirst]
    · rw [String.intercalate_cons_of_ne_nil hrest, split_append, hfirst,
        ih hrest fun l' hl' => h l' (List.mem_cons_of_mem _ hl')]
      rfl

namespace Table

/-! ## The lines of a table -/

variable {ws : List Nat}

theorem oneLine_of_mem_cellLines {cell line : String} (h : line ∈ cellLines cell) : OneLine line :=
  not_mem_of_mem_split h

theorem oneLine_padTo {width : Nat} {cell : String} (h : OneLine cell) :
    OneLine (padTo width cell) := by
  rw [padTo, oneLine_append, oneLine_append]
  exact ⟨⟨by decide, oneLine_pushn h (by decide)⟩, by decide⟩

theorem oneLine_acrossLine {cells : List String} (h : ∀ cell ∈ cells, OneLine cell) :
    OneLine (acrossLine ws cells) := by
  rw [acrossLine, oneLine_append, oneLine_append]
  refine ⟨⟨by decide, oneLine_intercalate (by decide) ?_⟩, by decide⟩
  intro l hl
  obtain ⟨⟨w, cell⟩, hmem, rfl⟩ := List.mem_map.1 hl
  exact oneLine_padTo (h cell (List.of_mem_zip hmem).2)

theorem oneLine_rule {left right : String} {middle : Char} (hleft : OneLine left)
    (hmiddle : middle ≠ '\n') (hright : OneLine right) : OneLine (rule ws left middle right) := by
  rw [rule, oneLine_append, oneLine_append]
  exact ⟨⟨hleft, oneLine_pushn (by decide) hmiddle⟩, hright⟩

theorem oneLine_of_mem_rowLines {row : List String} {line : String} (h : line ∈ rowLines ws row) :
    OneLine line := by
  obtain ⟨i, -, rfl⟩ := List.mem_map.1 h
  refine oneLine_acrossLine ?_
  intro part hpart
  obtain ⟨cell, -, rfl⟩ := List.mem_map.1 hpart
  cases hline : (cellLines cell)[i]? with
  | none => exact List.not_mem_nil
  | some line => exact oneLine_of_mem_cellLines (List.mem_of_getElem? hline)

/-- **The lines of a table** are those that it was drawn of, whatever line breaks its cells hold. -/
theorem split_render (heading : List String) (rows : List (List String)) :
    split '\n' (render heading rows) =
      rule (widths (heading :: rows)) "┌" '─' "┐" :: rowLines (widths (heading :: rows)) heading ++
        rule (widths (heading :: rows)) "╞" '═' "╡" ::
          (rows.flatMap (rowLines (widths (heading :: rows))) ++
            [rule (widths (heading :: rows)) "└" '─' "┘"]) := by
  rw [render, split_intercalate (by simp)]
  · simp
  · intro l hl
    simp only [List.mem_append, List.mem_singleton, List.mem_flatMap] at hl
    rcases hl with (((rfl | hl) | rfl) | ⟨row, -, hl⟩) | rfl
    · exact oneLine_rule (by decide) (by decide) (by decide)
    · exact oneLine_of_mem_rowLines hl
    · exact oneLine_rule (by decide) (by decide) (by decide)
    · exact oneLine_of_mem_rowLines hl
    · exact oneLine_rule (by decide) (by decide) (by decide)

/-! ## What a line begins with -/

/-- Does the line begin with a character? -/
def startsWith (c : Char) (line : String) : Bool :=
  line.toList.head? == some c

theorem startsWith_acrossLine (cells : List String) : startsWith '│' (acrossLine ws cells) = true := by
  simp [startsWith, acrossLine]

theorem startsWith_of_mem_rowLines {row : List String} {line : String} (h : line ∈ rowLines ws row) :
    startsWith '│' line = true := by
  obtain ⟨i, -, rfl⟩ := List.mem_map.1 h
  exact startsWith_acrossLine _

theorem startsWith_append {c d : Char} {s t : String} {cs : List Char} (h : s.toList = d :: cs) :
    startsWith c (s ++ t) = (d == c) := by
  simp [startsWith, h]

theorem startsWith_rule {c d : Char} {left right : String} {middle : Char}
    (h : left.toList = [d]) : startsWith c (rule ws left middle right) = (d == c) := by
  rw [rule, String.append_assoc, startsWith_append h]

/-- A line begins with one character only. -/
theorem startsWith_ne {c d : Char} {line : String} (h : startsWith c line = true) (hne : c ≠ d) :
    startsWith d line = false := by
  rw [startsWith, beq_iff_eq] at h
  simp [startsWith, h, hne]

theorem exists_intercalate_cons (separator first : String) (others : List String) :
    ∃ more, separator.intercalate (first :: others) = first ++ more := by
  by_cases hnone : others = []
  · exact ⟨"", by rw [hnone, String.intercalate_singleton, String.append_empty]⟩
  · exact ⟨_, by rw [String.intercalate_cons_of_ne_nil hnone, String.append_assoc]⟩

/-- The first cell of a line stands behind the border and a space, and a space follows it. -/
theorem toList_acrossLine_cons (w : Nat) (ws : List Nat) (cell : String) (cells : List String) :
    ∃ rest, (acrossLine (w :: ws) (cell :: cells)).toList =
      '│' :: ' ' :: (cell.toList ++ ' ' :: rest) := by
  have hpad : (padTo w cell).toList =
      ' ' :: (cell.toList ++ ' ' :: List.replicate (w - columns cell) ' ') := by
    simp [padTo, ← List.replicate_succ', List.replicate_succ]
  rw [acrossLine, List.zip_cons_cons, List.map_cons]
  generalize List.map _ (ws.zip cells) = others
  obtain ⟨more, hmore⟩ := exists_intercalate_cons " " (padTo w cell) others
  refine ⟨List.replicate (w - columns cell) ' ' ++ more.toList ++ ['│'], ?_⟩
  dsimp only
  rw [hmore]
  simp [hpad]

/-- Does the line begin with a border, as the lines of a table do? -/
def isDrawn (line : String) : Bool :=
  startsWith '┌' line || startsWith '│' line || startsWith '╞' line || startsWith '└' line

theorem isDrawn_of_mem_render {heading : List String} {rows : List (List String)} {line : String}
    (h : line ∈ split '\n' (render heading rows)) : isDrawn line = true := by
  have htop : startsWith '┌' (rule (widths (heading :: rows)) "┌" '─' "┐") = true :=
    startsWith_rule (d := '┌') rfl
  have hunder : startsWith '╞' (rule (widths (heading :: rows)) "╞" '═' "╡") = true :=
    startsWith_rule (d := '╞') rfl
  have hclosing : startsWith '└' (rule (widths (heading :: rows)) "└" '─' "┘") = true :=
    startsWith_rule (d := '└') rfl
  rw [split_render] at h
  simp only [List.mem_append, List.mem_cons, List.mem_flatMap, List.not_mem_nil, or_false] at h
  rcases h with (rfl | h) | rfl | ⟨row, -, h⟩ | rfl
  · simp [isDrawn, htop]
  · simp [isDrawn, startsWith_of_mem_rowLines h]
  · simp [isDrawn, hunder]
  · simp [isDrawn, startsWith_of_mem_rowLines h]
  · simp [isDrawn, hclosing]

/-! ## Rows -/

/-- A text that can be recognised as the beginning of a row: it is on one line, and begins with a
character other than a space. -/
structure IsKey (key : String) : Prop where
  /-- It is on one line. -/
  oneLine : OneLine key
  /-- It does not begin with a space. -/
  visible : ∃ c cs, key.toList = c :: cs ∧ c ≠ ' '

/-- Does the line go on with a row: is it blank where the first column begins? -/
def continues (line : String) : Bool :=
  (line.toList.drop 2).head? == some ' '

/-- The text in the first column of a row, of a given length. -/
def keyOf (length : Nat) (row : List String) : List Char :=
  ((row.headD "").toList.drop 2).take length

theorem le_foldl_max (lengths : String → Nat) (row : List String) (n : Nat) :
    n ≤ row.foldl (fun h cell => max h (lengths cell)) n := by
  induction row generalizing n with
  | nil => exact Nat.le_refl n
  | cons cell row ih => exact Nat.le_trans (Nat.le_max_left _ _) (ih _)

/-- The first line of a row holds its key, and the others are blank there. -/
theorem rowLines_cons {key : String} (hkey : OneLine key) (w : Nat) (ws : List Nat) (cells : List String) :
    ∃ firsts more, rowLines (w :: ws) (key :: cells) =
        acrossLine (w :: ws) (key :: firsts) :: more ∧
      ∀ line ∈ more, ∃ others, line = acrossLine (w :: ws) ("" :: others) := by
  have hlines : cellLines key = [key] := split_of_not_mem hkey
  obtain ⟨height, hheight⟩ : ∃ height, (key :: cells).foldl
      (fun h cell => max h (cellLines cell).length) 1 = height + 1 :=
    Nat.exists_eq_add_of_le' (le_foldl_max (fun cell => (cellLines cell).length) _ 1)
  simp only [rowLines, hheight, List.range_succ_eq_map, List.map_cons, hlines]
  refine ⟨_, _, rfl, ?_⟩
  intro line hline
  simp only [List.map_map, List.mem_map, List.mem_range] at hline
  obtain ⟨i, -, rfl⟩ := hline
  exact ⟨_, rfl⟩

/-- A line that a row begins with, and lines that go on with it. -/
def IsBlock (block : List String) : Prop :=
  ∃ first more, block = first :: more ∧ continues first = false ∧ ∀ line ∈ more, continues line = true

theorem continues_of_key {key : String} (hkey : IsKey key) (w : Nat) (cells : List String) :
    continues (acrossLine (w :: ws) (key :: cells)) = false := by
  obtain ⟨c, cs, hchars, hc⟩ := hkey.visible
  obtain ⟨rest, hline⟩ := toList_acrossLine_cons w ws key cells
  simp [continues, hline, hchars, hc]

theorem continues_of_blank (w : Nat) (cells : List String) :
    continues (acrossLine (w :: ws) ("" :: cells)) = true := by
  obtain ⟨rest, hline⟩ := toList_acrossLine_cons w ws "" cells
  simp [continues, hline]

theorem isBlock_rowLines {key : String} (hkey : IsKey key) (w : Nat) (cells : List String) :
    IsBlock (rowLines (w :: ws) (key :: cells)) := by
  obtain ⟨firsts, more, hblock, hmore⟩ := rowLines_cons hkey.oneLine w ws cells
  refine ⟨_, more, hblock, continues_of_key hkey w firsts, ?_⟩
  intro line hline
  obtain ⟨others, rfl⟩ := hmore line hline
  exact continues_of_blank w others

theorem keyOf_rowLines {key : String} (hkey : OneLine key) (w : Nat) (ws : List Nat) (cells : List String) :
    keyOf key.toList.length (rowLines (w :: ws) (key :: cells)) = key.toList := by
  obtain ⟨firsts, more, hblock, -⟩ := rowLines_cons hkey w ws cells
  obtain ⟨rest, hline⟩ := toList_acrossLine_cons w ws key firsts
  rw [keyOf, hblock, List.headD_cons, hline]
  exact List.take_left

/-- Blocks that are put one after another are told apart. -/
theorem splitBy_flatten_blocks {blocks : List (List String)} (h : ∀ b ∈ blocks, IsBlock b) :
    blocks.flatten.splitBy (fun _ line => continues line) = blocks := by
  apply List.splitBy_flatten
  · intro hnil
    obtain ⟨first, more, hblock, -⟩ := h [] hnil
    cases hblock
  · intro b hb
    obtain ⟨first, more, rfl, -, hmore⟩ := h b hb
    have hlater : more.Pairwise fun _ line => continues line = true :=
      List.pairwise_of_forall_mem_list fun _ _ line hline => hmore line hline
    exact (List.pairwise_cons.2 ⟨hmore, hlater⟩).isChain
  · apply List.Pairwise.isChain
    apply List.pairwise_of_forall_mem_list
    intro a ha b hb
    obtain ⟨first, more, rfl, -⟩ := h a ha
    obtain ⟨first', more', rfl, hfirst, -⟩ := h b hb
    exact ⟨List.cons_ne_nil _ _, List.cons_ne_nil _ _, hfirst⟩

/-! ## The reader -/

/-- The lines of the rows in a text: those with a border, below the rule under a heading. -/
def bodyOf (lines : List String) : List String :=
  ((lines.dropWhile fun line => !startsWith '╞' line).drop 1).filter (startsWith '│')

/-- The rows of the table in a text, from the lines of the text. -/
def rowsOf (lines : List String) : List (List String) :=
  (bodyOf lines).splitBy fun _ line => continues line

theorem bodyOf_append {before body after : List String} {under closing : String}
    (hbefore : ∀ line ∈ before, startsWith '╞' line = false) (hunder : startsWith '╞' under = true)
    (hbody : ∀ line ∈ body, startsWith '│' line = true) (hclosing : startsWith '│' closing = false)
    (hafter : ∀ line ∈ after, startsWith '│' line = false) :
    bodyOf (before ++ under :: (body ++ closing :: after)) = body := by
  have hfound : (before ++ under :: (body ++ closing :: after)).dropWhile
      (fun line => !startsWith '╞' line) = under :: (body ++ closing :: after) := by
    rw [List.dropWhile_append_of_pos (by simpa using hbefore),
      List.dropWhile_cons_of_neg (by simp [hunder])]
  have hnone : (closing :: after).filter (startsWith '│') = [] := by
    rw [List.filter_eq_nil_iff]
    simpa [hclosing] using hafter
  rw [bodyOf, hfound, List.drop_one, List.tail_cons, List.filter_append,
    List.filter_eq_self.2 hbody, hnone, List.append_nil]

theorem widths_ne_nil {heading : List String} {rows : List (List String)} (hheading : heading ≠ [])
    (hrows : ∀ row ∈ rows, row ≠ []) : widths (heading :: rows) ≠ [] := by
  rw [widths]
  refine List.foldlRecOn (motive := (· ≠ [])) _ _ (by simpa using hheading) ?_
  intro ws hws row hmem
  have hrow : row ≠ [] := by
    rcases List.mem_cons.1 hmem with rfl | hmem
    · exact hheading
    · exact hrows row hmem
  obtain ⟨w, ws, rfl⟩ := List.exists_cons_of_ne_nil hws
  obtain ⟨cell, row, rfl⟩ := List.exists_cons_of_ne_nil hrow
  exact List.cons_ne_nil _ _

/-- **The rows of a table are read back**, whatever stands around the table, if no line before it looks
like the rule under its heading and no line behind it has a border. -/
theorem rowsOf_render {heading : List String} {rows : List (List String)} (hheading : heading ≠ [])
    (hrows : ∀ row ∈ rows, ∃ key cells, row = key :: cells ∧ IsKey key) {before after : List String}
    (hbefore : ∀ line ∈ before, startsWith '╞' line = false)
    (hafter : ∀ line ∈ after, startsWith '│' line = false) :
    rowsOf (before ++ split '\n' (render heading rows) ++ after) =
      rows.map (rowLines (widths (heading :: rows))) := by
  obtain ⟨w, ws, hwidths⟩ : ∃ w ws, widths (heading :: rows) = w :: ws := by
    refine List.exists_cons_of_ne_nil (widths_ne_nil hheading ?_)
    intro row hrow
    obtain ⟨key, cells, rfl, -⟩ := hrows row hrow
    exact List.cons_ne_nil _ _
  have hblocks : ∀ b ∈ rows.map (rowLines (widths (heading :: rows))), IsBlock b := by
    intro b hb
    obtain ⟨row, hrow, rfl⟩ := List.mem_map.1 hb
    obtain ⟨key, cells, rfl, hkey⟩ := hrows row hrow
    rw [hwidths]
    exact isBlock_rowLines hkey w cells
  have hbody : bodyOf (before ++ split '\n' (render heading rows) ++ after) =
      (rows.map (rowLines (widths (heading :: rows)))).flatten := by
    rw [split_render, ← List.flatMap_def]
    simp only [List.append_assoc, List.cons_append, List.nil_append]
    rw [← List.cons_append, ← List.append_assoc]
    apply bodyOf_append
    · intro line hline
      rcases List.mem_append.1 hline with hline | hline
      · exact hbefore line hline
      · rcases List.mem_cons.1 hline with rfl | hline
        · exact startsWith_rule (d := '┌') rfl
        · exact startsWith_ne (startsWith_of_mem_rowLines hline) (by decide)
    · exact startsWith_rule (d := '╞') rfl
    · intro line hline
      obtain ⟨row, -, hline⟩ := List.mem_flatMap.1 hline
      exact startsWith_of_mem_rowLines hline
    · exact startsWith_rule (d := '└') rfl
    · exact hafter
  rw [rowsOf, hbody, splitBy_flatten_blocks hblocks]

end Table

end EventRelay.Text
