import EventRelay.Command.Spec

/-!
# Context specs and path segments

A context is typed on the command line as a spec, and shown in a path as a segment.  Reading a spec
cuts it at its first colon and drops the white space around the two parts; rendering the segment puts
a colon between type and id again.

* `Text.Tight`, `Text.trimChars_eq_iff` — what trimming leaves: the part of the text that has no white
  space at its ends and only white space around it.
* `splitColon_eq_some_iff` — a text is cut at its first colon.
* `parseSpec_eq_ok_iff` — **which specs are read, and as which contexts**.
* `parseSpec_segment` — **a segment is read as its context**, if the type has no colon and neither part
  is empty or has white space at its ends.
* `specs_invert_segments` — reading specs and rendering segments are inverse to each other.
-/

namespace EventRelay

/-! ## White space at the ends -/

namespace Text

/-- There is no white space at either end. -/
structure Tight (cs : List Char) : Prop where
  /-- Not in front. -/
  first : ∀ c ∈ cs.head?, isBlank c = false
  /-- Not behind. -/
  last : ∀ c ∈ cs.getLast?, isBlank c = false

variable {cs left mid right : List Char}

/-- Without white space in front there is nothing to drop. -/
theorem trimStart_eq_self (h : ∀ c ∈ cs.head?, isBlank c = false) : trimStart cs = cs := by
  cases cs with
  | nil => rfl
  | cons c cs =>
    rw [trimStart, List.dropWhile_cons, if_neg]
    simp [h c rfl]

/-- What is dropped in front is white space, and there is none in front of the rest. -/
theorem exists_trimStart (cs : List Char) :
    ∃ left, cs = left ++ trimStart cs ∧ (∀ c ∈ left, isBlank c = true) ∧
      ∀ c ∈ (trimStart cs).head?, isBlank c = false := by
  refine ⟨cs.takeWhile isBlank, List.takeWhile_append_dropWhile.symm, ?_, ?_⟩
  · intro c hc
    exact List.all_eq_true.1 List.all_takeWhile c hc
  · intro c hc
    have hhead := List.head?_dropWhile_not isBlank cs
    rw [trimStart] at hc
    rw [Option.mem_def.1 hc] at hhead
    simpa using hhead

/-- White space in front is dropped, whatever follows it. -/
theorem trimStart_append (h : ∀ c ∈ left, isBlank c = true) (cs : List Char) :
    trimStart (left ++ cs) = trimStart cs :=
  List.dropWhile_append_of_pos h

/-- Trimming at the end is trimming in front, read backwards. -/
theorem trimEnd_eq (cs : List Char) : trimEnd cs = (trimStart cs.reverse).reverse :=
  rfl

/-- **What trimming leaves**: the tight part of a text with only white space around it. -/
theorem trimChars_eq_iff :
    trimChars cs = mid ↔
      Tight mid ∧ ∃ left right, cs = left ++ (mid ++ right) ∧ (∀ c ∈ left, isBlank c = true) ∧
        ∀ c ∈ right, isBlank c = true := by
  constructor
  · rintro rfl
    obtain ⟨left, hcs, hleft, hfirst⟩ := exists_trimStart cs
    obtain ⟨right, hrest, hright, hlast⟩ := exists_trimStart (trimStart cs).reverse
    -- the part behind, read forwards again
    have hparts : trimStart cs = trimChars cs ++ right.reverse := by
      rw [trimChars, trimEnd_eq, ← List.reverse_append, ← hrest, List.reverse_reverse]
    refine ⟨⟨?_, ?_⟩, left, right.reverse, ?_, hleft, ?_⟩
    · intro c hc
      apply hfirst
      rw [hparts, List.head?_append, Option.mem_def.1 hc]
      rfl
    · intro c hc
      apply hlast
      rwa [trimChars, trimEnd_eq, List.getLast?_reverse] at hc
    · rw [← hparts]
      exact hcs
    · intro c hc
      exact hright c (List.mem_reverse.1 hc)
  · rintro ⟨htight, left, right, rfl, hleft, hright⟩
    have hright' : ∀ c ∈ right.reverse, isBlank c = true := by
      intro c hc
      exact hright c (List.mem_reverse.1 hc)
    have hend : ∀ cs, trimEnd (cs ++ right) = trimEnd cs := by
      intro cs
      rw [trimEnd_eq, List.reverse_append, trimStart_append hright', trimEnd_eq]
    rw [trimChars, trimStart_append hleft]
    cases mid with
    | nil =>
      have hnone := trimStart_append hright []
      rw [List.append_nil] at hnone
      rw [List.nil_append, hnone]
      rfl
    | cons c mid =>
      have hlast : ∀ d ∈ (c :: mid).reverse.head?, isBlank d = false := by
        rw [List.head?_reverse]
        exact htight.last
      have hfirst : trimStart (c :: mid ++ right) = c :: mid ++ right :=
        trimStart_eq_self htight.first
      rw [hfirst, hend, trimEnd_eq, trimStart_eq_self hlast, List.reverse_reverse]

/-- A text is its own trimmed form exactly if it is tight. -/
theorem trimChars_eq_self_iff : trimChars cs = cs ↔ Tight cs := by
  rw [trimChars_eq_iff]
  constructor
  · exact And.left
  · intro h
    exact ⟨h, [], [], by simp, nofun, nofun⟩

theorem trim_eq_self_iff {s : String} : trim s = s ↔ Tight s.toList := by
  rw [trim, ← trimChars_eq_self_iff, ← String.toList_inj, String.toList_ofList]

/-- What is trimmed is tight. -/
theorem tight_trim (s : String) : Tight (trim s).toList := by
  rw [trim, String.toList_ofList]
  exact (trimChars_eq_iff.1 rfl).1

end Text

namespace Command

/-! ## The first colon -/

theorem splitColon_append {before : List Char} (h : ':' ∉ before) (after : List Char) :
    splitColon (before ++ ':' :: after) = some (before, after) := by
  induction before with
  | nil => simp [splitColon]
  | cons c before ih =>
    rw [List.mem_cons, not_or] at h
    rw [List.cons_append, splitColon, if_neg (Ne.symm h.1), ih h.2]
    rfl

/-- **A text is cut at its first colon.** -/
theorem splitColon_eq_some_iff {cs before after : List Char} :
    splitColon cs = some (before, after) ↔ cs = before ++ ':' :: after ∧ ':' ∉ before := by
  constructor
  · intro h
    induction cs generalizing before with
    | nil => cases h
    | cons c cs ih =>
      rw [splitColon] at h
      split at h
      · rename_i hc
        cases h
        exact ⟨by rw [hc]; rfl, List.not_mem_nil⟩
      · rename_i hc
        obtain ⟨⟨before', after'⟩, hcut, heq⟩ := Option.map_eq_some_iff.1 h
        cases heq
        obtain ⟨rfl, hnot⟩ := ih hcut
        refine ⟨rfl, ?_⟩
        rw [List.mem_cons, not_or]
        exact ⟨Ne.symm hc, hnot⟩
  · rintro ⟨rfl, h⟩
    exact splitColon_append h after

/-! ## Reading a spec -/

/-- A text in two parts, cut at its first colon. -/
structure Cut (spec before after : String) : Prop where
  /-- The parts and the colon are the whole text. -/
  whole : spec = before ++ ":" ++ after
  /-- There is no colon before. -/
  first : ':' ∉ before.toList

theorem cut_iff {spec before after : String} :
    Cut spec before after ↔ splitColon spec.toList = some (before.toList, after.toList) := by
  rw [splitColon_eq_some_iff]
  constructor
  · rintro ⟨rfl, h⟩
    exact ⟨by simp, h⟩
  · rintro ⟨hwhole, h⟩
    exact ⟨String.toList_inj.1 (by simpa using hwhole), h⟩

/-- **Which specs are read, and as which contexts**: those with a colon and something before and
behind the first one. -/
theorem parseSpec_eq_ok_iff {spec : String} {c : Context} :
    parseSpec spec = .ok c ↔
      ∃ before after, Cut spec before after ∧ Text.trim before ≠ "" ∧ Text.trim after ≠ "" ∧
        c = { typeName := Text.trim before, id := Text.trim after } := by
  have hempty : ∀ cs, (Text.trimChars cs).isEmpty = true ↔ Text.trim (String.ofList cs) = "" := by
    intro cs
    rw [Text.trim, String.toList_ofList, ← String.toList_inj, String.toList_ofList]
    exact List.isEmpty_iff
  constructor
  · intro h
    unfold parseSpec at h
    split at h
    · cases h
    · rename_i before after hcut
      dsimp only at h
      split at h
      · cases h
      · rename_i hparts
        rw [Bool.or_eq_true, not_or, hempty, hempty] at hparts
        cases h
        refine ⟨String.ofList before, String.ofList after, ?_, hparts.1, hparts.2, ?_⟩
        · rw [cut_iff]
          simpa using hcut
        · simp [Text.trim]
  · rintro ⟨before, after, hcut, hbefore, hafter, rfl⟩
    have hparts : ¬((Text.trimChars before.toList).isEmpty ||
        (Text.trimChars after.toList).isEmpty) = true := by
      rw [Bool.or_eq_true, not_or, hempty, hempty]
      simpa using And.intro hbefore hafter
    simp only [parseSpec, cut_iff.1 hcut, if_neg hparts]
    rfl

/-- **A segment is read as its context.** -/
theorem parseSpec_segment {typeName id : String} (hcolon : ':' ∉ typeName.toList)
    (htype : typeName ≠ "") (hid : id ≠ "") (htightType : Text.Tight typeName.toList)
    (htightId : Text.Tight id.toList) :
    parseSpec (Context.segment { typeName, id }) = .ok { typeName, id } := by
  have htrimType := Text.trim_eq_self_iff.2 htightType
  have htrimId := Text.trim_eq_self_iff.2 htightId
  rw [parseSpec_eq_ok_iff]
  refine ⟨typeName, id, ⟨rfl, hcolon⟩, ?_, ?_, ?_⟩
  · rwa [htrimType]
  · rwa [htrimId]
  · rw [htrimType, htrimId]

/-- Trimming brings no colon in. -/
theorem colon_not_mem_trim {s : String} (h : ':' ∉ s.toList) : ':' ∉ (Text.trim s).toList := by
  obtain ⟨-, left, right, hs, -, -⟩ := Text.trimChars_eq_iff.1 (Eq.refl (Text.trimChars s.toList))
  intro hmem
  rw [Text.trim, String.toList_ofList] at hmem
  apply h
  rw [hs]
  simp [hmem]

/-- **Reading specs and rendering segments are inverse to each other.**

* A spec is read exactly if it has a colon and, white space dropped, something before and something
  behind the first one.
* The segment of what was read from a spec is read as the same context.
* So is the segment of every context without attributes whose type has no colon and whose type and id
  are not empty and have no white space at their ends; the id may have colons. -/
theorem specs_invert_segments :
    (∀ spec, (∃ c, parseSpec spec = .ok c) ↔
      ∃ before after, Cut spec before after ∧ Text.trim before ≠ "" ∧ Text.trim after ≠ "") ∧
    (∀ spec c, parseSpec spec = .ok c → parseSpec c.segment = .ok c) ∧
    ∀ typeName id : String, ':' ∉ typeName.toList → typeName ≠ "" → id ≠ "" →
      Text.Tight typeName.toList → Text.Tight id.toList →
        parseSpec (Context.segment { typeName, id }) = .ok { typeName, id } := by
  refine ⟨fun spec => ?_, fun spec c h => ?_, fun typeName id => parseSpec_segment⟩
  · constructor
    · rintro ⟨c, h⟩
      obtain ⟨before, after, hcut, hbefore, hafter, -⟩ := parseSpec_eq_ok_iff.1 h
      exact ⟨before, after, hcut, hbefore, hafter⟩
    · rintro ⟨before, after, hcut, hbefore, hafter⟩
      exact ⟨_, parseSpec_eq_ok_iff.2 ⟨before, after, hcut, hbefore, hafter, rfl⟩⟩
  · obtain ⟨before, after, hcut, hbefore, hafter, rfl⟩ := parseSpec_eq_ok_iff.1 h
    exact parseSpec_segment (colon_not_mem_trim hcut.first) hbefore hafter (Text.tight_trim before)
      (Text.tight_trim after)

/-- White space of several kinds around both parts, and a second colon. -/
theorem specs_invert_segments_padded :
    (∃ c, parseSpec " Section\t:\u3000checkout: step-1\u2003" = .ok c) ∧
      parseSpec (Context.segment { typeName := "Section", id := "checkout: step-1" }) =
        .ok { typeName := "Section", id := "checkout: step-1" } := by
  obtain ⟨hread, -, hback⟩ := specs_invert_segments
  refine ⟨(hread _).2 ⟨" Section\t", "\u3000checkout: step-1\u2003", ?_, ?_, ?_⟩,
    hback "Section" "checkout: step-1" (by decide) (by decide) (by decide) ?_ ?_⟩
  · exact ⟨by decide, by decide⟩
  · decide
  · decide
  · exact Text.trimChars_eq_self_iff.1 (by decide)
  · exact Text.trimChars_eq_self_iff.1 (by decide)

end Command

end EventRelay
