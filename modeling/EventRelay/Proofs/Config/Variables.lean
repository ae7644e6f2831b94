import EventRelay.Proofs.Config.Layering
import EventRelay.Proofs.Json.Numbers

/-!
# Settings from variables

A variable sets one setting over everything else.  Its text, though, is first taken for a truth value,
a whole number or a float if it reads as one, whatever the setting is, and only then for what the
setting needs: a text is printed again, and a whole number beyond 63 bits has become a float.

* `printed` — what becomes of the text of a variable that is read as a text.
* `variableValue_digits` — what becomes of a whole number.
* `load_variable` — **a setting is what its variable says**, whatever it is and whatever else is said.
* `Settings.load_reads_variables` — **what texts and whole numbers become as settings**.
-/

namespace EventRelay.Config

open Json (SortedKeys bind_ok)

/-! ## Texts -/

/-- The printed form of what a text is taken for. -/
def printed (s : String) : String :=
  if Text.lower s = "true" ∨ Text.lower s = "false" then Text.lower s
  else
    match (Decimal.readInt? s.toList).filter fun n => -0x8000000000000000 ≤ n ∧ n < 0x8000000000000000 with
    | some n => toString n
    | none =>
      match Decimal.readFloat? s.toList with
      | some x => Decimal.floatMessage x
      | none => s

theorem toText_variableValue (s : String) : (variableValue s).toText = .ok (printed s) := by
  rw [variableValue, printed]
  by_cases htrue : Text.lower s = "true"
  · rw [if_pos htrue, if_pos (.inl htrue), htrue]
    rfl
  by_cases hfalse : Text.lower s = "false"
  · rw [if_neg htrue, if_pos hfalse, if_pos (.inr hfalse), hfalse]
    rfl
  rw [if_neg htrue, if_neg hfalse, if_neg (not_or.2 ⟨htrue, hfalse⟩)]
  generalize (Decimal.readInt? s.toList).filter
    (fun n => -0x8000000000000000 ≤ n ∧ n < 0x8000000000000000) = whole
  generalize Decimal.readFloat? s.toList = real
  cases whole with
  | some n => rfl
  | none => cases real <;> rfl

/-- A variable is no table and says something. -/
theorem variableValue_scalar (s : String) :
    (variableValue s).isTable = false ∧ ∀ origin, variableValue s ≠ .null origin := by
  rw [variableValue]
  repeat' split
  all_goals exact ⟨rfl, fun origin h => by cases h⟩

/-! ## Whole numbers -/

section Digits

variable {cs : List Char}

theorem lowerAfter_of_all (before : Option Char)
    (h : ∀ c ∈ cs, c.toNat < 0x80 ∧ c.toLower = c) : Text.lowerAfter before cs = cs := by
  induction cs generalizing before with
  | nil => rfl
  | cons c cs ih =>
    obtain ⟨hsmall, hlower⟩ := h c List.mem_cons_self
    rw [Text.lowerAfter, if_pos hsmall, hlower, ih _ fun d hd => h d (List.mem_cons_of_mem c hd)]
    rfl

theorem toLower_digit {c : Char} (h : c.isDigit = true) : c.toLower = c := by
  have hno : ¬ (c.val ≥ 'A'.val ∧ c.val ≤ 'Z'.val) := by
    rintro ⟨hA, -⟩
    have hge : 65 ≤ c.toNat := UInt32.le_iff_toNat_le.1 hA
    have hle : c.toNat ≤ 57 := (Char.isDigit_iff_toNat.1 h).2
    omega
  exact dif_neg hno

theorem lower_digits (h : ∀ c ∈ cs, c.isDigit = true) : Text.lower (String.ofList cs) = String.ofList cs := by
  rw [Text.lower, String.toList_ofList, lowerAfter_of_all none fun c hc => ?_]
  have hle : c.toNat ≤ 57 := (Char.isDigit_iff_toNat.1 (h c hc)).2
  exact ⟨by omega, toLower_digit (h c hc)⟩

theorem splitSign_digits (h : ∀ c ∈ cs, c.isDigit = true) : Decimal.splitSign cs = (false, cs) := by
  unfold Decimal.splitSign
  split
  · exact absurd rfl (Json.ne_of_isDigit (h '-' List.mem_cons_self) rfl)
  · exact absurd rfl (Json.ne_of_isDigit (h '+' List.mem_cons_self) rfl)
  · rfl

theorem readNat?_digits (h : ∀ c ∈ cs, c.isDigit = true) (hne : cs ≠ []) :
    Decimal.readNat? cs = some (Decimal.digitsValue cs) := by
  rw [Decimal.readNat?, if_neg]
  simpa [hne] using h

theorem readInt?_digits (h : ∀ c ∈ cs, c.isDigit = true) (hne : cs ≠ []) :
    Decimal.readInt? cs = some (Decimal.digitsValue cs : Int) := by
  rw [Decimal.readInt?, splitSign_digits h]
  simp [readNat?_digits h hne]

/-- A word that begins with a letter is not spelt by digits. -/
theorem digits_ne_word (h : ∀ c ∈ cs, c.isDigit = true) {c : Char} {w : List Char}
    (hc : c.isDigit = false) : cs ≠ c :: w := by
  rintro rfl
  exact Json.ne_of_isDigit (h c List.mem_cons_self) hc rfl

theorem readMagnitude?_digits (h : ∀ c ∈ cs, c.isDigit = true) (hne : cs ≠ []) :
    Decimal.readMagnitude? cs = some (Decimal.nearest (Decimal.digitsValue cs) 0) := by
  have hlower : cs.map Char.toLower = cs :=
    (List.map_congr_left fun c hc => toLower_digit (h c hc)).trans (List.map_id' cs)
  have htake : cs.takeWhile Char.isDigit = cs := List.takeWhile_eq_self_iff.2 h
  have hdrop : cs.dropWhile Char.isDigit = [] := List.dropWhile_eq_nil_iff.2 h
  have hinf : cs ≠ "inf".toList := digits_ne_word h (c := 'i') rfl
  have hinfinity : cs ≠ "infinity".toList := digits_ne_word h (c := 'i') rfl
  have hnan : cs ≠ "nan".toList := digits_ne_word h (c := 'n') rfl
  rw [Decimal.readMagnitude?, hlower, htake, hdrop, if_neg (not_or.2 ⟨hinf, hinfinity⟩), if_neg hnan]
  simp [hne, Decimal.readExponent?]

theorem readFloat?_digits (h : ∀ c ∈ cs, c.isDigit = true) (hne : cs ≠ []) :
    Decimal.readFloat? cs = some (Decimal.nearest (Decimal.digitsValue cs) 0) := by
  rw [Decimal.readFloat?, splitSign_digits h]
  simp [readMagnitude?_digits h hne]

/-- A text that is no float is no whole number. -/
theorem readInt?_eq_none (h : Decimal.readFloat? cs = none) : Decimal.readInt? cs = none := by
  unfold Decimal.readFloat? at h
  unfold Decimal.readInt?
  generalize Decimal.splitSign cs = signed at h
  obtain ⟨negative, rest⟩ := signed
  have hmagnitude : Decimal.readMagnitude? rest = none := Option.map_eq_none_iff.1 h
  refine Option.map_eq_none_iff.2 ?_
  by_contra hsome
  rw [Decimal.readNat?] at hsome
  split at hsome
  · exact hsome rfl
  · rename_i hdigits
    simp only [Bool.or_eq_true, List.isEmpty_iff, Bool.not_eq_true', not_or, Bool.not_eq_false,
      List.all_eq_true] at hdigits
    rw [readMagnitude?_digits hdigits.2 hdigits.1] at hmagnitude
    cases hmagnitude

end Digits

theorem digitsValue_toDigits (n : Nat) : Decimal.digitsValue (Nat.toDigits 10 n) = n := by
  have hfold := Json.foldl_toDigits n
  rw [List.foldl_map] at hfold
  exact hfold

/-- What becomes of a whole number: up to 63 bits it is taken for itself, beyond for the nearest float. -/
theorem variableValue_digits (n : Nat) : variableValue (toString n) =
    if n < 0x8000000000000000 then .int variableOrigin n
    else .float variableOrigin (Decimal.nearest n 0) := by
  have hdigits : ∀ c ∈ Nat.toDigits 10 n, c.isDigit = true :=
    fun c hc => Nat.isDigit_of_mem_toDigits (by decide) (by decide) hc
  have hne : Nat.toDigits 10 n ≠ [] := Nat.toDigits_ne_nil
  have htext : toString n = String.ofList (Nat.toDigits 10 n) := rfl
  have hword {c : Char} {w : List Char} (hc : c.isDigit = false) :
      Text.lower (toString n) ≠ String.ofList (c :: w) := by
    rw [htext, lower_digits hdigits]
    exact fun heq => digits_ne_word hdigits hc (String.ofList_injective heq)
  have htrue : Text.lower (toString n) ≠ "true" := hword (c := 't') rfl
  have hfalse : Text.lower (toString n) ≠ "false" := hword (c := 'f') rfl
  rw [variableValue, if_neg htrue, if_neg hfalse, htext, String.toList_ofList,
    readInt?_digits hdigits hne, readFloat?_digits hdigits hne, digitsValue_toDigits]
  by_cases hn : n < 0x8000000000000000
  · have hfits : -0x8000000000000000 ≤ (n : Int) ∧ (n : Int) < 0x8000000000000000 := by omega
    rw [if_pos hn, Option.filter_some, if_pos (decide_eq_true hfits)]
  · have hno : ¬ (-0x8000000000000000 ≤ (n : Int) ∧ (n : Int) < 0x8000000000000000) := by omega
    rw [if_neg hn, Option.filter_some, if_neg (by rw [decide_eq_false hno]; exact Bool.false_ne_true)]

/-- What a whole number becomes: itself, or the nearest float if it has more than 63 bits. -/
def rounded (n : Nat) : Nat :=
  if n < 0x8000000000000000 then n else Value.roundToWord (Decimal.nearest n 0)

theorem rounded_of_lt {n : Nat} (hn : n < 0x8000000000000000) : rounded n = n :=
  if_pos hn

theorem rounded_of_le {n : Nat} (hn : 0x8000000000000000 ≤ n) :
    rounded n = Value.roundToWord (Decimal.nearest n 0) :=
  if_neg (Nat.not_lt.2 hn)

theorem toWord_variableValue (n : Nat) : (variableValue (toString n)).toWord = .ok (rounded n) := by
  rw [variableValue_digits]
  by_cases hn : n < 0x8000000000000000
  · rw [if_pos hn, rounded_of_lt hn]
    rfl
  · rw [if_neg hn, rounded_of_le (Nat.not_lt.1 hn)]
    rfl

/-! ## What is kept -/

/-- A text that reads as nothing else is kept. -/
theorem printed_of_text {s : String} (htrue : Text.lower s ≠ "true") (hfalse : Text.lower s ≠ "false")
    (hfloat : Decimal.readFloat? s.toList = none) : printed s = s := by
  rw [printed, if_neg (not_or.2 ⟨htrue, hfalse⟩), readInt?_eq_none hfloat, hfloat]
  rfl

/-- The digits of a whole number of 63 bits are kept. -/
theorem printed_digits {n : Nat} (hn : n < 0x8000000000000000) : printed (toString n) = toString n := by
  have hprinted := toText_variableValue (toString n)
  rw [variableValue_digits, if_pos hn] at hprinted
  exact (Except.ok.inj hprinted).symm

/-! ## One variable -/

/-- The path of what a variable sets. -/
def variablePath? (name : String) : Option (List String) :=
  (variableKey? name).map fun key => lowerPath ((pathOf key).getD [key])

section Variable

variable {user : Option SourceFile} {explicit : Explicit} {before after : List (String × String)}
  {U F : Fields} {name s : String} {c : Setting}

theorem variableLayer_append (env env' : List (String × String)) :
    variableLayer (env ++ env') = variableLayer env ++ variableLayer env' :=
  List.filterMap_append

theorem variableLayer_singleton {key : String} (hkey : variableKey? name = some key) :
    variableLayer [(name, s)] = [(key, variableValue s)] := by
  simp [variableLayer, hkey]

/-- What one variable puts where. -/
theorem assignments_variable (hname : variablePath? name = some c.path) :
    ∃ path, lowerPath path = c.path ∧
      assignments (variableLayer [(name, s)]) = [(path, variableValue s)] := by
  rw [variablePath?] at hname
  obtain ⟨key, hkey, hpath⟩ := Option.map_eq_some_iff.1 hname
  refine ⟨_, hpath, ?_⟩
  rw [variableLayer_singleton hkey, assignments_singleton (variableValue_scalar s).1]

theorem said_variable (hname : variablePath? name = some c.path) :
    said (variableLayer [(name, s)]) c.path = some (variableValue s) := by
  obtain ⟨path, hpath, hassignments⟩ := assignments_variable (s := s) hname
  rw [said, hassignments, List.reverse_singleton, List.map_singleton, hpath, List.lookup_cons_self]

theorem wellTyped_variable (hc : c ∈ settings) (hname : variablePath? name = some c.path)
    (hx : ∃ x, c.convert (variableValue s) = .ok x) : WellTyped (variableLayer [(name, s)]) := by
  obtain ⟨path, hpath, hassignments⟩ := assignments_variable (s := s) hname
  rw [WellTyped, hassignments, List.forall_mem_singleton, hpath]
  exact fits_setting hc (variableValue_scalar s).1 hx

/-- **A setting is what its variable says.** -/
theorem load_variable (h : Sourced user explicit (before ++ after) U F) (hc : c ∈ settings)
    (hname : variablePath? name = some c.path) (hafter : said (variableLayer after) c.path = none)
    {x : c.Content} (hx : c.convert (variableValue s) = .ok x) :
    ∃ t, Settings.load user explicit (before ++ (name, s) :: after) = .ok t ∧ c.get t = x := by
  have henv : variableLayer (before ++ (name, s) :: after) =
      variableLayer before ++ (variableLayer [(name, s)] ++ variableLayer after) := by
    rw [variableLayer_append, ← variableLayer_append [(name, s)]]
    rfl
  have hothers : WellTyped (variableLayer before) ∧ WellTyped (variableLayer after) := by
    rw [← wellTyped_append, ← variableLayer_append]
    exact h.typed _ (by simp)
  have htyped : WellTyped (variableLayer (before ++ (name, s) :: after)) := by
    rw [henv, wellTyped_append, wellTyped_append]
    exact ⟨hothers.1, wellTyped_variable hc hname ⟨x, hx⟩, hothers.2⟩
  have hsources : ∀ source ∈ [U, F, variableLayer (before ++ (name, s) :: after)], WellTyped source := by
    refine List.forall_mem_cons.2 ⟨h.typed U (by simp), List.forall_mem_cons.2 ⟨h.typed F (by simp), ?_⟩⟩
    exact List.forall_mem_singleton.2 htyped
  obtain ⟨t, ht, hfollows⟩ := ofLayers_ok hsources
  have hholds := hfollows.holds c (.single hc)
  have hsaid : highest [U, F, variableLayer (before ++ (name, s) :: after)] c.path =
      some (variableValue s) := by
    rw [highest, List.reverse_cons, List.reverse_cons, List.reverse_singleton, List.append_assoc,
      List.singleton_append, List.findSome?_cons, henv, said_append, said_append, hafter,
      said_variable hname]
    rfl
  rw [hsaid] at hholds
  exact ⟨t, (load_eq h.user h.explicit).trans ht, Except.ok.inj (hholds.symm.trans hx)⟩

end Variable

/-! ## Texts and whole numbers as settings -/

/-- A variable with the path and the value of its setting. -/
structure Variable (α : Type) where
  /-- Its name. -/
  name : String
  /-- The path of the setting. -/
  path : List String
  /-- The setting of a configuration. -/
  get : Settings → α

/-- The variables of settings that are texts. -/
def textVariables : List (Variable (Option String)) :=
  [ ⟨"WAYPOST_TRACKER__TRACKER_ID", ["tracker", "tracker_id"], fun s => some s.tracker.trackerId⟩,
    ⟨"WAYPOST_TRACKER__APPLICATION_ID", ["tracker", "application_id"],
      fun s => some s.tracker.applicationId⟩,
    ⟨"WAYPOST_TRACKER__ENDPOINT", ["tracker", "endpoint"], fun s => s.tracker.endpoint⟩,
    ⟨"WAYPOST_LOGGING__LEVEL", ["logging", "level"], fun s => some s.logging.level⟩,
    ⟨"WAYPOST_LOGGING__FORMAT", ["logging", "format"], fun s => some s.logging.format⟩,
    ⟨"WAYPOST_LOGGING__OUTPUT", ["logging", "output"], fun s => some s.logging.output⟩,
    ⟨"WAYPOST_LOGGING__FILE", ["logging", "file"], fun s => some s.logging.file⟩ ]

/-- The variables of settings that are whole numbers of milliseconds. -/
def wordVariables : List (Variable Nat) :=
  [ ⟨"WAYPOST_TRACKER__PROMISE_TIMEOUT_MS", ["tracker", "promise_timeout_ms"],
      fun s => s.tracker.promiseTimeout⟩,
    ⟨"WAYPOST_RETRY__MIN_TIMEOUT_MS", ["retry", "min_timeout_ms"], fun s => s.retry.minTimeout⟩,
    ⟨"WAYPOST_QUEUE__BATCH_DELAY_MS", ["queue", "batch_delay_ms"], fun s => s.queue.batchDelay⟩ ]

/-- The variable sets a setting, which is a certain value for the text. -/
def Variable.Gives {α : Type} (v : Variable α) (s : String) (a : α) : Prop :=
  ∃ c ∈ settings, variablePath? v.name = some c.path ∧ c.path = v.path ∧
    ∃ x, c.convert (variableValue s) = .ok x ∧ ∀ t, c.get t = x → v.get t = a

theorem gives_text {name : String} {path : List String} {get : Settings → String}
    (hc : ⟨String, path, Value.toText, get⟩ ∈ settings) (hname : variablePath? name = some path)
    (s : String) : Variable.Gives ⟨name, path, fun t => some (get t)⟩ s (some (printed s)) :=
  ⟨_, hc, hname, rfl, _, toText_variableValue s, fun _ ht => congrArg some ht⟩

theorem gives_option {name : String} {path : List String} {get : Settings → Option String}
    (hc : ⟨Option String, path, Value.toOption Value.toText, get⟩ ∈ settings)
    (hname : variablePath? name = some path) (s : String) :
    Variable.Gives ⟨name, path, get⟩ s (some (printed s)) := by
  refine ⟨_, hc, hname, rfl, some (printed s), ?_, fun _ ht => ht⟩
  have hread := congrArg (some <$> ·) (toText_variableValue s)
  have hnull := (variableValue_scalar s).2
  show Value.toOption Value.toText (variableValue s) = _
  cases hv : variableValue s with
  | null origin => exact absurd hv (hnull origin)
  | _ => rw [hv] at hread; exact hread

theorem gives_word {name : String} {path : List String} {get : Settings → Nat} {s : String} {n : Nat}
    (hc : ⟨Nat, path, Value.toWord, get⟩ ∈ settings) (hname : variablePath? name = some path)
    (hs : (variableValue s).toWord = .ok n) : Variable.Gives ⟨name, path, get⟩ s n :=
  ⟨_, hc, hname, rfl, n, hs, fun _ ht => ht⟩

theorem textVariables_give (s : String) : ∀ v ∈ textVariables, v.Gives s (some (printed s)) := by
  simp only [textVariables, List.forall_mem_cons]
  refine ⟨?_, ?_, ?_, ?_, ?_, ?_, ?_, fun v hv => absurd hv List.not_mem_nil⟩
  · exact gives_text (List.mem_of_getElem? (i := 0) rfl) (by decide +kernel) s
  · exact gives_text (List.mem_of_getElem? (i := 1) rfl) (by decide +kernel) s
  · exact gives_option (List.mem_of_getElem? (i := 2) rfl) (by decide +kernel) s
  · exact gives_text (List.mem_of_getElem? (i := 14) rfl) (by decide +kernel) s
  · exact gives_text (List.mem_of_getElem? (i := 15) rfl) (by decide +kernel) s
  · exact gives_text (List.mem_of_getElem? (i := 16) rfl) (by decide +kernel) s
  · exact gives_text (List.mem_of_getElem? (i := 17) rfl) (by decide +kernel) s

theorem wordVariables_give {s : String} {n : Nat} (hs : (variableValue s).toWord = .ok n) :
    ∀ v ∈ wordVariables, v.Gives s n := by
  simp only [wordVariables, List.forall_mem_cons]
  refine ⟨?_, ?_, ?_, fun v hv => absurd hv List.not_mem_nil⟩
  · exact gives_word (List.mem_of_getElem? (i := 3) rfl) (by decide +kernel) hs
  · exact gives_word (List.mem_of_getElem? (i := 10) rfl) (by decide +kernel) hs
  · exact gives_word (List.mem_of_getElem? (i := 5) rfl) (by decide +kernel) hs

theorem Variable.Gives.load {α : Type} {v : Variable α} {s : String} {a : α} {user : Option SourceFile}
    {explicit : Explicit} {before after : List (String × String)} {U F : Fields} (hv : v.Gives s a)
    (h : Sourced user explicit (before ++ after) U F) (hafter : said (variableLayer after) v.path = none) :
    ∃ t, Settings.load user explicit (before ++ (v.name, s) :: after) = .ok t ∧ v.get t = a := by
  obtain ⟨c, hc, hname, hpath, x, hx, hget⟩ := hv
  obtain ⟨t, ht, htx⟩ := load_variable h hc hname (hpath ▸ hafter) hx
  exact ⟨t, ht, hget t htx⟩

/-- **What texts and whole numbers become as settings.**  Whatever files and other variables say, if
they are well-typed and no later variable sets the same,

* a setting that is a text becomes the printed form of what the text of its variable is taken for;
* a text that reads neither as a truth value nor as a float is kept, and so are the digits of a whole
  number of 63 bits;
* a setting that is a whole number becomes the number whose digits its variable holds, if that number
  has 63 bits, and otherwise the float nearest to it. -/
theorem Settings.load_reads_variables {user : Option SourceFile} {explicit : Explicit}
    {before after : List (String × String)} {U F : Fields}
    (h : Sourced user explicit (before ++ after) U F) :
    (∀ v ∈ textVariables, said (variableLayer after) v.path = none → ∀ s,
      ∃ t, Settings.load user explicit (before ++ (v.name, s) :: after) = .ok t ∧
        v.get t = some (printed s)) ∧
    (∀ s, Text.lower s ≠ "true" → Text.lower s ≠ "false" → Decimal.readFloat? s.toList = none →
      printed s = s) ∧
    (∀ n : Nat, n < 0x8000000000000000 → printed (toString n) = toString n) ∧
    ∀ v ∈ wordVariables, said (variableLayer after) v.path = none → ∀ n : Nat,
      ∃ t, Settings.load user explicit (before ++ (v.name, toString n) :: after) = .ok t ∧
        (n < 0x8000000000000000 → v.get t = n) ∧
        (0x8000000000000000 ≤ n → v.get t = Value.roundToWord (Decimal.nearest n 0)) := by
  refine ⟨fun v hv hafter s => (textVariables_give s v hv).load h hafter, fun _ => printed_of_text,
    fun _ => printed_digits, fun v hv hafter n => ?_⟩
  obtain ⟨t, ht, hget⟩ := (wordVariables_give (toWord_variableValue n) v hv).load h hafter
  exact ⟨t, ht, fun hn => hget.trans (rounded_of_lt hn), fun hn => hget.trans (rounded_of_le hn)⟩

theorem sourced_none : Sourced none .none ([] ++ []) [] [] :=
  ⟨rfl, rfl, by simp [WellTyped, variableLayer, assignments]⟩

/-- A name of digits loses the zeros in front. -/
theorem Settings.load_reads_variables_zeros :
    Sourced none .none ([] ++ []) [] [] ∧ said (variableLayer []) ["tracker", "tracker_id"] = none ∧
    ∃ t, Settings.load none .none [("WAYPOST_TRACKER__TRACKER_ID", "007")] = .ok t ∧
      t.tracker.trackerId = "7" := by
  obtain ⟨htexts, -⟩ := Settings.load_reads_variables sourced_none
  obtain ⟨t, ht, hid⟩ := htexts _ List.mem_cons_self rfl "007"
  have hprinted : printed "007" = "7" := by decide +kernel
  exact ⟨sourced_none, rfl, t, ht, (Option.some.inj hid).trans hprinted⟩

/-- Not every text is the name of the tracker whose variable holds it, and not every number of 64 bits
is the time limit whose variable holds its digits. -/
theorem variables_are_altered :
    ¬ (∀ s, ∃ t, Settings.load none .none [("WAYPOST_TRACKER__TRACKER_ID", s)] = .ok t ∧
      t.tracker.trackerId = s) ∧
    ¬ (∀ n : Nat, n < 0x10000000000000000 →
      ∃ t, Settings.load none .none [("WAYPOST_TRACKER__PROMISE_TIMEOUT_MS", toString n)] = .ok t ∧
        t.tracker.promiseTimeout = n) := by
  constructor
  · intro hall
    obtain ⟨t, ht, hid⟩ := hall "007"
    obtain ⟨t', ht', hid'⟩ := (textVariables_give "007" _ List.mem_cons_self).load sourced_none rfl
    obtain rfl : t = t' := Except.ok.inj (ht.symm.trans ht')
    have hprinted : printed "007" ≠ "007" := by decide +kernel
    exact hprinted ((Option.some.inj hid').symm.trans hid)
  · intro hall
    obtain ⟨t, ht, htimeout⟩ := hall 9223372036854775809 (by decide)
    obtain ⟨t', ht', htimeout'⟩ :=
      (wordVariables_give (toWord_variableValue 9223372036854775809) _ List.mem_cons_self).load sourced_none rfl
    obtain rfl : t = t' := Except.ok.inj (ht.symm.trans ht')
    have hrounded : rounded 9223372036854775809 ≠ 9223372036854775809 := by decide +kernel
    exact hrounded (htimeout'.symm.trans htimeout)

end EventRelay.Config
