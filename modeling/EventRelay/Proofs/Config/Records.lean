import EventRelay.Config.Layers
import EventRelay.Proofs.Config.Paths
import Mathlib.Data.List.Nodup

/-!
# Records by their parts

A configuration is a record of sections, and a section a record of parts.  A part has a key of its
own, under which its value is found, and is told apart from the other parts of the record.

* `Part`, `Parts` — a part of a record, and all parts of one.
* `recordFields_ok` — **every part of a record is read from the value under its key**, and has what it
  had at the start where there is none.
* `sections`, `Setting`, `settings` — the sections, and what can be set in them.
* `ofFields_ok` — so is every setting of a configuration, from the value at its path.
* `Settings.ext_of_settings` — a configuration is what its settings are.
-/

namespace EventRelay.Config

open Json (SortedKeys bind_ok bind_eq_ok_iff)

/-! ## Parts -/

/-- A part of a record. -/
structure Part (α : Type) where
  /-- What the part can be. -/
  Content : Type
  /-- Its key. -/
  name : String
  /-- Reads it from a value. -/
  convert : Value → Except LoadError Content
  /-- The part of a record. -/
  get : α → Content
  /-- The record with another part. -/
  set : Content → α → α

namespace Part

variable {α : Type}

/-- The part as a field. -/
def field (p : Part α) : Value.Field α :=
  ⟨p.name, fun v s => do return p.set (← p.convert v) s⟩

/-- The part is what the value says, or what it was at the start where there is no value. -/
def Holds (p : Part α) (start s : α) : Option Value → Prop
  | some v => p.convert v = .ok (p.get s)
  | none => p.get s = p.get start

end Part

/-- The parts of a record: no two have one key, and none touches another. -/
structure Parts (α : Type) where
  /-- The parts. -/
  all : List (Part α)
  /-- Keys are different. -/
  names_nodup : (all.map Part.name).Nodup
  /-- What is set is there. -/
  get_set : ∀ p ∈ all, ∀ x s, p.get (p.set x s) = x
  /-- Nothing else is set. -/
  get_set_of_ne : ∀ p ∈ all, ∀ q ∈ all, q.name ≠ p.name → ∀ x s, q.get (p.set x s) = q.get s

namespace Parts

variable {α : Type} {parts : Parts α}

/-- The parts as fields. -/
def fields (parts : Parts α) : List (Value.Field α) :=
  parts.all.map Part.field

theorem eq_of_name {p q : Part α} (hp : p ∈ parts.all) (hq : q ∈ parts.all) (h : p.name = q.name) :
    p = q :=
  List.inj_on_of_nodup_map parts.names_nodup hp hq h

theorem find?_fields (key : String) :
    (parts.fields.find? fun f => f.name = key) = (parts.all.find? fun p => p.name = key).map Part.field := by
  rw [fields, List.find?_map]
  rfl

/-- **Every part of a record is read from the value under its key.** -/
theorem recordFields_ok (parts : Parts α) (start : α) {fs : Fields} (hkeys : SortedKeys fs)
    (hconvert : ∀ p ∈ parts.all, ∀ v, fs.lookup p.name = some v → ∃ x, p.convert v = .ok x) :
    ∃ s, Value.recordFields parts.fields start fs = .ok s ∧
      ∀ p ∈ parts.all, p.Holds start s (fs.lookup p.name) := by
  induction fs generalizing start with
  | nil => exact ⟨start, rfl, fun p _ => rfl⟩
  | cons f fs ih =>
    obtain ⟨key, v⟩ := f
    obtain ⟨hbehind, hsorted⟩ := List.pairwise_cons.1 hkeys
    have hbehind_lookup : fs.lookup key = none := by
      refine List.lookup_eq_none_iff.2 fun f hf => ?_
      have hlt : key < f.1 := hbehind f hf
      simpa using (Std.ne_of_lt hlt)
    have hrest : ∀ p ∈ parts.all, ∀ w, fs.lookup p.name = some w → ∃ x, p.convert w = .ok x := by
      intro p hp w hw
      refine hconvert p hp w ?_
      have hne : p.name ≠ key := by
        rintro heq
        rw [heq, hbehind_lookup] at hw
        cases hw
      rw [List.lookup_cons, beq_false_of_ne hne]
      exact hw
    rw [Value.recordFields, find?_fields]
    cases hfind : parts.all.find? fun p => p.name = key with
    | none =>
      obtain ⟨s, hs, hholds⟩ := ih start hsorted hrest
      refine ⟨s, hs, fun p hp => ?_⟩
      have hne : p.name ≠ key := by simpa using List.find?_eq_none.1 hfind p hp
      rw [List.lookup_cons, beq_false_of_ne hne]
      exact hholds p hp
    | some q =>
      have hq : q ∈ parts.all := List.mem_of_find?_eq_some hfind
      obtain rfl : q.name = key := by simpa using List.find?_some hfind
      obtain ⟨x, hx⟩ := hconvert q hq v List.lookup_cons_self
      obtain ⟨s, hs, hholds⟩ := ih (q.set x start) hsorted hrest
      have hread : q.field.read v start = .ok (q.set x start) := bind_ok hx _
      refine ⟨s, by simpa only [Option.map_some, hread] using hs, fun p hp => ?_⟩
      specialize hholds p hp
      by_cases hname : p.name = q.name
      · obtain rfl := eq_of_name hp hq hname
        rw [hbehind_lookup] at hholds
        rw [List.lookup_cons_self]
        exact hx.trans (congrArg Except.ok ((hholds.trans (parts.get_set p hp x start)).symm))
      · rw [List.lookup_cons, beq_false_of_ne hname]
        cases hlookup : fs.lookup p.name with
        | none =>
          rw [hlookup] at hholds
          exact hholds.trans (parts.get_set_of_ne q hq p hp hname x start)
        | some w =>
          rw [hlookup] at hholds
          exact hholds

end Parts

/-! ## Sections -/

/-- A section of a configuration. -/
structure Section where
  /-- The record of its parts. -/
  Record : Type
  /-- Its key. -/
  name : String
  /-- What messages call it. -/
  title : String
  /-- Its parts. -/
  parts : Parts Record
  /-- The section of a configuration. -/
  get : Settings → Record
  /-- The configuration with another section. -/
  set : Record → Settings → Settings

/-- The tracker section. -/
def trackerSection : Section where
  Record := TrackerSettings
  name := "tracker"
  title := "TrackerSettings"
  parts :=
    { all :=
        [ ⟨String, "tracker_id", Value.toText, (·.trackerId), fun x s => { s with trackerId := x }⟩,
          ⟨String, "application_id", Value.toText, (·.applicationId),
            fun x s => { s with applicationId := x }⟩,
          ⟨Option String, "endpoint", Value.toOption Value.toText, (·.endpoint),
            fun x s => { s with endpoint := x }⟩,
          ⟨Nat, "promise_timeout_ms", Value.toWord, (·.promiseTimeout),
            fun x s => { s with promiseTimeout := x }⟩ ]
      names_nodup := by simp
      get_set := by simp
      get_set_of_ne := by simp }
  get := (·.tracker)
  set := fun x s => { s with tracker := x }

/-- The queue section. -/
def queueSection : Section where
  Record := QueueSettings
  name := "queue"
  title := "QueueSettings"
  parts :=
    { all :=
        [ ⟨Nat, "batch_size", Value.toWord, (·.batchSize), fun x s => { s with batchSize := x }⟩,
          ⟨Nat, "batch_delay_ms", Value.toWord, (·.batchDelay), fun x s => { s with batchDelay := x }⟩,
          ⟨Nat, "concurrency", Value.toWord, (·.concurrency), fun x s => { s with concurrency := x }⟩,
          ⟨StoreKind, "store", StoreKind.ofValue, (·.store), fun x s => { s with store := x }⟩,
          ⟨Option String, "store_path", Value.toOption Value.toText, (·.storePath),
            fun x s => { s with storePath := x }⟩ ]
      names_nodup := by simp
      get_set := by simp
      get_set_of_ne := by simp }
  get := (·.queue)
  set := fun x s => { s with queue := x }

/-- The retry section. -/
def retrySection : Section where
  Record := RetrySettings
  name := "retry"
  title := "RetrySettings"
  parts :=
    { all :=
        [ ⟨Nat, "max_attempts", Value.toWord32, (·.maxAttempts), fun x s => { s with maxAttempts := x }⟩,
          ⟨Nat, "min_timeout_ms", Value.toWord, (·.minTimeout), fun x s => { s with minTimeout := x }⟩,
          ⟨Option Nat, "max_timeout_ms", Value.toOption Value.toWord, (·.maxTimeout),
            fun x s => { s with maxTimeout := x }⟩,
          ⟨Option Nat, "max_retry_ms", Value.toOption Value.toWord, (·.maxRetry),
            fun x s => { s with maxRetry := x }⟩,
          ⟨Float, "retry_factor", Value.toFloat, (·.factor), fun x s => { s with factor := x }⟩ ]
      names_nodup := by simp
      get_set := by simp
      get_set_of_ne := by simp }
  get := (·.retry)
  set := fun x s => { s with retry := x }

/-- The table of what is logged of single parts of the program. -/
def modulesPart : Part LoggingSettings :=
  ⟨List (String × String), "modules", Value.toTextTable, (·.modules), fun x s => { s with modules := x }⟩

/-- The logging section. -/
def loggingSection : Section where
  Record := LoggingSettings
  name := "logging"
  title := "LoggingConfig"
  parts :=
    { all :=
        [ ⟨String, "level", Value.toText, (·.level), fun x s => { s with level := x }⟩,
          ⟨String, "format", Value.toText, (·.format), fun x s => { s with format := x }⟩,
          ⟨String, "output", Value.toText, (·.output), fun x s => { s with output := x }⟩,
          ⟨String, "file", Value.toText, (·.file), fun x s => { s with file := x }⟩,
          ⟨Bool, "color", Value.toBool, (·.color), fun x s => { s with color := x }⟩,
          modulesPart ]
      names_nodup := by simp [modulesPart]
      get_set := by simp [modulesPart]
      get_set_of_ne := by simp [modulesPart] }
  get := (·.logging)
  set := fun x s => { s with logging := x }

/-- The section as a part of a configuration; a section that is not there has every default. -/
def Section.part (c : Section) : Part Settings :=
  ⟨c.Record, c.name, Value.toRecord c.title c.parts.fields (c.get {}), c.get, c.set⟩

/-- All sections. -/
def sections : List Section :=
  [trackerSection, queueSection, retrySection, loggingSection]

/-- A configuration by its sections. -/
def sectionParts : Parts Settings where
  all := sections.map Section.part
  names_nodup := by
    simp [sections, Section.part, trackerSection, queueSection, retrySection, loggingSection]
  get_set := by
    simp [sections, Section.part, trackerSection, queueSection, retrySection, loggingSection]
  get_set_of_ne := by
    simp [sections, Section.part, trackerSection, queueSection, retrySection, loggingSection]

/-! ## Settings -/

/-- What can be set at a path of its own. -/
structure Setting where
  /-- What can be set. -/
  Content : Type
  /-- Its path. -/
  path : List String
  /-- Reads it from a value. -/
  convert : Value → Except LoadError Content
  /-- The setting of a configuration. -/
  get : Settings → Content

/-- The setting is what the value says, or its default where there is no value. -/
def Setting.Holds (c : Setting) (s : Settings) : Option Value → Prop
  | some v => c.convert v = .ok (c.get s)
  | none => c.get s = c.get {}

/-- A part of a section as a setting. -/
def Section.setting (c : Section) (p : Part c.Record) : Setting :=
  ⟨p.Content, [c.name, p.name], p.convert, fun s => p.get (c.get s)⟩

/-- The settings with one value each. -/
def settings : List Setting :=
  sections.flatMap fun c => (c.parts.all.filter fun p => p.name ≠ modulesPart.name).map c.setting

/-- What is logged of one part of the program. -/
def moduleSetting (name : String) : Setting :=
  ⟨Option String, ["logging", "modules", name], fun v => some <$> v.toText,
    fun s => s.logging.modules.lookup name⟩

/-- Everything that can be set. -/
inductive IsSetting : Setting → Prop where
  /-- A setting with one value. -/
  | single {c : Setting} (h : c ∈ settings) : IsSetting c
  /-- An entry of the table of modules. -/
  | module (name : String) : IsSetting (moduleSetting name)

theorem lookup_innerFields {fs : Fields} {key name : String} :
    valueAt fs [key, name] = (innerFields fs key).lookup name := rfl

/-- **Every part of every section is read from the value at its path.** -/
theorem ofFields_ok {fs : Fields} (htidy : Tidy fs)
    (htables : ∀ c ∈ sections, ∀ v, fs.lookup c.name = some v → v.isTable = true)
    (hconvert : ∀ c ∈ sections, ∀ p ∈ c.parts.all, ∀ v,
      valueAt fs [c.name, p.name] = some v → ∃ x, p.convert v = .ok x) :
    ∃ s, Settings.ofFields fs = .ok s ∧
      ∀ c ∈ sections, ∀ p ∈ c.parts.all, (c.setting p).Holds s (valueAt fs [c.name, p.name]) := by
  have hsection : ∀ c ∈ sections, ∀ v, fs.lookup c.name = some v →
      ∃ r, c.part.convert v = .ok r ∧ ∀ p ∈ c.parts.all,
        p.Holds (c.get {}) r (valueAt fs [c.name, p.name]) := by
    intro c hc v hv
    have hinner : innerFields fs c.name = v.fields := by rw [innerFields, hv]; rfl
    have hgs : SortedKeys v.fields := hinner ▸ (htidy.innerFields c.name).sorted
    obtain ⟨r, hr, hholds⟩ := c.parts.recordFields_ok (c.get {}) hgs fun p hp w hw =>
      hconvert c hc p hp w (by rw [lookup_innerFields, hinner, hw])
    refine ⟨r, ?_, fun p hp => by rw [lookup_innerFields, hinner]; exact hholds p hp⟩
    cases v with
    | table origin gs => exact hr
    | _ => exact absurd (htables c hc _ hv) Bool.false_ne_true
  obtain ⟨s, hs, hholds⟩ := sectionParts.recordFields_ok {} htidy.sorted
    fun p hp v hv => by
      obtain ⟨c, hc, rfl⟩ := List.mem_map.1 hp
      obtain ⟨r, hr, -⟩ := hsection c hc v hv
      exact ⟨r, hr⟩
  refine ⟨s, hs, fun c hc p hp => ?_⟩
  have hpart := hholds c.part (List.mem_map_of_mem hc)
  cases hv : fs.lookup c.name with
  | none =>
    have hnone : valueAt fs [c.name, p.name] = none := by
      rw [lookup_innerFields, innerFields, hv]
      rfl
    rw [show c.part.name = c.name from rfl, hv] at hpart
    rw [hnone]
    exact congrArg p.get hpart
  | some v =>
    rw [show c.part.name = c.name from rfl, hv] at hpart
    obtain ⟨r, hr, hparts⟩ := hsection c hc v hv
    obtain rfl : r = c.get s := Except.ok.inj (hr.symm.trans hpart)
    exact hparts p hp

/-! ## The table of modules -/

section Modules

variable {origin : Option String} {fs : Fields} {ts : List (String × String)}

theorem toTextTable_cons {key : String} {v : Value} :
    (Value.table origin ((key, v) :: fs)).toTextTable = .ok ts ↔
      ∃ t ts', v.toText = .ok t ∧ (Value.table origin fs).toTextTable = .ok ts' ∧ ts = (key, t) :: ts' := by
  simp only [Value.toTextTable, List.mapM_cons]
  cases v.toText with
  | error e => simp [bind, Except.bind]
  | ok t =>
    simp only [bind_eq_ok_iff, Except.ok.injEq]
    constructor
    · rintro ⟨a, rfl, ts', hts, hcons⟩
      exact ⟨t, ts', rfl, hts, (Except.ok.inj hcons).symm⟩
    · rintro ⟨_, ts', rfl, hts, rfl⟩
      exact ⟨(key, t), rfl, ts', hts, rfl⟩

/-- A table is read if every entry is. -/
theorem toTextTable_ok (hkeys : SortedKeys fs)
    (htexts : ∀ name v, fs.lookup name = some v → ∃ t, v.toText = .ok t) :
    ∃ ts, (Value.table origin fs).toTextTable = .ok ts := by
  induction fs with
  | nil => exact ⟨[], rfl⟩
  | cons f fs ih =>
    obtain ⟨key, v⟩ := f
    obtain ⟨hbehind, hsorted⟩ := List.pairwise_cons.1 hkeys
    obtain ⟨t, ht⟩ := htexts key v List.lookup_cons_self
    obtain ⟨ts, hts⟩ := ih hsorted fun name w hw => htexts name w <| by
      have hne : name ≠ key := by
        rintro rfl
        rw [Json.lookup_eq_none_of_lt hbehind] at hw
        cases hw
      rw [List.lookup_cons, beq_false_of_ne hne]
      exact hw
    exact ⟨(key, t) :: ts, toTextTable_cons.2 ⟨t, ts, ht, hts, rfl⟩⟩

theorem toTextTable_keys (h : (Value.table origin fs).toTextTable = .ok ts) :
    ts.map Prod.fst = fs.map Prod.fst := by
  induction fs generalizing ts with
  | nil =>
    cases h
    rfl
  | cons f fs ih =>
    obtain ⟨t, ts', -, hts, rfl⟩ := toTextTable_cons.1 h
    rw [List.map_cons, List.map_cons, ih hts]

/-- Every entry is the text of its value. -/
theorem toTextTable_lookup (h : (Value.table origin fs).toTextTable = .ok ts) (name : String) :
    match fs.lookup name with
    | some v => some <$> v.toText = .ok (ts.lookup name)
    | none => ts.lookup name = none := by
  induction fs generalizing ts with
  | nil =>
    cases h
    rfl
  | cons f fs ih =>
    obtain ⟨key, v⟩ := f
    obtain ⟨t, ts', ht, hts, rfl⟩ := toTextTable_cons.1 h
    by_cases hname : name = key
    · subst hname
      rw [List.lookup_cons_self, List.lookup_cons_self]
      exact congrArg (some <$> ·) ht
    · rw [List.lookup_cons, List.lookup_cons, beq_false_of_ne hname]
      exact ih hts

/-- Entries are read one by one. -/
theorem moduleSetting_holds {s : Settings} {v : Option Value}
    (hv : ∀ w, v = some w → w.isTable = true)
    (h : (loggingSection.setting modulesPart).Holds s v) (name : String) :
    (moduleSetting name).Holds s (((v.map Value.fields).getD []).lookup name) := by
  cases v with
  | none => exact congrArg (·.lookup name) h
  | some w =>
    cases w with
    | table origin fs =>
      have htexts : (Value.table origin fs).toTextTable = .ok s.logging.modules := h
      have hentry := toTextTable_lookup htexts name
      show (moduleSetting name).Holds s (fs.lookup name)
      cases hw : fs.lookup name <;> rw [hw] at hentry <;> exact hentry
    | _ => exact absurd (hv _ rfl) Bool.false_ne_true

theorem modules_sorted {s : Settings} {v : Option Value}
    (hv : ∀ w, v = some w → w.isTable = true ∧ SortedKeys w.fields)
    (h : (loggingSection.setting modulesPart).Holds s v) : SortedKeys s.logging.modules := by
  cases v with
  | none => exact (show s.logging.modules = [] from h) ▸ List.Pairwise.nil
  | some w =>
    obtain ⟨htable, hkeys⟩ := hv w rfl
    cases w with
    | table origin fs =>
      have hmap : (fs.map Prod.fst).Pairwise (· < ·) := List.pairwise_map.2 hkeys
      have htexts : (Value.table origin fs).toTextTable = .ok s.logging.modules := h
      rw [← toTextTable_keys htexts] at hmap
      exact List.pairwise_map.1 hmap
    | _ => exact absurd htable Bool.false_ne_true

end Modules

/-! ## All settings together -/

/-- **A configuration is what its settings are.** -/
theorem Settings.ext_of_settings {s t : Settings} (hsingle : ∀ c ∈ settings, c.get s = c.get t)
    (hmodules : s.logging.modules = t.logging.modules) : s = t := by
  obtain ⟨⟨⟩, ⟨⟩, ⟨⟩, ⟨⟩⟩ := s
  obtain ⟨⟨⟩, ⟨⟩, ⟨⟩, ⟨⟩⟩ := t
  simp [settings, sections, Section.setting, trackerSection, queueSection, retrySection,
    loggingSection, modulesPart] at hsingle hmodules
  simp [hsingle, hmodules]

end EventRelay.Config
