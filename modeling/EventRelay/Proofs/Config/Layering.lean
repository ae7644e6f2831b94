import EventRelay.Config.Load
import EventRelay.Proofs.Config.Records

/-!
# Settings and layers

A configuration is put together from a user's file, an explicit file and variables, over the default
values.  As long as everything they say can be read as what it is for, the layers can be looked at path
by path: what one says at the path of a setting replaces what lower ones say there, and nothing else
counts.

* `said`, `highest` — what a source says at a path, and the highest of several that says anything.
* `WellTyped` — everything a source says can be read as what it is for.
* `valueAt_setAll` — **at the path of a setting a source replaces what was there if it says anything.**
* `Settings.Follows`, `ofFields_layers` — a configuration follows layers if every setting is what the
  highest layer says, and **well-typed layers describe a configuration that follows them**.
* `defaults_hold` — the default values are those of the record.
* `Settings.load_by_layers` — **what is loaded follows the files and the variables.**
-/

namespace EventRelay.Config

open Json (SortedKeys bind_ok)

/-! ## What a source says -/

/-- What a source says at a path: the last leaf that it puts there. -/
def said (source : Fields) (path : List String) : Option Value :=
  ((assignments source).reverse.map fun a => (lowerPath a.1, a.2)).lookup path

/-- The paths at which there can only be tables. -/
def tablePaths : List (List String) :=
  ["logging", "modules"] :: sections.map fun c => [c.name]

/-- A value can stand at a path: a table where there have to be tables, and what can be read as a
setting at the path of a setting. -/
structure Allowed (path : List String) (v : Value) : Prop where
  /-- A table where there have to be tables. -/
  table : path ∈ tablePaths → v.isTable = true
  /-- What can be read at the path of a setting. -/
  setting : ∀ c, IsSetting c → c.path = path → v.isTable = false ∧ ∃ x, c.convert v = .ok x

/-- A leaf can be put at a path: it can stand there, and what is on the way there are tables. -/
structure Fits (path : List String) (v : Value) : Prop extends Allowed path v where
  /-- No setting is on the way. -/
  free : ∀ c, IsSetting c → c.path <+: path → c.path = path

/-- Every value of a source can be read as what it is for. -/
def WellTyped (source : Fields) : Prop :=
  ∀ a ∈ assignments source, Fits (lowerPath a.1) a.2

/-! ## Paths of settings -/

theorem mem_settings {c : Setting} : c ∈ settings ↔
    ∃ sec ∈ sections, ∃ p ∈ sec.parts.all, p.name ≠ modulesPart.name ∧ sec.setting p = c := by
  simp only [settings, List.mem_flatMap, List.mem_map, List.mem_filter, decide_eq_true_eq, and_assoc]

/-- On the way to a setting there are tables. -/
theorem IsSetting.mem_tablePaths {c : Setting} (h : IsSetting c) {q : List String} (hq : q ≠ [])
    (hbefore : q <+: c.path) (hne : q ≠ c.path) : q ∈ tablePaths := by
  cases h with
  | single h =>
    obtain ⟨sec, hsec, p, -, -, rfl⟩ := mem_settings.1 h
    obtain rfl : q = [sec.name] := by
      rcases List.prefix_cons_iff.1 hbefore with rfl | ⟨q, rfl, hrest⟩
      · exact absurd rfl hq
      rcases List.prefix_cons_iff.1 hrest with rfl | ⟨q, rfl, hnil⟩
      · rfl
      · exact absurd (by rw [List.prefix_nil.1 hnil]; rfl) hne
    exact List.mem_cons_of_mem _ (List.mem_map_of_mem hsec)
  | module name =>
    rcases List.prefix_cons_iff.1 hbefore with rfl | ⟨q, rfl, hrest⟩
    · exact absurd rfl hq
    rcases List.prefix_cons_iff.1 hrest with rfl | ⟨q, rfl, hentry⟩
    · exact List.mem_cons_of_mem _ (by decide)
    rcases List.prefix_cons_iff.1 hentry with rfl | ⟨q, rfl, hnil⟩
    · exact List.mem_cons_self
    · exact absurd (by rw [List.prefix_nil.1 hnil]; rfl) hne

theorem path_length : ∀ c ∈ settings, c.path.length = 2 := by
  decide

/-- A setting is told by its path. -/
theorem eq_of_path {c d : Setting} (hc : c ∈ settings) (hd : d ∈ settings) (h : c.path = d.path) :
    c = d := by
  obtain ⟨sec, hsec, p, hp, -, rfl⟩ := mem_settings.1 hc
  obtain ⟨sec', hsec', q, hq, -, rfl⟩ := mem_settings.1 hd
  obtain ⟨hname, hpart⟩ := List.cons.inj h
  obtain rfl : sec = sec' := List.inj_on_of_nodup_map (f := Section.name) (by decide) hsec hsec' hname
  rw [Parts.eq_of_name hp hq (List.cons.inj hpart).1]

/-- What can be read as a setting fits at its path. -/
theorem fits_setting {c : Setting} (hc : c ∈ settings) {v : Value} (htable : v.isTable = false)
    (hv : ∃ x, c.convert v = .ok x) : Fits c.path v where
  table := fun h => absurd h ((by decide : ∀ c ∈ settings, c.path ∉ tablePaths) c hc)
  setting := by
    rintro d hd hpath
    cases hd with
    | single hd => exact ⟨htable, eq_of_path hd hc hpath ▸ hv⟩
    | module name =>
      have hlength := path_length c hc
      rw [← hpath] at hlength
      cases hlength
  free := by
    rintro d hd hbelow
    have hlength := hbelow.length_le
    rw [path_length c hc] at hlength
    cases hd with
    | single hd => exact hbelow.eq_of_length ((path_length d hd).trans (path_length c hc).symm)
    | module name => exact absurd hlength (by decide : ¬ 3 ≤ 2)

/-! ## Sources in parts -/

section Append

variable {A B : Fields} {key : String} {v : Value} {path : List String}

theorem assignments_append : assignments (A ++ B) = assignments A ++ assignments B :=
  List.flatMap_append

theorem said_append : said (A ++ B) path = (said B path).or (said A path) := by
  rw [said, assignments_append, List.reverse_append, List.map_append, List.lookup_append, said, said]

theorem wellTyped_append : WellTyped (A ++ B) ↔ WellTyped A ∧ WellTyped B := by
  rw [WellTyped, assignments_append]
  exact List.forall_mem_append

/-- A value that is no table is one leaf. -/
theorem assignments_singleton (htable : v.isTable = false) :
    assignments [(key, v)] = [((pathOf key).getD [key], v)] := by
  rw [assignments, List.flatMap_cons, List.flatMap_nil, List.append_nil]
  cases v with
  | table origin fs => cases htable
  | _ => rfl

end Append

/-! ## One leaf -/

section Leaf

variable {fs : Fields} {a : List String × Value} {c : Setting}

/-- At the path of a setting a leaf replaces what was there if it is for that path. -/
theorem valueAt_put (hleaf : a.2.IsLeaf) (hpath : a.1 ≠ []) (hfits : Fits (lowerPath a.1) a.2)
    (hc : IsSetting c) :
    valueAt (put fs a) c.path = if c.path = lowerPath a.1 then some a.2 else valueAt fs c.path := by
  rw [put]
  by_cases hself : c.path = lowerPath a.1
  · obtain ⟨htable, -⟩ := hfits.setting c hc hself
    rw [if_pos hself, hself, valueAt_setPath_self hleaf a.1 fs hpath, Value.over, htable]
    rfl
  rw [if_neg hself]
  by_cases hafter : lowerPath a.1 <+: c.path
  · have hlower : lowerPath a.1 ≠ [] := mt List.map_eq_nil_iff.1 hpath
    have htable := hfits.table (hc.mem_tablePaths hlower hafter (Ne.symm hself))
    rw [valueAt_setPath_beyond hleaf a.1 fs hpath hafter hself, htable]
    rfl
  · exact valueAt_setPath_unrelated hleaf a.1 fs hpath hafter fun hbefore =>
      hself (hfits.free c hc hbefore)

/-- What stands at every path can stand there. -/
def Shaped (fs : Fields) : Prop :=
  ∀ q v, valueAt fs q = some v → Allowed q v

/-- A leaf that fits keeps everything where it can stand. -/
theorem Shaped.put (hfs : Shaped fs) (hleaf : a.2.IsLeaf) (hpath : a.1 ≠ [])
    (hfits : Fits (lowerPath a.1) a.2) : Shaped (put fs a) := by
  intro q v hv
  rw [Config.put] at hv
  by_cases hself : q = lowerPath a.1
  · subst hself
    rw [valueAt_setPath_self hleaf a.1 fs hpath, Option.some.injEq, Value.over] at hv
    split at hv
    · rename_i htable
      -- An empty table changes no table that is there, and is one where there is none.
      cases hbelow : valueAt fs (lowerPath a.1) with
      | some w => exact hfs _ _ (by rw [hbelow, ← hv, hbelow]; rfl)
      | none =>
        rw [hbelow] at hv
        refine ⟨fun _ => hv ▸ rfl, fun c hc hcpath => ?_⟩
        have hno := (hfits.setting c hc hcpath).1
        rw [htable] at hno
        cases hno
    · exact hv ▸ hfits.toAllowed
  by_cases hafter : lowerPath a.1 <+: q
  · rw [valueAt_setPath_beyond hleaf a.1 fs hpath hafter hself] at hv
    split at hv
    · exact hfs q v hv
    · cases hv
  by_cases hbefore : q <+: lowerPath a.1
  · have hq : q ≠ [] := by
      rintro rfl
      rw [valueAt] at hv
      cases hv
    obtain ⟨gs, hgs⟩ := valueAt_setPath_before hleaf a.1 fs hq hbefore hself
    obtain rfl : Value.table none gs = v := Option.some.inj (hgs.symm.trans hv)
    exact ⟨fun _ => rfl, fun c hc hcpath => absurd (hcpath ▸ hfits.free c hc (hcpath ▸ hbefore)) hself⟩
  · rw [valueAt_setPath_unrelated hleaf a.1 fs hpath hafter hbefore] at hv
    exact hfs q v hv

end Leaf

/-! ## One source -/

section Source

variable {fs source : Fields} {c : Setting}

/-- Leaves that fit where they are put. -/
def Fitting (as : List (List String × Value)) : Prop :=
  ∀ a ∈ as, a.2.IsLeaf ∧ a.1 ≠ [] ∧ Fits (lowerPath a.1) a.2

theorem WellTyped.fitting (h : WellTyped source) : Fitting (assignments source) := fun a ha =>
  have ⟨hleaf, hpath⟩ := assignments_isLeaf a ha
  ⟨hleaf, hpath, h a ha⟩

theorem valueAt_foldl_put {as : List (List String × Value)} (has : Fitting as) (hc : IsSetting c) :
    valueAt (as.foldl put fs) c.path =
      ((as.reverse.map fun a => (lowerPath a.1, a.2)).lookup c.path).or (valueAt fs c.path) := by
  induction as generalizing fs with
  | nil => rfl
  | cons a as ih =>
    obtain ⟨hleaf, hpath, hfits⟩ := has a List.mem_cons_self
    rw [List.foldl_cons, ih fun b hb => has b (List.mem_cons_of_mem a hb),
      valueAt_put hleaf hpath hfits hc, List.reverse_cons, List.map_append, List.lookup_append,
      Option.or_assoc]
    congr 1
    by_cases hself : c.path = lowerPath a.1
    · rw [if_pos hself, List.map_singleton, List.lookup_cons, beq_iff_eq.2 hself]
      rfl
    · rw [if_neg hself, List.map_singleton, List.lookup_cons, beq_false_of_ne hself]
      rfl

/-- **At the path of a setting a source replaces what was there if it says anything.** -/
theorem valueAt_setAll (h : WellTyped source) (hc : IsSetting c) :
    valueAt (setAll fs source) c.path = (said source c.path).or (valueAt fs c.path) := by
  rw [setAll_eq]
  exact valueAt_foldl_put h.fitting hc

theorem Shaped.setAll (hfs : Shaped fs) (h : WellTyped source) : Shaped (setAll fs source) := by
  rw [setAll_eq]
  have has := h.fitting
  generalize assignments source = as at has
  induction as generalizing fs with
  | nil => exact hfs
  | cons a as ih =>
    obtain ⟨hleaf, hpath, hfits⟩ := has a List.mem_cons_self
    exact ih (hfs.put hleaf hpath hfits) fun b hb => has b (List.mem_cons_of_mem a hb)

end Source

/-! ## Layers of sources -/

section Layers

variable {layers : List Fields} {c : Setting}

/-- What the highest layer says that says anything at a path; the lowest layer comes first. -/
def highest (layers : List Fields) (path : List String) : Option Value :=
  layers.reverse.findSome? (said · path)

theorem valueAt_layers {fs : Fields} (h : ∀ source ∈ layers, WellTyped source) (hc : IsSetting c) :
    valueAt (layers.foldl setAll fs) c.path = (highest layers c.path).or (valueAt fs c.path) := by
  induction layers generalizing fs with
  | nil => rfl
  | cons source layers ih =>
    rw [List.foldl_cons, ih fun s hs => h s (List.mem_cons_of_mem source hs),
      valueAt_setAll (h source List.mem_cons_self) hc, highest, highest, List.reverse_cons,
      List.findSome?_append, Option.or_assoc]
    congr 1
    rw [List.findSome?_cons]
    cases said source c.path <;> rfl

theorem shaped_layers {fs : Fields} (hfs : Shaped fs) (h : ∀ source ∈ layers, WellTyped source) :
    Shaped (layers.foldl setAll fs) := by
  induction layers generalizing fs with
  | nil => exact hfs
  | cons source layers ih =>
    exact ih (hfs.setAll (h source List.mem_cons_self)) fun s hs => h s (List.mem_cons_of_mem source hs)

theorem tidy_layers {fs : Fields} (hfs : Tidy fs) : Tidy (layers.foldl setAll fs) := by
  induction layers generalizing fs with
  | nil => exact hfs
  | cons source layers ih => exact ih (hfs.setAll source)

end Layers

/-! ## The configuration of layers -/

/-- The table of modules as a whole. -/
def modulesTable : Setting :=
  loggingSection.setting modulesPart

theorem modulesPart_mem : modulesPart ∈ loggingSection.parts.all :=
  List.mem_of_getElem? (i := 5) rfl

theorem name_ne_modules : ∀ sec ∈ [trackerSection, queueSection, retrySection],
    ∀ p ∈ sec.parts.all, p.name ≠ modulesPart.name := by
  decide

/-- A part of a section has one value, or is the table of modules. -/
theorem setting_mem {sec : Section} (hsec : sec ∈ sections) {p : Part sec.Record}
    (hp : p ∈ sec.parts.all) : sec.setting p ∈ settings ∨ sec.setting p = modulesTable := by
  by_cases hname : p.name = modulesPart.name
  · right
    have hlogging : sec = loggingSection := by
      by_contra hne
      have hothers : sec ∈ [trackerSection, queueSection, retrySection] := by
        simpa [sections, hne] using hsec
      exact name_ne_modules sec hothers p hp hname
    subst hlogging
    rw [Parts.eq_of_name hp modulesPart_mem hname, modulesTable]
  · exact .inl (mem_settings.2 ⟨sec, hsec, p, hp, hname, rfl⟩)

theorem moduleSetting_convert {name : String} {v : Value} :
    (∃ x, (moduleSetting name).convert v = .ok x) ↔ ∃ t, v.toText = .ok t := by
  constructor
  · rintro ⟨x, hx⟩
    obtain ⟨t, ht, -⟩ := Json.map_eq_ok hx
    exact ⟨t, ht⟩
  · rintro ⟨t, ht⟩
    exact ⟨some t, congrArg (some <$> ·) ht⟩

theorem valueAt_modules {fs : Fields} {name : String} :
    valueAt fs ["logging", "modules", name] =
      (((valueAt fs ["logging", "modules"]).map Value.fields).getD []).lookup name := rfl

theorem modules_convert {fs : Fields} (htidy : Tidy fs) (hshaped : Shaped fs) {v : Value}
    (hv : valueAt fs ["logging", "modules"] = some v) :
    v.isTable = true ∧ SortedKeys v.fields ∧ ∃ ts, v.toTextTable = .ok ts := by
  have htable := (hshaped _ _ hv).table List.mem_cons_self
  have hfields : innerFields (innerFields fs "logging") "modules" = v.fields := by
    rw [innerFields, ← lookup_innerFields, hv]
    rfl
  have hkeys : SortedKeys v.fields :=
    hfields ▸ ((htidy.innerFields "logging").innerFields "modules").sorted
  refine ⟨htable, hkeys, ?_⟩
  cases v with
  | table origin gs =>
    refine toTextTable_ok hkeys fun name w hw => ?_
    have hat : valueAt fs ["logging", "modules", name] = some w := by
      rw [valueAt_modules, hv]
      exact hw
    exact moduleSetting_convert.1 ((hshaped _ _ hat).setting _ (.module name) rfl).2
  | _ => exact absurd htable Bool.false_ne_true

/-- **Fields in which everything stands where it can stand describe a configuration**, in which every
setting is what the value at its path says. -/
theorem ofFields_shaped {fs : Fields} (htidy : Tidy fs) (hshaped : Shaped fs) :
    ∃ s, Settings.ofFields fs = .ok s ∧ (∀ c, IsSetting c → c.Holds s (valueAt fs c.path)) ∧
      SortedKeys s.logging.modules := by
  obtain ⟨s, hs, hholds⟩ := ofFields_ok htidy
    (fun sec hsec v hv =>
      (hshaped [sec.name] v hv).table (List.mem_cons_of_mem _ (List.mem_map_of_mem hsec)))
    (fun sec hsec p hp v hv => by
      have hconvert : ∃ x, (sec.setting p).convert v = .ok x := by
        rcases setting_mem hsec hp with hsetting | hmodules
        · exact ((hshaped _ _ hv).setting _ (.single hsetting) rfl).2
        · have hpath : [sec.name, p.name] = ["logging", "modules"] := congrArg Setting.path hmodules
          rw [hmodules]
          exact (modules_convert htidy hshaped (hpath ▸ hv)).2.2
      exact hconvert)
  have hmodules : modulesTable.Holds s (valueAt fs ["logging", "modules"]) :=
    hholds loggingSection (by simp [sections]) modulesPart modulesPart_mem
  refine ⟨s, hs, fun c hc => ?_, modules_sorted (fun w hw => ?_) hmodules⟩
  · cases hc with
    | single hc =>
      obtain ⟨sec, hsec, p, hp, -, rfl⟩ := mem_settings.1 hc
      exact hholds sec hsec p hp
    | module name =>
      exact moduleSetting_holds (fun w hw => (modules_convert htidy hshaped hw).1) hmodules name
  · obtain ⟨htable, hkeys, -⟩ := modules_convert htidy hshaped hw
    exact ⟨htable, hkeys⟩

theorem shaped_nil : Shaped [] := fun q v hv => by
  rw [valueAt_nil] at hv
  cases hv

theorem Setting.Holds.get_eq {c : Setting} {s t : Settings} {v : Option Value} (hs : c.Holds s v)
    (ht : c.Holds t v) : c.get s = c.get t := by
  cases v with
  | none => exact hs.trans ht.symm
  | some v => exact Except.ok.inj (hs.symm.trans ht)

/-- A configuration in which every setting is what the highest layer says that says anything at its
path, and is its default where no layer does. -/
structure Settings.Follows (s : Settings) (layers : List Fields) : Prop where
  /-- Every setting is read from what is said. -/
  holds : ∀ c, IsSetting c → c.Holds s (highest layers c.path)
  /-- Modules are in key order. -/
  sorted : SortedKeys s.logging.modules

/-- There is no other configuration that follows the layers. -/
theorem Settings.Follows.unique {s t : Settings} {layers : List Fields} (hs : s.Follows layers)
    (ht : t.Follows layers) : s = t :=
  Settings.ext_of_settings
    (fun c hc => (hs.holds c (.single hc)).get_eq (ht.holds c (.single hc)))
    (Json.sortedKeys_ext hs.sorted ht.sorted fun name =>
      (hs.holds _ (.module name)).get_eq (ht.holds _ (.module name)))

/-- **Well-typed layers describe a configuration that follows them.** -/
theorem ofFields_layers (layers : List Fields) (h : ∀ source ∈ layers, WellTyped source) :
    ∃ s, Settings.ofFields (layers.foldl setAll []) = .ok s ∧ s.Follows layers := by
  obtain ⟨s, hs, hholds, hsorted⟩ := ofFields_shaped (tidy_layers Tidy.nil) (shaped_layers shaped_nil h)
  refine ⟨s, hs, fun c hc => ?_, hsorted⟩
  have hat := hholds c hc
  rw [valueAt_layers h hc, valueAt_nil, Option.or_none] at hat
  exact hat

/-! ## The default values -/

/-- What the default values say. -/
theorem assignments_defaultValues : assignments defaultValues =
    [(["tracker", "tracker_id"], .text none "waypost"),
     (["tracker", "application_id"], .text none "waypost-app"),
     (["tracker", "promise_timeout_ms"], .int none 5000),
     (["queue", "batch_size"], .int none 10),
     (["queue", "batch_delay_ms"], .int none 1000),
     (["queue", "concurrency"], .int none 4),
     (["queue", "store"], .text none "memory"),
     (["retry", "max_attempts"], .int none 10),
     (["retry", "min_timeout_ms"], .int none 1000),
     (["retry", "retry_factor"], .float none 2.0)] := by
  have hpath : defaultValues.map (fun f => pathOf f.1) =
    [some ["tracker", "tracker_id"], some ["tracker", "application_id"],
     some ["tracker", "promise_timeout_ms"], some ["queue", "batch_size"],
     some ["queue", "batch_delay_ms"], some ["queue", "concurrency"], some ["queue", "store"],
     some ["retry", "max_attempts"], some ["retry", "min_timeout_ms"],
     some ["retry", "retry_factor"]] := by decide +kernel
  simp only [defaultValues, List.map_cons, List.cons.injEq] at hpath
  simp [assignments, defaultValues, hpath, leaves]

theorem said_defaultValues (path : List String) :
    said defaultValues path = (assignments defaultValues).reverse.lookup path := by
  have hlower : (assignments defaultValues).map (fun a => lowerPath a.1) =
      (assignments defaultValues).map Prod.fst := by
    rw [assignments_defaultValues]
    decide +kernel
  have hsame : ∀ a ∈ assignments defaultValues, (lowerPath a.1, a.2) = a := fun a ha =>
    Prod.ext (List.map_inj_left.1 hlower a ha) rfl
  rw [said, List.map_reverse, List.map_congr_left hsame, List.map_id']

theorem store_default : StoreKind.ofValue (.text none "memory") = .ok .memory := by
  have hword : Text.lower "memory" = "memory" := by decide +kernel
  simp [StoreKind.ofValue, StoreKind.ofWord, hword]

theorem defaults_hold_part : ∀ sec ∈ sections, ∀ p ∈ sec.parts.all,
    (sec.setting p).Holds {} (said defaultValues [sec.name, p.name]) := by
  simp only [said_defaultValues, assignments_defaultValues]
  refine List.forall_mem_cons.2 ⟨?tracker, List.forall_mem_cons.2 ⟨?queue,
    List.forall_mem_cons.2 ⟨?retry, List.forall_mem_singleton.2 ?logging⟩⟩⟩
  case tracker =>
    exact List.forall_mem_cons.2 ⟨rfl, List.forall_mem_cons.2 ⟨rfl, List.forall_mem_cons.2 ⟨rfl,
      List.forall_mem_singleton.2 rfl⟩⟩⟩
  case queue =>
    exact List.forall_mem_cons.2 ⟨rfl, List.forall_mem_cons.2 ⟨rfl, List.forall_mem_cons.2 ⟨rfl,
      List.forall_mem_cons.2 ⟨store_default, List.forall_mem_singleton.2 rfl⟩⟩⟩⟩
  case retry =>
    exact List.forall_mem_cons.2 ⟨rfl, List.forall_mem_cons.2 ⟨rfl, List.forall_mem_cons.2 ⟨rfl,
      List.forall_mem_cons.2 ⟨rfl, List.forall_mem_singleton.2 rfl⟩⟩⟩⟩
  case logging =>
    exact List.forall_mem_cons.2 ⟨rfl, List.forall_mem_cons.2 ⟨rfl, List.forall_mem_cons.2 ⟨rfl,
      List.forall_mem_cons.2 ⟨rfl, List.forall_mem_cons.2 ⟨rfl,
        List.forall_mem_singleton.2 rfl⟩⟩⟩⟩⟩

/-- **The default values are those of the record.** -/
theorem defaults_hold {c : Setting} (hc : IsSetting c) : c.Holds {} (said defaultValues c.path) := by
  cases hc with
  | single hc =>
    obtain ⟨sec, hsec, p, hp, -, rfl⟩ := mem_settings.1 hc
    exact defaults_hold_part sec hsec p hp
  | module name =>
    rw [said_defaultValues, assignments_defaultValues]
    rfl

theorem isOk_iff {ε α : Type} {r : Except ε α} : r.isOk = true ↔ ∃ x, r = .ok x := by
  cases r with
  | error e => simp [Except.isOk, Except.toBool]
  | ok x => simp [Except.isOk, Except.toBool]

/-- Whether a leaf fits can be computed. -/
theorem fits_iff {path : List String} {v : Value} : Fits path v ↔
    (path ∈ tablePaths → v.isTable = true) ∧
    (∀ c ∈ settings, c.path <+: path →
      c.path = path ∧ v.isTable = false ∧ (c.convert v).isOk = true) ∧
    (["logging", "modules"] <+: path → path.length ≤ 3 ∧
      (path.length = 3 → v.isTable = false ∧ v.toText.isOk = true)) := by
  constructor
  · intro h
    refine ⟨h.table, fun c hc hbelow => ?_, ?_⟩
    · have hpath := h.free c (.single hc) hbelow
      obtain ⟨htable, hok⟩ := h.setting c (.single hc) hpath
      exact ⟨hpath, htable, isOk_iff.2 hok⟩
    · rintro ⟨rest, rfl⟩
      cases rest with
      | nil => exact ⟨by simp, fun hlength => absurd hlength (by simp)⟩
      | cons name rest =>
        have hpath := h.free _ (.module name) ⟨rest, rfl⟩
        obtain ⟨htable, hok⟩ := h.setting _ (.module name) hpath
        obtain rfl : [] = rest := by simpa [moduleSetting] using hpath
        exact ⟨by simp, fun _ => ⟨htable, isOk_iff.2 (moduleSetting_convert.1 hok)⟩⟩
  · rintro ⟨htable, hsettings, hmodules⟩
    have hmodule (name : String) (hbelow : (moduleSetting name).path <+: path) :
        (moduleSetting name).path = path ∧ v.isTable = false ∧ v.toText.isOk = true := by
      obtain ⟨rest, rfl⟩ := hbelow
      obtain ⟨hlength, hvalue⟩ := hmodules ⟨name :: rest, rfl⟩
      obtain rfl : rest = [] := List.eq_nil_of_length_eq_zero <| by
        rw [List.length_append] at hlength
        have hthree : (moduleSetting name).path.length = 3 := rfl
        omega
      exact ⟨(List.append_nil _).symm, hvalue rfl⟩
    refine ⟨⟨htable, fun c hc hpath => ?_⟩, fun c hc hbelow => ?_⟩
    · cases hc with
      | single hc =>
        obtain ⟨-, hno, hok⟩ := hsettings c hc (hpath ▸ List.prefix_rfl)
        exact ⟨hno, isOk_iff.1 hok⟩
      | module name =>
        obtain ⟨-, hno, hok⟩ := hmodule name (hpath ▸ List.prefix_rfl)
        exact ⟨hno, moduleSetting_convert.2 (isOk_iff.1 hok)⟩
    · cases hc with
      | single hc => exact (hsettings c hc hbelow).1
      | module name => exact (hmodule name hbelow).1

instance (path : List String) (v : Value) : Decidable (Fits path v) :=
  decidable_of_iff _ fits_iff.symm

instance (source : Fields) : Decidable (WellTyped source) :=
  inferInstanceAs (Decidable (∀ a ∈ assignments source, Fits (lowerPath a.1) a.2))

theorem wellTyped_defaultValues : WellTyped defaultValues := by
  decide +kernel

/-! ## Files and variables -/

/-- **So do they over the default values.** -/
theorem ofLayers_ok {layers : List Fields} (h : ∀ source ∈ layers, WellTyped source) :
    ∃ s, Settings.ofLayers layers = .ok s ∧ s.Follows layers := by
  obtain ⟨s, hs, hfollows⟩ := ofFields_layers (defaultValues :: layers)
    (List.forall_mem_cons.2 ⟨wellTyped_defaultValues, h⟩)
  refine ⟨s, hs, fun c hc => ?_, hfollows.sorted⟩
  have hat := hfollows.holds c hc
  have hsplit : highest (defaultValues :: layers) c.path =
      (highest layers c.path).or (said defaultValues c.path) := by
    rw [highest, highest, List.reverse_cons, List.findSome?_append, List.findSome?_singleton]
  rw [hsplit] at hat
  cases hsaid : highest layers c.path with
  | some v =>
    rw [hsaid] at hat
    exact hat
  | none =>
    rw [hsaid] at hat
    exact hat.get_eq (defaults_hold hc)

/-- The layer of the user's file, which need not be there. -/
def userLayer (user : Option SourceFile) : Except LoadError Fields :=
  match user with
  | none => .ok []
  | some f => f.layer

/-- The layer of an explicit file, which must be there if one is given. -/
def Explicit.layer : Explicit → Except LoadError Fields
  | .none => .ok []
  | .missing name => .error (.notFound name)
  | .file f => f.layer

theorem setAll_nil (fs : Fields) : setAll fs [] = fs := rfl

theorem load_eq {user : Option SourceFile} {explicit : Explicit} {env : List (String × String)}
    {U F : Fields} (hU : userLayer user = .ok U) (hF : explicit.layer = .ok F) :
    Settings.load user explicit env = Settings.ofLayers [U, F, variableLayer env] := by
  cases explicit with
  | missing name => cases hF
  | none =>
    obtain rfl : [] = F := Except.ok.inj hF
    show (user.toList.mapM SourceFile.layer >>= fun layers =>
      Settings.ofLayers (layers ++ [variableLayer env])) = _
    cases user with
    | none =>
      obtain rfl : [] = U := Except.ok.inj hU
      simp only [Option.toList_none, List.mapM_nil, pure_bind, Settings.ofLayers, List.nil_append,
        List.foldl_cons, List.foldl_nil, setAll_nil]
    | some g =>
      have hg : g.layer = .ok U := hU
      rw [Option.toList_some, List.mapM_cons, bind_assoc, bind_ok hg]
      simp only [List.mapM_nil, pure_bind, Settings.ofLayers, List.singleton_append,
        List.foldl_cons, List.foldl_nil, setAll_nil]
  | file f =>
    have hf : f.layer = .ok F := hF
    show ((user.toList ++ [f]).mapM SourceFile.layer >>= fun layers =>
      Settings.ofLayers (layers ++ [variableLayer env])) = _
    cases user with
    | none =>
      obtain rfl : [] = U := Except.ok.inj hU
      rw [Option.toList_none, List.nil_append, List.mapM_cons, bind_assoc, bind_ok hf]
      simp only [List.mapM_nil, pure_bind, Settings.ofLayers, List.singleton_append,
        List.foldl_cons, List.foldl_nil, setAll_nil]
    | some g =>
      have hg : g.layer = .ok U := hU
      rw [Option.toList_some, List.singleton_append, List.mapM_cons, bind_assoc, bind_ok hg,
        List.mapM_cons, bind_assoc, bind_assoc, bind_ok hf]
      simp only [List.mapM_nil, pure_bind, List.cons_append, List.nil_append]

theorem loadFile_eq {explicit : Explicit} {F : Fields} (hF : explicit.layer = .ok F) :
    Settings.loadFile explicit = Settings.ofLayers [F] := by
  cases explicit with
  | none =>
    obtain rfl : [] = F := Except.ok.inj hF
    simp only [Settings.loadFile, Settings.ofLayers, List.foldl_cons, List.foldl_nil, setAll_nil]
  | missing name => cases hF
  | file f =>
    have hf : f.layer = .ok F := hF
    rw [Settings.loadFile, bind_ok hf]

/-- Sources can be read, and what they say is well-typed. -/
structure Sourced (user : Option SourceFile) (explicit : Explicit) (env : List (String × String))
    (U F : Fields) : Prop where
  /-- The layer of the user's file. -/
  user : userLayer user = .ok U
  /-- The layer of the explicit file. -/
  explicit : explicit.layer = .ok F
  /-- All layers are well-typed. -/
  typed : ∀ source ∈ [U, F, variableLayer env], WellTyped source

/-- **Every setting is what the highest layer says that says anything.**  Over the default values lie
the user's file, the explicit file and the variables.  If they are well-typed, there is a configuration,
and every setting of it

* is read from what the variables say at its path, or else the explicit file, or else the user's file,
  and has the default of the record if none of them says anything;
* is the same for all sources that say the same at its path, whatever they say at others.

A file alone gives what it describes without the default values under it. -/
theorem Settings.load_by_layers {user : Option SourceFile} {explicit : Explicit}
    {env : List (String × String)} {U F : Fields} (h : Sourced user explicit env U F) :
    (∃ s, Settings.load user explicit env = .ok s ∧ s.Follows [U, F, variableLayer env] ∧
      ∀ (user' : Option SourceFile) (explicit' : Explicit) (env' : List (String × String))
        (U' F' : Fields) (s' : Settings), Sourced user' explicit' env' U' F' →
        Settings.load user' explicit' env' = .ok s' →
        ∀ c, IsSetting c → said U' c.path = said U c.path → said F' c.path = said F c.path →
          said (variableLayer env') c.path = said (variableLayer env) c.path → c.get s' = c.get s) ∧
    ∃ s, Settings.loadFile explicit = .ok s ∧ Settings.ofFields (setAll [] F) = .ok s ∧
      s.Follows [F] := by
  have hF : WellTyped F := h.typed F (by simp)
  refine ⟨?layered, ?alone⟩
  case layered =>
    obtain ⟨s, hs, hfollows⟩ := ofLayers_ok h.typed
    refine ⟨s, (load_eq h.user h.explicit).trans hs, hfollows, ?_⟩
    intro user' explicit' env' U' F' s' h' hs' c hc hU hF hE
    obtain ⟨t, ht, hfollows'⟩ := ofLayers_ok h'.typed
    obtain rfl : s' = t := Except.ok.inj (hs'.symm.trans ((load_eq h'.user h'.explicit).trans ht))
    have hsame : highest [U', F', variableLayer env'] c.path = highest [U, F, variableLayer env] c.path := by
      simp only [highest, List.reverse_cons, List.reverse_nil, List.nil_append, List.cons_append,
        List.findSome?_cons, hU, hF, hE]
    exact (hsame ▸ hfollows'.holds c hc).get_eq (hfollows.holds c hc)
  case alone =>
    have htyped : ∀ source ∈ [F], WellTyped source := List.forall_mem_singleton.2 hF
    obtain ⟨s, hs, hfollows⟩ := ofFields_layers [F] htyped
    obtain ⟨t, ht, htfollows⟩ := ofLayers_ok htyped
    obtain rfl : s = t := hfollows.unique htfollows
    exact ⟨s, (loadFile_eq h.explicit).trans ht, hs, hfollows⟩

/-! ## An example -/

/-- Reads a layer, and looks whether it is well-typed. -/
def readsTyped (layer : Except LoadError Fields) : Bool :=
  layer.toOption.any fun fs => decide (WellTyped fs)

theorem readsTyped_iff {layer : Except LoadError Fields} :
    readsTyped layer = true ↔ ∃ fs, layer = .ok fs ∧ WellTyped fs := by
  cases layer <;> simp [readsTyped, Except.toOption]

/-- A user's file that names the tracker and the application. -/
def exampleUser : SourceFile :=
  ⟨"config.toml", "/home/user/config.toml", "[tracker]\ntracker_id = \"u\"\napplication_id = \"u\"\n"⟩

/-- An explicit file that names the tracker. -/
def exampleFile : SourceFile :=
  ⟨"f.toml", "/f.toml", "[tracker]\ntracker_id = \"f\"\n"⟩

/-- A variable of the queue. -/
def exampleVariables : List (String × String) :=
  [("WAYPOST_QUEUE__CONCURRENCY", "7")]

theorem exampleSourced :
    ∃ U F, Sourced (some exampleUser) (.file exampleFile) exampleVariables U F := by
  obtain ⟨U, hU, hUtyped⟩ := readsTyped_iff.1
    (by decide +kernel : readsTyped (userLayer (some exampleUser)) = true)
  obtain ⟨F, hF, hFtyped⟩ := readsTyped_iff.1
    (by decide +kernel : readsTyped (Explicit.file exampleFile).layer = true)
  have hEtyped : WellTyped (variableLayer exampleVariables) := by decide +kernel
  exact ⟨U, F, hU, hF, List.forall_mem_cons.2 ⟨hUtyped, List.forall_mem_cons.2 ⟨hFtyped,
    List.forall_mem_singleton.2 hEtyped⟩⟩⟩

/-- The tracker is named by the explicit file, the application by the user's file, and the rest are
defaults, except for the variable. -/
theorem Settings.load_by_layers_example : ∃ U F s,
    Sourced (some exampleUser) (.file exampleFile) exampleVariables U F ∧
    Settings.load (some exampleUser) (.file exampleFile) exampleVariables = .ok s ∧
    s.Follows [U, F, variableLayer exampleVariables] ∧
    s.tracker = { trackerId := "f", applicationId := "u" } ∧ s.queue.concurrency = 7 := by
  obtain ⟨U, F, hsources⟩ := exampleSourced
  obtain ⟨⟨s, hs, hfollows, -⟩, -⟩ := Settings.load_by_layers hsources
  have hvalues : ((Settings.load (some exampleUser) (.file exampleFile) exampleVariables).toOption.map
      fun s => (s.tracker, s.queue.concurrency)) = some (⟨"f", "u", none, 5000⟩, 7) := by
    decide +kernel
  rw [hs] at hvalues
  simp only [Except.toOption, Option.map_some, Option.some.injEq, Prod.mk.injEq] at hvalues
  exact ⟨U, F, s, hsources, hs, hfollows, hvalues⟩

/-- A file that says what is logged of one part of the program. -/
def moduleFile : SourceFile :=
  ⟨"a.toml", "/a.toml", "[logging.modules]\nMyApp = \"debug\"\n"⟩

/-- Names of parts of the program are taken in lower case, like every key: a well-typed file that names
one otherwise does not get an entry of this name. -/
theorem module_names_in_lower_case : ∃ F s,
    moduleFile.layer = .ok F ∧ WellTyped F ∧
    (valueAt F ["logging", "modules", "MyApp"]).bind (·.toText.toOption) = some "debug" ∧
    Settings.loadFile (.file moduleFile) = .ok s ∧
    s.logging.modules.lookup "MyApp" = none ∧ s.logging.modules = [("myapp", "debug")] := by
  obtain ⟨F, hF, hFtyped⟩ := readsTyped_iff.1 (by decide +kernel : readsTyped moduleFile.layer = true)
  have hwritten : (moduleFile.layer.toOption.bind fun F =>
      (valueAt F ["logging", "modules", "MyApp"]).bind (·.toText.toOption)) = some "debug" := by
    decide +kernel
  have hloaded : (Settings.loadFile (.file moduleFile)).toOption.map (·.logging.modules) =
      some [("myapp", "debug")] := by
    decide +kernel
  rw [hF] at hwritten
  cases hs : Settings.loadFile (.file moduleFile) with
  | error e =>
    rw [hs] at hloaded
    cases hloaded
  | ok s =>
    rw [hs] at hloaded
    have hmodules : s.logging.modules = [("myapp", "debug")] := Option.some.inj hloaded
    exact ⟨F, s, hF, hFtyped, hwritten, rfl, by rw [hmodules]; decide, hmodules⟩

end EventRelay.Config
