import EventRelay.Proofs.Event.Canonical
import EventRelay.Proofs.Event.Forms
import Mathlib.Tactic.MkIffOfInductiveProp

/-!
# The event format

What a text has to say to be read as an event, and what is read then, without a reader: which keys have
to come, how often and with which values.

* `Context.Described`, `Context.Format` — **an object that describes a context**, and nothing else does.
* `Partial.addAll_eq_ok`, `Context.ofTree_eq_ok` — a context is read exactly from such an object.
* `Event.Part`, `Event.Format` — an object or an array of the five parts of an event.
* `Event.fields_read` — every field reads its own part.
* `Event.accepts_exactly_the_format` — **the event reader accepts exactly the event format**.
-/

namespace EventRelay

open Json

/-! ## Contexts -/

namespace Context

/-- The members of an object describe the context: `_type` and `id` come once and are texts, and the
attributes are the other keys, each with its last value. -/
structure Described (c : Context) (members : List (Quoted × Tree)) : Prop where
  /-- The type name. -/
  typeName : Tree.Once "_type" (.str (.ok c.typeName)) members
  /-- The id. -/
  id : Tree.Once "id" (.str (.ok c.id)) members
  /-- The attributes are in key order. -/
  sorted : SortedKeys c.attributes
  /-- The attributes. -/
  attributes : ∀ key, c.attribute? key =
    if isReserved key then none else (Tree.lastNamed key members).map Tree.content

/-- The tree is an object that describes the context. -/
def Format (t : Tree) (c : Context) : Prop :=
  ∃ members, t = .obj members none ∧ c.Described members

/-- The members that are attributes. -/
def attributeMembers (ms : List (Quoted × Tree)) : List (Quoted × Tree) :=
  ms.filter fun m => !(m.1.toOption.any isReserved)

/-- What has been read of a reserved key: a text that was read before does not come again, and nothing
or one text comes otherwise. -/
def Gathers (name : String) (before : Option String) (ms : List (Quoted × Tree))
    (after : Option String) : Prop :=
  match before with
  | some s => Tree.Absent name ms ∧ after = some s
  | none => Tree.Absent name ms ∧ after = none ∨
      ∃ s, Tree.Once name (.str (.ok s)) ms ∧ after = some s

section Gathers

variable {name key : String} {before after : Option String} {t : Tree} {ms : List (Quoted × Tree)}

theorem gathers_nil : Gathers name before [] after ↔ after = before := by
  cases before <;> simp [Gathers, Tree.Absent, Tree.Once]

theorem gathers_some {s : String} (h : Gathers name none ms (some s)) :
    Tree.Once name (.str (.ok s)) ms := by
  rcases h with ⟨-, h⟩ | ⟨_, honce, h⟩
  · cases h
  · cases h
    exact honce

theorem gathers_cons_of_ne (h : key ≠ name) :
    Gathers name before ((.ok key, t) :: ms) after ↔ Gathers name before ms after := by
  cases before <;> simp only [Gathers, Tree.absent_cons_of_ne h, Tree.once_cons_of_ne h]

theorem gathers_cons_self :
    Gathers name before ((.ok name, t) :: ms) after ↔
      before = none ∧ ∃ s, t = .str (.ok s) ∧ Gathers name (some s) ms after := by
  cases before with
  | some s => simp [Gathers, Tree.absent_cons_self]
  | none => simp [Gathers, Tree.absent_cons_self, Tree.once_cons_self, and_assoc]

theorem attributeMembers_cons_reserved (h : isReserved key = true) :
    attributeMembers ((.ok key, t) :: ms) = attributeMembers ms :=
  List.filter_cons_of_neg (by simp [Except.toOption, h])

theorem attributeMembers_cons_free (h : isReserved key = false) :
    attributeMembers ((.ok key, t) :: ms) = (.ok key, t) :: attributeMembers ms :=
  List.filter_cons_of_pos (by simp [Except.toOption, h])

end Gathers

theorem asString_then {α : Type} {f : String → α} {a : α} {t : Tree} :
    f <$> t.asString = .ok a ↔ ∃ s, t = .str (.ok s) ∧ a = f s := by
  constructor
  · intro h
    obtain ⟨s, hs, rfl⟩ := map_eq_ok h
    exact ⟨s, Tree.asText_eq_ok.1 hs, rfl⟩
  · rintro ⟨s, rfl, rfl⟩
    rfl

section Members

variable {room : Nat} {p q : Partial} {key : String} {t : Tree} {ms : List (Quoted × Tree)}

/-- The type name is read once, from a text. -/
theorem Partial.add_type : p.add room "_type" t = .ok q ↔
    p.typeName = none ∧ ∃ s, t = .str (.ok s) ∧ q = { p with typeName := some s } := by
  rw [Partial.add, if_pos rfl]
  cases p.typeName <;> simp [asString_then]

/-- So is the id. -/
theorem Partial.add_id : p.add room "id" t = .ok q ↔
    p.id = none ∧ ∃ s, t = .str (.ok s) ∧ q = { p with id := some s } := by
  rw [Partial.add, if_neg (by decide), if_pos rfl]
  cases p.id <;> simp [asString_then]

/-- Everything else is an attribute. -/
theorem Partial.add_attribute (h : isReserved key = false) : p.add room key t = .ok q ↔
    t.Within room ∧ q = { p with attributes := Json.insertField key t.content p.attributes } := by
  obtain ⟨htype, hid⟩ := isReserved_eq_false.1 h
  rw [Partial.add, if_neg htype, if_neg hid, bind_eq_ok_iff]
  simp only [Tree.toJson_eq_ok]
  constructor
  · rintro ⟨v, ⟨hwithin, rfl⟩, ⟨⟩⟩
    exact ⟨hwithin, rfl⟩
  · rintro ⟨hwithin, rfl⟩
    exact ⟨_, ⟨hwithin, rfl⟩, rfl⟩

/-- **What members add to a context**: each of the reserved keys at most once, and the attributes. -/
theorem Partial.addAll_eq_ok : p.addAll room ms = .ok q ↔
    Tree.WithinMembers room ms ∧
      Gathers "_type" p.typeName ms q.typeName ∧ Gathers "id" p.id ms q.id ∧
      q.attributes = Tree.memberContents p.attributes (attributeMembers ms) := by
  induction ms generalizing p with
  | nil =>
    obtain ⟨typeName, id, attributes⟩ := p
    obtain ⟨typeName', id', attributes'⟩ := q
    simp only [Partial.addAll, Tree.WithinMembers, gathers_nil, attributeMembers, List.filter_nil,
      Tree.memberContents, Except.ok.injEq, Partial.mk.injEq, true_and]
    tauto
  | cons m ms ih =>
    obtain ⟨k, t⟩ := m
    rw [Partial.addAll, bind_eq_ok_iff, Tree.WithinMembers]
    cases k with
    | error f => simp [Tree.read_eq_ok]
    | ok key =>
      simp only [Tree.read_eq_ok, Except.ok.injEq, exists_eq_left', bind_eq_ok_iff, ih]
      by_cases htype : key = "_type"
      · subst htype
        have hreserved : isReserved "_type" = true := by decide
        simp only [Partial.add_type, gathers_cons_self, attributeMembers_cons_reserved hreserved,
          gathers_cons_of_ne (by decide : "_type" ≠ "id")]
        constructor
        · rintro ⟨_, ⟨hnone, s, rfl, rfl⟩, hms, htype, hid, hattributes⟩
          exact ⟨⟨⟨_, rfl⟩, ⟨s, rfl⟩, hms⟩, ⟨hnone, s, rfl, htype⟩, hid, hattributes⟩
        · rintro ⟨⟨-, -, hms⟩, ⟨hnone, s, rfl, htype⟩, hid, hattributes⟩
          exact ⟨_, ⟨hnone, s, rfl, rfl⟩, hms, htype, hid, hattributes⟩
      by_cases hid : key = "id"
      · subst hid
        have hreserved : isReserved "id" = true := by decide
        simp only [Partial.add_id, gathers_cons_self, attributeMembers_cons_reserved hreserved,
          gathers_cons_of_ne (by decide : "id" ≠ "_type")]
        constructor
        · rintro ⟨_, ⟨hnone, s, rfl, rfl⟩, hms, htype, hid, hattributes⟩
          exact ⟨⟨⟨_, rfl⟩, ⟨s, rfl⟩, hms⟩, htype, ⟨hnone, s, rfl, hid⟩, hattributes⟩
        · rintro ⟨⟨-, -, hms⟩, htype, ⟨hnone, s, rfl, hid⟩, hattributes⟩
          exact ⟨_, ⟨hnone, s, rfl, rfl⟩, hms, htype, hid, hattributes⟩
      · have hfree := isReserved_eq_false.2 ⟨htype, hid⟩
        simp only [Partial.add_attribute hfree, gathers_cons_of_ne htype, gathers_cons_of_ne hid,
          attributeMembers_cons_free hfree, Tree.memberContents]
        constructor
        · rintro ⟨_, ⟨hwithin, rfl⟩, hms, hrest⟩
          exact ⟨⟨⟨_, rfl⟩, hwithin, hms⟩, hrest⟩
        · rintro ⟨⟨-, hwithin, hms⟩, hrest⟩
          exact ⟨_, ⟨hwithin, rfl⟩, hms, hrest⟩

theorem Partial.finish_eq_ok_iff {c : Context} : p.finish = .ok c ↔
    p.typeName = some c.typeName ∧ p.id = some c.id ∧ p.attributes = c.attributes := by
  obtain ⟨typeName, id, attributes⟩ := p
  obtain ⟨typeName', id', attributes'⟩ := c
  cases typeName <;> cases id <;> simp [Partial.finish]

end Members

theorem lastNamed_attributeMembers {key : String} {ms : List (Quoted × Tree)} :
    Tree.lastNamed key (attributeMembers ms) =
      if isReserved key then none else Tree.lastNamed key ms := by
  have hnamed : ∀ {m : Quoted × Tree}, Tree.isNamed key m = true →
      m.1.toOption.any isReserved = isReserved key := by
    intro m hm
    rw [Tree.isNamed, beq_iff_eq] at hm
    rw [hm, Option.any_some]
  rw [Tree.lastNamed, attributeMembers, List.filter_filter]
  split
  · rename_i hreserved
    have hnone : ms.filter (fun m => Tree.isNamed key m && !(m.1.toOption.any isReserved)) = [] := by
      refine List.filter_eq_nil_iff.2 fun m _ h => ?_
      obtain ⟨hm, hfree⟩ := Bool.and_eq_true_iff.1 h
      rw [hnamed hm, hreserved] at hfree
      cases hfree
    rw [hnone]
    rfl
  · rename_i hfree
    rw [Tree.lastNamed]
    congr 2
    refine List.filter_congr fun m _ => ?_
    cases hm : Tree.isNamed key m with
    | false => rfl
    | true => simp [hnamed hm, hfree]

theorem withinMembers_attributeMembers {room : Nat} {ms : List (Quoted × Tree)}
    (h : Tree.WithinMembers room ms) : Tree.WithinMembers room (attributeMembers ms) :=
  Tree.withinMembers_iff.2 fun m hm => Tree.withinMembers_iff.1 h m (List.mem_filter.1 hm).1

/-- The attributes of a context, key by key. -/
theorem attributes_eq_iff {room : Nat} {ms : List (Quoted × Tree)} (h : Tree.WithinMembers room ms)
    {c : Context} :
    c.attributes = Tree.memberContents [] (attributeMembers ms) ↔
      SortedKeys c.attributes ∧ ∀ key, c.attribute? key =
        if isReserved key then none else (Tree.lastNamed key ms).map Tree.content := by
  have hlookup : ∀ key, (Tree.memberContents [] (attributeMembers ms)).lookup key =
      if isReserved key then none else (Tree.lastNamed key ms).map Tree.content := by
    intro key
    rw [Tree.lookup_memberContents (withinMembers_attributeMembers h), lastNamed_attributeMembers]
    split <;> simp
  have hsorted : SortedKeys (Tree.memberContents [] (attributeMembers ms)) :=
    Tree.memberContents_sorted List.Pairwise.nil
  constructor
  · intro heq
    refine ⟨heq ▸ hsorted, fun key => ?_⟩
    rw [attribute?, heq, hlookup]
  · rintro ⟨hown, hkeys⟩
    exact sortedKeys_ext hown hsorted fun key => (hkeys key).trans (hlookup key).symm

/-- **A context is read exactly from an object that describes it**, within the limits. -/
theorem ofTree_eq_ok {room : Nat} {t : Tree} {c : Context} :
    ofTree room t = .ok c ↔ t.Within room ∧ Format t c := by
  unfold ofTree
  split
  · rename_i members stop
    simp only [bind_eq_ok_iff, Tree.openBracket_eq_ok_iff, Tree.closing_eq_ok, Partial.addAll_eq_ok,
      Partial.finish_eq_ok_iff]
    constructor
    · rintro ⟨_, ⟨hroom, rfl⟩, p, ⟨hms, htype, hid, hattributes⟩, -, rfl, htype', hid', hattributes'⟩
      obtain ⟨hsorted, hkeys⟩ := (attributes_eq_iff hms).1 (hattributes'.symm.trans hattributes)
      refine ⟨⟨hroom, hms, rfl⟩, members, rfl, ?_, ?_, hsorted, hkeys⟩
      · exact gathers_some (htype' ▸ htype)
      · exact gathers_some (hid' ▸ hid)
    · rintro ⟨⟨hroom, hms, -⟩, _, ⟨⟩, htype, hid, hsorted, hkeys⟩
      refine ⟨_, ⟨hroom, rfl⟩, ⟨some c.typeName, some c.id, c.attributes⟩, ⟨hms, ?_, ?_, ?_⟩, (), rfl,
        rfl, rfl, rfl⟩
      · exact Or.inr ⟨_, htype, rfl⟩
      · exact Or.inr ⟨_, hid, rfl⟩
      · exact (attributes_eq_iff hms).2 ⟨hsorted, hkeys⟩
  · rename_i hother
    refine ⟨fun h => absurd h (refuse_ne_ok _ _ _), ?_⟩
    rintro ⟨-, members, rfl, -⟩
    exact absurd rfl (hother members none)

/-- One object does not describe two contexts. -/
theorem Format.unique {t : Tree} {c c' : Context} (h : Format t c) (h' : Format t c') : c = c' := by
  obtain ⟨members, rfl, h⟩ := h
  obtain ⟨_, ⟨⟩, h'⟩ := h'
  have htype := h.typeName.unique h'.typeName
  have hid := h.id.unique h'.id
  have hattributes := sortedKeys_ext h.sorted h'.sorted fun key =>
    (h.attributes key).trans (h'.attributes key).symm
  obtain ⟨typeName, id, attributes⟩ := c
  obtain ⟨typeName', id', attributes'⟩ := c'
  cases htype
  cases hid
  cases hattributes
  rfl

end Context

/-! ## Events -/

namespace Event

/-- The names of the five fields, in the order of an array. -/
def fieldNames : List String :=
  ["_type", "id", "time", "location_stack", "global_contexts"]

/-- What the value of a field has to be. -/
@[mk_iff part_iff]
inductive Part (e : Event) : String → Tree → Prop
  /-- The type is a text. -/
  | eventType : Part e "_type" (.str (.ok e.eventType))
  /-- The id is a text in one of its four forms. -/
  | id {s : String} (h : EventId.Form s.toList e.id) : Part e "id" (.str (.ok s))
  /-- The time is a natural number, so one below `2 ^ 64`. -/
  | time {l : Literal} (h : l.Natural e.time.toNat) : Part e "time" (.num l)
  /-- The locations are an array of contexts. -/
  | locationStack {ts : List Tree} (h : List.Forall₂ Context.Format ts e.locationStack) :
      Part e "location_stack" (.arr ts none)
  /-- So are the global contexts. -/
  | globalContexts {ts : List Tree} (h : List.Forall₂ Context.Format ts e.globalContexts) :
      Part e "global_contexts" (.arr ts none)

/-- **The event format**: an object in which each of the five fields comes once, or an array of the five
values. -/
def Format (t : Tree) (e : Event) : Prop :=
  t.RecordFormat Part fieldNames e

theorem fields_names : fields.map (·.name) = fieldNames := rfl

theorem asList_contexts_eq_ok {room : Nat} {t : Tree} {cs : List Context} :
    t.asList room Context.ofTree = .ok cs ↔
      t.Within room ∧ ∃ ts, t = .arr ts none ∧ List.Forall₂ Context.Format ts cs :=
  Tree.asList_eq_ok fun _ _ _ => Context.ofTree_eq_ok

/-- The part of a field is fixed by what the event holds there. -/
theorem Part.transfer {e e' : Event} {name : String} {t : Tree} (h : e.Part name t)
    (htype : name = "_type" → e'.eventType = e.eventType) (hid : name = "id" → e'.id = e.id)
    (htime : name = "time" → e'.time = e.time)
    (hlocations : name = "location_stack" → e'.locationStack = e.locationStack)
    (hglobals : name = "global_contexts" → e'.globalContexts = e.globalContexts) : e'.Part name t := by
  cases h with
  | eventType => rw [← htype rfl]; exact .eventType
  | id h => exact .id (hid rfl ▸ h)
  | time h => exact .time (htime rfl ▸ h)
  | locationStack h => exact .locationStack (hlocations rfl ▸ h)
  | globalContexts h => exact .globalContexts (hglobals rfl ▸ h)

section Parts

variable {e : Event} {t : Tree}

theorem part_type : e.Part "_type" t ↔ t = .str (.ok e.eventType) := by
  simp [part_iff]

theorem part_id : e.Part "id" t ↔ ∃ s : String, t = .str (.ok s) ∧ EventId.Form s.toList e.id := by
  simp [part_iff, and_comm]

theorem part_time : e.Part "time" t ↔ ∃ l, t = .num l ∧ l.Natural e.time.toNat := by
  simp [part_iff, and_comm]

theorem part_locations : e.Part "location_stack" t ↔
    ∃ ts, t = .arr ts none ∧ List.Forall₂ Context.Format ts e.locationStack := by
  simp [part_iff, and_comm]

theorem part_globals : e.Part "global_contexts" t ↔
    ∃ ts, t = .arr ts none ∧ List.Forall₂ Context.Format ts e.globalContexts := by
  simp [part_iff, and_comm]

end Parts

/-- **Every field reads its own part of an event.** -/
theorem fields_read (room : Nat) : ∀ f ∈ fields, f.Reads Part room := by
  intro f hf
  simp only [fields, List.mem_cons, List.not_mem_nil, or_false] at hf
  rcases hf with rfl | rfl | rfl | rfl | rfl
  · refine Tree.Field.reads_of_set (fun _ t => t.asString)
      (fun (e : Event) x => { e with eventType := x }) (fun h => ?_) (fun _ hne hpart => ?_)
      fun _ hpart => ?_
    · obtain rfl := Tree.asText_eq_ok.1 h
      exact ⟨⟨_, rfl⟩, fun acc => .eventType⟩
    · exact hpart.transfer (absurd · hne) (fun _ => rfl) (fun _ => rfl) (fun _ => rfl) fun _ => rfl
    · obtain rfl := part_type.1 hpart
      exact ⟨_, rfl⟩
  · refine Tree.Field.reads_of_set (fun _ t => EventId.ofTree t)
      (fun (e : Event) x => { e with id := x }) (fun h => ?_) (fun _ hne hpart => ?_)
      fun _ hpart => ?_
    · obtain ⟨s, rfl, hform⟩ := EventId.ofTree_eq_ok.1 h
      exact ⟨⟨_, rfl⟩, fun acc => .id hform⟩
    · exact hpart.transfer (fun _ => rfl) (absurd · hne) (fun _ => rfl) (fun _ => rfl) fun _ => rfl
    · exact ⟨_, EventId.ofTree_eq_ok.2 (part_id.1 hpart)⟩
  · refine Tree.Field.reads_of_set (fun _ t => t.asWord 0x10000000000000000 "u64")
      (fun (e : Event) x => { e with time := UInt64.ofNat x }) (fun h => ?_) (fun _ hne hpart => ?_)
      fun hwithin hpart => ?_
    · obtain ⟨l, rfl, hnatural, hfits⟩ := Tree.asWord_eq_ok.1 h
      rw [← UInt64.toNat_ofNat_of_lt' hfits] at hnatural
      exact ⟨⟨_, value_eq_natural.2 hnatural⟩, fun acc => .time hnatural⟩
    · exact hpart.transfer (fun _ => rfl) (fun _ => rfl) (absurd · hne) (fun _ => rfl) fun _ => rfl
    · obtain ⟨l, rfl, hnatural⟩ := part_time.1 hpart
      exact ⟨_, Tree.asWord_eq_ok.2 ⟨l, rfl, hnatural, UInt64.toNat_lt _⟩⟩
  · refine Tree.Field.reads_of_set (fun room t => t.asList room Context.ofTree)
      (fun (e : Event) x => { e with locationStack := x }) (fun h => ?_) (fun _ hne hpart => ?_)
      fun hwithin hpart => ?_
    · obtain ⟨hwithin, ts, rfl, hcontexts⟩ := asList_contexts_eq_ok.1 h
      exact ⟨hwithin, fun acc => .locationStack hcontexts⟩
    · exact hpart.transfer (fun _ => rfl) (fun _ => rfl) (fun _ => rfl) (absurd · hne) fun _ => rfl
    · exact ⟨_, asList_contexts_eq_ok.2 ⟨hwithin, part_locations.1 hpart⟩⟩
  · refine Tree.Field.reads_of_set (fun room t => t.asList room Context.ofTree)
      (fun (e : Event) x => { e with globalContexts := x }) (fun h => ?_) (fun _ hne hpart => ?_)
      fun hwithin hpart => ?_
    · obtain ⟨hwithin, ts, rfl, hcontexts⟩ := asList_contexts_eq_ok.1 h
      exact ⟨hwithin, fun acc => .globalContexts hcontexts⟩
    · exact hpart.transfer (fun _ => rfl) (fun _ => rfl) (fun _ => rfl) (fun _ => rfl) (absurd · hne)
    · exact ⟨_, asList_contexts_eq_ok.2 ⟨hwithin, part_globals.1 hpart⟩⟩

theorem contexts_unique : Relator.RightUnique (List.Forall₂ Context.Format) :=
  Relator.RightUnique.forall₂ fun _ _ _ => Context.Format.unique

/-- **An event is determined by its parts.** -/
theorem eq_of_parts {e e' : Event}
    (h : ∀ name ∈ fieldNames, ∃ t, e.Part name t ∧ e'.Part name t) : e = e' := by
  have htype : e.eventType = e'.eventType := by
    obtain ⟨t, ht, ht'⟩ := h "_type" (by decide)
    simpa using (part_type.1 ht).symm.trans (part_type.1 ht')
  have hid : e.id = e'.id := by
    obtain ⟨t, ht, ht'⟩ := h "id" (by decide)
    obtain ⟨s, rfl, hform⟩ := part_id.1 ht
    obtain ⟨_, ⟨⟩, hform'⟩ := part_id.1 ht'
    rw [← EventId.ofChars?_eq_some] at hform hform'
    exact Option.some.inj (hform.symm.trans hform')
  have htime : e.time = e'.time := by
    obtain ⟨t, ht, ht'⟩ := h "time" (by decide)
    obtain ⟨l, rfl, hnatural⟩ := part_time.1 ht
    obtain ⟨_, ⟨⟩, hnatural'⟩ := part_time.1 ht'
    exact UInt64.toNat_inj.1 (hnatural.number.symm.trans hnatural'.number)
  have hlocations : e.locationStack = e'.locationStack := by
    obtain ⟨t, ht, ht'⟩ := h "location_stack" (by decide)
    obtain ⟨ts, rfl, hcontexts⟩ := part_locations.1 ht
    obtain ⟨_, ⟨⟩, hcontexts'⟩ := part_locations.1 ht'
    exact contexts_unique hcontexts hcontexts'
  have hglobals : e.globalContexts = e'.globalContexts := by
    obtain ⟨t, ht, ht'⟩ := h "global_contexts" (by decide)
    obtain ⟨ts, rfl, hcontexts⟩ := part_globals.1 ht
    obtain ⟨_, ⟨⟩, hcontexts'⟩ := part_globals.1 ht'
    exact contexts_unique hcontexts hcontexts'
  obtain ⟨eventType, id, time, locations, globals⟩ := e
  cases htype
  cases hid
  cases htime
  cases hlocations
  cases hglobals
  rfl

/-- **An event is read exactly from its format**, within the limits. -/
theorem ofTree_eq_ok {room : Nat} {t : Tree} {e : Event} :
    ofTree room t = .ok e ↔ t.WithinRecord room fieldNames ∧ Format t e := by
  have hnodup : (fields.map (·.name)).Nodup := by
    rw [fields_names]
    decide
  exact Tree.asRecord_eq_ok fields_read hnodup fun _ _ => eq_of_parts

theorem parse_eq_ok {s : String} {e : Event} :
    parse s = .ok e ↔ ∃ t, IsJson s t ∧ t.WithinRecord nestingLimit fieldNames ∧ Format t e := by
  refine (decode_eq_ok_iff fun room t a h => (ofTree_eq_ok.1 h).1.complete).trans ?_
  simp only [ofTree_eq_ok]

/-- **The event reader accepts exactly the event format.**  A text that is JSON within the reader's
limits is read as an event if and only if its tree is the format of that event.  What is accepted is JSON
within these limits, the values of members that are no fields apart, which only have to be there.  No
context of an accepted event has a reserved key among its attributes. -/
theorem accepts_exactly_the_format :
    (∀ s t, IsJson s t → t.WithinRecord nestingLimit fieldNames → ∀ e,
      Event.parse s = .ok e ↔ Format t e) ∧
    (∀ s e, Event.parse s = .ok e → ∃ t, IsJson s t ∧ t.WithinRecord nestingLimit fieldNames) ∧
    ∀ s e, Event.parse s = .ok e → ∀ c ∈ e.contexts, ∀ key, Context.isReserved key = true →
      c.attribute? key = none := by
  refine ⟨fun s t hs hwithin e => ?_, fun s e h => ?_, fun s e h c hc key hkey => ?_⟩
  · rw [parse_eq_ok]
    constructor
    · rintro ⟨t', hs', -, hformat⟩
      rwa [hs.unique hs']
    · exact fun hformat => ⟨t, hs, hwithin, hformat⟩
  · obtain ⟨t, hs, hwithin, -⟩ := parse_eq_ok.1 h
    exact ⟨t, hs, hwithin⟩
  · obtain ⟨t, _, -, hread, -⟩ := decode_eq_ok h
    have hfree := (wellFormed_of_ofTree hread c hc).free
    refine List.lookup_eq_none_iff.2 fun f hf => ?_
    have hne : key ≠ f.1 := fun heq => by
      have := hfree f hf
      rw [← heq, hkey] at this
      cases this
    simpa using hne

/-- The written form of an event, with its id once more. -/
def idAgain (e : Event) : Json :=
  .obj (e.members ++ [("id", .str e.id.text)])

/-- An event without contexts. -/
def bare : Event :=
  { eventType := "P", id := default, time := 7, locationStack := [], globalContexts := [] }

theorem legible_idAgain : bare.idAgain.Legible := by
  intro n hn
  obtain rfl : n = .natural 7 := by
    simpa [bare, idAgain, members, numbers, numbersFields, numbersItems] using hn
  exact natural_readsBack 7

theorem withinRecord_idAgain : bare.idAgain.tree.WithinRecord nestingLimit fieldNames := by
  have htime : (Tree.num (Number.natural 7).literal).Within 127 :=
    ⟨_, Tree.literal_read_eq_ok.1 (Number.read_literal (natural_readsBack 7))⟩
  have hmember : ∀ {name : String} {t : Tree}, t.Within 127 →
      Tree.WithinMember 127 fieldNames (.ok name, t) :=
    fun h => ⟨_, rfl, h.complete, fun _ => h⟩
  refine ⟨by decide, fun m hm => ?_, rfl⟩
  simp only [members, bare, treeFields, tree, treeItems, List.map_nil, List.cons_append,
    List.nil_append, List.mem_cons, List.not_mem_nil, or_false] at hm
  rcases hm with rfl | rfl | rfl | rfl | rfl | rfl
  · exact hmember ⟨_, rfl⟩
  · exact hmember ⟨_, rfl⟩
  · exact hmember htime
  · exact hmember ⟨by decide, trivial, rfl⟩
  · exact hmember ⟨by decide, trivial, rfl⟩
  · exact hmember ⟨_, rfl⟩

/-- The text above is accepted, although little in it is where the writer puts it; a written event with
its id once more is JSON within the limits and is not accepted. -/
theorem accepts_exactly_the_format_untidy :
    (∃ t e, IsJson untidyEvent t ∧ t.WithinRecord nestingLimit fieldNames ∧
      Event.parse untidyEvent = .ok e ∧ Format t e ∧
      e.locationStack.map (·.attributes.map Prod.fst) = [["a", "b"]]) ∧
    IsJson bare.idAgain.text bare.idAgain.tree ∧
      bare.idAgain.tree.WithinRecord nestingLimit fieldNames ∧
      ∀ e, Event.parse bare.idAgain.text ≠ .ok e := by
  obtain ⟨hformat, hlimits, -⟩ := accepts_exactly_the_format
  constructor
  · have hkeys : ((Event.parse untidyEvent).toOption.map fun e =>
        e.locationStack.map (·.attributes.map Prod.fst)) = some [["a", "b"]] := by
      decide +kernel
    obtain ⟨e, he, hsaid⟩ := exists_of_toOption hkeys
    obtain ⟨t, hs, hwithin⟩ := hlimits untidyEvent e he
    exact ⟨t, e, hs, hwithin, he, (hformat _ t hs hwithin e).1 he, hsaid⟩
  · have hs := isJson_text legible_idAgain
    refine ⟨hs, withinRecord_idAgain, fun e he => ?_⟩
    obtain ⟨t, honce, -⟩ :=
      (hformat _ _ hs withinRecord_idAgain e).1 he "id" (by decide)
    have htwo : ((treeFields (bare.members ++ [("id", .str bare.id.text)])).filter
        (Tree.isNamed "id")).length = 2 := rfl
    have hone := congrArg List.length honce
    exact absurd (htwo.symm.trans hone) (by simp)

end Event

end EventRelay
