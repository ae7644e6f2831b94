import EventRelay.Proofs.Event.RoundTrip
import EventRelay.Proofs.Json.NormalForm

/-!
# The normal form of events and contexts

An event may be given as an object, with its fields in any order and others between them, or as an
array; its id in four notations; its contexts with attributes in any order, some of them again and
again.  What is read is written in one way.

* `Context.depth_ofTree`, `Event.depth_ofTree` — **what is read needs no more brackets than the reader
  allows**, in whichever form it was given.
* `Context.Laid`, `Event.Laid` — what a normal form looks like.
* `parse_text_of_parse` — what was read, written, is read again.
* `canonical_form` — **every text that is accepted has a normal form**.
-/

namespace EventRelay

open Json

/-! ## Contexts -/

namespace Context

theorem depth_toJson (c : Context) : c.toJson.depth = depthFields c.attributes + 1 := by
  simp only [toJson, depth, depthFields, Nat.zero_max]

/-- **A context that is read has room for its brackets.** -/
theorem depth_ofTree {room : Nat} {t : Tree} {c : Context} (h : ofTree room t = .ok c) :
    c.toJson.depth < room := by
  obtain ⟨inner, hinner, hkept⟩ := ofTree_attributes h
  obtain ⟨hpos, hroom⟩ := openBracket_eq_ok hinner
  have hattributes : depthFields c.attributes < inner := by
    refine hkept (depthFields · < inner) (fun key t v fields _ hv hfields => ?_) hpos
    exact depthFields_insertField (toJson_depth t hpos hv) hfields
  rw [depth_toJson, hroom]
  exact Nat.succ_lt_succ hattributes

/-- What the normal form of a context looks like: `_type` and `id` stand first, then the attributes in
key order, and the objects in them are in key order. -/
inductive Laid : Tree → Prop
  /-- With these attributes. -/
  | mk (typeName id : String) {attributes : List (Quoted × Tree)}
      (hkeys : Tree.KeysIncrease attributes) (hvalues : Tree.OrderedMembers attributes) :
      Laid (.obj ((.ok "_type", .str (.ok typeName)) :: (.ok "id", .str (.ok id)) :: attributes) none)

theorem laid_tree {c : Context} (h : c.WellFormed) : Laid c.toJson.tree :=
  .mk c.typeName c.id (keysIncrease_treeFields h.sorted) (treeFields_ordered _ h.canonical)

/-- A context that was read, written, is read again. -/
theorem parse_text_of_parse {s : String} {c : Context} (h : parse s = .ok c)
    (hfloats : c.toJson.FloatsReadBack) : parse c.text = .ok c := by
  obtain ⟨t, _, -, hread, -⟩ := decode_eq_ok h
  refine (decode_text ofTree hfloats.legible).trans ?_
  rw [ofTree_toJson (ofTree_wellFormed hread) hfloats.legible]
  exact within_of_lt (depth_ofTree hread)

end Context

/-! ## Events -/

namespace Event

/-- What is read of the fields of an event, where `room` brackets may be opened, leaves room for the
brackets of the contexts. -/
theorem fields_keep_depth {room : Nat} : ∀ f ∈ fields,
    f.KeepsAt room fun e : Event => ∀ c ∈ e.contexts, c.toJson.depth + 1 < room := by
  have hlist : ∀ {t : Tree} {cs : List Context}, t.asList room Context.ofTree = .ok cs →
      ∀ c ∈ cs, c.toJson.depth + 1 < room := by
    refine fun h => Tree.asList_forall_at (fun inner hinner t c hc => ?_) h
    obtain ⟨-, rfl⟩ := openBracket_eq_ok hinner
    exact Nat.succ_lt_succ (Context.depth_ofTree hc)
  intro f hf t e e' h hdepth
  simp only [fields, List.mem_cons, List.not_mem_nil, or_false] at hf
  rcases hf with rfl | rfl | rfl | rfl | rfl <;> obtain ⟨x, hx, h⟩ := bind_eq_ok h <;> cases h
  · exact hdepth
  · exact hdepth
  · exact hdepth
  · exact List.forall_mem_append.2 ⟨hlist hx, fun c hc => hdepth c (List.mem_append_right _ hc)⟩
  · exact List.forall_mem_append.2 ⟨fun c hc => hdepth c (List.mem_append_left _ hc), hlist hx⟩

/-- **The contexts of an event that is read have room for their brackets.** -/
theorem depth_ofTree {room : Nat} {t : Tree} {e : Event} (h : ofTree room t = .ok e) :
    ∀ c ∈ e.contexts, c.toJson.depth + 2 < room := by
  refine Tree.asRecord_preserves_at (P := fun e : Event => ∀ c ∈ e.contexts,
    c.toJson.depth + 2 < room) (fun inner hinner f hf => ?_) h nofun
  obtain ⟨-, rfl⟩ := openBracket_eq_ok hinner
  intro t acc acc' hread hacc c hc
  have hinside : ∀ c ∈ acc.contexts, c.toJson.depth + 1 < inner :=
    fun c hc => Nat.lt_of_succ_lt_succ (hacc c hc)
  exact Nat.succ_lt_succ (fields_keep_depth f hf t acc acc' hread hinside c hc)

/-- An event adds two brackets to those of its contexts. -/
theorem depth_toJson_lt {e : Event} {room : Nat} (hroom : 2 < room)
    (h : ∀ c ∈ e.contexts, c.toJson.depth + 2 < room) : e.toJson.depth < room := by
  have hlist : ∀ cs : List Context, (∀ c ∈ cs, c.toJson.depth + 2 < room) →
      depthItems (cs.map Context.toJson) + 2 < room := by
    intro cs hcs
    have hle : depthItems (cs.map Context.toJson) ≤ room - 3 :=
      depthItems_map_le.2 fun c hc => by have := hcs c hc; omega
    omega
  have hlocations := hlist e.locationStack fun c hc => h c (List.mem_append_left _ hc)
  have hglobals := hlist e.globalContexts fun c hc => h c (List.mem_append_right _ hc)
  simp only [toJson, depth, depthFields]
  omega

/-- What the normal form of an event looks like: the five fields in their order, the id in groups, and
the contexts in their normal form. -/
inductive Laid : Tree → Prop
  /-- With these contexts. -/
  | mk (eventType : String) (id : EventId) (time : Literal) {locations globals : List Tree}
      (hlocations : ∀ c ∈ locations, Context.Laid c) (hglobals : ∀ c ∈ globals, Context.Laid c) :
      Laid (.obj [(.ok "_type", .str (.ok eventType)), (.ok "id", .str (.ok id.text)),
        (.ok "time", .num time), (.ok "location_stack", .arr locations none),
        (.ok "global_contexts", .arr globals none)] none)

theorem laid_tree {e : Event} (h : ∀ c ∈ e.contexts, c.WellFormed) : Laid e.toJson.tree := by
  have hlist : ∀ cs : List Context, (∀ c ∈ cs, c.WellFormed) →
      ∀ t ∈ treeItems (cs.map Context.toJson), Context.Laid t := by
    intro cs hcs
    induction cs with
    | nil => exact nofun
    | cons c cs ih =>
      obtain ⟨hc, hcs⟩ := List.forall_mem_cons.1 hcs
      exact List.forall_mem_cons.2 ⟨Context.laid_tree hc, ih hcs⟩
  exact .mk e.eventType e.id _ (hlist _ fun c hc => h c (List.mem_append_left _ hc))
    (hlist _ fun c hc => h c (List.mem_append_right _ hc))

theorem wellFormed_of_ofTree {room : Nat} {t : Tree} {e : Event} (h : ofTree room t = .ok e) :
    ∀ c ∈ e.contexts, c.WellFormed :=
  fun c hc => ((Built.read h).contexts c hc).wellFormed

/-- An event that was read, written, is read again. -/
theorem parse_text_of_parse {s : String} {e : Event} (h : parse s = .ok e)
    (hfloats : e.toJson.FloatsReadBack) : parse e.text = .ok e := by
  obtain ⟨t, _, -, hread, -⟩ := decode_eq_ok h
  refine (decode_text ofTree hfloats.legible).trans ?_
  rw [ofTree_toJson (wellFormed_of_ofTree hread) hfloats.legible]
  exact within_of_lt (depth_toJson_lt (by decide) (depth_ofTree hread))

/-- **Every text that is accepted has a normal form.**  Whatever the text of an event looks like: what
is read is written as a text that is accepted, is read as the same event, and is written again as it
is; two texts have one normal form exactly if they are read as one event; and in the normal form the
attributes of every context, and the keys of all objects in them, are in order and come once.  The same
holds of the text of a context.  Of floats it is taken that they read back. -/
theorem canonical_form :
    (∀ s e, Event.parse s = .ok e → e.toJson.FloatsReadBack →
      NormalForm Event.parse Event.toJson Event.Laid s e) ∧
    ∀ s c, Context.parse s = .ok c → c.toJson.FloatsReadBack →
      NormalForm Context.parse Context.toJson Context.Laid s c := by
  constructor
  · refine fun s e h hfloats => normalForm_of (fun s e h hf => parse_text_of_parse h hf)
      (fun s e h => ?_) h hfloats
    obtain ⟨t, _, -, hread, -⟩ := decode_eq_ok h
    exact laid_tree (wellFormed_of_ofTree hread)
  · refine fun s c h hfloats => normalForm_of (fun s c h hf => Context.parse_text_of_parse h hf)
      (fun s c h => ?_) h hfloats
    obtain ⟨t, _, -, hread, -⟩ := decode_eq_ok h
    exact Context.laid_tree (Context.ofTree_wellFormed hread)

/-! A context whose attributes are out of order and come again, with an escape, a float and white space,
and an event in the form of an array around it, with the digits of its id in one piece. -/

/-- The text of such a context. -/
def untidyContext : String :=
  "\x7b\"b\":\x7b\"y\":0,\"x\":[ ],\"y\":-1\x7d,\"id\":\"\\u0061\",\"a\":7,\"_type\":\"S\",\"a\":1.5\x7d"

/-- The text of such an event. -/
def untidyEvent : String :=
  " [\"P\",\"0000000000000000000000000000002A\",7,[" ++ untidyContext ++ "],[ ]]"

/-- Something is read, if something can be said of it. -/
theorem exists_of_toOption {α β : Type} {r : Read α} {f : α → β} {b : β}
    (h : r.toOption.map f = some b) : ∃ a, r = .ok a ∧ f a = b := by
  cases r with
  | error err => cases h
  | ok a => exact ⟨a, rfl, Option.some.inj h⟩

theorem canonical_form_untidy :
    (∃ e, Event.parse untidyEvent = .ok e ∧ e.toJson.FloatsReadBack ∧
      e.locationStack.map (·.attributes.map Prod.fst) = [["a", "b"]] ∧
      NormalForm Event.parse Event.toJson Event.Laid untidyEvent e) ∧
    ∃ c, Context.parse untidyContext = .ok c ∧ c.toJson.FloatsReadBack ∧
      c.attributes.map Prod.fst = ["a", "b"] ∧
      NormalForm Context.parse Context.toJson Context.Laid untidyContext c := by
  have hevent : ((Event.parse untidyEvent).toOption.map fun e =>
      (e.locationStack.map (·.attributes.map Prod.fst), e.toJson.numbers)) =
      some ([["a", "b"]], [.natural 7, .real oneAndHalf, .negative 0]) := by
    decide +kernel
  have hcontext : ((Context.parse untidyContext).toOption.map fun c =>
      (c.attributes.map Prod.fst, c.toJson.numbers)) =
      some (["a", "b"], [.real oneAndHalf, .negative 0]) := by
    decide +kernel
  obtain ⟨e, he, hsaid⟩ := exists_of_toOption hevent
  obtain ⟨c, hc, hsaid'⟩ := exists_of_toOption hcontext
  obtain ⟨hkeys, hnumbers⟩ := Prod.ext_iff.1 hsaid
  obtain ⟨hkeys', hnumbers'⟩ := Prod.ext_iff.1 hsaid'
  -- the only float in both is one and a half
  have hread : ∀ v : Json, (∀ x, .real x ∈ v.numbers → x = oneAndHalf) → v.FloatsReadBack :=
    fun v hv x hx => hv x hx ▸ oneAndHalf_readsBack
  have hfloats : e.toJson.FloatsReadBack := hread _ fun x hx => by
    rw [show e.toJson.numbers = _ from hnumbers] at hx
    simpa using hx
  have hfloats' : c.toJson.FloatsReadBack := hread _ fun x hx => by
    rw [show c.toJson.numbers = _ from hnumbers'] at hx
    simpa using hx
  exact ⟨⟨e, he, hfloats, hkeys, canonical_form.1 _ e he hfloats⟩,
    c, hc, hfloats', hkeys', canonical_form.2 _ c hc hfloats'⟩

end Event

end EventRelay
