import EventRelay.Event
import EventRelay.Proofs.Event.Contexts
import EventRelay.Proofs.Json.Brackets
import EventRelay.Proofs.Json.Records
import Mathlib.Algebra.Ring.Nat

/-!
# Lists of events read back

What a list of events is written as is read as that list, if brackets are not nested too deeply:
ids, times, texts with escapes, contexts in their flat form, and integers as integers.

* `EventId.ofChars?_chars` — **an id is read back**.
* `Event.ofTree_toJson` — an event is read back within its depth.
* `parseList_within` — what becomes of the text of a list, on both sides of the nesting limit.
* `parseList_listText` — **the text of a list of events is read as that list**.
-/

namespace EventRelay

open Json

/-! ## Ids -/

namespace EventId

theorem hexValue?_hexChar : ∀ d, d < 16 → hexValue? (hexChar d) = some d := by
  decide

theorem length_hexDigits (count n : Nat) : (hexDigits count n).length = count := by
  induction count generalizing n with
  | zero => rfl
  | succ count ih => rw [hexDigits, List.length_append, ih, List.length_singleton]

/-- The digits spell the number as far as they reach. -/
theorem hexNumber?_hexDigits (count n : Nat) :
    hexNumber? (hexDigits count n) = some (n % 16 ^ count) := by
  induction count generalizing n with
  | zero => rw [Nat.pow_zero, Nat.mod_one]; rfl
  | succ count ih =>
    have hdigit : hexValue? (hexChar (n % 16)) = some (n % 16) :=
      hexValue?_hexChar _ (Nat.mod_lt _ (by decide))
    have hsplit : n % 16 ^ (count + 1) = n / 16 % 16 ^ count * 16 + n % 16 := by
      rw [Nat.pow_succ, Nat.mul_comm, Nat.mod_mul, Nat.add_comm, Nat.mul_comm]
    unfold hexNumber? at ih ⊢
    rw [hexDigits, List.foldlM_append, ih, hsplit]
    simp only [List.foldlM_cons, List.foldlM_nil, hdigit]
    rfl

theorem ofBare?_hexDigits (id : EventId) : ofBare? (hexDigits 32 id.toNat) = some id := by
  have hmod : id.toNat % 16 ^ 32 = id.val.val := Nat.mod_eq_of_lt id.val.isLt
  rw [ofBare?, if_pos (length_hexDigits 32 _), hexNumber?_hexDigits, hmod, Option.map_some, ofNat,
    Fin.ofNat_val_eq_self]

/-- Five groups of the right lengths, joined by hyphens, are taken apart again. -/
theorem ofHyphenated?_groups {a b c d e : List Char} (ha : a.length = 8) (hb : b.length = 4)
    (hc : c.length = 4) (hd : d.length = 4) (he : e.length = 12) :
    ofHyphenated? (a ++ '-' :: (b ++ '-' :: (c ++ '-' :: (d ++ '-' :: e)))) =
      ofBare? (a ++ b ++ c ++ d ++ e) := by
  unfold ofHyphenated?
  simp [List.drop_append, List.drop_of_length_le, ha, hb, hc, hd, he]

/-- Digits are put into groups and taken out of them again. -/
theorem ofHyphenated?_digits {ds : List Char} (h : ds.length = 32) :
    ofHyphenated? (ds.take 8 ++ '-' :: ((ds.drop 8).take 4 ++ '-' :: ((ds.drop 12).take 4 ++
      '-' :: ((ds.drop 16).take 4 ++ '-' :: ds.drop 20)))) = ofBare? ds := by
  rw [ofHyphenated?_groups (by simp [h]) (by simp [h]) (by simp [h]) (by simp [h]) (by simp [h])]
  have hjoin : ∀ n, (ds.drop n).take 4 ++ ds.drop (n + 4) = ds.drop n := by
    intro n
    rw [← List.drop_drop, List.take_append_drop]
  rw [List.append_assoc, List.append_assoc, List.append_assoc, hjoin 16, hjoin 12, hjoin 8,
    List.take_append_drop]

/-- **An id is read back.** -/
theorem ofChars?_chars (id : EventId) : ofChars? id.chars = some id := by
  have hlen := length_hexDigits 32 id.toNat
  have hchars : id.chars.length = 36 := by simp [chars, hlen]
  rw [ofChars?, if_neg (by omega), if_neg (by omega), if_neg (by omega), chars,
    ofHyphenated?_digits hlen, ofBare?_hexDigits]

theorem ofTree_text (id : EventId) : ofTree (Json.str id.text).tree = .ok id := by
  have hchars : ofChars? id.text.toList = some id := by
    rw [text, String.toList_ofList, ofChars?_chars]
  simp only [tree, ofTree, Tree.asText, Quoted.read, bind, Except.bind, hchars, pure, Except.pure]

end EventId

/-! ## Events -/

namespace Event

/-- The value that a list of events is written as. -/
def listJson (es : List Event) : Json :=
  .arr (es.map toJson)

/-- The contexts of an event, of both lists. -/
def contexts (e : Event) : List Context :=
  e.locationStack ++ e.globalContexts

/-- The events that a program can come by: made from contexts, or read. -/
inductive Built : Event → Prop
  /-- An event made from contexts. -/
  | new {e : Event} (h : ∀ c ∈ e.contexts, c.Built) : Built e
  /-- An event that was read, alone or in a list. -/
  | read {room : Nat} {t : Tree} {e : Event} (h : ofTree room t = .ok e) : Built e

/-- The fields of an event only ever take in contexts that were read. -/
theorem fields_keep_built :
    ∀ f ∈ fields, f.Keeps fun e : Event => ∀ c ∈ e.contexts, c.Built := by
  have hlist : ∀ {room : Nat} {t : Tree} {cs : List Context},
      t.asList room Context.ofTree = .ok cs → ∀ c ∈ cs, c.Built :=
    fun h => Tree.asList_forall (fun _ _ _ => Context.Built.read) h
  intro f hf room t e e' h hbuilt
  simp only [fields, List.mem_cons, List.not_mem_nil, or_false] at hf
  rcases hf with rfl | rfl | rfl | rfl | rfl <;> obtain ⟨x, hx, h⟩ := bind_eq_ok h <;> cases h
  · exact hbuilt
  · exact hbuilt
  · exact hbuilt
  · exact List.forall_mem_append.2 ⟨hlist hx, fun c hc => hbuilt c (List.mem_append_right _ hc)⟩
  · exact List.forall_mem_append.2 ⟨fun c hc => hbuilt c (List.mem_append_left _ hc), hlist hx⟩

theorem Built.contexts {e : Event} (h : e.Built) : ∀ c ∈ e.contexts, c.Built := by
  cases h with
  | new h => exact h
  | read h => exact Tree.asRecord_preserves fields_keep_built h nofun

theorem asWord_natural (n : UInt64) :
    (Json.num (.natural n)).tree.asWord 0x10000000000000000 "u64" = .ok n.toNat := by
  rw [tree, Tree.asWord, Number.read_literal (natural_readsBack n)]
  exact if_pos n.toNat_lt

/-- A list of well-formed contexts is read back within its depth. -/
theorem asList_contexts {cs : List Context} (h : ∀ c ∈ cs, c.WellFormed)
    (hleg : (Json.arr (cs.map Context.toJson)).Legible) (room : Nat) :
    (Json.arr (cs.map Context.toJson)).tree.asList room Context.ofTree =
      within (Json.arr (cs.map Context.toJson)).depth room cs := by
  refine asList_tree cs (fun c hc room _ => ?_) room
  exact Context.ofTree_toJson (h c hc) (legible_arr.1 hleg _ (List.mem_map_of_mem hc))

/-- The members of a written event. -/
def members (e : Event) : List (String × Json) :=
  [("_type", .str e.eventType), ("id", .str e.id.text), ("time", .num (.natural e.time)),
    ("location_stack", .arr (e.locationStack.map Context.toJson)),
    ("global_contexts", .arr (e.globalContexts.map Context.toJson))]

/-- The members of a written event fill a record, whatever it held before. -/
theorem recordMembers_members {e : Event} (h : ∀ c ∈ e.contexts, c.WellFormed)
    (hleg : (Json.obj e.members).Legible) {room : Nat} (hroom : 0 < room) (start : Event) :
    Tree.recordMembers room fields [] start (treeFields e.members) =
      within (depthFields e.members) room
        (e, ["global_contexts", "location_stack", "time", "id", "_type"]) := by
  have hlocation := asList_contexts (fun c hc => h c (List.mem_append_left _ hc))
    (legible_obj.1 hleg ("location_stack", _) (by simp [members])) room
  have hglobal := asList_contexts (fun c hc => h c (List.mem_append_right _ hc))
    (legible_obj.1 hleg ("global_contexts", _) (by simp [members])) room
  -- the record as it is filled, member by member
  let e₁ : Event := { start with eventType := e.eventType }
  let e₂ : Event := { e₁ with id := e.id }
  let e₃ : Event := { e₂ with time := e.time }
  let e₄ : Event := { e₃ with locationStack := e.locationStack }
  simp only [members, treeFields, depthFields]
  refine Tree.recordMembers_field rfl rfl (show _ = within 0 room e₁ from ?_) ?_
  · exact (within_zero hroom).symm
  refine Tree.recordMembers_field rfl rfl (show _ = within 0 room e₂ from ?_) ?_
  · exact (bind_ok (EventId.ofTree_text e.id) _).trans (within_zero hroom).symm
  refine Tree.recordMembers_field rfl rfl (show _ = within 0 room e₃ from ?_) ?_
  · refine (bind_ok (asWord_natural e.time) _).trans ?_
    rw [UInt64.ofNat_toNat, within_zero hroom]
    rfl
  refine Tree.recordMembers_field rfl rfl (show _ = within _ room e₄ from ?_) ?_
  · show (Tree.asList _ _ _ >>= _) = _
    rw [hlocation]
    exact within_then rfl
  refine Tree.recordMembers_field rfl rfl (show _ = within _ room e from ?_) ?_
  · show (Tree.asList _ _ _ >>= _) = _
    rw [hglobal]
    exact within_then rfl
  exact (within_zero hroom).symm

/-- **An event is read back within its depth.** -/
theorem ofTree_toJson {e : Event} (h : ∀ c ∈ e.contexts, c.WellFormed) (hleg : e.toJson.Legible)
    {room : Nat} : ofTree room e.toJson.tree = within e.toJson.depth room e := by
  refine openBracket_bind fun room hroom => ?_
  show (Tree.recordMembers room fields [] _ (treeFields e.members) >>= _) = _
  rw [recordMembers_members h hleg hroom]
  exact within_then rfl

/-- What becomes of the text of an event: the event, or nothing if brackets nest too deeply. -/
theorem parse_within {e : Event} (h : ∀ c ∈ e.contexts, c.WellFormed) (hleg : e.toJson.Legible) :
    parse e.text = within (nesting e.text) nestingLimit e := by
  have hdepth : nesting e.text = e.toJson.depth := nesting_text e.toJson
  rw [hdepth, parse]
  exact (decode_text _ hleg).trans (ofTree_toJson h hleg)

/-! ## Lists of events -/

/-- **What becomes of the text of a list**: the list, or nothing if brackets nest too deeply. -/
theorem parseList_within {es : List Event} (h : ∀ e ∈ es, ∀ c ∈ e.contexts, c.WellFormed)
    (hleg : (listJson es).Legible) :
    parseList (listText es) = within (nesting (listText es)) nestingLimit es := by
  have hdepth : nesting (listText es) = (listJson es).depth := nesting_text (listJson es)
  rw [hdepth, parseList]
  refine (decode_text _ hleg).trans (asList_tree es (fun e he room _ => ?_) nestingLimit)
  exact ofTree_toJson (h e he) (legible_arr.1 hleg _ (List.mem_map_of_mem he))

/-- Events that can be kept in lists with any others of the kind. -/
structure Storable (e : Event) : Prop where
  /-- Its contexts are such as a program can come by. -/
  built : ∀ c ∈ e.contexts, c.Built
  /-- Its floats read back. -/
  floats : e.toJson.FloatsReadBack
  /-- Its text leaves room for the bracket of the list. -/
  nesting : nesting e.text < 127

/-- **Lists of storable events read back.** -/
theorem parseList_of_storable {es : List Event} (h : ∀ e ∈ es, e.Storable) :
    parseList (listText es) = .ok es := by
  have hleg : (listJson es).Legible := legible_arr.2 (List.forall_mem_map.2 fun e he =>
    (h e he).floats.legible)
  have hdepth : depthItems (es.map toJson) ≤ 126 := by
    refine depthItems_map_le.2 fun e he => ?_
    rw [← nesting_text]
    exact Nat.le_of_lt_succ (h e he).nesting
  have hnesting : nesting (listText es) = depthItems (es.map toJson) + 1 :=
    nesting_text (listJson es)
  rw [parseList_within (fun e he c hc => ((h e he).built c hc).wellFormed) hleg]
  exact within_of_lt (by rw [hnesting, nestingLimit]; omega)

/-- **The text of a list of events is read as that list.** -/
theorem parseList_listText {es : List Event} (hbuilt : ∀ e ∈ es, ∀ c ∈ e.contexts, c.Built)
    (hfloats : (listJson es).FloatsReadBack) (hnesting : nesting (listText es) < 128) :
    parseList (listText es) = .ok es := by
  rw [parseList_within (fun e he c hc => (hbuilt e he c hc).wellFormed) hfloats.legible]
  exact within_of_lt hnesting

/-! A list with quotes, control characters, both integer ranges, a float, nested objects, a call
that names a reserved key, and a context that was read. -/

/-- The float `1.5`. -/
def oneAndHalf : FiniteFloat :=
  ⟨0x3FF8000000000000, by decide⟩

theorem oneAndHalf_readsBack : (Number.real oneAndHalf).ReadsBack := by
  have hchars : (Number.real oneAndHalf).chars = ['1', '.', '5'] := by decide +kernel
  have hvalue : Literal.value ⟨false, [1], some [5], none⟩ = .number (.real oneAndHalf) := by
    decide +kernel
  refine Number.readsBack_of_layValue (l := ⟨false, [1], some [5], none⟩) ?_ ?_
  · rw [hchars]
    rfl
  · rw [Literal.read, hvalue]

/-- A context with attributes of every kind. -/
def mixedContext : Context :=
  ((({ typeName := "Section \"\\\" é", id := "\n\x00" } : Context).withAttribute "z"
    (.arr [.null, .bool true, .num (.negative 0), .num (.natural 0xFFFFFFFFFFFFFFFF),
      .num (.real oneAndHalf)])).withAttribute "id" (.str "not taken")).withAttribute "a"
    (.obj [("\"", .obj []), ("\x7b[", .str "]")])

/-- The members of a context in another order than the one they are written in. -/
def swappedContext : Tree :=
  .obj [(.ok "id", .str (.ok "main")), (.ok "_type", .str (.ok "Page"))] none

/-- Two events with such contexts. -/
def mixedEvents : List Event :=
  [ { eventType := "Press\tEvent", id := EventId.ofNat 0xFFFFFFFFFFFFFFFFFFFFFFFFFFFFFFFF,
      time := 0xFFFFFFFFFFFFFFFF, locationStack := [mixedContext, ⟨"Page", "main", []⟩],
      globalContexts := [Context.application "shop", Context.error "timeout"] },
    { eventType := "", id := EventId.ofNat 1, time := 0, locationStack := [], globalContexts := [] } ]

theorem mixedEvents_built : ∀ e ∈ mixedEvents, ∀ c ∈ e.contexts, c.Built := by
  have hmixed : mixedContext.Built :=
    (((Context.Built.new _ _).withAttribute "z" (by decide)).withAttribute "id"
      (by decide)).withAttribute "a" (by decide)
  have hread : (⟨"Page", "main", []⟩ : Context).Built :=
    Context.Built.read (show Context.ofTree 128 swappedContext = _ from rfl)
  simp only [mixedEvents, contexts, List.forall_mem_cons, List.cons_append, List.nil_append,
    List.not_mem_nil, false_imp_iff, implies_true, and_true]
  exact ⟨hmixed, hread, Context.Built.application _, Context.Built.error _⟩

theorem parseList_listText_mixed :
    (∀ e ∈ mixedEvents, ∀ c ∈ e.contexts, c.Built) ∧ (listJson mixedEvents).FloatsReadBack ∧
      nesting (listText mixedEvents) < 128 ∧
      parseList (listText mixedEvents) = .ok mixedEvents := by
  have hfloats : (listJson mixedEvents).FloatsReadBack := by
    intro x hx
    have hnumbers : (listJson mixedEvents).numbers =
        [.natural 0xFFFFFFFFFFFFFFFF, .negative 0, .natural 0xFFFFFFFFFFFFFFFF, .real oneAndHalf,
          .natural 0] := by
      decide +kernel
    rw [hnumbers] at hx
    have hx : x = oneAndHalf := by simpa using hx
    rw [hx]
    exact oneAndHalf_readsBack
  have hnesting : nesting (listText mixedEvents) < 128 := by
    rw [show nesting (listText mixedEvents) = _ from nesting_text (listJson mixedEvents)]
    decide +kernel
  exact ⟨mixedEvents_built, hfloats, hnesting,
    parseList_listText mixedEvents_built hfloats hnesting⟩

end Event

end EventRelay
