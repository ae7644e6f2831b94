import EventRelay.Proofs.Location.Collisions

/-!
# Paths and identities

A node is meant to be told by the types and ids from its root down to it.  Its path writes these one
after another, with a colon between a type and its id and ` / ` between nodes, and writes a type or an
id that holds such characters as it is.  So nodes of equal identities have equal paths, but not the
other way round.

* `Context.Plain` — no character of the context can be taken for one of the path.
* `path_eq_iff` — **plain stacks have equal paths exactly if they have equal identities**, by cutting
  a path at its first separator (`eq_of_append_eq`) and a segment at its first colon.
* `collision_of_identities` — a reported path is that of two nodes, which have **equal identities if
  they are plain**; and nodes of equal identities never go unreported.
* `unequal_identities_reported` — a path that is reported although no two nodes have equal identities.
-/

namespace EventRelay

namespace Context

/-- What a context is told by: its type and its id. -/
def identity (c : Context) : String × String :=
  (c.typeName, c.id)

/-- No character of the context can be taken for one of a path: there is no colon in the type, the
separator of paths does not stand in the segment, and it does not begin at the end of it. -/
structure Plain (c : Context) : Prop where
  /-- The first colon of the segment is the one after the type. -/
  colon : ':' ∉ c.typeName.toList
  /-- The first separator after the segment's beginning is the one behind it. -/
  separator : ¬Location.separator.toList <:+: c.segment.toList ++ [' ']

/-- A context without a slash, and without a colon in the type, is plain. -/
theorem Plain.of_not_mem {c : Context} (hcolon : ':' ∉ c.typeName.toList)
    (hslash : '/' ∉ c.segment.toList) : c.Plain := by
  refine ⟨hcolon, fun h => ?_⟩
  have hmem : '/' ∈ c.segment.toList ++ [' '] := h.subset (by decide)
  simp only [List.mem_append, List.mem_singleton, hslash, false_or] at hmem
  exact absurd hmem (by decide)

theorem toList_segment (c : Context) :
    c.segment.toList = c.typeName.toList ++ ':' :: c.id.toList := by
  simp [segment]

/-- A segment is cut at its first colon. -/
theorem Plain.identity_eq {c d : Context} (hc : c.Plain) (hd : d.Plain)
    (h : c.segment.toList = d.segment.toList) : c.identity = d.identity := by
  rw [toList_segment, toList_segment] at h
  have htype : c.typeName.toList = d.typeName.toList := by
    have hcut := congrArg (List.takeWhile (· ≠ ':')) h
    have hall : ∀ {s : List Char}, ':' ∉ s → ∀ rest : List Char,
        (s ++ ':' :: rest).takeWhile (· ≠ ':') = s := by
      intro s hs rest
      rw [List.takeWhile_append_of_pos]
      · simp
      · intro x hx
        simp only [ne_eq, decide_not, Bool.not_eq_true', decide_eq_false_iff_not]
        rintro rfl
        exact hs hx
    rwa [hall hc.colon, hall hd.colon] at hcut
  rw [htype] at h
  have hid : c.id.toList = d.id.toList := List.cons.inj (List.append_cancel_left h) |>.2
  rw [identity, identity, String.toList_inj.1 htype, String.toList_inj.1 hid]

end Context

namespace Location

/-! ## Cutting a path -/

theorem toList_separator : separator.toList = [' ', '/', ' '] := rfl

/-- What can follow a segment: nothing, or a separator and more. -/
def Follows (rest : List Char) : Prop :=
  rest = [] ∨ ∃ more, rest = separator.toList ++ more

/-- A separator that begins in a text, with what can follow a segment behind the text, stands in it or
lacks only its last blank there. -/
theorem separator_infix {m rest more : List Char} (hm : m ≠ []) (hrest : Follows rest)
    (h : separator.toList ++ more = m ++ rest) : separator.toList <:+: m ++ [' '] := by
  rw [toList_separator] at h ⊢
  match m with
  | [] => exact absurd rfl hm
  | [x] =>
    -- the rest would begin with a slash
    rcases hrest with rfl | ⟨more', rfl⟩
    · simp at h
    · simp [toList_separator] at h
  | [x, y] =>
    simp only [List.cons_append, List.nil_append, List.cons.injEq] at h
    rw [← h.1, ← h.2.1]
    exact List.infix_refl _
  | x :: y :: z :: m =>
    simp only [List.cons_append, List.nil_append, List.cons.injEq] at h
    rw [← h.1, ← h.2.1, ← h.2.2.1]
    exact ⟨[], m ++ [' '], rfl⟩

/-- **A path is cut at its first separator**: two texts without one, each with something that can
follow a segment, are equal if the wholes are. -/
theorem eq_of_append_eq {a b rest rest' : List Char} (ha : ¬separator.toList <:+: a ++ [' '])
    (hb : ¬separator.toList <:+: b ++ [' ']) (hrest : Follows rest) (hrest' : Follows rest')
    (h : a ++ rest = b ++ rest') : a = b ∧ rest = rest' := by
  -- if one of the texts were longer, the separator behind the other would stand in it
  have hshort : ∀ {a m rest rest' : List Char}, ¬separator.toList <:+: (a ++ m) ++ [' '] →
      Follows rest → Follows rest' → rest = m ++ rest' → m = [] := by
    intro a m rest rest' hclear hrest hrest' heq
    by_contra hm
    rcases hrest with rfl | ⟨more, rfl⟩
    · exact hm (List.append_eq_nil_iff.1 heq.symm).1
    · have hin := separator_infix hm hrest' heq
      rw [List.append_assoc] at hclear
      exact hclear (hin.trans (List.suffix_append a _).isInfix)
  rcases List.append_eq_append_iff.1 h with ⟨m, rfl, hm⟩ | ⟨m, rfl, hm⟩
  · obtain rfl := hshort hb hrest hrest' hm
    exact ⟨(List.append_nil a).symm, hm⟩
  · obtain rfl := hshort ha hrest' hrest hm
    exact ⟨List.append_nil b, hm.symm⟩

/-! ## Equal paths -/

/-- The segments of a stack, a separator before each. -/
def steps (stack : List Context) : List Char :=
  stack.flatMap fun c => separator.toList ++ c.segment.toList

theorem steps_cons (c : Context) (stack : List Context) :
    steps (c :: stack) = separator.toList ++ (c.segment.toList ++ steps stack) := by
  rw [steps, List.flatMap_cons, List.append_assoc, steps]

theorem follows_steps (stack : List Context) : Follows (steps stack) := by
  cases stack with
  | nil => exact Or.inl rfl
  | cons c stack => exact Or.inr ⟨_, steps_cons c stack⟩

/-- A path has all of it but the first separator. -/
theorem separator_append_path {stack : List Context} (h : stack ≠ []) :
    separator.toList ++ (path stack).toList = steps stack := by
  induction stack with
  | nil => exact absurd rfl h
  | cons c stack ih =>
    rw [steps_cons, path, String.toList_intercalate]
    cases stack with
    | nil => simp [steps]
    | cons d stack =>
      rw [← ih (by simp), path, String.toList_intercalate]
      simp

theorem map_identity_of_steps {stack stack' : List Context} (h : ∀ c ∈ stack, c.Plain)
    (h' : ∀ c ∈ stack', c.Plain) (heq : steps stack = steps stack') :
    stack.map Context.identity = stack'.map Context.identity := by
  induction stack generalizing stack' with
  | nil =>
    cases stack' with
    | nil => rfl
    | cons d stack' => simp [steps, toList_separator] at heq
  | cons c stack ih =>
    cases stack' with
    | nil => simp [steps, toList_separator] at heq
    | cons d stack' =>
      rw [List.forall_mem_cons] at h h'
      rw [steps_cons, steps_cons] at heq
      obtain ⟨hsegment, hrest⟩ := eq_of_append_eq h.1.separator h'.1.separator
        (follows_steps stack) (follows_steps stack') (List.append_cancel_left heq)
      rw [List.map_cons, List.map_cons, h.1.identity_eq h'.1 hsegment, ih h.2 h'.2 hrest]

/-- A path is a matter of the identities. -/
theorem path_eq_of_identity {stack stack' : List Context}
    (h : stack.map Context.identity = stack'.map Context.identity) : path stack = path stack' := by
  have hsegments : ∀ stack : List Context, stack.map Context.segment =
      (stack.map Context.identity).map fun i => i.1 ++ ":" ++ i.2 := by
    intro stack
    rw [List.map_map]
    rfl
  rw [path, path, hsegments, hsegments, h]

/-- **Plain stacks have equal paths exactly if they have equal identities.** -/
theorem path_eq_iff {stack stack' : List Context} (h : ∀ c ∈ stack, c.Plain)
    (h' : ∀ c ∈ stack', c.Plain) :
    path stack = path stack' ↔ stack.map Context.identity = stack'.map Context.identity := by
  refine ⟨fun heq => ?_, path_eq_of_identity⟩
  by_cases hempty : stack = []
  · subst hempty
    rw [path_eq_empty.1 heq.symm]
  · have hempty' : stack' ≠ [] := by
      rintro rfl
      exact hempty (path_eq_empty.1 heq)
    apply map_identity_of_steps h h'
    rw [← separator_append_path hempty, ← separator_append_path hempty', heq]

/-! ## Real collisions -/

namespace Place

/-- The types and ids from the root down to the node. -/
def identities (p : Place) : List (String × String) :=
  p.chain.map fun n => n.context.identity

/-- All contexts from the root down to the node are plain. -/
def Plain (p : Place) : Prop :=
  ∀ n ∈ p.chain, n.context.Plain

theorem path_eq_of_identities {p q : Place} (h : p.identities = q.identities) :
    p.path = q.path := by
  apply path_eq_of_identity
  simpa [identities, List.map_map, Function.comp_def] using h

theorem path_eq_iff_identities {p q : Place} (hp : p.Plain) (hq : q.Plain) :
    p.path = q.path ↔ p.identities = q.identities := by
  rw [path, path, path_eq_iff (by simpa [Plain] using hp) (by simpa [Plain] using hq)]
  simp [identities, Function.comp_def]

end Place

namespace Tree

/-- **A reported collision is one of identities if the contexts are plain.**  Whatever was done to the
tree, and whatever is done next:

* A path that this reports is the path of two different mounted nodes, and these have equal
  identities from the root down if all contexts there are plain.
* Where all contexts on two ways from a root are plain, the paths are equal exactly if the identities
  are.
* Two different mounted nodes of equal identities have been reported, plain or not. -/
theorem collision_of_identities (ops : List Operation) (op : Operation) :
    let t := run {} ops
    let after := t.perform op
    (∀ x ∈ t.reports op, ∃ p q, after.Stands p ∧ after.Stands q ∧
      p.node.location ≠ q.node.location ∧ p.path = x ∧ q.path = x ∧
      (p.Plain → q.Plain → p.identities = q.identities)) ∧
    (∀ p q : Place, p.Plain → q.Plain → (p.path = q.path ↔ p.identities = q.identities)) ∧
    ∀ p q, after.Stands p → after.Stands q → p.node.location ≠ q.node.location →
      p.identities = q.identities → p.path ∈ after.reported := by
  intro t after
  refine ⟨fun x hx => ?_, fun p q => Place.path_eq_iff_identities, fun p q hp hq hne heq => ?_⟩
  · obtain ⟨p, q, hp, hq, hne, hpx, hqx⟩ := shared_of_reports (wellFormed_run ops) hx
    refine ⟨p, q, hp, hq, hne, hpx, hqx, fun hplain hplain' => ?_⟩
    exact (Place.path_eq_iff_identities hplain hplain').1 (hpx.trans hqx.symm)
  · have hcomplete : after.CacheComplete := by
      have h := reported_complete (ops ++ [op])
      rwa [run_concat] at h
    exact hcomplete _ ⟨p, q, hp, hq, hne, rfl, (Place.path_eq_of_identities heq).symm⟩

/-- Two links of one id are mounted in one section: they are plain, and their equal identities have
been reported. -/
theorem collision_of_identities_links :
    let menu := sampleNode "1" "Section" "menu"
    let link := sampleNode "2" "Link" "home:top"
    let twin := sampleNode "3" "Link" "home:top"
    let t := run {} [.add menu none, .add link (some menu)]
    Place.Plain ⟨[menu], link⟩ ∧ Place.Plain ⟨[menu], twin⟩ ∧
      Place.identities ⟨[menu], link⟩ = Place.identities ⟨[menu], twin⟩ ∧
      Place.path ⟨[menu], link⟩ ∈ (t.perform (.add twin (some menu))).reported := by
  intro menu link twin t
  obtain ⟨-, hplain, hreported⟩ :=
    collision_of_identities [.add menu none, .add link (some menu)] (.add twin (some menu))
  have hmenu : menu.context.Plain := .of_not_mem (by decide) (by decide)
  have hlink : Place.Plain ⟨[menu], link⟩ :=
    List.forall_mem_cons.2 ⟨hmenu, List.forall_mem_singleton.2 (.of_not_mem (by decide) (by decide))⟩
  have htwin : Place.Plain ⟨[menu], twin⟩ :=
    List.forall_mem_cons.2 ⟨hmenu, List.forall_mem_singleton.2 (.of_not_mem (by decide) (by decide))⟩
  have hidentities := (hplain _ _ hlink htwin).1 (by decide)
  have hroot : (t.perform (.add twin (some menu))).Lineage ⟨menu, none⟩ [] :=
    .root (List.mem_of_getElem? (i := 0) rfl) rfl
  refine ⟨hlink, htwin, hidentities, hreported _ _ ?_ ?_ (by decide) hidentities⟩
  · exact ⟨⟨link, some "1"⟩, rfl, .under hroot (List.mem_of_getElem? (i := 1) rfl) rfl⟩
  · exact ⟨⟨twin, some "1"⟩, rfl, .under hroot (List.mem_of_getElem? (i := 2) rfl) rfl⟩

/-- The last type and id are the node's own. -/
theorem getLast?_identities (p : Place) :
    p.identities.getLast? = some p.node.context.identity := by
  simp [Place.identities, Place.chain]

/-- A link in a section, and a section whose id is that way written out: the path is reported when the
second section is mounted, but no two of the three nodes have equal identities. -/
theorem unequal_identities_reported :
    let outer := sampleNode "1" "Section" "a"
    let link := sampleNode "2" "Link" "b"
    let other := sampleNode "3" "Section" "a / Link:b"
    let t := run {} [.add outer none, .add link (some outer)]
    "Section:a / Link:b" ∈ t.reports (.add other none) ∧
      ¬∃ p q, (t.perform (.add other none)).Stands p ∧ (t.perform (.add other none)).Stands q ∧
        p.node.location ≠ q.node.location ∧ p.identities = q.identities := by
  intro outer link other t
  have hw : t.WellFormed := wellFormed_run _
  constructor
  · have hshared : (t.perform (.add other none)).Shared "Section:a / Link:b" :=
      (two_le_count_iff (hw.perform _)).1 (by decide)
    have hreported := reported_complete [.add outer none, .add link (some outer), .add other none]
      _ hshared
    -- it was not reported before: neither of the first two operations left it shared
    have hunshared : ∀ (u : Tree) (op : Operation), u.WellFormed →
        ¬2 ≤ ((u.perform op).places.map Place.path).count "Section:a / Link:b" →
        "Section:a / Link:b" ∉ u.reports op := by
      intro u op hu hcount hmem
      exact hcount ((two_le_count_iff (hu.perform op)).2 (shared_of_reports hu hmem))
    have hfirst := hunshared {} (.add outer none) (wellFormed_run []) (by decide)
    have hsecond := hunshared (run {} [.add outer none]) (.add link (some outer))
      (wellFormed_run _) (by decide)
    rw [reported_run _ (by simp)] at hreported
    simp only [reportsOf, List.nil_append, List.append_nil, List.mem_append] at hreported
    exact (hreported.resolve_left hfirst).resolve_left hsecond
  · rintro ⟨p, q, ⟨e, he, hl⟩, ⟨f, hf, hl'⟩, hne, heq⟩
    have hlast : p.node.context.identity = q.node.context.identity := by
      have h := congrArg List.getLast? heq
      rw [getLast?_identities, getLast?_identities] at h
      exact Option.some.inj h
    rw [← he, ← hf] at hlast hne
    -- the three nodes have three identities
    have hnodes : ∀ e ∈ (t.perform (.add other none)).entries,
        ∀ f ∈ (t.perform (.add other none)).entries,
        e.node.context.identity = f.node.context.identity → e.node.location = f.node.location := by
      decide
    exact hne (hnodes e hl.mem f hl'.mem hlast)

end Tree

end Location

end EventRelay
