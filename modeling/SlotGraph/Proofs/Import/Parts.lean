import SlotGraph.Proofs.Import.Fillings

/-!
# What happens for the elements of a value

A call that fills a slot by links takes the elements of its value one by one, and does one
part for each.  An element stands for a node, an integer for the one at that index of the
groups and an inline object for the one made for it, and then the link from that node is
asked for; or it stands for none, which is reported.  So each part is linked or reported.
-/

namespace SlotGraph

namespace Import

/-! ## The elements of a value -/

/-- The elements of a value of a field, each with the key that its link gets. -/
def entriesOf (field : Field) : Json → List (String × Json)
  | .arr elements => elements.map fun element => ("", element)
  | .obj object => if field.type.required.isDict then object else [("", .obj object)]
  | value => [("", value)]

/-- What a call does for an element: a value without parts is its own only element. -/
def Filling.answer (setting : Setting) (groups : List Group) (call : Filling) (p : Progress)
    (entry : String × Json) : Progress :=
  if call.value.isStructured then
    linkElement setting groups (embedAt setting groups call.depth) call.target call.slot call.field
      entry.1 entry.2 p
  else
    fillLinked setting groups (embedAt setting groups call.depth) call.target call.slot call.field
      entry.2 p

/-- What happens for one element, from one progress of the import to another. -/
structure Part where
  key : String
  element : Json
  before : Progress
  after : Progress

/-- What happens for some elements in turn, each part where the last one ended. -/
def partsFrom (answer : Progress → String × Json → Progress) :
    List (String × Json) → Progress → List Part
  | [], _ => []
  | entry :: rest, p =>
      ⟨entry.1, entry.2, p, answer p entry⟩ :: partsFrom answer rest (answer p entry)

/-- What happens in a call for the elements of its value. -/
def Filling.parts (setting : Setting) (groups : List Group) (call : Filling) : List Part :=
  partsFrom (call.answer setting groups) (entriesOf call.field call.value) call.before

/--
Whether the element of a part stands for a node, and from which progress on it does: an
integer for the node at that index of the groups, an inline object for the node made for it.
-/
def Part.StandsFor (setting : Setting) (groups : List Group) (call : Filling) (part : Part)
    (origin : NodeId) (made : Progress) : Prop :=
  (∃ index, part.element.int64? = some index ∧
    resolve? setting.schema groups call.field index = some origin ∧ made = part.before) ∨
  (∃ object, part.element = .obj object ∧
    embedAt setting groups call.depth call.field object part.before = (some origin, made))

/-- Whether the node that the element of a part stands for gets a link of its own. -/
def Part.Linked (setting : Setting) (groups : List Group) (call : Filling) (part : Part) : Prop :=
  ∃ origin made id graph, part.StandsFor setting groups call origin made ∧
    made.graph.connect origin 0 call.target call.slot = .ok (id, graph) ∧
    part.after =
      { made with
        graph := if part.key = "" then graph else (graph.setKey? id part.key).getD graph
        links := made.links + 1 }

def Part.Reported (part : Part) : Prop :=
  ∃ issues, issues ≠ [] ∧ part.after.issues = part.before.issues ++ issues

variable {setting : Setting} {groups : List Group} {g : Graph} {p p' : Progress}
  {document : List (String × Json)} {call : Filling} {part : Part}

/-! ## Parts -/

theorem map_partsFrom (answer : Progress → String × Json → Progress)
    (entries : List (String × Json)) (p : Progress) :
    (partsFrom answer entries p).map (fun part => (part.key, part.element)) = entries := by
  induction entries generalizing p with
  | nil =>
      rfl
  | cons entry rest ih =>
      rw [partsFrom, List.map_cons, ih]

/-- A part answers one of the elements, on the way from the first progress to the last. -/
theorem of_mem_partsFrom {answer : Progress → String × Json → Progress}
    (hsteps : ∀ p entry, Steps setting p (answer p entry)) {entries : List (String × Json)}
    (hpart : part ∈ partsFrom answer entries p) :
    (part.key, part.element) ∈ entries ∧
      part.after = answer part.before (part.key, part.element) ∧
      Steps setting p part.before ∧ Steps setting part.after (entries.foldl answer p) := by
  induction entries generalizing p with
  | nil =>
      exact absurd hpart List.not_mem_nil
  | cons entry rest ih =>
      rw [List.foldl_cons]
      rcases List.mem_cons.1 hpart with rfl | hlater
      · exact ⟨List.mem_cons_self, rfl, .refl, steps_foldl (fun y _ q => hsteps q y) _⟩
      · obtain ⟨hentry, hafter, hbefore, hlast⟩ := ih hlater
        exact ⟨List.mem_cons_of_mem entry hentry, hafter, (hsteps p entry).trans hbefore, hlast⟩

/-! ## Issues -/

theorem Step.issues_prefix (h : Step setting p p') : p.issues <+: p'.issues := by
  cases h with
  | report issues =>
      exact List.prefix_append p.issues issues
  | _ =>
      exact List.prefix_refl _

theorem Steps.issues_prefix (h : Steps setting p p') : p.issues <+: p'.issues := by
  induction h with
  | refl =>
      exact List.prefix_refl _
  | tail _ hstep ih =>
      exact ih.trans hstep.issues_prefix

/-! ## One call -/

theorem Part.StandsFor.steps {origin : NodeId} {made : Progress}
    (h : part.StandsFor setting groups call origin made) : Steps setting part.before made := by
  rcases h with ⟨_, _, _, rfl⟩ | ⟨object, _, hmade⟩
  · exact .refl
  · have hsteps : Steps setting part.before
        (embedAt setting groups call.depth call.field object part.before).2 :=
      takesSteps_embedAt call.depth call.field object part.before
    rwa [hmade] at hsteps

theorem Filling.after_eq_fillLinked (hproper : call.Proper setting) :
    call.after setting groups =
      fillLinked setting groups (embedAt setting groups call.depth) call.target call.slot
        call.field call.value call.before := by
  obtain ⟨cls, -, hnode, hfield, hlinkFed⟩ := hproper.slot
  have hnative := isNative_eq (hnode.input_eq hfield)
  rw [hlinkFed] at hnative
  rw [Filling.after, fillSlot, if_neg (by simp [hnative]), if_neg (by simp [hproper.given])]

theorem Filling.after_eq_foldl (groups : List Group) (hproper : call.Proper setting) :
    call.after setting groups =
      (entriesOf call.field call.value).foldl (call.answer setting groups) call.before := by
  rw [Filling.after_eq_fillLinked hproper]
  unfold Filling.answer
  cases call.value with
  | arr elements =>
      rw [entriesOf, List.foldl_map, fillLinked]
      rfl
  | obj object =>
      rw [entriesOf, fillLinked]
      split <;> rfl
  | _ =>
      rfl

theorem steps_answer (call : Filling) (p : Progress) (entry : String × Json) :
    Steps setting p (call.answer setting groups p entry) := by
  have hembed : Embed.TakesSteps setting (embedAt setting groups call.depth) :=
    takesSteps_embedAt call.depth
  unfold Filling.answer
  split
  · exact steps_linkElement hembed call.target call.slot call.field entry.1 entry.2 p
  · exact steps_fillLinked hembed call.target call.slot call.field entry.2 p

theorem depth_of_mem_entriesOf {field : Field} {value : Json} {entry : String × Json}
    (h : entry ∈ entriesOf field value) : entry.2.depth ≤ value.depth := by
  cases value with
  | arr elements =>
      obtain ⟨element, helement, rfl⟩ := List.mem_map.1 h
      exact Nat.le_of_lt (Json.depth_lt_arr helement)
  | obj object =>
      rw [entriesOf] at h
      split at h
      · exact Nat.le_of_lt (Json.depth_lt_obj h)
      · rw [List.mem_singleton.1 h]
  | _ =>
      rw [List.mem_singleton.1 h]

theorem integer?_of_int64? {value : Json} {index : Int} (h : value.int64? = some index) :
    ∃ n, value.integer? = some n := by
  obtain ⟨n, hn, -⟩ := Option.map_eq_some_iff.1 h
  exact ⟨n, hn⟩

theorem entry_of_not_isStructured {field : Field} {value : Json} {entry : String × Json}
    (h : entry ∈ entriesOf field value) (hparts : value.isStructured = false) :
    entry = ("", value) := by
  cases value with
  | arr | obj =>
      cases hparts
  | _ =>
      exact List.mem_singleton.1 h

theorem answer_number {entry : String × Json} (hentry : entry ∈ entriesOf call.field call.value)
    {index : Int} (hnumber : entry.2.int64? = some index) (p : Progress) :
    call.answer setting groups p entry =
      linkIndex setting groups call.target call.slot call.field index entry.1 p := by
  have hlink : linkElement setting groups (embedAt setting groups call.depth) call.target
      call.slot call.field entry.1 entry.2 p =
        linkIndex setting groups call.target call.slot call.field index entry.1 p := by
    simp only [linkElement, hnumber]
  unfold Filling.answer
  by_cases hparts : call.value.isStructured = true
  · rw [if_pos hparts]
    exact hlink
  · rw [if_neg hparts, ← hlink]
    rw [Bool.not_eq_true] at hparts
    obtain rfl := entry_of_not_isStructured hentry hparts
    obtain ⟨n, hn⟩ := integer?_of_int64? hnumber
    exact fillLinked_integer hn _ _ _ _ p

theorem answer_object {entry : String × Json} (hentry : entry ∈ entriesOf call.field call.value)
    {object : List (String × Json)} (hobject : entry.2 = .obj object) (p : Progress) :
    call.answer setting groups p entry =
      linkElement setting groups (embedAt setting groups call.depth) call.target call.slot
        call.field entry.1 (.obj object) p := by
  unfold Filling.answer
  by_cases hparts : call.value.isStructured = true
  · rw [if_pos hparts, hobject]
  · rw [Bool.not_eq_true] at hparts
    obtain rfl := entry_of_not_isStructured hentry hparts
    rw [show call.value = .obj object from hobject] at hparts
    cases hparts

theorem answer_other {entry : String × Json} (hentry : entry ∈ entriesOf call.field call.value)
    (hnumber : entry.2.int64? = none) (hobject : ∀ object, entry.2 ≠ .obj object)
    (p : Progress) : ∃ issue, call.answer setting groups p entry = p.report issue := by
  unfold Filling.answer
  by_cases hparts : call.value.isStructured = true
  · rw [if_pos hparts]
    cases helement : entry.2 with
    | obj object =>
        exact absurd helement (hobject object)
    | _ =>
        rw [helement] at hnumber
        exact ⟨_, by simp only [linkElement, hnumber]; rfl⟩
  · rw [if_neg hparts]
    rw [Bool.not_eq_true] at hparts
    obtain rfl := entry_of_not_isStructured hentry hparts
    cases hvalue : call.value with
    | arr | obj =>
        rw [hvalue] at hparts
        cases hparts
    | _ =>
        rw [hvalue] at hnumber
        exact ⟨_, by simp only [fillLinked, hnumber]; rfl⟩

section

variable (hserves : setting.registry.Serves setting.schema)

include hserves

/--
An inline object becomes a node of a declared class, that of its field if the field refers
to one, whose link is asked for; if no class fits, then that is reported.
-/
theorem linkObject_cases {depth : Nat} {field : Field} {object : List (String × Json)}
    (hp : Underway setting groups g p)
    (hdeep : (Json.obj object).depth ≤ depth) (id : NodeId) (slot : Nat) (key : String)
    (hreach : Reaches g (linkElement setting groups (embedAt setting groups depth) id slot field
      key (.obj object) p)) :
    (setting.schema.modelOf? field = none ∧
      linkElement setting groups (embedAt setting groups depth) id slot field key (.obj object) p =
        p.report (.noFittingClass field.name)) ∨
    ∃ origin made cls, embedAt setting groups depth field object p = (some origin, made) ∧
      IsOf setting.schema made.graph origin cls ∧
      (∀ className, setting.schema.modelOf? field = some className → cls.name = className) ∧
      linkElement setting groups (embedAt setting groups depth) id slot field key (.obj object) p =
        made.link origin id slot key := by
  have hnumber : (Json.obj object).int64? = none := rfl
  have hmadeReach := hreach.back (steps_linkEmbedded setting groups (embedAt setting groups depth)
    id slot field key object p)
  cases depth with
  | zero =>
      have hpositive : 0 < (Json.obj object).depth := Nat.succ_pos _
      omega
  | succ depth =>
      have hembed : Embed.TakesSteps setting (embedAt setting groups depth) :=
        takesSteps_embedAt depth
      rw [embedAt] at hmadeReach ⊢
      rcases embedWith_cases hserves hembed depth (inlineFillings setting groups depth) field object
        hp hmadeReach with ⟨hmodel, hnone, -⟩ | ⟨cls, origin, q, hjoins, hclass, hmade, -⟩
      · exact .inl ⟨hmodel, by simp only [linkElement, hnumber, hnone]⟩
      · have hfilled : Steps setting q (populate setting groups _ origin object q) :=
          steps_populate hembed origin object q
        exact .inr ⟨origin, _, cls, hmade, hjoins.node.steps hfilled, hclass,
          by simp only [linkElement, hnumber, hmade]⟩

end

/-! ## One part -/

section

variable (hproper : call.Proper setting) (hunderway : Underway setting groups g call.before)
  (hpart : part ∈ call.parts setting groups)

include hpart

theorem steps_part : Steps setting part.before part.after := by
  obtain ⟨-, hafter, -⟩ := of_mem_partsFrom (steps_answer call) hpart
  rw [hafter]
  exact steps_answer call part.before _

include hproper in
theorem steps_after_part : Steps setting part.after (call.after setting groups) := by
  obtain ⟨-, -, -, hlast⟩ := of_mem_partsFrom (steps_answer call) hpart
  exact Filling.after_eq_foldl groups hproper ▸ hlast

include hunderway in
theorem underway_part (hreach : Reaches g part.after) :
    Underway setting groups g part.before := by
  obtain ⟨-, -, hbefore, -⟩ := of_mem_partsFrom (steps_answer call) hpart
  exact hunderway.steps hbefore (hreach.back (steps_part hpart))

/-- The node that an inline object stands for is made before it is linked. -/
theorem steps_embedded_part {object : List (String × Json)} (hobject : part.element = .obj object) :
    Steps setting (embedAt setting groups call.depth call.field object part.before).2
      part.after := by
  obtain ⟨hentry, hafter, -⟩ := of_mem_partsFrom (steps_answer call) hpart
  rw [hafter, answer_object hentry hobject part.before]
  exact steps_linkEmbedded setting groups _ call.target call.slot call.field part.key object
    part.before

theorem part_number {index : Int} (hnumber : part.element.int64? = some index) :
    part.after =
      linkIndex setting groups call.target call.slot call.field index part.key part.before := by
  obtain ⟨hentry, hafter, -⟩ := of_mem_partsFrom (steps_answer call) hpart
  exact hafter.trans (answer_number hentry hnumber part.before)

include hproper hunderway

/-- For an inline object the link from the node made for it is asked for. -/
theorem part_object (hserves : setting.registry.Serves setting.schema)
    {object : List (String × Json)} (hobject : part.element = .obj object)
    (hreach : Reaches g part.after) :
    (setting.schema.modelOf? call.field = none ∧
      part.after = part.before.report (.noFittingClass call.field.name)) ∨
    ∃ origin made cls, part.StandsFor setting groups call origin made ∧
      IsOf setting.schema made.graph origin cls ∧
      (∀ className, setting.schema.modelOf? call.field = some className →
        cls.name = className) ∧
      part.after = made.link origin call.target call.slot part.key := by
  obtain ⟨hentry, hafter, -⟩ := of_mem_partsFrom (steps_answer call) hpart
  have hp := underway_part hunderway hpart hreach
  have hdeep : (Json.obj object).depth ≤ call.depth :=
    hobject ▸ Nat.le_trans (depth_of_mem_entriesOf hentry) hproper.deep
  rw [answer_object hentry hobject part.before] at hafter
  rw [hafter] at hreach ⊢
  rcases linkObject_cases hserves hp hdeep call.target call.slot part.key hreach with
    hreported | ⟨origin, made, cls, hmade, hnode, hclass, hlink⟩
  · exact .inl hreported
  · exact .inr ⟨origin, made, cls, .inr ⟨object, hobject, hmade⟩, hnode, hclass, hlink⟩

/-- The element of a part stands for a node, whose link is asked for, or it is reported. -/
theorem part_cases (hserves : setting.registry.Serves setting.schema)
    (hreach : Reaches g part.after) :
    part.Reported ∨
    ∃ origin made cls, part.StandsFor setting groups call origin made ∧
      IsOf setting.schema made.graph origin cls ∧
      part.after = made.link origin call.target call.slot part.key := by
  cases hnumber : part.element.int64? with
  | some index =>
      have hafter := part_number hpart hnumber
      rw [linkIndex] at hafter
      cases hresolved : resolve? setting.schema groups call.field index with
      | none =>
          rw [hresolved] at hafter
          exact .inl ⟨_, List.cons_ne_nil _ _, congrArg Progress.issues hafter⟩
      | some origin =>
          rw [hresolved] at hafter
          obtain ⟨group, hgroup, horigin⟩ := resolve?_mem hresolved
          obtain ⟨cls, -, -, hnodes⟩ :=
            (underway_part hunderway hpart hreach).stocked group hgroup
          exact .inr ⟨origin, part.before, cls, .inl ⟨index, hnumber, hresolved, rfl⟩,
            hnodes origin horigin, hafter⟩
  | none =>
      by_cases hobject : ∃ object, part.element = .obj object
      · obtain ⟨object, hobject⟩ := hobject
        rcases part_object hproper hunderway hpart hserves hobject hreach with
          ⟨-, hreported⟩ | ⟨origin, made, cls, hstands, hnode, -, hafter⟩
        · exact .inl ⟨_, List.cons_ne_nil _ _, congrArg Progress.issues hreported⟩
        · exact .inr ⟨origin, made, cls, hstands, hnode, hafter⟩
      · obtain ⟨hentry, hafter, -⟩ := of_mem_partsFrom (steps_answer call) hpart
        have hreported : ∃ issue, part.after = part.before.report issue :=
          hafter ▸ answer_other hentry hnumber (fun object heq => hobject ⟨object, heq⟩) part.before
        obtain ⟨issue, hissue⟩ := hreported
        exact .inl ⟨_, List.cons_ne_nil _ _, congrArg Progress.issues hissue⟩

/-- An element is linked, or something is reported for it. -/
theorem linked_or_reported (hserves : setting.registry.Serves setting.schema)
    (hreach : Reaches g part.after) : part.Linked setting groups call ∨ part.Reported := by
  rcases part_cases hproper hunderway hpart hserves hreach with
    hreported | ⟨origin, made, cls, hstands, horigin, hafter⟩
  · exact .inr hreported
  · obtain ⟨target, -, htarget, hfield, -⟩ := hproper.slot
    have hsteps := hstands.steps
    have hbefore := (of_mem_partsFrom (steps_answer call) hpart).2.2.1
    have htargetMade := (htarget.steps hbefore).steps hsteps
    cases hfits : TypeExpr.textFits cls.name
        (setting.schema.inputOf target call.field).linkType with
    | true =>
        obtain ⟨id, graph, hconnect, hlink⟩ :=
          link_of_fits horigin htargetMade hfield hfits part.key
        exact .inl ⟨origin, made, id, graph, hstands, hconnect, hafter.trans hlink⟩
    | false =>
        obtain ⟨title, hlink⟩ := link_of_not_fits horigin htargetMade hfield hfits part.key
        obtain ⟨issues, hissues⟩ := hsteps.issues_prefix
        refine .inr ⟨issues ++ [.refusedLink cls.name title call.field.name
          (setting.schema.inputOf target call.field).linkType], List.concat_ne_nil _ issues, ?_⟩
        rw [hafter, hlink, ← List.append_assoc, hissues]
        rfl

end

theorem Part.Linked.links_lt (h : part.Linked setting groups call) :
    part.before.links < part.after.links := by
  obtain ⟨origin, made, id, graph, hstands, -, hafter⟩ := h
  have hmade := hstands.steps.mono.2
  rw [hafter]
  exact Nat.lt_succ_of_le hmade

end Import

end SlotGraph
