import SlotGraph.Proofs.Import.Parts

/-!
# No slot is left out

The listed calls of an import are all of those that fill a slot by links.  Wherever an object
stands for a node, be it an element of a group, an inline object at any depth or the document
itself, each slot that only links feed and that the object has a value for is filled by one
of the calls.
-/

namespace SlotGraph

namespace Import

/-- Whether one of some calls fills a slot of a node from the value of a field, if it has one. -/
def FillsSlot (calls : List Filling) (id : NodeId) (slot : Nat) (field : Field)
    (value : Option Json) : Prop :=
  ∀ given, value = some given → given.isNull = false →
    ∃ call ∈ calls, call.target = id ∧ call.slot = slot ∧ call.field = field ∧ call.value = given

/-- Whether some calls fill all slots of a node that only links feed from an object. -/
def FillsNode (schema : Schema) (calls : List Filling) (id : NodeId) (cls : SchemaClass)
    (source : List (String × Json)) : Prop :=
  ∀ slot field, cls.fields[slot]? = some field →
    (schema.inputOf cls field).intake.native? = none →
    FillsSlot calls id slot field (source.lookup field.name)

/--
Whether the listed calls of an import leave out no slot: not of a node of a group, not of the
node made for an inline object in a slot that a listed call fills, and not of the root, apart
from the slots that a group feeds.
-/
structure Complete (setting : Setting) (g : Graph) (document : List (String × Json)) : Prop where
  elements : ∀ group ∈ madeGroups setting g document, ∀ id source,
    (id, Json.obj source) ∈ group.nodes →
    ∃ cls ∈ setting.schema.classes, cls.name = group.className ∧
      FillsNode setting.schema (fillings setting g document) id cls source
  inlines : ∀ call ∈ fillings setting g document,
    ∀ part ∈ call.parts setting (madeGroups setting g document), ∀ object origin made,
    part.element = .obj object →
    part.StandsFor setting (madeGroups setting g document) call origin made →
    ∃ cls ∈ setting.schema.classes, IsOf setting.schema made.graph origin cls ∧
      FillsNode setting.schema (fillings setting g document) origin cls object
  root : ∀ root, (run setting g document).1.root = some root →
    ∃ cls, setting.schema.rootClass? = some cls ∧
      IsOf setting.schema (run setting g document).2.graph root cls ∧
      ∀ slot field, cls.fields[slot]? = some field →
        findGroup? (madeGroups setting g document) field.name = none →
        (setting.schema.inputOf cls field).intake.native? = none →
        FillsSlot (fillings setting g document) root slot field (document.lookup field.name)

variable {setting : Setting} {groups : List Group} {g : Graph} {p : Progress}
  {document : List (String × Json)} {depth : Nat} {inner : InlineFillings} {id : NodeId}
  {slot : Nat} {cls : SchemaClass} {field : Field} {calls calls' : List Filling}
  {source : List (String × Json)}

theorem FillsSlot.mono {value : Option Json} (h : FillsSlot calls id slot field value)
    (hsub : calls ⊆ calls') : FillsSlot calls' id slot field value := by
  intro given hvalue hgiven
  obtain ⟨call, hcall, hfills⟩ := h given hvalue hgiven
  exact ⟨call, hsub hcall, hfills⟩

theorem FillsNode.mono (h : FillsNode setting.schema calls id cls source)
    (hsub : calls ⊆ calls') : FillsNode setting.schema calls' id cls source :=
  fun slot field hfield hlinkFed => (h slot field hfield hlinkFed).mono hsub

/-! ## Things done in turn -/

section

variable {α : Type} {change : Progress → α → Progress} {each : α → Progress → List Filling}

/-- Whatever is done in turn makes its calls, from where the things before it have led to. -/
theorem exists_subset_overEach (each : α → Progress → List Filling)
    (hsteps : ∀ x q, Steps setting q (change q x)) {xs : List α} {x : α} (hx : x ∈ xs)
    (p : Progress) :
    ∃ q, Steps setting p q ∧ each x q ⊆ overEach change each xs p := by
  induction xs generalizing p with
  | nil =>
      exact absurd hx List.not_mem_nil
  | cons first rest ih =>
      rw [overEach]
      rcases List.mem_cons.1 hx with rfl | hlater
      · exact ⟨p, .refl, List.subset_append_left _ _⟩
      · obtain ⟨q, hq, hsub⟩ := ih hlater (change p first)
        exact ⟨q, (hsteps first p).trans hq, List.subset_append_of_subset_right _ hsub⟩

theorem overEach_map {β : Type} (f : β → α) (xs : List β) (p : Progress) :
    overEach change each (xs.map f) p =
      overEach (fun p x => change p (f x)) (fun x => each (f x)) xs p := by
  induction xs generalizing p with
  | nil =>
      rfl
  | cons x rest ih =>
      rw [List.map_cons, overEach, overEach, ih]

end

/-! ## Inside a call -/

theorem linkedFillings_eq (setting : Setting) (groups : List Group) (inner : InlineFillings)
    (call : Filling) (p : Progress) :
    linkedFillings setting groups call.depth inner call.target call.slot call.field call.value p =
      overEach (call.answer setting groups)
        (fun entry => elementFillings inner call.field entry.2)
        (entriesOf call.field call.value) p := by
  unfold Filling.answer
  cases call.value with
  | arr elements =>
      rw [linkedFillings, entriesOf, overEach_map]
      rfl
  | obj object =>
      rw [linkedFillings, entriesOf]
      split
      · rfl
      · rw [overEach, overEach, List.append_nil]
  | _ =>
      rfl

theorem subset_of_mem_partsFrom (each : String × Json → Progress → List Filling)
    {answer : Progress → String × Json → Progress} {entries : List (String × Json)} {part : Part}
    (hpart : part ∈ partsFrom answer entries p) :
    each (part.key, part.element) part.before ⊆ overEach answer each entries p := by
  induction entries generalizing p with
  | nil =>
      exact absurd hpart List.not_mem_nil
  | cons entry rest ih =>
      rw [overEach]
      rcases List.mem_cons.1 hpart with rfl | hlater
      · exact List.subset_append_left _ _
      · exact List.subset_append_of_subset_right _ (ih hlater)

/-- Whether what the inline objects in some calls lead to is among these calls. -/
def Closed (setting : Setting) (groups : List Group) (calls : List Filling) : Prop :=
  ∀ call ∈ calls, ∀ part ∈ call.parts setting groups, ∀ object, part.element = .obj object →
    inlineFillings setting groups call.depth call.field object part.before ⊆ calls

namespace Closed

theorem nil : Closed setting groups [] :=
  fun _ hcall => absurd hcall List.not_mem_nil

theorem append (h : Closed setting groups calls) (h' : Closed setting groups calls') :
    Closed setting groups (calls ++ calls') := by
  intro call hcall part hpart object hobject
  rcases List.mem_append.1 hcall with hfirst | hsecond
  · exact List.subset_append_of_subset_left _ (h call hfirst part hpart object hobject)
  · exact List.subset_append_of_subset_right _ (h' call hsecond part hpart object hobject)

end Closed

theorem closed_overEach {α : Type} {change : Progress → α → Progress}
    {each : α → Progress → List Filling} (h : ∀ x q, Closed setting groups (each x q))
    (xs : List α) (p : Progress) : Closed setting groups (overEach change each xs p) := by
  induction xs generalizing p with
  | nil =>
      exact .nil
  | cons x rest ih =>
      exact (h x p).append (ih (change p x))

section

variable (hinner : ∀ field object p,
  Closed setting groups (inlineFillings setting groups depth field object p))

include hinner

theorem closed_valueFillings (id : NodeId) (slot : Nat) (field : Field) (value : Option Json)
    (p : Progress) :
    Closed setting groups (valueFillings setting groups depth (inlineFillings setting groups depth)
      id slot field value p) := by
  cases value with
  | none =>
      exact .nil
  | some value =>
      rw [valueFillings]
      split
      · exact .nil
      · have hinside := linkedFillings_eq setting groups (inlineFillings setting groups depth)
          ⟨id, slot, field, value, depth, p⟩ p
        have helements : ∀ (entry : String × Json) q,
            Closed setting groups
              (elementFillings (inlineFillings setting groups depth) field entry.2 q) := by
          intro entry q
          cases entry.2 with
          | obj object =>
              exact hinner field object q
          | _ =>
              exact .nil
        rw [hinside]
        intro call hcall part hpart object hobject
        refine List.subset_cons_of_subset _ ?_
        rcases List.mem_cons.1 hcall with rfl | hlater
        · have hsub := subset_of_mem_partsFrom
            (fun entry => elementFillings (inlineFillings setting groups depth) field entry.2) hpart
          rwa [hobject] at hsub
        · exact closed_overEach helements _ p call hlater part hpart object hobject

theorem closed_populateFillings (id : NodeId) (source : List (String × Json)) (p : Progress) :
    Closed setting groups (populateFillings setting groups depth
      (inlineFillings setting groups depth) id source p) := by
  unfold populateFillings
  split
  · exact closed_overEach
      (fun (entry : Field × Nat) q => closed_valueFillings hinner id entry.2 entry.1
        (source.lookup entry.1.name) q) _ p
  · exact .nil

end

/-- By induction on how deep objects nest, what lies further inside is always listed too. -/
theorem closed_inlineFillings (depth : Nat) (field : Field) (object : List (String × Json))
    (p : Progress) :
    Closed setting groups (inlineFillings setting groups depth field object p) := by
  induction depth generalizing field object p with
  | zero =>
      exact .nil
  | succ depth ih =>
      rw [inlineFillings]
      unfold inlineFillingsWith
      split
      · split
        · exact closed_populateFillings ih _ object _
        · exact .nil
      · exact .nil

theorem closed_fillings (setting : Setting) (g : Graph) (document : List (String × Json)) :
    Closed setting (madeGroups setting g document) (fillings setting g document) := by
  refine .append (closed_overEach (fun group q => closed_overEach (fun entry r => ?_) _ q) _ _) ?_
  · unfold groupNodeFillings
    split
    · exact closed_populateFillings (closed_inlineFillings _) _ _ r
    · exact .nil
  · unfold rootFillings
    split
    · exact .nil
    · split
      · exact .nil
      · refine closed_overEach (fun entry q => ?_) _ _
        unfold rootSlotFillings
        split
        · exact .nil
        · exact closed_valueFillings (closed_inlineFillings _) _ _ _ _ q

/-! ## Nodes -/

/-- A slot that only links feed is filled by a call of its own. -/
theorem fillsSlot_valueFillings (hnode : IsOf setting.schema p.graph id cls)
    (hfield : cls.fields[slot]? = some field)
    (hlinkFed : (setting.schema.inputOf cls field).intake.native? = none) (value : Option Json) :
    FillsSlot (valueFillings setting groups depth inner id slot field value p) id slot field
      value := by
  rintro given rfl hgiven
  have hnative := isNative_eq (hnode.input_eq hfield)
  rw [hlinkFed] at hnative
  rw [valueFillings, if_neg (by simp [hnative, hgiven])]
  exact ⟨_, List.mem_cons_self, rfl, rfl, rfl, rfl⟩

theorem fillsNode_populateFillings (haccepted : setting.schema.Accepted)
    (hcls : cls ∈ setting.schema.classes) (hnode : IsOf setting.schema p.graph id cls)
    (source : List (String × Json)) :
    FillsNode setting.schema (populateFillings setting groups depth inner id source p) id cls
      source := by
  have hembed : Embed.TakesSteps setting (embedAt setting groups depth) := takesSteps_embedAt depth
  rw [populateFillings_eq hnode (haccepted.findClass?_eq_some_iff.2 ⟨hcls, rfl⟩)]
  intro slot field hfield hlinkFed
  obtain ⟨q, hsteps, hsub⟩ := exists_subset_overEach
    (fun (entry : Field × Nat) => valueFillings setting groups depth inner id entry.2 entry.1
      (source.lookup entry.1.name))
    (fun entry q => steps_fillValue hembed id entry.2 entry.1 (source.lookup entry.1.name) q)
    (List.mk_mem_zipIdx_iff_getElem?.2 hfield) p
  exact (fillsSlot_valueFillings (hnode.steps hsteps) hfield hlinkFed _).mono hsub

theorem exists_subset_groupFillings {group : Group} (hgroup : group ∈ groups)
    (hmember : (id, Json.obj source) ∈ group.nodes) (p : Progress) :
    ∃ q, Steps setting p q ∧
      populateFillings setting groups depth (inlineFillings setting groups depth) id source q ⊆
        groupFillings setting groups depth p := by
  have hembed : Embed.TakesSteps setting (embedAt setting groups depth) := takesSteps_embedAt depth
  obtain ⟨position, hposition⟩ := List.getElem?_of_mem hmember
  obtain ⟨q, hq, hturn⟩ := exists_subset_overEach
    (fun group => overEach (populateElement setting groups (embedAt setting groups depth) group.key)
      (groupNodeFillings setting groups depth) group.nodes.zipIdx)
    (fun group q => steps_populateNodes hembed group.key 0 group.nodes q) hgroup p
  obtain ⟨r, hr, hsub⟩ := exists_subset_overEach (groupNodeFillings setting groups depth)
    (fun entry r => steps_populateElement hembed group.key entry r)
    (List.mk_mem_zipIdx_iff_getElem?.2 hposition) q
  exact ⟨r, hq.trans hr, List.Subset.trans hsub hturn⟩

section

variable (haccepted : setting.schema.Accepted)
  (hserves : setting.registry.Serves setting.schema)

include haccepted hserves

theorem fillsNode_inlineFillings (hp : Underway setting groups g p)
    {object : List (String × Json)} {origin : NodeId} {made : Progress}
    (hmade : embedAt setting groups depth field object p = (some origin, made))
    (hreach : Reaches g made) :
    ∃ cls ∈ setting.schema.classes, IsOf setting.schema made.graph origin cls ∧
      FillsNode setting.schema (inlineFillings setting groups depth field object p) origin cls
        object := by
  cases depth with
  | zero =>
      cases hmade
  | succ depth =>
      have hembed : Embed.TakesSteps setting (embedAt setting groups depth) :=
        takesSteps_embedAt depth
      rw [embedAt] at hmade
      rw [inlineFillings]
      rcases embedWith_cases hserves hembed depth (inlineFillings setting groups depth) field object
        hp (hmade ▸ hreach) with ⟨-, hnone, -⟩ | ⟨cls, id, q, hjoins, -, hfilled, hcalls⟩
      · rw [hmade] at hnone
        cases hnone
      · rw [hmade] at hfilled
        obtain ⟨rfl, rfl⟩ : origin = id ∧ made = _ := by
          simpa using hfilled
        have hsteps : Steps setting q
            (populate setting groups (embedAt setting groups depth) origin object q) :=
          steps_populate hembed origin object q
        rw [hcalls]
        exact ⟨cls, hjoins.declared, hjoins.node.steps hsteps,
          fillsNode_populateFillings haccepted hjoins.declared hjoins.node object⟩

omit haccepted in
theorem fillsSlot_rootFillings (hp : Underway setting groups g p) {loose : List String}
    {root : NodeId}
    (hroot : (createRoot setting groups (embedAt setting groups depth) loose document p).1 =
      some root)
    (hreach : Reaches g (createRoot setting groups (embedAt setting groups depth) loose document
      p).2) :
    ∃ cls, setting.schema.rootClass? = some cls ∧
      IsOf setting.schema
        (createRoot setting groups (embedAt setting groups depth) loose document p).2.graph
        root cls ∧
      ∀ slot field, cls.fields[slot]? = some field → findGroup? groups field.name = none →
        (setting.schema.inputOf cls field).intake.native? = none →
        FillsSlot (rootFillings setting groups depth document p) root slot field
          (document.lookup field.name) := by
  have hembed : Embed.TakesSteps setting (embedAt setting groups depth) := takesSteps_embedAt depth
  unfold createRoot at hroot hreach ⊢
  unfold rootFillings
  cases hclass : setting.schema.rootClass? with
  | none =>
      simp only [hclass] at hroot
      cases hroot
  | some cls =>
      have hcls := (Schema.of_rootClass? hclass).1
      simp only [hclass] at hroot hreach ⊢
      obtain ⟨id, q, hcreate, hjoins⟩ := joins_createNode hserves hp hcls setting.layout.rootX
        setting.layout.rowStartY fun id q hcreate => by
          simp only [hcreate] at hreach
          exact (hreach.back (steps_reports setting Issue.strayRootKey _ _)).back
            (steps_fillRoot hembed id document 0 cls.fields q)
      simp only [hcreate] at hroot ⊢
      obtain rfl := Option.some.inj hroot
      have hfilled : Steps setting q
          (fillRoot setting groups (embedAt setting groups depth) id document 0 cls.fields q) :=
        steps_fillRoot hembed id document 0 cls.fields q
      refine ⟨cls, rfl, (hjoins.node.steps hfilled).steps
        (steps_reports setting Issue.strayRootKey _ _), fun slot field hfield hfree hlinkFed => ?_⟩
      obtain ⟨r, hsteps, hsub⟩ := exists_subset_overEach
        (rootSlotFillings setting groups depth id document)
        (fun entry r => steps_fillRootSlot hembed id entry.2 entry.1
          (document.lookup entry.1.name) r)
        (List.mk_mem_zipIdx_iff_getElem?.2 hfield) q
      have hslot : rootSlotFillings setting groups depth id document (field, slot) r =
          valueFillings setting groups depth (inlineFillings setting groups depth) id slot field
            (document.lookup field.name) r := by
        rw [rootSlotFillings, hfree]
      rw [hslot] at hsub
      exact (fillsSlot_valueFillings (hjoins.node.steps hsteps) hfield hlinkFed _).mono hsub

theorem complete_fillings (hg : g.WellFormed) (hreach : Reaches g (run setting g document).2) :
    Complete setting g document := by
  obtain ⟨hmade, -, hpopulated, -⟩ := underway_passes haccepted hserves hg hreach
  refine ⟨fun group hgroup id source hmember => ?_,
    fun call hcall part hpart object origin made hobject hstands => ?_, fun root hroot => ?_⟩
  · obtain ⟨cls, hcls, hname, hnodes⟩ := hmade.stocked group hgroup
    have hnode := hnodes id (List.mem_map_of_mem hmember)
    obtain ⟨q, hsteps, hsub⟩ := exists_subset_groupFillings hgroup hmember
      (afterGroups setting g document)
    exact ⟨cls, hcls, hname,
      ((fillsNode_populateFillings haccepted hcls (hnode.steps hsteps) source).mono hsub).mono
        (List.subset_append_left _ _)⟩
  · obtain ⟨hproper, hunderway, -, hlast⟩ := between_fillings haccepted hserves hg hreach call hcall
    have hpartReach := hreach.back ((steps_after_part hproper hpart).trans hlast)
    rcases hstands with ⟨index, hnumber, -⟩ | ⟨other, hother, hembedded⟩
    · rw [hobject] at hnumber
      cases hnumber
    · obtain rfl := Json.obj.inj (hobject.symm.trans hother)
      have hmadeReach := hpartReach.back (steps_embedded_part hpart hobject)
      rw [hembedded] at hmadeReach
      obtain ⟨cls, hcls, hnode, hfills⟩ := fillsNode_inlineFillings haccepted hserves
        (underway_part hunderway hpart hpartReach) hembedded hmadeReach
      exact ⟨cls, hcls, hnode,
        hfills.mono (closed_fillings setting g document call hcall part hpart object hobject)⟩
  · obtain ⟨cls, hclass, hnode, hfills⟩ := fillsSlot_rootFillings hserves hpopulated hroot hreach
    exact ⟨cls, hclass, hnode, fun slot field hfield hfree hlinkFed =>
      (hfills slot field hfield hfree hlinkFed).mono (List.subset_append_right _ _)⟩

end

end Import

end SlotGraph
