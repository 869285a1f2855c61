import SlotGraph.Proofs.Config.Natives
import SlotGraph.Proofs.Config.Written
import SlotGraph.Proofs.Import.Classes

/-!
# Documents in normal form

A document is in normal form when it says everything the way a build writes it: native
values that their slots keep, links as indices of elements that fit, and nothing that
a build leaves out.
-/

namespace SlotGraph

namespace Import

variable {setting : Setting} {schema : Schema} {document : List (String × Json)}
  {groups : List Group} {g : Graph}

/--
Whether a value is the index of an element under the key of the class that a field
refers to, and this class fits the slot of the field.
-/
def IsIndex (schema : Schema) (document : List (String × Json)) (input : InputSpec)
    (field : Field) (value : Json) : Prop :=
  ∃ (className : String) (index : Nat), schema.modelOf? field = some className ∧
    index < (elementsOf schema document className).length ∧
    TypeExpr.textFits className input.linkType = true ∧ value = .int index

/-- Whether the value of a field stands there as a build writes it. -/
def NormalValue (schema : Schema) (document : List (String × Json)) (input : InputSpec)
    (field : Field) (value : Json) : Prop :=
  match input.intake with
  | .single (some kind) => kind.Keeps input.optional value
  | .single none => IsIndex schema document input field value
  | .many false =>
      ∃ items, value = .arr items ∧ (input.optional = true → items ≠ []) ∧
        ∀ item ∈ items, IsIndex schema document input field item
  | .many true =>
      ∃ members, value = .obj members ∧ (input.optional = true → members ≠ []) ∧
        Json.Ascending members ∧
        ∀ member ∈ members, member.1 ≠ "" ∧ IsIndex schema document input field member.2

/-- Whether a build may write nothing for a slot. -/
def MayLack (input : InputSpec) : Prop :=
  input.optional = true ∨ input.intake = .single none

/-- Whether what an object says of a field, if anything, is as a build writes it. -/
def NormalSlot (schema : Schema) (document : List (String × Json)) (input : InputSpec)
    (field : Field) : Option Json → Prop
  | some value => NormalValue schema document input field value
  | none => MayLack input

/-- Whether an object says of the given fields of a class what a build writes. -/
structure NormalObject (schema : Schema) (document : List (String × Json)) (cls : SchemaClass)
    (fields : List Field) (source : List (String × Json)) : Prop where
  ascending : Json.Ascending source
  known : ∀ member ∈ source, ∃ field ∈ fields, field.name = member.1
  slots : ∀ field ∈ fields,
    NormalSlot schema document (schema.inputOf cls field) field (source.lookup field.name)

/-! ## Normal values are flat -/

theorem indices?_of_isIndex {input : InputSpec} {field : Field} {α : Type} {value : α → Json}
    (key : α → String) {xs : List α}
    (h : ∀ x ∈ xs, IsIndex schema document input field (value x)) :
    ∃ entries, xs.mapM (fun x => (value x).int64?.map fun index => (index, key x)) =
      some entries := by
  induction xs with
  | nil =>
      exact ⟨[], rfl⟩
  | cons x rest ih =>
      obtain ⟨entries, hentries⟩ := ih fun y hy => h y (List.mem_cons_of_mem _ hy)
      obtain ⟨-, index, -, -, -, hvalue⟩ := h x List.mem_cons_self
      refine ⟨((index : Int).bmod (2 ^ 64), key x) :: entries, ?_⟩
      rw [List.mapM_cons, hentries, hvalue]
      rfl

theorem NormalValue.flat {cls : SchemaClass} {field : Field} {value : Json}
    (h : NormalValue schema document (schema.inputOf cls field) field value) :
    Flat (schema.inputOf cls field) field value := by
  unfold NormalValue at h
  split at h
  · next kind hintake =>
      exact Or.inl (by rw [hintake]; rfl)
  · obtain ⟨-, index, -, -, -, rfl⟩ := h
    exact Or.inr (Or.inr ⟨_, rfl, Or.inr (Nat.le_refl 1)⟩)
  · next hintake =>
      obtain ⟨items, rfl, -, hitems⟩ := h
      obtain ⟨entries, hentries⟩ := indices?_of_isIndex (fun _ => "") hitems
      exact Or.inr (Or.inr ⟨entries, hentries, Or.inl (by rw [hintake]; rfl)⟩)
  · next hintake =>
      obtain ⟨members, rfl, -, -, hmembers⟩ := h
      obtain ⟨entries, hentries⟩ :=
        indices?_of_isIndex _ fun member hmember => (hmembers member hmember).2
      have hkeyed := schema.isDict_of_intake hintake
      refine Or.inr (Or.inr ⟨entries, ?_, Or.inl (by rw [hintake]; rfl)⟩)
      rw [indices?, if_pos hkeyed]
      exact hentries

/-! ## Indices that come back -/

theorem Imported.index_written (h : Imported setting document groups g)
    (hregular : setting.schema.Regular) (hserves : setting.registry.Serves setting.schema)
    (hkeys : (document.map Prod.fst).Nodup) (hcount : (g.nodes.length : Int) ≤ Graph.lastId)
    {cls : SchemaClass} (hcls : cls ∈ setting.schema.classes) {field : Field}
    (hfield : field ∈ cls.fields) {id : NodeId} {position : Nat} {input : InputSpec}
    (hinput : (g.shape? id).bind (·.inputs[position]?) = some input) {value : Json}
    (hvalue : IsIndex setting.schema document input field value) :
    ∃ origin index, value.int64? = some index ∧
      (∀ key, source? setting groups g id position field (index, key) = some ⟨origin, key⟩) ∧
      Build.resolve g setting.schema origin = value := by
  obtain ⟨name, index, hmodel, hlt, hfits, rfl⟩ := hvalue
  obtain ⟨model, hmem, rfl, hroot⟩ := hregular.class_of_modelOf? hcls hfield hmodel
  have hplanned := h.planned hregular hkeys
  have hids := h.ids_group hregular hserves hkeys hmem hroot
  rw [← hplanned.elements_nodesUnder hmem hroot, List.length_map] at hlt
  have hlength : (g.group setting.schema model.name).length =
      (nodesUnder groups (setting.schema.keyOfClass model.name)).length := by
    simpa using congrArg List.length hids
  obtain ⟨node, hnode⟩ : ∃ node, (g.group setting.schema model.name)[index]? = some node :=
    ⟨_, List.getElem?_eq_getElem (hlength ▸ hlt)⟩
  have hfound : ((nodesUnder groups (setting.schema.keyOfClass model.name))[index]?).map
      Prod.fst = some node.id := by
    rw [← List.getElem?_map, ← hids, List.getElem?_map, hnode]
    rfl
  have hindex := Graph.int64?_index hcount hnode
  have hadmits : g.admits node.id id position = true := by
    have hgrouped := List.mem_of_getElem? hnode
    obtain ⟨made, -, hname, -, hclass⟩ :=
      (h.madeFrom hregular hserves).class_of_group hgrouped
    rw [h.wellFormed.admits_eq (Graph.mem_group.1 hgrouped).1 hclass hinput, hname]
    exact hfits
  refine ⟨node.id, index, hindex, fun key => ?_, Build.resolve_eq h.wellFormed hnode⟩
  rw [source?, hplanned.resolve?_eq hmodel, hfound, Option.bind_some, if_pos hadmits]

theorem sources_written {id : NodeId} {position : Nat} {field : Field} {α : Type}
    {value shown : α → Json} (key : α → String) {xs : List α}
    (h : ∀ x ∈ xs, ∃ origin index, (value x).int64? = some index ∧
      (∀ key, source? setting groups g id position field (index, key) = some ⟨origin, key⟩) ∧
      Build.resolve g schema origin = shown x) :
    ∃ entries, xs.mapM (fun x => (value x).int64?.map fun index => (index, key x)) =
        some entries ∧
      (entries.filterMap (source? setting groups g id position field)).map
          (fun source => (source.key, Build.resolve g schema source.origin)) =
        xs.map fun x => (key x, shown x) := by
  induction xs with
  | nil =>
      exact ⟨[], rfl, rfl⟩
  | cons x rest ih =>
      obtain ⟨entries, hentries, hsources⟩ := ih fun y hy => h y (List.mem_cons_of_mem _ hy)
      obtain ⟨origin, index, hindex, hsource, hresolve⟩ := h x List.mem_cons_self
      refine ⟨(index, key x) :: entries, ?_, ?_⟩
      · rw [List.mapM_cons, hentries, hindex]
        rfl
      · rw [List.filterMap_cons, hsource]
        simp only [List.map_cons, hresolve, hsources]

end Import

namespace Build

variable {g : Graph} {schema : Schema}

theorem toItems_refs (resolve : NodeId → Json) (sources : List Source) :
    NodeValue.toItems resolve (sources.map fun source => .ref source.origin) =
      sources.map fun source => resolve source.origin := by
  induction sources with
  | nil =>
      rfl
  | cons source rest ih =>
      rw [List.map_cons, NodeValue.toItems, ih]
      rfl

theorem toMembers_refs {α : Type} (resolve : NodeId → Json) (key : α → String)
    (origin : α → NodeId) (xs : List α) :
    NodeValue.toMembers resolve (xs.map fun x => (key x, .ref (origin x))) =
      xs.map fun x => (key x, resolve (origin x)) := by
  induction xs with
  | nil =>
      rfl
  | cons x rest ih =>
      rw [List.map_cons, NodeValue.toMembers, ih]
      rfl

theorem written_array {input : InputSpec} {sources : List Source} {held : Option Json}
    (hintake : input.intake = .many false) (hsome : input.optional = true → sources ≠ []) :
    written? g schema input ⟨sources, held⟩ =
      some (.arr (sources.map fun source => resolve g schema source.origin)) := by
  have hshown : ((sources.map fun source => NodeValue.ref source.origin).isEmpty &&
      input.optional) = false := by
    cases hoptional : input.optional with
    | false =>
        exact Bool.and_false _
    | true =>
        simpa using hsome hoptional
  rw [written?, InputSpec.value?, hintake]
  simp only [hshown, Bool.false_eq_true, if_false, Option.map_some]
  exact congrArg (some ∘ Json.arr) (toItems_refs _ sources)

/-- Links of distinct keys into a keyed slot are written as an object. -/
theorem written_keyed {input : InputSpec} {sources : List Source} {held : Option Json}
    (hintake : input.intake = .many true) (hsome : input.optional = true → sources ≠ [])
    (hkeys : ∀ source ∈ sources, source.key ≠ "")
    (hdistinct : (sources.map Source.key).Nodup) :
    written? g schema input ⟨sources, held⟩ =
      some (Json.ofMembers
        (sources.map fun source => (source.key, resolve g schema source.origin))) := by
  have hentry : ∀ entry ∈ sources.zipIdx, entry.1.entryKey entry.2 = entry.1.key := by
    intro entry hentry
    exact if_neg (hkeys _ (List.fst_mem_of_mem_zipIdx hentry))
  have hnames : (sources.zipIdx.map fun entry => entry.1.entryKey entry.2) =
      sources.map Source.key := by
    rw [List.map_congr_left hentry, map_zipIdx_fst]
  have hrefs : Source.keyedRefs sources =
      sources.map fun source => (source.key, NodeValue.ref source.origin) := by
    rw [Source.keyedRefs_of_distinct (by rwa [hnames]),
      ← map_zipIdx_fst fun source : Source => (source.key, NodeValue.ref source.origin)]
    refine List.map_congr_left fun entry hmem => ?_
    rw [hentry entry hmem]
  have hshown : ((Source.keyedRefs sources).isEmpty && input.optional) = false := by
    rw [hrefs]
    cases hoptional : input.optional with
    | false =>
        exact Bool.and_false _
    | true =>
        simpa using hsome hoptional
  rw [written?, InputSpec.value?, hintake]
  simp only [hshown, Bool.false_eq_true, if_false, Option.map_some]
  rw [hrefs]
  show some (Json.ofMembers (NodeValue.toMembers (resolve g schema) _)) = _
  rw [toMembers_refs (resolve g schema) Source.key Source.origin sources]

theorem written_object {input : InputSpec} {sources : List Source} {held : Option Json}
    {members : List (String × Json)} (hintake : input.intake = .many true)
    (hsome : input.optional = true → sources ≠ []) (hmembers : Json.Ascending members)
    (hkeys : ∀ source ∈ sources, source.key ≠ "")
    (hsources : (sources.map fun source => (source.key, resolve g schema source.origin)) =
      members) :
    written? g schema input ⟨sources, held⟩ = some (.obj members) := by
  have hnames : sources.map Source.key = members.map Prod.fst := by
    rw [← hsources, List.map_map]
    rfl
  have hdistinct : (sources.map Source.key).Nodup := hnames ▸ hmembers.nodup
  rw [written_keyed hintake hsome hkeys hdistinct, hsources,
    Json.ofMembers_of_ascending hmembers]

theorem written_single {input : InputSpec} {native : Option NativeKind} {source : Source}
    {held : Option Json} (hintake : input.intake = .single native) :
    written? g schema input ⟨[source], held⟩ = some (resolve g schema source.origin) := by
  rw [written?, InputSpec.value?, hintake]
  rfl

end Build

namespace Import

variable {setting : Setting} {document : List (String × Json)} {groups : List Group} {g : Graph}

/-- A slot that is left fresh for want of a value is not written, if it may lack one. -/
theorem written_missing {input : InputSpec} (h : MayLack input) :
    Build.written? g setting.schema input
      ⟨[], if input.optional then input.intake.native?.map fun _ => .null
        else input.intake.freshContent.held⟩ = none := by
  rw [Build.written?, InputSpec.value?]
  cases hintake : input.intake with
  | many keyed =>
      have hoptional : input.optional = true := by
        simpa [MayLack, hintake] using h
      cases keyed <;> simp [hoptional, Source.keyedRefs, NodeValue.putAll]
  | single native =>
      cases native with
      | none =>
          rfl
      | some kind =>
          have hoptional : input.optional = true := by
            simpa [MayLack, hintake] using h
          have hnull : kind.coerceInput? true .null = none := by
            cases kind <;> rfl
          simp [hoptional, Intake.native?, hnull]

/-- A slot that is filled from a normal value is written as this value. -/
theorem Imported.slot_written (h : Imported setting document groups g)
    (hregular : setting.schema.Regular) (hserves : setting.registry.Serves setting.schema)
    (hkeys : (document.map Prod.fst).Nodup) (hcount : (g.nodes.length : Int) ≤ Graph.lastId)
    {cls : SchemaClass} (hcls : cls ∈ setting.schema.classes) {field : Field}
    (hfield : field ∈ cls.fields) {id : NodeId} {position : Nat}
    (hinput : (g.shape? id).bind (·.inputs[position]?) =
      some (setting.schema.inputOf cls field)) {value : Option Json}
    (hvalue : NormalSlot setting.schema document (setting.schema.inputOf cls field) field value) :
    Build.written? g setting.schema (setting.schema.inputOf cls field)
      (filledContent setting groups g id position (setting.schema.inputOf cls field) field
        value) = value := by
  have hindex : ∀ v, IsIndex setting.schema document (setting.schema.inputOf cls field) field v →
      ∃ origin index, v.int64? = some index ∧
        (∀ key, source? setting groups g id position field (index, key) = some ⟨origin, key⟩) ∧
        Build.resolve g setting.schema origin = v :=
    fun v hv => h.index_written hregular hserves hkeys hcount hcls hfield hinput hv
  cases value with
  | none =>
      exact written_missing hvalue
  | some value =>
      have hnormal : NormalValue setting.schema document (setting.schema.inputOf cls field) field
          value := hvalue
      rw [filledContent]
      unfold NormalValue at hnormal
      split at hnormal
      · next kind hintake =>
          rw [if_pos (by rw [hintake]; rfl), Build.written?, InputSpec.value?, hintake]
          exact Build.written_native hnormal
      · next hintake =>
          obtain ⟨origin, index, hint, hsource, hresolve⟩ := hindex value hnormal
          obtain ⟨-, number, -, -, -, rfl⟩ := hnormal
          have hentries : indices? field.type.required.isDict (.int number) =
              some [(index, "")] := by
            show ((Json.int number).int64?.map fun index => [(index, "")]) = _
            rw [hint]
            rfl
          rw [if_neg (by rw [hintake]; simp [Intake.native?]), hentries, Option.getD_some,
            List.filterMap_cons, hsource]
          simp only [List.filterMap_nil]
          rw [Build.written_single hintake, hresolve]
      · next hintake =>
          obtain ⟨items, rfl, hsome, hitems⟩ := hnormal
          obtain ⟨entries, hentries, hsources⟩ :=
            sources_written (fun _ => "") fun item hitem => hindex item (hitems item hitem)
          have hvalues : (entries.filterMap (source? setting groups g id position field)).map
              (fun source => Build.resolve g setting.schema source.origin) = items := by
            have hshown := congrArg (List.map Prod.snd) hsources
            simpa [Function.comp_def] using hshown
          rw [if_neg (by rw [hintake]; simp [Intake.native?]), indices?, hentries,
            Option.getD_some, Build.written_array hintake, hvalues]
          intro hoptional hnone
          rw [hnone] at hvalues
          exact hsome hoptional hvalues.symm
      · next hintake =>
          obtain ⟨members, rfl, hsome, hascending, hmembers⟩ := hnormal
          obtain ⟨entries, hentries, hsources⟩ :=
            sources_written _ fun member hmember => hindex _ (hmembers member hmember).2
          rw [List.map_id'] at hsources
          rw [if_neg (by rw [hintake]; simp [Intake.native?]), indices?,
            if_pos (setting.schema.isDict_of_intake hintake), hentries, Option.getD_some]
          refine Build.written_object hintake ?_ hascending ?_ hsources
          · intro hoptional hnone
            rw [hnone] at hsources
            exact hsome hoptional hsources.symm
          · intro source hsource
            have hmem : (source.key, Build.resolve g setting.schema source.origin) ∈ members :=
              hsources ▸ List.mem_map_of_mem hsource
            exact (hmembers _ hmem).1

end Import

end SlotGraph
