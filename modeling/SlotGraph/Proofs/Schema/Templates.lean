import Mathlib.Data.List.Nodup
import SlotGraph.Proofs.Json.Members
import SlotGraph.Template.Registry

/-!
# Templates of classes

A class gives its nodes one slot for each field, in the order of the fields.
-/

namespace SlotGraph

namespace Schema

def isRoot (schema : Schema) (cls : SchemaClass) : Bool :=
  schema.rootType != "" && schema.rootType == cls.name

def inputOf (schema : Schema) (cls : SchemaClass) (field : Field) : InputSpec :=
  InputSpec.ofField schema (schema.isRoot cls) field

/-- A slot that collects links is keyed exactly for a dictionary. -/
theorem isDict_of_intake {schema : Schema} {cls : SchemaClass} {field : Field} {keyed : Bool}
    (h : (schema.inputOf cls field).intake = .many keyed) :
    field.type.required.isDict = keyed := by
  have hintake : field.type.intake schema.indexType schema.classes (schema.isRoot cls) =
      .many keyed := h
  unfold TypeExpr.intake at hintake
  split at hintake
  · exact Intake.many.inj hintake
  · simp at hintake

def IsTemplate (schema : Schema) (cls : SchemaClass) (template : NodeTemplate) : Prop :=
  ∃ schemaId classId, template = NodeTemplate.ofClass schema schemaId classId cls

theorem IsTemplate.inputs {schema : Schema} {cls : SchemaClass} {template : NodeTemplate}
    (h : schema.IsTemplate cls template) :
    template.inputs = cls.fields.map (schema.inputOf cls) := by
  obtain ⟨schemaId, classId, rfl⟩ := h
  rfl

theorem IsTemplate.names_inputs {schema : Schema} {cls : SchemaClass} {template : NodeTemplate}
    (h : schema.IsTemplate cls template) :
    template.inputs.map InputSpec.name = cls.fields.map Field.name := by
  rw [h.inputs, List.map_map]
  rfl

theorem IsTemplate.className {schema : Schema} {cls : SchemaClass} {template : NodeTemplate}
    (h : schema.IsTemplate cls template) : template.className = cls.name := by
  obtain ⟨schemaId, classId, rfl⟩ := h
  rfl

theorem IsTemplate.outputs {schema : Schema} {cls : SchemaClass} {template : NodeTemplate}
    (h : schema.IsTemplate cls template) : template.outputs = [⟨"self", cls.name⟩] := by
  obtain ⟨schemaId, classId, rfl⟩ := h
  rfl

theorem IsTemplate.input_eq {schema : Schema} {cls : SchemaClass} {template : NodeTemplate}
    (h : schema.IsTemplate cls template) {position : Nat} {field : Field}
    (hfield : cls.fields[position]? = some field) :
    template.inputs[position]? = some (schema.inputOf cls field) := by
  rw [h.inputs, List.getElem?_map, hfield]
  rfl

end Schema

namespace NodeTemplate

variable {schema : Schema} {schemaId : Nat}

theorem mem_ofClassesFrom {classes : List SchemaClass} {classId : Nat}
    {template : NodeTemplate} (h : template ∈ ofClassesFrom schema schemaId classId classes) :
    ∃ cls ∈ classes, ∃ position, template = ofClass schema schemaId position cls := by
  induction classes generalizing classId with
  | nil =>
      exact absurd h List.not_mem_nil
  | cons first rest ih =>
      rcases List.mem_cons.1 h with rfl | hlater
      · exact ⟨first, List.mem_cons_self, classId, rfl⟩
      · obtain ⟨cls, hcls, hposition⟩ := ih hlater
        exact ⟨cls, List.mem_cons_of_mem first hcls, hposition⟩

theorem mem_ofSchema {template : NodeTemplate} (h : template ∈ ofSchema schema schemaId) :
    ∃ cls ∈ schema.classes, ∃ position, template = ofClass schema schemaId position cls :=
  mem_ofClassesFrom h

theorem schemaName_of_mem_ofSchema {template : NodeTemplate}
    (h : template ∈ ofSchema schema schemaId) : template.schemaName = schema.name := by
  obtain ⟨cls, -, position, rfl⟩ := mem_ofSchema h
  rfl

theorem of_mem_valueTemplates : ∀ template ∈ valueTemplates,
    template.key.schemaId = 0 ∧ template.schemaName = nativeSchema ∧ template.className ≠ "" ∧
      template.inputs.length = 0 ∧ template.outputs.length = 1 := by
  decide

theorem classNames_ofClassesFrom (classes : List SchemaClass) (classId : Nat) :
    (ofClassesFrom schema schemaId classId classes).map className =
      classes.map SchemaClass.name := by
  induction classes generalizing classId with
  | nil =>
      rfl
  | cons first rest ih =>
      rw [ofClassesFrom, List.map_cons, List.map_cons, ih]
      rfl

end NodeTemplate

def Registry.Serves (registry : Registry) (schema : Schema) : Prop :=
  ∀ cls ∈ schema.classes, ∃ template,
    registry.find? schema.name cls.name = some template ∧ schema.IsTemplate cls template

namespace Registry

def nameOf (template : NodeTemplate) : String × String :=
  (template.schemaName, template.className)

/-- Among templates of distinct names each is found under its own. -/
theorem find?_eq_some {registry : Registry} (h : (registry.templates.map nameOf).Nodup)
    {template : NodeTemplate} (htemplate : template ∈ registry.templates) :
    registry.find? template.schemaName template.className = some template :=
  find?_of_nodup_map h htemplate

theorem find?_ofClassesFrom {schema : Schema} {schemaId : Nat} {classes : List SchemaClass}
    (hdistinct : (classes.map SchemaClass.name).Nodup) {cls : SchemaClass}
    (hcls : cls ∈ classes) (classId : Nat) :
    ∃ template, (NodeTemplate.ofClassesFrom schema schemaId classId classes).find?
        (fun t => t.schemaName == schema.name && t.className == cls.name) = some template ∧
      schema.IsTemplate cls template := by
  induction classes generalizing classId with
  | nil =>
      simp at hcls
  | cons first rest ih =>
      obtain ⟨hfresh, hrest⟩ := List.nodup_cons.1 hdistinct
      rw [NodeTemplate.ofClassesFrom, List.find?_cons]
      rcases List.mem_cons.1 hcls with rfl | hlater
      · refine ⟨NodeTemplate.ofClass schema schemaId classId cls, ?_, schemaId, classId, rfl⟩
        simp [NodeTemplate.ofClass]
      · have hne : first.name ≠ cls.name := by
          intro heq
          exact hfresh (heq ▸ List.mem_map_of_mem hlater)
        have hother : ((NodeTemplate.ofClass schema schemaId classId first).className ==
            cls.name) = false := beq_false_of_ne hne
        rw [hother, Bool.and_false]
        exact ih hrest hlater (classId + 1)

theorem serves_add {registry : Registry} {schema : Schema} {schemaId : Nat}
    (hdistinct : (schema.classes.map SchemaClass.name).Nodup)
    (hnew : ∀ template ∈ (registry.remove schemaId).templates,
      template.schemaName ≠ schema.name) :
    (registry.add schema schemaId).Serves schema := by
  intro cls hcls
  obtain ⟨template, hfind, htemplate⟩ := find?_ofClassesFrom hdistinct hcls 1
  refine ⟨template, ?_, htemplate⟩
  have hnone : (registry.remove schemaId).templates.find?
      (fun t => t.schemaName == schema.name && t.className == cls.name) = none := by
    rw [List.find?_eq_none]
    intro other hother
    simp [hnew other hother]
  rw [find?, add, List.find?_append, hnone]
  exact hfind

end Registry

end SlotGraph
