import SlotGraph.Proofs.Json.Members
import SlotGraph.Proofs.Schema.Declared
import SlotGraph.Proofs.Schema.Templates

/-!
# Keys of a regular schema

A schema is regular when the fields of each class have distinct names, no field refers
to the root, and the document key of a class stands for this class again.  The group
keys are then exactly the keys of the classes beside the root, each of its own.
-/

namespace SlotGraph

namespace TypeExpr

theorem declared_of_modelClass? {type : TypeExpr} {indexType : String}
    {classes : List SchemaClass} {name : String}
    (h : type.modelClass? indexType classes = some name) :
    SchemaClass.declared classes name = true := by
  unfold modelClass? at h
  split at h
  · obtain ⟨alternative, -, hfound⟩ := List.exists_of_findSome?_eq_some h
    have hkept := (Option.filter_eq_some_iff.1 hfound).2
    simpa using (Bool.and_eq_true_iff.1 hkept).2
  · split at h
    · next hdeclared =>
        rwa [← Option.some.inj h]
    · simp at h
  · simp at h

end TypeExpr

namespace FieldMapping

theorem mem_put {key value : String} {entries : List (String × String)}
    {entry : String × String} (h : entry ∈ put key value entries) :
    entry = (key, value) ∨ entry ∈ entries := by
  induction entries with
  | nil =>
      exact Or.inl (List.mem_singleton.1 h)
  | cons first rest ih =>
      rw [put] at h
      split at h
      · exact (List.mem_cons.1 h).imp_right (List.mem_cons_of_mem _)
      · rcases List.mem_cons.1 h with heq | hrest
        · exact Or.inr (heq ▸ List.mem_cons_self)
        · exact (ih hrest).imp_right (List.mem_cons_of_mem _)

theorem mem_classOfField_ofClassNames {classes : List SchemaClass} {entry : String × String}
    (h : entry ∈ (ofClassNames classes).classOfField) :
    ∃ cls ∈ classes, cls.name = entry.2 := by
  suffices ∀ (rest : List SchemaClass) (mapping : FieldMapping),
      (∀ cls ∈ rest, cls ∈ classes) →
      (∀ entry ∈ mapping.classOfField, ∃ cls ∈ classes, cls.name = entry.2) →
      ∀ entry ∈ (rest.foldl
        (fun mapping c =>
          let field := Naming.fieldName c.name
          { mapping with
            fieldOfClass := put c.name field mapping.fieldOfClass
            classOfField := put field c.name mapping.classOfField }) mapping).classOfField,
        ∃ cls ∈ classes, cls.name = entry.2 from
    this classes _ (fun _ hcls => hcls) (by simp) entry h
  intro rest
  induction rest with
  | nil =>
      exact fun _ _ hmapping => hmapping
  | cons cls rest ih =>
      intro mapping hrest hmapping
      refine ih _ (fun other hother => hrest other (List.mem_cons_of_mem _ hother)) ?_
      intro entry hentry
      rcases mem_put hentry with rfl | hold
      · exact ⟨cls, hrest cls List.mem_cons_self, rfl⟩
      · exact hmapping entry hold

theorem mem_classOfField_step {indexType : String} {classes : List SchemaClass}
    {scan : RootScan} {field : Field} {entry : String × String}
    (h : entry ∈ (scan.step indexType classes field).mapping.classOfField) :
    field.type.modelClass? indexType classes = some entry.2 ∨
      entry ∈ scan.mapping.classOfField := by
  unfold RootScan.step at h
  split at h
  · exact Or.inr h
  · next model hmodel =>
      have hput : entry ∈ put field.name model scan.mapping.classOfField := by
        simp only at h
        split at h
        · split at h <;> exact h
        · split at h <;> exact h
      rcases mem_put hput with rfl | hold
      · exact Or.inl hmodel
      · exact Or.inr hold

theorem mem_classOfField_ofRoot {root : SchemaClass} {indexType : String}
    {classes : List SchemaClass} {entry : String × String}
    (h : entry ∈ (ofRoot root indexType classes).classOfField) :
    ∃ field ∈ root.fields, field.type.modelClass? indexType classes = some entry.2 := by
  suffices ∀ (rest : List Field) (scan : RootScan), (∀ field ∈ rest, field ∈ root.fields) →
      (∀ entry ∈ scan.mapping.classOfField,
        ∃ field ∈ root.fields, field.type.modelClass? indexType classes = some entry.2) →
      ∀ entry ∈ (rest.foldl (RootScan.step indexType classes) scan).mapping.classOfField,
        ∃ field ∈ root.fields, field.type.modelClass? indexType classes = some entry.2 from
    this root.fields _ (fun _ hfield => hfield) (by simp) entry h
  intro rest
  induction rest with
  | nil =>
      exact fun _ _ hscan => hscan
  | cons field rest ih =>
      intro scan hrest hscan
      refine ih _ (fun other hother => hrest other (List.mem_cons_of_mem _ hother)) ?_
      intro entry hentry
      rcases mem_classOfField_step hentry with hmodel | hold
      · exact ⟨field, hrest field List.mem_cons_self, hmodel⟩
      · exact hscan entry hold

end FieldMapping

namespace Schema

variable {schema : Schema}

theorem Accepted.class_of_classOfKey? (h : schema.Accepted) {key name : String}
    (hkey : schema.classOfKey? key = some name) : ∃ cls ∈ schema.classes, cls.name = name := by
  unfold classOfKey? at hkey
  split at hkey
  · next found hlookup =>
      obtain rfl := Option.some.inj hkey
      have hentry := Json.mem_of_lookup hlookup
      rw [h.declares.mapping, FieldMapping.build] at hentry
      split at hentry
      · obtain ⟨field, -, hmodel⟩ := FieldMapping.mem_classOfField_ofRoot hentry
        exact SchemaClass.declared_iff.1 (TypeExpr.declared_of_modelClass? hmodel)
      · exact FieldMapping.mem_classOfField_ofClassNames hentry
  · obtain ⟨cls, hfind, hname⟩ := Option.map_eq_some_iff.1 hkey
    exact ⟨cls, List.mem_of_find?_eq_some hfind, hname⟩

/-- What the round trips between documents and graphs ask of a schema. -/
structure Regular (schema : Schema) : Prop where
  accepted : schema.Accepted
  fields : ∀ cls ∈ schema.classes, (cls.fields.map Field.name).Nodup
  /-- No field refers to the root. -/
  unrooted : ∀ cls ∈ schema.classes, ∀ field ∈ cls.fields, ∀ root,
    schema.rootClass? = some root → schema.modelOf? field ≠ some root.name
  /-- The key of a class stands for this class. -/
  keys : ∀ cls ∈ schema.classes, schema.isRoot cls = false →
    schema.classOfKey? (schema.keyOfClass cls.name) = some cls.name

namespace Regular

theorem findClass?_eq_some_iff (h : schema.Regular) {name : String} {cls : SchemaClass} :
    schema.findClass? name = some cls ↔ cls ∈ schema.classes ∧ cls.name = name :=
  h.accepted.findClass?_eq_some_iff

theorem class_unique (h : schema.Regular) {cls other : SchemaClass}
    (hcls : cls ∈ schema.classes) (hother : other ∈ schema.classes)
    (hname : cls.name = other.name) : cls = other :=
  List.inj_on_of_nodup_map h.accepted.declares.distinct hcls hother hname

theorem isRoot_iff (h : schema.Regular) {cls : SchemaClass} (hcls : cls ∈ schema.classes) :
    schema.isRoot cls = true ↔ schema.rootClass? = some cls := by
  have hnamed := h.accepted.declares.named cls hcls
  rw [isRoot, rootClass?]
  constructor
  · intro hroot
    rw [Bool.and_eq_true, bne_iff_ne, beq_iff_eq] at hroot
    rw [if_neg hroot.1, h.findClass?_eq_some_iff]
    exact ⟨hcls, hroot.2.symm⟩
  · intro hroot
    split at hroot
    · simp at hroot
    · next hempty =>
        simp [hempty, (h.findClass?_eq_some_iff.1 hroot).2]

theorem mem_of_rootClass? (h : schema.Regular) {cls : SchemaClass}
    (hroot : schema.rootClass? = some cls) : cls ∈ schema.classes := by
  rw [rootClass?] at hroot
  split at hroot
  · simp at hroot
  · exact (h.findClass?_eq_some_iff.1 hroot).1

theorem name_ne_rootType (h : schema.Regular) {cls : SchemaClass}
    (hcls : cls ∈ schema.classes) (hroot : schema.isRoot cls = false) :
    cls.name ≠ schema.rootType := by
  intro heq
  have hnamed := h.accepted.declares.named cls hcls
  rw [isRoot, ← heq] at hroot
  simp [hnamed] at hroot

theorem class_of_modelOf? (h : schema.Regular) {cls : SchemaClass} {field : Field}
    {name : String} (hcls : cls ∈ schema.classes) (hfield : field ∈ cls.fields)
    (hmodel : schema.modelOf? field = some name) :
    ∃ model ∈ schema.classes, model.name = name ∧ schema.isRoot model = false := by
  obtain ⟨model, hmem, hname⟩ :=
    SchemaClass.declared_iff.1 (TypeExpr.declared_of_modelClass? hmodel)
  refine ⟨model, hmem, hname, Bool.eq_false_iff.2 fun hroot => ?_⟩
  have hrooted := (h.isRoot_iff hmem).1 hroot
  exact h.unrooted cls hcls field hfield model hrooted (hname ▸ hmodel)

theorem class_of_classOfKey? (h : schema.Regular) {key name : String}
    (hkey : schema.classOfKey? key = some name) :
    ∃ cls ∈ schema.classes, cls.name = name ∧ schema.isRoot cls = false := by
  unfold classOfKey? at hkey
  split at hkey
  · next found hlookup =>
      obtain rfl := Option.some.inj hkey
      have hentry := Json.mem_of_lookup hlookup
      rw [h.accepted.declares.mapping, FieldMapping.build] at hentry
      split at hentry
      · next root hfind =>
          have hmem : root ∈ schema.classes :=
            List.mem_reverse.1 (List.mem_of_find?_eq_some hfind)
          obtain ⟨field, hfield, hmodel⟩ := FieldMapping.mem_classOfField_ofRoot hentry
          exact h.class_of_modelOf? hmem hfield hmodel
      · next hnone =>
          -- Without a root among the classes no class is one.
          obtain ⟨cls, hmem, hname⟩ := FieldMapping.mem_classOfField_ofClassNames hentry
          refine ⟨cls, hmem, hname, Bool.eq_false_iff.2 fun hroot => ?_⟩
          rw [isRoot, Bool.and_eq_true, beq_iff_eq] at hroot
          have hnot := List.find?_eq_none.1 hnone cls (List.mem_reverse.2 hmem)
          simp [hroot.2] at hnot
          exact absurd hroot.1 (by simpa [hroot.2] using hnot)
  · obtain ⟨cls, hfind, hname⟩ := Option.map_eq_some_iff.1 hkey
    have hclaims := List.find?_some hfind
    rw [claimsByName, Bool.and_eq_true, Bool.and_eq_true, bne_iff_ne] at hclaims
    refine ⟨cls, List.mem_of_find?_eq_some hfind, hname, Bool.eq_false_iff.2 fun hroot => ?_⟩
    rw [isRoot, Bool.and_eq_true, beq_iff_eq] at hroot
    exact hclaims.1.1 hroot.2.symm

theorem isGroupKey_iff (h : schema.Regular) {key : String} :
    schema.isGroupKey key = true ↔
      ∃ cls ∈ schema.classes, schema.isRoot cls = false ∧ schema.keyOfClass cls.name = key := by
  rw [isGroupKey, Option.any_eq_true]
  constructor
  · rintro ⟨name, hkey, hname⟩
    obtain ⟨cls, hmem, rfl, hroot⟩ := h.class_of_classOfKey? hkey
    exact ⟨cls, hmem, hroot, by simpa using hname⟩
  · rintro ⟨cls, hmem, hroot, rfl⟩
    exact ⟨cls.name, h.keys cls hmem hroot, by simp⟩

theorem keyOfClass_inj (h : schema.Regular) {cls other : SchemaClass}
    (hcls : cls ∈ schema.classes) (hroot : schema.isRoot cls = false)
    (hother : other ∈ schema.classes) (hotherRoot : schema.isRoot other = false)
    (hkey : schema.keyOfClass cls.name = schema.keyOfClass other.name) :
    cls.name = other.name := by
  have hfound := h.keys cls hcls hroot
  rw [hkey, h.keys other hother hotherRoot] at hfound
  exact (Option.some.inj hfound).symm

end Regular

end Schema

namespace Import

theorem of_groupElements? {schema : Schema} {key name : String} {value : Json}
    {elements : List Json} (h : groupElements? schema key value = some (name, elements)) :
    schema.classOfKey? key = some name ∧ name ≠ schema.rootType ∧
      key = schema.keyOfClass name ∧ elements? value = some elements := by
  unfold groupElements? at h
  split at h
  · next found hkey =>
      split at h
      · next hcondition =>
          obtain ⟨items, hitems, hpair⟩ := Option.map_eq_some_iff.1 h
          obtain ⟨rfl, rfl⟩ := Prod.mk.inj hpair
          rw [Bool.and_eq_true, bne_iff_ne, Schema.isGroupKey, hkey] at hcondition
          exact ⟨hkey, hcondition.1, (by simpa using hcondition.2 : _ = key).symm, hitems⟩
      · simp at h
  · simp at h

theorem groupElements?_eq_some_iff {schema : Schema} (h : schema.Regular) {key name : String}
    {value : Json} {elements : List Json} :
    groupElements? schema key value = some (name, elements) ↔
      (∃ cls ∈ schema.classes, cls.name = name ∧ schema.isRoot cls = false) ∧
        key = schema.keyOfClass name ∧ elements? value = some elements := by
  constructor
  · intro hgroup
    obtain ⟨hclass, -, hkey, hitems⟩ := of_groupElements? hgroup
    exact ⟨h.class_of_classOfKey? hclass, hkey, hitems⟩
  · rintro ⟨⟨cls, hmem, rfl, hroot⟩, rfl, hitems⟩
    have hname := h.name_ne_rootType hmem hroot
    rw [groupElements?, h.keys cls hmem hroot]
    simp [hname, h.isGroupKey_iff.2 ⟨cls, hmem, hroot, rfl⟩, hitems]

end Import

end SlotGraph
