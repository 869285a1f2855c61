import Mathlib.Data.List.Induction
import SlotGraph.Proofs.Schema.Keys

/-!
# Keys of a root

The fields of a root are scanned once for the document keys of the classes that they refer
to.  Whatever their order, a class is written under the first list that refers to it, or
under the first field that does when none of them is a list.
-/

namespace SlotGraph

namespace FieldMapping

variable {indexType : String} {classes : List SchemaClass} {fields : List Field}

theorem lookup_put (key other value : String) (entries : List (String × String)) :
    (put key value entries).lookup other =
      if other = key then some value else entries.lookup other := by
  induction entries with
  | nil =>
      rw [put, Json.lookup_cons_if]
  | cons entry rest ih =>
      rw [put]
      split
      · next hkey =>
          rw [Json.lookup_cons_if, Json.lookup_cons_if, hkey]
          by_cases hother : other = key
          · rw [if_pos hother, if_pos hother]
          · rw [if_neg hother, if_neg hother, if_neg hother]
      · next hkey =>
          rw [Json.lookup_cons_if, Json.lookup_cons_if, ih]
          by_cases hother : other = key
          · simp [hother, Ne.symm hkey]
          · rw [if_neg hother, if_neg hother]

/-! ## The chosen field -/

def refersTo (indexType : String) (classes : List SchemaClass) (model : String)
    (field : Field) : Bool :=
  field.type.modelClass? indexType classes == some model

/-- The first list among the fields that refer to a class, or the first of these fields when
there is none. -/
def chosen? (indexType : String) (classes : List SchemaClass) (model : String)
    (fields : List Field) : Option Field :=
  (fields.find? fun field => refersTo indexType classes model field && field.type.isList).or
    (fields.find? (refersTo indexType classes model))

theorem of_chosen? {model : String} {field : Field}
    (h : chosen? indexType classes model fields = some field) :
    field ∈ fields ∧ field.type.modelClass? indexType classes = some model := by
  rw [chosen?, Option.or_eq_some_iff] at h
  rcases h with hlist | ⟨-, hfirst⟩
  · have hboth := List.find?_some hlist
    simp only [Bool.and_eq_true] at hboth
    exact ⟨List.mem_of_find?_eq_some hlist, by simpa [refersTo] using hboth.1⟩
  · exact ⟨List.mem_of_find?_eq_some hfirst, by simpa [refersTo] using List.find?_some hfirst⟩

theorem chosen?_isSome {model : String} {field : Field} (hfield : field ∈ fields)
    (hmodel : field.type.modelClass? indexType classes = some model) :
    (chosen? indexType classes model fields).isSome = true := by
  rw [chosen?, Option.isSome_or, Bool.or_eq_true]
  exact .inr (List.find?_isSome.2 ⟨field, hfield, by simp [refersTo, hmodel]⟩)

theorem chosen?_append_other {model : String} {field : Field}
    (h : field.type.modelClass? indexType classes ≠ some model) :
    chosen? indexType classes model (fields ++ [field]) =
      chosen? indexType classes model fields := by
  have hother : refersTo indexType classes model field = false := by
    simpa [refersTo] using h
  simp [chosen?, List.find?_append, hother]

/-- A field takes the place of the one chosen before it when there is none, or when of the
two it alone is a list. -/
theorem chosen?_append {model : String} {field : Field}
    (hmodel : field.type.modelClass? indexType classes = some model) :
    chosen? indexType classes model (fields ++ [field]) =
      if (chosen? indexType classes model fields).all
          fun chosen => field.type.isList && !chosen.type.isList
      then some field else chosen? indexType classes model fields := by
  have hrefers : refersTo indexType classes model field = true := by
    simp [refersTo, hmodel]
  cases hlist : fields.find? fun field =>
      refersTo indexType classes model field && field.type.isList with
  | some chosen =>
      have hboth := List.find?_some hlist
      simp only [Bool.and_eq_true] at hboth
      simp [chosen?, List.find?_append, hlist, hboth.2]
  | none =>
      cases hfirst : fields.find? (refersTo indexType classes model) with
      | none =>
          cases hisList : field.type.isList <;>
            simp [chosen?, List.find?_append, hlist, hfirst, hrefers, hisList]
      | some chosen =>
          have hsingle : chosen.type.isList = false := by
            have hnot := List.find?_eq_none.1 hlist chosen (List.mem_of_find?_eq_some hfirst)
            simpa [List.find?_some hfirst] using hnot
          cases hisList : field.type.isList <;>
            simp [chosen?, List.find?_append, hlist, hfirst, hrefers, hsingle, hisList]

/-! ## The scan -/

/-- Whether a scan has found the keys that some fields of distinct names give. -/
structure Scanned (indexType : String) (classes : List SchemaClass) (fields : List Field)
    (scan : RootScan) : Prop where
  keys : ∀ model, scan.mapping.fieldOfClass.lookup model =
    (chosen? indexType classes model fields).map Field.name
  lists : ∀ model, scan.chosenIsList.lookup model =
    (chosen? indexType classes model fields).map fun field => field.type.isList
  models : ∀ field ∈ fields, scan.mapping.classOfField.lookup field.name =
    field.type.modelClass? indexType classes
  others : ∀ key ∉ fields.map Field.name, scan.mapping.classOfField.lookup key = none

theorem Scanned.nil : Scanned indexType classes [] ⟨⟨[], [], true⟩, []⟩ where
  keys := fun _ => rfl
  lists := fun _ => rfl
  models := by simp
  others := fun _ _ => rfl

theorem RootScan.step_of_none {scan : RootScan} {field : Field}
    (hmodel : field.type.modelClass? indexType classes = none) :
    scan.step indexType classes field = scan := by
  rw [step, hmodel]

theorem RootScan.step_of_some {scan : RootScan} {field : Field} {model : String}
    (hmodel : field.type.modelClass? indexType classes = some model) :
    scan.step indexType classes field =
      if (scan.chosenIsList.lookup model).all fun chosen => field.type.isList && !chosen then
        { mapping :=
            { scan.mapping with
              classOfField := put field.name model scan.mapping.classOfField
              fieldOfClass := put model field.name scan.mapping.fieldOfClass }
          chosenIsList := (model, field.type.isList) :: scan.chosenIsList }
      else
        { scan with
          mapping :=
            { scan.mapping with
              classOfField := put field.name model scan.mapping.classOfField } } := by
  simp only [step, hmodel]
  cases scan.chosenIsList.lookup model <;> rfl

theorem RootScan.classOfField_step {scan : RootScan} {field : Field} {model : String}
    (hmodel : field.type.modelClass? indexType classes = some model) :
    (scan.step indexType classes field).mapping.classOfField =
      put field.name model scan.mapping.classOfField := by
  rw [step_of_some hmodel]
  split <;> rfl

namespace Scanned

variable {scan : RootScan} {field : Field}

theorem step_of_none (h : Scanned indexType classes fields scan)
    (hfresh : field.name ∉ fields.map Field.name)
    (hmodel : field.type.modelClass? indexType classes = none) :
    Scanned indexType classes (fields ++ [field]) (scan.step indexType classes field) := by
  have hchosen : ∀ model, chosen? indexType classes model (fields ++ [field]) =
      chosen? indexType classes model fields := fun model =>
    chosen?_append_other (by simp [hmodel])
  rw [RootScan.step_of_none hmodel]
  refine ⟨fun model => by rw [hchosen, h.keys], fun model => by rw [hchosen, h.lists],
    fun other hother => ?_, fun key hkey => h.others key fun hold => hkey (by simp [hold])⟩
  rcases List.mem_append.1 hother with hold | hnew
  · exact h.models other hold
  · rw [List.mem_singleton.1 hnew, hmodel]
    exact h.others _ hfresh

theorem step_of_some (h : Scanned indexType classes fields scan)
    (hfresh : field.name ∉ fields.map Field.name) {model : String}
    (hmodel : field.type.modelClass? indexType classes = some model) :
    Scanned indexType classes (fields ++ [field]) (scan.step indexType classes field) := by
  have hother : ∀ other, other ≠ model → chosen? indexType classes other (fields ++ [field]) =
      chosen? indexType classes other fields := fun other hne =>
    chosen?_append_other (by simpa [hmodel] using Ne.symm hne)
  -- Here the scan decides by what it has put down, and `chosen?` by the fields themselves.
  have hwins : (scan.chosenIsList.lookup model).all
      (fun chosen => field.type.isList && !chosen) =
        (chosen? indexType classes model fields).all
          fun chosen => field.type.isList && !chosen.type.isList := by
    rw [h.lists, Option.all_map]
  refine ⟨fun other => ?_, fun other => ?_, fun other hmem => ?_, fun key hkey => ?_⟩
  · rw [RootScan.step_of_some hmodel, hwins]
    by_cases hne : other = model
    · subst hne
      rw [chosen?_append hmodel]
      split
      · simp [lookup_put]
      · exact h.keys other
    · rw [hother other hne, ← h.keys]
      split
      · simp [lookup_put, hne]
      · rfl
  · rw [RootScan.step_of_some hmodel, hwins]
    by_cases hne : other = model
    · subst hne
      rw [chosen?_append hmodel]
      split
      · simp
      · exact h.lists other
    · rw [hother other hne, ← h.lists]
      split
      · simp [Json.lookup_cons_if, hne]
      · rfl
  · rw [RootScan.classOfField_step hmodel, lookup_put]
    rcases List.mem_append.1 hmem with hold | hnew
    · have hne : other.name ≠ field.name := fun hsame =>
        hfresh (hsame ▸ List.mem_map_of_mem hold)
      rw [if_neg hne, h.models other hold]
    · rw [List.mem_singleton.1 hnew, if_pos rfl, hmodel]
  · rw [RootScan.classOfField_step hmodel, lookup_put]
    rw [List.map_append, List.mem_append, not_or] at hkey
    rw [if_neg (by simpa using hkey.2), h.others key hkey.1]

end Scanned

/-- The scan of fields of distinct names finds their keys. -/
theorem scanned_foldl (h : (fields.map Field.name).Nodup) :
    Scanned indexType classes fields
      (fields.foldl (RootScan.step indexType classes) ⟨⟨[], [], true⟩, []⟩) := by
  induction fields using List.reverseRecOn with
  | nil =>
      exact Scanned.nil
  | append_singleton fields field ih =>
      rw [List.map_append, List.nodup_append] at h
      obtain ⟨hdistinct, -, hapart⟩ := h
      have hfresh : field.name ∉ fields.map Field.name := fun hmem =>
        hapart _ hmem _ (by simp) rfl
      rw [List.foldl_append, List.foldl_cons, List.foldl_nil]
      cases hmodel : field.type.modelClass? indexType classes with
      | none =>
          exact (ih hdistinct).step_of_none hfresh hmodel
      | some model =>
          exact (ih hdistinct).step_of_some hfresh hmodel

theorem build_eq_ofRoot {before after : List SchemaClass} {root : SchemaClass}
    (hname : root.name ≠ "") (hlast : ∀ cls ∈ after, cls.name ≠ root.name) :
    build (before ++ root :: after) root.name indexType =
      ofRoot root indexType (before ++ root :: after) := by
  have hafter : after.reverse.find?
      (fun cls => root.name != "" && cls.name == root.name) = none :=
    List.find?_eq_none.2 fun cls hcls => by simp [hlast cls (List.mem_reverse.1 hcls)]
  have hfind : (before ++ root :: after).reverse.find?
      (fun cls => root.name != "" && cls.name == root.name) = some root := by
    rw [List.reverse_append, List.reverse_cons, List.append_assoc, List.find?_append, hafter]
    simp [hname]
  rw [build, hfind]

end FieldMapping

namespace Schema

open FieldMapping

/--
The keys that a root of distinctly named fields gives.  A class is written under the field
chosen for it, and under none when no field refers to it; a field stands for the class that
it refers to, and is a group key when it is the one chosen.  Two group keys among the fields
of the root stand for two classes.
-/
theorem keys_of_root (name indexType : String) (before : List SchemaClass)
    {after : List SchemaClass} {root : SchemaClass} (hname : root.name ≠ "")
    (hlast : ∀ cls ∈ after, cls.name ≠ root.name)
    (hdistinct : (root.fields.map Field.name).Nodup) :
    let schema := ofClasses name indexType root.name (before ++ root :: after)
    (∀ model, schema.mapping.fieldOfClass.lookup model =
      (chosen? indexType schema.classes model root.fields).map Field.name) ∧
    (∀ field ∈ root.fields,
      schema.mapping.classOfField.lookup field.name = schema.modelOf? field) ∧
    (∀ field ∈ root.fields, ∀ model, schema.modelOf? field = some model →
      (schema.isGroupKey field.name = true ↔
        chosen? indexType schema.classes model root.fields = some field)) ∧
    ∀ field ∈ root.fields, ∀ other ∈ root.fields, schema.isGroupKey field.name = true →
      schema.isGroupKey other.name = true →
      schema.classOfKey? field.name = schema.classOfKey? other.name → field = other := by
  intro schema
  have hscanned : Scanned indexType schema.classes root.fields
      (root.fields.foldl (RootScan.step indexType schema.classes) ⟨⟨[], [], true⟩, []⟩) :=
    scanned_foldl hdistinct
  have hmapping : schema.mapping = ofRoot root indexType schema.classes :=
    build_eq_ofRoot hname hlast
  have hkeys : ∀ model, schema.mapping.fieldOfClass.lookup model =
      (chosen? indexType schema.classes model root.fields).map Field.name := fun model =>
    hmapping ▸ hscanned.keys model
  have hmodels : ∀ field ∈ root.fields,
      schema.mapping.classOfField.lookup field.name = schema.modelOf? field :=
    fun field hfield => hmapping ▸ hscanned.models field hfield
  have hinj : ∀ field ∈ root.fields, ∀ other ∈ root.fields, field.name = other.name →
      field = other := fun field hfield other hother =>
    List.inj_on_of_nodup_map hdistinct hfield hother
  refine ⟨hkeys, hmodels, fun field hfield model hmodel => ?_,
    fun field hfield other hother hgroup hothers hsame => ?_⟩
  · obtain ⟨chosen, hchosen⟩ : ∃ chosen,
        chosen? indexType schema.classes model root.fields = some chosen :=
      Option.isSome_iff_exists.1 (chosen?_isSome hfield hmodel)
    have hclass : schema.classOfKey? field.name = some model := by
      rw [classOfKey?, hmodels field hfield, hmodel]
    have hkey : schema.keyOfClass model = chosen.name := by
      rw [keyOfClass, hkeys, hchosen]
      rfl
    rw [isGroupKey, hclass, Option.any_some, beq_iff_eq, hkey, hchosen, Option.some_inj]
    exact ⟨hinj chosen (of_chosen? hchosen).1 field hfield, fun hsame => hsame ▸ rfl⟩
  · -- The key of a class is one, so two group keys of one class have the same name.
    obtain ⟨model, hclass, hkey⟩ := (Option.any_eq_true _ _).1 hgroup
    obtain ⟨second, hsecond, hsecondKey⟩ := (Option.any_eq_true _ _).1 hothers
    obtain rfl : model = second := Option.some.inj (hclass.symm.trans (hsame.trans hsecond))
    rw [beq_iff_eq] at hkey hsecondKey
    exact hinj field hfield other hother (hkey.symm.trans hsecondKey)

/-- Of a single tool and two lists the first list is chosen, though a field of another class
stands between them. -/
theorem keys_of_root_interleaved :
    let list : TypeExpr := .wrapped .list (.named "Tool")
    let spare : Field := ⟨"spare", .wrapped .optional list, "Optional[List[Tool]]", ""⟩
    let tools : Field := ⟨"tools", list, "List[Tool]", ""⟩
    let root : SchemaClass := ⟨"Plan",
      [⟨"main", .named "Tool", "Tool", ""⟩, ⟨"first", .named "Task", "Task", ""⟩, spare, tools]⟩
    let schema := Schema.ofClasses "plan" "Index" "Plan" [⟨"Tool", []⟩, root, ⟨"Task", []⟩]
    root.name ≠ "" ∧ (∀ cls ∈ [(⟨"Task", []⟩ : SchemaClass)], cls.name ≠ root.name) ∧
      (root.fields.map Field.name).Nodup ∧
      schema.mapping.fieldOfClass.lookup "Tool" = some "spare" ∧
      schema.mapping.fieldOfClass.lookup "Task" = some "first" ∧
      schema.mapping.classOfField.lookup "tools" = some "Tool" ∧
      schema.isGroupKey "spare" = true ∧ ¬ schema.isGroupKey "tools" = true := by
  intro list spare tools root schema
  have hname : root.name ≠ "" := by
    decide
  have hlast : ∀ cls ∈ [(⟨"Task", []⟩ : SchemaClass)], cls.name ≠ root.name := by
    decide
  have hdistinct : (root.fields.map Field.name).Nodup := by
    decide
  have hspare : spare ∈ root.fields := by
    simp [root]
  have htools : tools ∈ root.fields := by
    simp [root]
  obtain ⟨hkeys, hmodels, hgroups, -⟩ :=
    keys_of_root "plan" "Index" [⟨"Tool", []⟩] hname hlast hdistinct
  refine ⟨hname, hlast, hdistinct, (hkeys "Tool").trans rfl, (hkeys "Task").trans rfl,
    (hmodels tools htools).trans rfl, (hgroups spare hspare "Tool" rfl).2 rfl, fun hgroup => ?_⟩
  have hchosen := congrArg (Option.map Field.name) ((hgroups tools htools "Tool" rfl).1 hgroup)
  exact absurd hchosen (by decide)

end Schema

end SlotGraph
