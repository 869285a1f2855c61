import SlotGraph.Proofs.Config.FirstRoot
import SlotGraph.Proofs.Config.NormalForm
import SlotGraph.Proofs.Import.Indices

/-!
# References under keys

A document may give a field that collects references under keys an object of indices.  The
key of each goes with the link that is made for it, and a build writes the link under this
key as the index of the element that it comes from: so the object comes back.
-/

namespace SlotGraph

namespace Import

variable {setting : Setting} {document : List (String × Json)} {groups : List Group}
  {root : Option NodeId} {g : Graph} {before after : List (NodeId × Making)}

/-! ## What a node was made for -/

theorem isGroupKey_of_planned {schema : Schema} {entry : String × String × List Json}
    (hentry : entry ∈ planned schema document) : schema.isGroupKey entry.1 = true := by
  obtain ⟨value, -, hplanned⟩ := mem_planned.1 hentry
  obtain ⟨hclass, -, hown, -⟩ := of_groupElements? hplanned
  rw [Schema.isGroupKey, hclass, Option.any_some, ← hown]
  exact beq_self_eq_true entry.1

namespace Roster

variable (h : Roster setting document groups root g before after)

include h

theorem exists_made {position : Nat} {making : Making}
    (hmaking : (makings setting.schema document)[position]? = some making) :
    ∃ node, g.nodes[position]? = some node ∧ (node.id, making) ∈ before ++ after ∧
      setting.registry.find? setting.schema.name making.className = some node.shape := by
  have hmakings : (before ++ after).map Prod.snd = makings setting.schema document := by
    rw [List.map_append, h.before_eq, h.after_eq, makings]
  rw [← hmakings, List.getElem?_map] at hmaking
  obtain ⟨entry, hentry, rfl⟩ := Option.map_eq_some_iff.1 hmaking
  have hshape := congrArg (fun made : List (NodeId × Option NodeTemplate) => made[position]?)
    h.shapes
  simp only [Graph.shapes, List.getElem?_map, hentry, Option.map_some, Option.map_map] at hshape
  obtain ⟨node, hnode, hpair⟩ := Option.map_eq_some_iff.1 hshape
  have hid : node.id = entry.1 := congrArg Prod.fst hpair
  refine ⟨node, hnode, ?_, (congrArg Prod.snd hpair).symm⟩
  rw [hid]
  exact List.mem_of_getElem? hentry

/-- A slot of a node that was made for an object is filled from the value of its field. -/
theorem slotFilled {id : NodeId} {cls : SchemaClass} {source : List (String × Json)}
    (hmade : (id, ⟨cls.name, .obj source⟩) ∈ before ++ after)
    (hcls : setting.schema.findClass? cls.name = some cls) {slot : Nat} {field : Field}
    (hfield : cls.fields[slot]? = some field)
    (hgroup : setting.schema.isRoot cls = true → setting.schema.isGroupKey field.name = false) :
    SlotFilled setting groups g id slot (setting.schema.inputOf cls field) field
      (source.lookup field.name) := by
  have hsettled : (id, (⟨cls.name, .obj source⟩ : Making)) ∈ before ++ after.tail →
      SlotFilled setting groups g id slot (setting.schema.inputOf cls field) field
        (source.lookup field.name) := by
    intro hmember
    obtain ⟨other, hother, hfilled⟩ := h.settled _ hmember
    obtain rfl : cls = other := Option.some.inj (hcls.symm.trans hother)
    exact hfilled source rfl slot field hfield
  rcases List.mem_append.1 hmade with hfirst | hlater
  · exact hsettled (List.mem_append_left _ hfirst)
  · obtain ⟨first, tail, rfl⟩ := List.exists_cons_of_ne_nil (List.ne_nil_of_mem hlater)
    rcases List.mem_cons.1 hlater with rfl | htail
    · -- The root is filled from the groups first, but this field is not named like one.
      obtain ⟨other, _, hroot, hcons⟩ := h.after_eq_cons h.root_eq
      obtain ⟨-, hotherClass, hotherName, hnamed⟩ := Schema.of_rootClass? hroot
      have hmaking := congrArg Prod.snd (List.cons_eq_cons.1 hcons).1
      simp only [Making.mk.injEq, Json.obj.injEq] at hmaking
      obtain ⟨hname, rfl⟩ := hmaking
      obtain rfl : cls = other := by
        rw [hname, hotherClass] at hcls
        exact (Option.some.inj hcls).symm
      have hisRoot : setting.schema.isRoot cls = true := by
        simp [Schema.isRoot, hotherName, hnamed]
      have hnone : findGroup? groups field.name = none := by
        rw [← Option.not_isSome_iff_eq_none, isSome_findGroup?_of_plan h.plan, List.any_eq_true]
        rintro ⟨entry, hentry, hkey⟩
        have hgroupKey := isGroupKey_of_planned hentry
        rw [beq_iff_eq.1 hkey, hgroup hisRoot] at hgroupKey
        exact Bool.false_ne_true hgroupKey
      intro hflat
      have hfilled := h.rootFilled cls hroot id h.root_eq slot field hfield fun _ => hflat
      rwa [rootContent, hnone] at hfilled
    · exact hsettled (List.mem_append_right _ htail)

end Roster

/-! ## Indices that lead to their elements -/

/--
Whether a value is an integer that counts an element of the class that a field refers to,
and the class of the elements there fits a slot.
-/
def Counts (schema : Schema) (document : List (String × Json)) (input : InputSpec)
    (field : Field) (value : Json) (n : Int) : Prop :=
  value.integer? = some n ∧ ∃ className, schema.modelOf? field = some className ∧
    0 ≤ n ∧ n < (elementsMade schema document (schema.keyOfClass className)).length ∧
    ∀ name, schema.classOfKey? (schema.keyOfClass className) = some name →
      TypeExpr.textFits name input.linkType = true

section

variable (haccepted : setting.schema.Accepted)
  (hserves : setting.registry.Serves setting.schema)
  (hkeys : (document.map Prod.fst).Nodup)

include haccepted hserves hkeys

theorem class_of_nodesUnder {key : String} {made : NodeId × Json}
    (hmade : made ∈ nodesUnder (madeGroups setting Graph.empty document) key) :
    ∃ node ∈ (run setting Graph.empty document).2.graph.nodes, node.id = made.1 ∧
      ∃ cls, setting.schema.classOfKey? key = some cls.name ∧
        setting.schema.IsTemplate cls node.shape := by
  have hplan := (plan_madeGroups haccepted hserves Graph.empty document).1
  rw [nodesUnder] at hmade
  cases hfind : findGroup? (madeGroups setting Graph.empty document) key with
  | none =>
      simp [hfind] at hmade
  | some group =>
      rw [hfind, Option.map_some, Option.getD_some] at hmade
      obtain ⟨hgroup, rfl⟩ := (findGroup?_of_plan hkeys hplan).1 hfind
      obtain ⟨value, -, hplanned⟩ := mem_planned.1
        (hplan ▸ List.mem_map_of_mem hgroup : group.plan ∈ planned setting.schema document)
      obtain ⟨cls, template, -, hname, -, htemplate, hclass⟩ :=
        class_of_plan haccepted hserves hplan hgroup
      obtain ⟨later, hshapes⟩ := shapes_run haccepted hserves Graph.empty document
      have hshape : (made.1, template) ∈ (run setting Graph.empty document).2.graph.shapes := by
        rw [hshapes]
        refine List.mem_append_right _ (List.mem_append_left _ ?_)
        exact List.mem_flatMap.2 ⟨group, hgroup, mem_shapes htemplate hmade⟩
      obtain ⟨node, hnode, hpair⟩ := List.mem_map.1 hshape
      obtain ⟨hid, rfl⟩ := Prod.mk.inj hpair
      exact ⟨node, hnode, hid, cls, hname ▸ (of_groupElements? hplanned).1, hclass⟩

variable (hfits : (run setting Graph.empty document).2.Fits)

include hfits

/-- An index leads to the node of its element, and a link from there is written as it. -/
theorem index_written {input : InputSpec} {field : Field} {value : Json} {n : Int}
    (hcounts : Counts setting.schema document input field value n) {id : NodeId} {slot : Nat}
    (hinput : ((run setting Graph.empty document).2.graph.shape? id).bind (·.inputs[slot]?) =
      some input) :
    ∃ origin index, value.int64? = some index ∧
      (∀ key, source? setting (madeGroups setting Graph.empty document)
        (run setting Graph.empty document).2.graph id slot field (index, key) =
          some ⟨origin, key⟩) ∧
      Build.resolve (run setting Graph.empty document).2.graph setting.schema origin = .int n := by
  obtain ⟨hinteger, className, hmodel, hlow, hhigh, hfitting⟩ := hcounts
  have hwf : (run setting Graph.empty document).2.graph.WellFormed :=
    (Sound.start.steps (steps_run setting Graph.empty document) hfits).wellFormed
  have hplan := (plan_madeGroups haccepted hserves Graph.empty document).1
  have hadded := length_elementsMade_le_added haccepted hserves hkeys Graph.empty
    (setting.schema.keyOfClass className)
  obtain ⟨index, made, rfl, hmade, hread, hresolve⟩ := exists_nodesUnder hkeys hplan hmodel
    (Int.le_trans (Int.ofNat_le.2 hadded) hfits.1) hinteger hlow hhigh
  obtain ⟨node, hnode, hid, cls, hclassKey, hclass⟩ :=
    class_of_nodesUnder haccepted hserves hkeys (List.mem_of_getElem? hmade)
  obtain ⟨group, placed, hplace, hplaced⟩ := placed_run haccepted hserves hkeys
    (fun node hnode => absurd hnode List.not_mem_nil) hmade
  have hadmits : (run setting Graph.empty document).2.graph.admits node.id id slot = true := by
    rw [hwf.admits_eq hnode hclass hinput]
    exact hfitting cls.name hclassKey
  refine ⟨node.id, index, ?_, fun key => ?_, ?_⟩
  · exact hread
  · rw [source?, hresolve, Option.bind_some, ← hid, if_pos hadmits]
  · rw [hid, ← hplaced]
    exact Build.resolve_eq hwf hplace

end

/-! ## A keyed slot -/

/--
Whether a document gives what is made at a position an object of indices, for a field whose
slot collects links under keys: each index counts an element, and fits the slot.
-/
structure GivesIndices (schema : Schema) (document : List (String × Json)) (position : Nat)
    (cls : SchemaClass) (field : Field) (object : List (String × Json)) : Prop where
  declared : field ∈ cls.fields
  keyed : (schema.inputOf cls field).intake = .many true
  given : ∃ source, (makings schema document)[position]? = some ⟨cls.name, .obj source⟩ ∧
    source.lookup field.name = some (.obj object)
  distinct : (object.map Prod.fst).Nodup
  counts : ∀ member ∈ object, ∃ n,
    Counts schema document (schema.inputOf cls field) field member.2 n

/-- Whether a value is an object with the keys of another, under each the same integer. -/
def SameIntegers (object : List (String × Json)) (value : Json) : Prop :=
  ∃ written, value = .obj written ∧ Json.Ascending written ∧ ∀ key,
    written.lookup key = (object.lookup key).bind fun member => member.integer?.map Json.int

def integerOf (value : Json) : Json :=
  (value.integer?.map Json.int).getD .null

theorem sameIntegers_ofMembers {object : List (String × Json)}
    (hdistinct : (object.map Prod.fst).Nodup)
    (hintegers : ∀ member ∈ object, member.2.integer?.isSome = true) :
    SameIntegers object
      (Json.ofMembers (object.map fun member => (member.1, integerOf member.2))) := by
  refine ⟨_, rfl, Json.ascending_ofMembers _, fun key => ?_⟩
  have hnames : ((object.map fun member => (member.1, integerOf member.2)).map
      Prod.fst).Nodup := by
    rwa [List.map_map]
  refine (Json.get?_ofMembers_of_nodup hnames key).trans ?_
  rw [Json.lookup_map]
  cases hvalue : object.lookup key with
  | none =>
      rfl
  | some value =>
      obtain ⟨n, hn⟩ := Option.isSome_iff_exists.1 (hintegers _ (Json.mem_of_lookup hvalue))
      rw [Option.map_some, Option.bind_some, integerOf, hn]
      rfl

theorem written_givenIndices (haccepted : setting.schema.Accepted)
    (hserves : setting.registry.Serves setting.schema)
    (hkeys : (document.map Prod.fst).Nodup)
    (hfits : (run setting Graph.empty document).2.Fits) {position : Nat} {cls : SchemaClass}
    {field : Field} {object : List (String × Json)}
    (hgives : GivesIndices setting.schema document position cls field object)
    (hnamed : ∀ member ∈ object, member.1 ≠ "")
    (hshown : (setting.schema.inputOf cls field).optional = true → object ≠ [])
    {id : NodeId} {slot : Nat}
    (hinput : ((run setting Graph.empty document).2.graph.shape? id).bind (·.inputs[slot]?) =
      some (setting.schema.inputOf cls field)) :
    Flat (setting.schema.inputOf cls field) field (.obj object) ∧
    ∃ value, Build.written? (run setting Graph.empty document).2.graph setting.schema
        (setting.schema.inputOf cls field)
        (filledContent setting (madeGroups setting Graph.empty document)
          (run setting Graph.empty document).2.graph id slot (setting.schema.inputOf cls field)
          field (some (.obj object))) = some value ∧
      SameIntegers object value := by
  -- Each index leads to an element, which is linked under the key and written as the index.
  have hlinked : ∀ member ∈ object, ∃ origin index, member.2.int64? = some index ∧
      (∀ key, source? setting (madeGroups setting Graph.empty document)
        (run setting Graph.empty document).2.graph id slot field (index, key) =
          some ⟨origin, key⟩) ∧
      Build.resolve (run setting Graph.empty document).2.graph setting.schema origin =
        integerOf member.2 := by
    intro member hmember
    obtain ⟨n, hcounts⟩ := hgives.counts member hmember
    rw [integerOf, hcounts.1]
    exact index_written haccepted hserves hkeys hfits hcounts hinput
  obtain ⟨entries, hentries, hsources⟩ := sources_written Prod.fst hlinked
  have hread : indices? field.type.required.isDict (.obj object) = some entries := by
    rw [indices?, if_pos (setting.schema.isDict_of_intake hgives.keyed)]
    exact hentries
  have hnames := congrArg (List.map Prod.fst) hsources
  rw [List.map_map, List.map_map] at hnames
  refine ⟨.inr (.inr ⟨entries, hread, .inl (by rw [hgives.keyed]; rfl)⟩), _, ?_,
    sameIntegers_ofMembers hgives.distinct fun member hmember => ?_⟩
  · rw [filledContent, if_neg (by rw [hgives.keyed]; simp [Intake.native?]), hread,
      Option.getD_some, Build.written_keyed hgives.keyed, hsources]
    · intro hoptional hnone
      rw [hnone] at hsources
      exact hshown hoptional (List.map_eq_nil_iff.1 hsources.symm)
    · intro source hsource
      have hkey : source.key ∈ object.map Prod.fst :=
        (congrArg (source.key ∈ ·) hnames).mp (List.mem_map_of_mem hsource)
      obtain ⟨member, hmember, hsame⟩ := List.mem_map.1 hkey
      exact hsame ▸ hnamed member hmember
    · exact (congrArg List.Nodup hnames).mpr hgives.distinct
  · obtain ⟨n, hcounts⟩ := hgives.counts member hmember
    rw [hcounts.1]
    rfl

end Import

namespace Build

/-- Whether nothing but the group of a class is written under its key. -/
structure StandsAlone (g : Graph) (schema : Schema) (className : String) : Prop where
  groups : ∀ c, g.group schema c ≠ [] →
    schema.keyOfClass c = schema.keyOfClass className → c = className
  root : schema.keyOfClass className ∉ (rootValues g schema).map Prod.fst

/--
Whether a build writes an object of integers for a field of a node: it stands in the entry
of the node, which is found in the group of its class, and at the top level if the node is
the first root.
-/
structure WritesIntegers (g : Graph) (schema : Schema) (node : Node) (cls : SchemaClass)
    (field : Field) (object : List (String × Json)) : Prop where
  entry : ∃ value, (Build.entry g schema node).get? field.name = some value ∧
    Import.SameIntegers object value
  grouped : schema.isRoot cls = false → ∃ position,
    (g.group schema cls.name)[position]? = some node ∧
      (StandsAlone g schema cls.name →
        (ofGraph g schema).config.entryAt? (schema.keyOfClass cls.name) position =
          some (Build.entry g schema node))
  first : schema.isRoot cls = true → (g.rootNodes schema).head? = some node →
    (ofGraph g schema).config.get? field.name = (Build.entry g schema node).get? field.name

variable {g : Graph} {schema : Schema} {node : Node} {cls : SchemaClass}

theorem exists_entryAt? (hnode : node ∈ g.nodes) (hclass : schema.IsTemplate cls node.shape)
    (hroot : schema.isRoot cls = false) : ∃ position,
      (g.group schema cls.name)[position]? = some node ∧
        (StandsAlone g schema cls.name →
          (ofGraph g schema).config.entryAt? (schema.keyOfClass cls.name) position =
            some (entry g schema node)) := by
  have hmember : node ∈ g.group schema cls.name := by
    rw [Graph.mem_group, hclass.joins_eq, hroot]
    exact ⟨hnode, by simp⟩
  obtain ⟨position, hposition⟩ := List.getElem?_of_mem hmember
  exact ⟨position, hposition, fun halone =>
    entryAt?_config_of_alone halone.groups halone.root hposition⟩

/-- What the first root says of a field that is no group key stands at the top level. -/
theorem get?_config_of_first (hcell : node.cell = none)
    (hfirst : (g.rootNodes schema).head? = some node) {name : String} {value : Json}
    (hkey : schema.isGroupKey name = false)
    (hvalue : (entry g schema node).get? name = some value) :
    (ofGraph g schema).config.get? name = some value := by
  rw [get?_entry_eq hcell] at hvalue
  obtain ⟨member, hmember, rfl⟩ := Option.map_eq_some_iff.1 hvalue
  exact get?_config_of_mem_rootValues
    (mem_rootValues.2 ⟨node, hfirst, Json.mem_of_lookup hmember, hkey⟩)

end Build

namespace Import

variable {setting : Setting} {document : List (String × Json)}

/--
An object of indices that a document gives to a field whose slot collects links under keys
comes back: imported into the empty graph, a node that is made for an object with such a
field has it written with the same keys, under each the same integer.  No key may be empty,
an optional field needs one at least, and a field of the root no group key for its name.
-/
theorem writesIntegers_run (haccepted : setting.schema.Accepted)
    (hserves : setting.registry.Serves setting.schema)
    (hkeys : (document.map Prod.fst).Nodup)
    (hfits : (run setting Graph.empty document).2.Fits) {cls : SchemaClass}
    (hcls : cls ∈ setting.schema.classes) (hnames : (cls.fields.map Field.name).Nodup)
    {position : Nat} {field : Field} {object : List (String × Json)}
    (hgives : GivesIndices setting.schema document position cls field object)
    (hnamed : ∀ member ∈ object, member.1 ≠ "")
    (hshown : (setting.schema.inputOf cls field).optional = true → object ≠ [])
    (hgroup : setting.schema.isRoot cls = true → setting.schema.isGroupKey field.name = false) :
    ∃ node, (run setting Graph.empty document).2.graph.nodes[position]? = some node ∧
      Build.WritesIntegers (run setting Graph.empty document).2.graph setting.schema node cls
        field object := by
  obtain ⟨before, after, hroster⟩ := roster_run haccepted hserves hfits
  obtain ⟨source, hmaking, hvalue⟩ := hgives.given
  obtain ⟨node, hnode, hmade, hshape⟩ := hroster.exists_made hmaking
  obtain ⟨slot, hslot⟩ := List.getElem?_of_mem hgives.declared
  have hmem := List.mem_of_getElem? hnode
  have hclass : setting.schema.IsTemplate cls node.shape := by
    obtain ⟨template, hfind, htemplate⟩ := hserves cls hcls
    exact Option.some.inj (hfind.symm.trans hshape) ▸ htemplate
  have hinput : ((run setting Graph.empty document).2.graph.shape? node.id).bind
      (·.inputs[slot]?) = some (setting.schema.inputOf cls field) := by
    rw [hroster.wellFormed.shape?_eq hmem, Option.bind_some, hclass.input_eq hslot]
  obtain ⟨hflat, value, hwritten, hsame⟩ :=
    written_givenIndices haccepted hserves hkeys hfits hgives hnamed hshown hinput
  have hfilled := hroster.slotFilled hmade
    ((SchemaClass.find?_eq_some_iff haccepted.declares.distinct).2 ⟨hcls, rfl⟩) hslot hgroup
  rw [hvalue] at hfilled
  have hcontent := hfilled fun other hother => Option.some.inj hother ▸ hflat
  have hentry : (Build.entry (run setting Graph.empty document).2.graph setting.schema
      node).get? field.name = some value := by
    rw [Build.get?_entry hroster.wellFormed hroster.inOrder hmem hclass hnames hslot, hcontent,
      hwritten]
  refine ⟨node, hnode, ⟨value, hentry, hsame⟩, Build.exists_entryAt? hmem hclass,
    fun hroot hfirst => ?_⟩
  rw [hentry]
  exact Build.get?_config_of_first (Graph.cell_eq_none hclass) hfirst (hgroup hroot) hentry

def toolsByKey (name : String) : Field :=
  ⟨name, .dict "str, Union[Tool, Index]", "Dict[str, Union[Tool, Index]]", ""⟩

def sparesField : Field :=
  ⟨"spares", .wrapped .optional (.dict "str, Union[Tool, Index]"),
    "Optional[Dict[str, Union[Tool, Index]]]", ""⟩

def rackTool : SchemaClass :=
  ⟨"Tool", [toolsByKey "parts", sparesField]⟩

def rackRoot : SchemaClass :=
  ⟨"App", [toolsByKey "tools", toolsByKey "main"]⟩

def rack : Schema :=
  Schema.ofClasses "s" "Index" "App" [rackTool, rackRoot]

def rackSource : String :=
  "class Tool:\n  parts: Dict[str, Union[Tool, Index]]\n" ++
  "  spares: Optional[Dict[str, Union[Tool, Index]]]\n" ++
  "class App:\n  tools: Dict[str, Union[Tool, Index]]\n" ++
  "  main: Dict[str, Union[Tool, Index]]\n"

set_option maxRecDepth 4000 in
theorem parseClasses_rackSource :
    (Schema.parseClasses rackSource).1 = [rackTool, rackRoot] := by
  with_unfolding_all rfl

theorem accepted_rack : rack.Accepted :=
  Schema.accepted_ofClasses parseClasses_rackSource (by decide) (by decide) (by decide)
    (List.cons_ne_nil _ _) fun _ => by decide

def rackSetting : Setting :=
  ⟨rack, Registry.initial.add rack 1, ImportLayout.standard⟩

theorem serves_rack : rackSetting.registry.Serves rack :=
  Registry.serves_add (by decide) (by decide)

/-- A tool that has the other one and itself as parts, and no spare ones. -/
def rackMembers : List (String × Json) :=
  [("parts", .obj [("axe", .int 1), ("saw", .int 0)]), ("spares", .obj [])]

def rackDocument : List (String × Json) :=
  [("main", .obj [("first", .int 1)]), ("tools", .arr [.obj rackMembers, .obj []])]

theorem makings_rack : makings rack rackDocument =
    [⟨"Tool", .obj rackMembers⟩, ⟨"Tool", .obj []⟩, ⟨"App", .obj rackDocument⟩] := by
  with_unfolding_all rfl

theorem counts_rack {document : List (String × Json)} {input : InputSpec} {field : Field}
    (hmodel : rack.modelOf? field = some "Tool")
    (hfitting : TypeExpr.textFits "Tool" input.linkType = true) {n : Nat}
    (hcount : n < (elementsMade rack document "tools").length) :
    Counts rack document input field (.int n) n := by
  have hkey : rack.keyOfClass "Tool" = "tools" := by
    decide +kernel
  have hclass : rack.classOfKey? "tools" = some "Tool" := by
    decide +kernel
  refine ⟨rfl, "Tool", hmodel, Int.natCast_nonneg n, ?_, fun name hname => ?_⟩
  · rw [hkey]
    exact Int.ofNat_lt.2 hcount
  · rw [hkey, hclass] at hname
    exact Option.some.inj hname ▸ hfitting

theorem givesIndices_rackTool :
    GivesIndices rack rackDocument 0 rackTool (toolsByKey "parts")
      [("axe", .int 1), ("saw", .int 0)] where
  declared := List.mem_cons_self
  keyed := by
    decide +kernel
  given := ⟨rackMembers, congrArg (·[0]?) makings_rack, rfl⟩
  distinct := by
    decide
  counts := by
    intro member hmember
    simp only [List.mem_cons, List.not_mem_nil, or_false] at hmember
    rcases hmember with rfl | rfl
    · exact ⟨1, counts_rack (by decide +kernel) (by decide +kernel) (by decide +kernel)⟩
    · exact ⟨0, counts_rack (by decide +kernel) (by decide +kernel) (by decide +kernel)⟩

theorem givesIndices_rackRoot :
    GivesIndices rack rackDocument 2 rackRoot (toolsByKey "main") [("first", .int 1)] where
  declared := List.mem_cons_of_mem _ List.mem_cons_self
  keyed := by
    decide +kernel
  given := ⟨rackDocument, congrArg (·[2]?) makings_rack, rfl⟩
  distinct := by
    decide
  counts := by
    intro member hmember
    obtain rfl := List.mem_singleton.1 hmember
    exact ⟨1, counts_rack (by decide +kernel) (by decide +kernel) (by decide +kernel)⟩

/-- The parts of the first tool come back in its entry, the main tools at the top level. -/
theorem writesIntegers_run_rack :
    rack.Accepted ∧ rackSetting.registry.Serves rack ∧ (rackDocument.map Prod.fst).Nodup ∧
    (run rackSetting Graph.empty rackDocument).2.Fits ∧
    (∃ tool, (run rackSetting Graph.empty rackDocument).2.graph.nodes[0]? = some tool ∧
      Build.WritesIntegers (run rackSetting Graph.empty rackDocument).2.graph rack tool rackTool
        (toolsByKey "parts") [("axe", .int 1), ("saw", .int 0)]) ∧
    ∃ root, (run rackSetting Graph.empty rackDocument).2.graph.nodes[2]? = some root ∧
      Build.WritesIntegers (run rackSetting Graph.empty rackDocument).2.graph rack root rackRoot
        (toolsByKey "main") [("first", .int 1)] := by
  have hkeys : (rackDocument.map Prod.fst).Nodup := by
    decide
  have hfits : (run rackSetting Graph.empty rackDocument).2.Fits :=
    ⟨by decide +kernel, by decide +kernel⟩
  refine ⟨accepted_rack, serves_rack, hkeys, hfits, ?_, ?_⟩
  · exact writesIntegers_run accepted_rack serves_rack hkeys hfits List.mem_cons_self (by decide)
      givesIndices_rackTool (by decide) (by decide +kernel) (by decide +kernel)
  · exact writesIntegers_run accepted_rack serves_rack hkeys hfits
      (List.mem_cons_of_mem _ List.mem_cons_self) (by decide) givesIndices_rackRoot (by decide)
      (by decide +kernel) (by decide +kernel)

/-- What stands under the key of a group is the one element of the group. -/
def wrappedDocument : List (String × Json) :=
  [("tools", .obj [("a", .int 0)])]

theorem givesIndices_wrapped :
    GivesIndices rack wrappedDocument 1 rackRoot (toolsByKey "tools") [("a", .int 0)] where
  declared := List.mem_cons_self
  keyed := by
    decide +kernel
  given := by
    refine ⟨wrappedDocument, ?_, rfl⟩
    with_unfolding_all rfl
  distinct := by
    decide
  counts := by
    intro member hmember
    obtain rfl := List.mem_singleton.1 hmember
    exact ⟨0, counts_rack (by decide +kernel) (by decide +kernel) (by decide +kernel)⟩

/-- A tool that is its own part, under the empty key. -/
def keylessDocument : List (String × Json) :=
  [("tools", .arr [.obj [("parts", .obj [("", .int 0)])]])]

theorem givesIndices_keyless :
    GivesIndices rack keylessDocument 0 rackTool (toolsByKey "parts") [("", .int 0)] where
  declared := List.mem_cons_self
  keyed := by
    decide +kernel
  given := by
    refine ⟨[("parts", .obj [("", .int 0)])], ?_, rfl⟩
    with_unfolding_all rfl
  distinct := by
    decide
  counts := by
    intro member hmember
    obtain rfl := List.mem_singleton.1 hmember
    exact ⟨0, counts_rack (by decide +kernel) (by decide +kernel) (by decide +kernel)⟩

/-- What every value with the same integers shows is not missing from what is written. -/
theorem not_writesIntegers_of {g : Graph} {schema : Schema} {cls : SchemaClass} {field : Field}
    {object : List (String × Json)} {position : Nat} (shows : Json → Bool)
    (hshows : ∀ value, SameIntegers object value → shows value = true)
    (hmissing : (g.nodes[position]?.map fun node =>
      ((Build.entry g schema node).get? field.name).any shows) = some false) :
    ∃ node, g.nodes[position]? = some node ∧
      ¬ Build.WritesIntegers g schema node cls field object := by
  obtain ⟨node, hnode, hnone⟩ := Option.map_eq_some_iff.1 hmissing
  refine ⟨node, hnode, fun hwrites => ?_⟩
  obtain ⟨value, hvalue, hsame⟩ := hwrites.entry
  rw [hvalue, Option.any_some, hshows value hsame] at hnone
  exact Bool.false_ne_true hnone.symm

/--
Three objects of indices that do not come back: an empty one in an optional field is left
out, a link under the empty key is written under its position, and an object that the root
has under the key of a group is read as an element of the group.
-/
theorem not_writesIntegers_rack :
    rack.Accepted ∧ rackSetting.registry.Serves rack ∧
    (GivesIndices rack rackDocument 0 rackTool sparesField [] ∧
      ∃ tool, (run rackSetting Graph.empty rackDocument).2.graph.nodes[0]? = some tool ∧
        ¬ Build.WritesIntegers (run rackSetting Graph.empty rackDocument).2.graph rack tool
          rackTool sparesField []) ∧
    (GivesIndices rack keylessDocument 0 rackTool (toolsByKey "parts") [("", .int 0)] ∧
      ∃ tool, (run rackSetting Graph.empty keylessDocument).2.graph.nodes[0]? = some tool ∧
        ¬ Build.WritesIntegers (run rackSetting Graph.empty keylessDocument).2.graph rack tool
          rackTool (toolsByKey "parts") [("", .int 0)]) ∧
    (GivesIndices rack wrappedDocument 1 rackRoot (toolsByKey "tools") [("a", .int 0)] ∧
      ¬ ∃ value, (Build.ofGraph (run rackSetting Graph.empty wrappedDocument).2.graph rack
        ).config.get? "tools" = some value ∧ SameIntegers [("a", .int 0)] value) := by
  have hobject : ∀ object value, SameIntegers object value → value.isObject = true := by
    rintro object value ⟨written, rfl, -⟩
    rfl
  have hempty : ∀ value, SameIntegers [("", .int 0)] value → (value.get? "").isSome = true := by
    rintro value ⟨written, rfl, -, hwritten⟩
    show (written.lookup "").isSome = true
    rw [hwritten ""]
    rfl
  refine ⟨accepted_rack, serves_rack, ⟨?_, ?_⟩, ⟨givesIndices_keyless, ?_⟩,
    givesIndices_wrapped, ?_⟩
  · exact ⟨List.mem_cons_of_mem _ List.mem_cons_self, by decide +kernel,
      ⟨rackMembers, congrArg (·[0]?) makings_rack, rfl⟩, List.nodup_nil,
      fun member hmember => absurd hmember List.not_mem_nil⟩
  · exact not_writesIntegers_of Json.isObject (hobject []) (by decide +kernel)
  · exact not_writesIntegers_of (fun value => (value.get? "").isSome) hempty (by decide +kernel)
  · have hlist : ((Build.ofGraph (run rackSetting Graph.empty wrappedDocument).2.graph rack
        ).config.get? "tools").any Json.isObject = false := by
      decide +kernel
    rintro ⟨value, hvalue, hsame⟩
    rw [hvalue, Option.any_some, hobject _ value hsame] at hlist
    exact Bool.false_ne_true hlist.symm

end Import

end SlotGraph
