import SlotGraph.Proofs.Config.NormalForm

/-!
# Documents that come back

A document in normal form, imported into the empty graph, is built again as it was:
the nodes of each class are written as the elements they were made for, and the root
as what the document says beside its groups.
-/

namespace SlotGraph

namespace Import

variable {setting : Setting} {schema : Schema} {document : List (String × Json)}
  {groups : List Group} {g : Graph}

/-! ## Normal documents -/

/-- Whether a group of a class stands in a document as a build writes it. -/
def NormalGroup (schema : Schema) (document : List (String × Json)) (cls : SchemaClass)
    (value : Json) : Prop :=
  ∃ sources : List (List (String × Json)), sources ≠ [] ∧
    value = Build.groupValue schema (schema.keyOfClass cls.name) (sources.map Json.obj) ∧
    ∀ source ∈ sources, NormalObject schema document cls cls.fields source

/--
Whether a document is in normal form: under the key of each class stands nothing or a
group, and everything else is what the root says.
-/
structure NormalDocument (schema : Schema) (document : List (String × Json)) : Prop where
  ascending : Json.Ascending document
  groups : ∀ cls ∈ schema.classes, schema.isRoot cls = false → ∀ value,
    document.lookup (schema.keyOfClass cls.name) = some value →
      NormalGroup schema document cls value
  rootless : schema.rootClass? = none →
    ∀ member ∈ document, schema.isGroupKey member.1 = true
  root : ∀ root, schema.rootClass? = some root →
    NormalObject schema document root
      (root.fields.filter fun field => !schema.isGroupKey field.name)
      (document.filter fun member => !schema.isGroupKey member.1)

theorem elements?_groupValue (schema : Schema) (key : String) {entries : List Json}
    (h : ∀ entry ∈ entries, entry.isObject = true) :
    elements? (Build.groupValue schema key entries) = some entries := by
  match entries with
  | [] =>
      rfl
  | [single] =>
      show elements? (if schema.groupIsList key then _ else _) = _
      split
      · rfl
      · cases single with
        | obj members =>
            rfl
        | _ =>
            simp [Json.isObject] at h
  | _ :: _ :: _ =>
      rfl

theorem elements?_objects (schema : Schema) (key : String)
    (sources : List (List (String × Json))) :
    elements? (Build.groupValue schema key (sources.map Json.obj)) =
      some (sources.map Json.obj) :=
  elements?_groupValue schema key (List.forall_mem_map.2 fun _ _ => rfl)

theorem NormalDocument.elementsOf (h : NormalDocument schema document) {cls : SchemaClass}
    (hcls : cls ∈ schema.classes) (hroot : schema.isRoot cls = false) :
    ∃ sources : List (List (String × Json)),
      elementsOf schema document cls.name = sources.map Json.obj ∧
      (∀ source ∈ sources, NormalObject schema document cls cls.fields source) ∧
      document.lookup (schema.keyOfClass cls.name) =
        if sources = [] then none
        else some (Build.groupValue schema (schema.keyOfClass cls.name)
          (sources.map Json.obj)) := by
  rw [Import.elementsOf]
  cases hvalue : document.lookup (schema.keyOfClass cls.name) with
  | none =>
      exact ⟨[], rfl, by simp, rfl⟩
  | some value =>
      obtain ⟨sources, hsome, rfl, hnormal⟩ := h.groups cls hcls hroot value hvalue
      refine ⟨sources, ?_, hnormal, by rw [if_neg hsome]⟩
      rw [Option.bind_some, elements?_objects]
      rfl

theorem NormalDocument.flat (h : NormalDocument schema document) (hregular : schema.Regular) :
    FlatDocument schema document where
  keys := h.ascending.nodup
  elements := by
    rintro ⟨key, name, elements⟩ hentry cls hfind element helement
    obtain ⟨value, hvalue, hgroup⟩ := mem_planned.1 hentry
    obtain ⟨⟨model, hmem, hname, hroot⟩, rfl, helements⟩ :=
      (groupElements?_eq_some_iff hregular).1 hgroup
    obtain ⟨hcls, hclsName⟩ := hregular.findClass?_eq_some_iff.1 hfind
    obtain rfl := hregular.class_unique hmem hcls (hname.trans hclsName.symm)
    have hlookup := (Json.lookup_eq_some_iff h.ascending.nodup).2 hvalue
    rw [← hname] at hlookup
    obtain ⟨sources, -, rfl, hnormal⟩ := h.groups model hmem hroot value hlookup
    rw [elements?_objects] at helements
    obtain rfl := Option.some.inj helements
    obtain ⟨source, hsource, rfl⟩ := List.mem_map.1 helement
    refine ⟨rfl, fun field hfield value hvalue => ?_⟩
    have hslot := (hnormal source hsource).slots field hfield
    rw [show source.lookup field.name = some value from hvalue] at hslot
    exact NormalValue.flat hslot
  root := by
    intro root hroot field hfield value hvalue hnone
    cases hkey : schema.isGroupKey field.name with
    | true =>
        -- Under the key of a class stand elements.
        obtain ⟨cls, hcls, hclsRoot, hname⟩ := hregular.isGroupKey_iff.1 hkey
        rw [← hname] at hvalue
        obtain ⟨sources, -, rfl, -⟩ := h.groups cls hcls hclsRoot value hvalue
        have hsome := (groupElements?_eq_some_iff hregular).2
          ⟨⟨cls, hcls, rfl, hclsRoot⟩, hname.symm,
            elements?_objects schema (schema.keyOfClass cls.name) sources⟩
        simp [hnone] at hsome
    | false =>
        have hslot := (h.root root hroot).slots field
          (List.mem_filter.2 ⟨hfield, by simp [hkey]⟩)
        rw [Json.lookup_filter (fun key => !schema.isGroupKey key) (by simp [hkey]), hvalue]
          at hslot
        exact NormalValue.flat hslot

/-! ## Groups that come back -/

section

variable (h : Imported setting document groups g) (hregular : setting.schema.Regular)
  (hserves : setting.registry.Serves setting.schema)
  (hnormal : NormalDocument setting.schema document)
  (hcount : (g.nodes.length : Int) ≤ Graph.lastId)

include h hregular hserves hnormal hcount

theorem Imported.entry_written {cls : SchemaClass} (hcls : cls ∈ setting.schema.classes)
    {node : Node} (hnode : node ∈ g.nodes)
    (hclass : setting.schema.IsTemplate cls node.shape) {source : List (String × Json)}
    (hsource : NormalObject setting.schema document cls cls.fields source)
    (hfilled : Filled setting groups g node.id cls fun field => source.lookup field.name) :
    Build.entry g setting.schema node = .obj source := by
  refine Build.entry_eq h.wellFormed h.inOrder hnode hclass (hregular.fields cls hcls)
    hsource.ascending hsource.known fun position field hfield => ?_
  have hmem := List.mem_of_getElem? hfield
  have hinput : (g.shape? node.id).bind (·.inputs[position]?) =
      some (setting.schema.inputOf cls field) := by
    rw [h.wellFormed.shape?_eq hnode, Option.bind_some, hclass.input_eq hfield]
  rw [hfilled position field hfield]
  exact h.slot_written hregular hserves hnormal.ascending.nodup hcount hcls hmem hinput
    (hsource.slots field hmem)

theorem Imported.group_written {cls : SchemaClass} (hcls : cls ∈ setting.schema.classes)
    (hroot : setting.schema.isRoot cls = false) :
    (g.group setting.schema cls.name).map (Build.entry g setting.schema) =
      elementsOf setting.schema document cls.name := by
  have hplanned := h.planned hregular hnormal.ascending.nodup
  have hids := h.ids_group hregular hserves hnormal.ascending.nodup hcls hroot
  have helements := hplanned.elements_nodesUnder hcls hroot
  obtain ⟨sources, hsources, hobjects, -⟩ := hnormal.elementsOf hcls hroot
  have hwritten : ∀ node ∈ g.group setting.schema cls.name, ∀ element,
      (node.id, element) ∈ nodesUnder groups (setting.schema.keyOfClass cls.name) →
      Build.entry g setting.schema node = element := by
    intro node hnode element hmade
    obtain ⟨other, hother, hname, -, hclass⟩ :=
      (h.madeFrom hregular hserves).class_of_group hnode
    obtain rfl := hregular.class_unique hother hcls hname
    have helement : element ∈ sources.map Json.obj := by
      rw [← hsources, ← helements]
      exact List.mem_map_of_mem hmade
    obtain ⟨source, hsource, rfl⟩ := List.mem_map.1 helement
    obtain ⟨group, hgroup, hgroupClass, hmember⟩ := hplanned.mem_nodesUnder hcls hroot hmade
    exact h.entry_written hregular hserves hnormal hcount hcls (Graph.mem_group.1 hnode).1 hclass
      (hobjects source hsource)
      (h.grouped.filled group hgroup _ hmember other
        (hregular.findClass?_eq_some_iff.2 ⟨hcls, hgroupClass.symm⟩))
  refine List.ext_getElem? fun position => ?_
  have hid := congrArg (·[position]?) hids
  rw [← helements]
  simp only [List.getElem?_map] at hid ⊢
  cases hmade : (nodesUnder groups (setting.schema.keyOfClass cls.name))[position]? with
  | none =>
      rw [hmade, Option.map_none, Option.map_eq_none_iff] at hid
      rw [hid]
      rfl
  | some made =>
      rw [hmade, Option.map_some] at hid
      obtain ⟨node, hnode, hsame⟩ := Option.map_eq_some_iff.1 hid
      have hmember : (node.id, made.2) ∈
          nodesUnder groups (setting.schema.keyOfClass cls.name) := by
        rw [hsame]
        exact List.mem_of_getElem? hmade
      rw [hnode, Option.map_some, Option.map_some,
        hwritten node (List.mem_of_getElem? hnode) made.2 hmember]

theorem Imported.get?_config_group {cls : SchemaClass} (hcls : cls ∈ setting.schema.classes)
    (hroot : setting.schema.isRoot cls = false) :
    (Build.ofGraph g setting.schema).config.get? (setting.schema.keyOfClass cls.name) =
      document.lookup (setting.schema.keyOfClass cls.name) := by
  have hwritten := h.group_written hregular hserves hnormal hcount hcls hroot
  obtain ⟨sources, hsources, -, hlookup⟩ := hnormal.elementsOf hcls hroot
  rw [hsources] at hwritten
  have hempty : g.group setting.schema cls.name = [] ↔ sources = [] := by
    rw [← List.map_eq_nil_iff (f := Build.entry g setting.schema), hwritten,
      List.map_eq_nil_iff]
  rw [Build.get?_config_of_group hregular (h.madeFrom hregular hserves) hcls hroot, hlookup,
    Build.groupOf, hwritten]
  simp only [hempty]

/-! ## The root that comes back -/

theorem Imported.root_written {root : SchemaClass}
    (hroot : setting.schema.rootClass? = some root) {node : Node} (hnode : node ∈ g.nodes)
    (hclass : setting.schema.IsTemplate root node.shape)
    (hfilled : RootFilled setting groups g node.id root document) {key : String}
    (hkey : setting.schema.isGroupKey key = false) :
    (Build.entry g setting.schema node).get? key = document.lookup key := by
  have hcls := hregular.mem_of_rootClass? hroot
  have hnames := hregular.fields root hcls
  have hobject := hnormal.root root hroot
  have hlookup : (document.filter fun member => !setting.schema.isGroupKey member.1).lookup key =
      document.lookup key :=
    Json.lookup_filter (fun key => !setting.schema.isGroupKey key) (by simp [hkey])
  by_cases hfield : ∃ field ∈ root.fields, field.name = key
  · obtain ⟨field, hmem, rfl⟩ := hfield
    obtain ⟨position, hposition⟩ := List.getElem?_of_mem hmem
    have hinput : (g.shape? node.id).bind (·.inputs[position]?) =
        some (setting.schema.inputOf root field) := by
      rw [h.wellFormed.shape?_eq hnode, Option.bind_some, hclass.input_eq hposition]
    have hslot := hobject.slots field (List.mem_filter.2 ⟨hmem, by simp [hkey]⟩)
    rw [hlookup] at hslot
    have hgroup : findGroup? groups field.name = none :=
      (h.planned hregular hnormal.ascending.nodup).findGroup?_eq_none hkey
    rw [Build.get?_entry h.wellFormed h.inOrder hnode hclass hnames hposition,
      hfilled position field hposition, rootContent, hgroup]
    exact h.slot_written hregular hserves hnormal.ascending.nodup hcount hcls hmem hinput hslot
  · have hnone : document.lookup key = none := by
      rw [← hlookup, Option.eq_none_iff_forall_ne_some]
      intro value hvalue
      obtain ⟨field, hmem, hname⟩ := hobject.known _ (Json.mem_of_lookup hvalue)
      exact hfield ⟨field, List.mem_of_mem_filter hmem, hname⟩
    rw [hnone, Option.eq_none_iff_forall_ne_some]
    intro value hvalue
    obtain ⟨position, field, hposition, hname⟩ :=
      Build.field_of_get?_entry h.wellFormed h.inOrder hnode hclass hnames hvalue
    exact hfield ⟨field, List.mem_of_getElem? hposition, hname⟩

theorem Imported.get?_config_beside {key : String}
    (hkey : setting.schema.isGroupKey key = false) :
    (Build.ofGraph g setting.schema).config.get? key = document.lookup key := by
  refine Option.ext fun value => ?_
  rw [Build.get?_config_of_root hregular (h.madeFrom hregular hserves) hkey]
  cases hroot : setting.schema.rootClass? with
  | none =>
      have hlookup : document.lookup key ≠ some value := by
        intro hvalue
        have hgroup := hnormal.rootless hroot _ (Json.mem_of_lookup hvalue)
        rw [hkey] at hgroup
        exact absurd hgroup (by decide)
      simp [h.rootNodes_of_rootless hregular hserves hroot, hlookup]
  | some root =>
      obtain ⟨node, hnodes, hclass, hfilled⟩ := h.exists_rootNode hregular hserves hroot
      have hnode : node ∈ g.nodes :=
        List.mem_of_mem_filter (hnodes ▸ List.mem_singleton_self node : node ∈ g.rootNodes _)
      have hwritten :=
        h.root_written hregular hserves hnormal hcount hroot hnode hclass hfilled hkey
      rw [hnodes, ← hwritten]
      simp

theorem Imported.config_eq :
    (Build.ofGraph g setting.schema).config = .obj document := by
  refine Json.ofMembers_eq hnormal.ascending fun key => ?_
  show (Build.ofGraph g setting.schema).config.get? key = _
  cases hkey : setting.schema.isGroupKey key with
  | true =>
      obtain ⟨cls, hcls, hroot, rfl⟩ := hregular.isGroupKey_iff.1 hkey
      exact h.get?_config_group hregular hserves hnormal hcount hcls hroot
  | false =>
      exact h.get?_config_beside hregular hserves hnormal hcount hkey

end

end Import

namespace Build

variable {setting : Import.Setting} {document : List (String × Json)}

/--
A document in normal form that is imported into the empty graph is built again as it
was, as long as the numbers of nodes and links do not run out.
-/
theorem config_run (hregular : setting.schema.Regular)
    (hserves : setting.registry.Serves setting.schema)
    (hnormal : Import.NormalDocument setting.schema document)
    (hfits : (Import.run setting Graph.empty document).2.Fits) :
    (ofGraph (Import.run setting Graph.empty document).2.graph setting.schema).config =
      .obj document := by
  obtain ⟨groups, himported⟩ :=
    Import.run_contents hregular hserves (hnormal.flat hregular) hfits
  exact himported.config_eq hregular hserves hnormal hfits.1

/-- Tools that may refer to one another, in an application with a title. -/
def toolboxSource : String :=
  "class Tool:\n  name: str\n  next: Optional[Union[Tool, Index]]\n" ++
  "class App:\n  title: str\n  tools: List[Tool]\n"

def nextField : Field :=
  ⟨"next", .wrapped .optional (.union [.named "Tool", .named "Index"]),
    "Optional[Union[Tool, Index]]", ""⟩

def toolClass : SchemaClass :=
  ⟨"Tool", [⟨"name", .named "str", "str", ""⟩, nextField]⟩

def appClass : SchemaClass :=
  ⟨"App",
    [⟨"title", .named "str", "str", ""⟩, ⟨"tools", .wrapped .list (.named "Tool"), "List[Tool]", ""⟩]⟩

def toolbox : Schema :=
  Schema.ofClasses "s" "Index" "App" [toolClass, appClass]

theorem parseClasses_toolboxSource :
    (Schema.parseClasses toolboxSource).1 = [toolClass, appClass] := by
  with_unfolding_all rfl

theorem regular_toolbox : toolbox.Regular where
  accepted :=
    Schema.accepted_ofClasses parseClasses_toolboxSource (by decide) (by decide) (by decide)
      (List.cons_ne_nil _ _) fun _ => by decide
  fields := by
    decide
  unrooted := by
    have hroot : toolbox.rootClass? = some appClass := rfl
    have hfields : ∀ cls ∈ toolbox.classes, ∀ field ∈ cls.fields,
        toolbox.modelOf? field ≠ some "App" := by
      decide +kernel
    intro cls hcls field hfield root hrooted
    rw [hroot] at hrooted
    obtain rfl := Option.some.inj hrooted
    exact hfields cls hcls field hfield
  keys := by
    decide +kernel

/-- Two tools, the first of which refers to the second. -/
def toolboxDocument : List (String × Json) :=
  [ ("title", .str "demo")
  , ("tools", .arr
      [ .obj [("name", .str "a"), ("next", .int 1)]
      , .obj [("name", .str "b")] ]) ]

def toolboxSetting : Import.Setting :=
  ⟨toolbox, Registry.initial.add toolbox 1, ImportLayout.standard⟩

theorem normal_text {document : List (String × Json)} {input : InputSpec} {field : Field}
    {text : String} (hintake : input.intake = .single (some .string))
    (hplain : spelledOut? text = none) (hsome : text ≠ "") :
    Import.NormalSlot toolbox document input field (some (.str text)) := by
  show Import.NormalValue toolbox document input field (.str text)
  rw [Import.NormalValue, hintake]
  exact NativeKind.keeps_string hplain hsome _

theorem normal_toolboxDocument : Import.NormalDocument toolbox toolboxDocument where
  ascending := by
    decide
  groups := by
    intro cls hcls hroot value hvalue
    obtain rfl : cls = toolClass := by
      rcases List.mem_pair.1 hcls with htool | happ
      · exact htool
      · rw [happ] at hroot
        exact absurd hroot (by decide)
    have hkey : toolbox.keyOfClass toolClass.name = "tools" := by
      decide +kernel
    have hlist : toolbox.groupIsList "tools" = true := by
      decide +kernel
    have hindex : Import.IsIndex toolbox toolboxDocument (toolbox.inputOf toolClass nextField)
        nextField (.int 1) :=
      ⟨"Tool", 1, by decide +kernel, by decide +kernel, by decide +kernel, rfl⟩
    rw [hkey] at hvalue
    obtain rfl := Option.some.inj hvalue
    rw [Import.NormalGroup, hkey]
    refine ⟨[[("name", .str "a"), ("next", .int 1)], [("name", .str "b")]], by simp, ?_, ?_⟩
    · rfl
    · intro source hsource
      rcases List.mem_pair.1 hsource with rfl | rfl
      · refine ⟨by decide, by simp [toolClass, nextField], fun field hfield => ?_⟩
        rcases List.mem_pair.1 hfield with rfl | rfl
        · exact normal_text rfl rfl (by decide)
        · exact hindex
      · refine ⟨by decide, by simp [toolClass], fun field hfield => ?_⟩
        rcases List.mem_pair.1 hfield with rfl | rfl
        · exact normal_text rfl rfl (by decide)
        · exact Or.inl rfl
  rootless hroot := by
    have hdeclared : toolbox.rootClass? = some appClass := rfl
    simp [hdeclared] at hroot
  root := by
    intro root hroot
    obtain rfl : appClass = root := Option.some.inj hroot
    have hkeys : toolbox.isGroupKey "title" = false ∧ toolbox.isGroupKey "tools" = true := by
      decide +kernel
    have hfields : (appClass.fields.filter fun field => !toolbox.isGroupKey field.name) =
        [⟨"title", .named "str", "str", ""⟩] := by
      simp [appClass, hkeys]
    have hmembers : (toolboxDocument.filter fun member => !toolbox.isGroupKey member.1) =
        [("title", .str "demo")] := by
      simp [toolboxDocument, hkeys]
    rw [hfields, hmembers]
    refine ⟨by decide, by simp, fun field hfield => ?_⟩
    obtain rfl := List.mem_singleton.1 hfield
    exact normal_text rfl rfl (by decide)

theorem config_run_toolbox :
    toolbox.Regular ∧ toolboxSetting.registry.Serves toolbox ∧
      Import.NormalDocument toolbox toolboxDocument ∧
      (Import.run toolboxSetting Graph.empty toolboxDocument).2.Fits ∧
      (ofGraph (Import.run toolboxSetting Graph.empty toolboxDocument).2.graph toolbox).config =
        .obj toolboxDocument := by
  have hserves : toolboxSetting.registry.Serves toolbox :=
    Registry.serves_add (by decide) (by decide)
  have hfits : (Import.run toolboxSetting Graph.empty toolboxDocument).2.Fits :=
    ⟨by decide +kernel, by decide +kernel⟩
  exact ⟨regular_toolbox, hserves, normal_toolboxDocument, hfits,
    config_run regular_toolbox hserves normal_toolboxDocument hfits⟩

end Build

end SlotGraph
