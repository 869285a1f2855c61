import SlotGraph.Proofs.Import.Additions
import SlotGraph.Proofs.Import.Coverage
import SlotGraph.Proofs.TypeExpr.LinkType

/-!
# What an import resolves passes the gate

The slot of a field lets in the class that the field refers to, so the node made for an inline
object is always linked.  An index is looked up under the document key of the class.  If the
key is that of another class then the node found there is one of that class, and the gate may
refuse it.
-/

namespace SlotGraph

/-- Whether the document key of a class stands for no other class. -/
def Schema.OwnsKey (schema : Schema) (className : String) : Prop :=
  ∀ other, schema.classOfKey? (schema.keyOfClass className) = some other → other = className

namespace Import

variable {setting : Setting} {groups : List Group} {g : Graph} {p : Progress}
  {document : List (String × Json)} {call : Filling} {part : Part} {cls : SchemaClass}
  {className : String} {origin : NodeId}

theorem classOfKey?_of_plan {schema : Schema}
    (hplan : groups.map Group.plan = planned schema document) {group : Group}
    (hgroup : group ∈ groups) : schema.classOfKey? group.key = some group.className := by
  obtain ⟨value, -, hplanned⟩ := mem_planned.1
    (hplan ▸ List.mem_map_of_mem hgroup : group.plan ∈ planned schema document)
  exact (of_groupElements? hplanned).1

/--
Whether a part whose element is the index of a node of a group is linked exactly if the class
of the group fits, and refused otherwise.  Where the key of the class that the field refers to
stands for no other class, the group is one of that class, and the part is linked.
-/
structure Gated (setting : Setting) (groups : List Group) (call : Filling) (part : Part)
    (linkType className : String) (group : Group) : Prop where
  linked : part.Linked setting groups call ↔
    TypeExpr.textFits group.className linkType = true
  refused : TypeExpr.textFits group.className linkType = false → ∃ title, part.after =
    part.before.report (.refusedLink group.className title call.field.name linkType)
  owned : setting.schema.OwnsKey className →
    group.className = className ∧ part.Linked setting groups call

section

variable (hproper : call.Proper setting) (hunderway : Underway setting groups g call.before)
  (htarget : IsOf setting.schema call.before.graph call.target cls)
  (hfield : cls.fields[call.slot]? = some call.field)
  (hmodel : setting.schema.modelOf? call.field = some className)
  (hlets : TypeExpr.textFits className (setting.schema.inputOf cls call.field).linkType = true)
  (hpart : part ∈ call.parts setting groups) (hreach : Reaches g part.after)

include hproper hunderway htarget hfield hmodel hlets hpart hreach

theorem linked_object (hserves : setting.registry.Serves setting.schema)
    {object : List (String × Json)} (hobject : part.element = .obj object) :
    part.Linked setting groups call := by
  rcases part_object hproper hunderway hpart hserves hobject hreach with
    ⟨hnone, -⟩ | ⟨origin, after, made, hstands, horigin, hclass, hafter⟩
  · rw [hmodel] at hnone
    cases hnone
  · have hbefore := (of_mem_partsFrom (steps_answer call) hpart).2.2.1
    have htargetMade := (htarget.steps hbefore).steps hstands.steps
    rw [← hclass className hmodel] at hlets
    obtain ⟨id, graph, hconnect, hlink⟩ :=
      link_of_fits horigin htargetMade hfield hlets part.key
    exact ⟨origin, after, id, graph, hstands, hconnect, hafter.trans hlink⟩

omit hproper in
/-- The node of an index is linked or refused according to the class of its group. -/
theorem gated_index (hplan : groups.map Group.plan = planned setting.schema document)
    {index : Int} (hnumber : part.element.int64? = some index)
    (hresolved : resolve? setting.schema groups call.field index = some origin) :
    ∃ group ∈ groups, origin ∈ group.nodes.map Prod.fst ∧
      Gated setting groups call part (setting.schema.inputOf cls call.field).linkType className
        group := by
  obtain ⟨_, group, hsame, hgroup, hmember, hfound⟩ := group_of_resolve? hresolved
  obtain rfl := Option.some.inj (hmodel.symm.trans hsame)
  obtain ⟨made, -, hname, hnodes⟩ := (underway_part hunderway hpart hreach).stocked group hgroup
  have horigin := hnodes origin hmember
  have hbefore := (of_mem_partsFrom (steps_answer call) hpart).2.2.1
  have htargetBefore := htarget.steps hbefore
  have hafter := part_number hpart hnumber
  rw [linkIndex, hresolved] at hafter
  simp only at hafter
  have hlinked : TypeExpr.textFits group.className
      (setting.schema.inputOf cls call.field).linkType = true →
        part.Linked setting groups call := by
    intro hfits
    rw [← hname] at hfits
    obtain ⟨id, graph, hconnect, hlink⟩ :=
      link_of_fits horigin htargetBefore hfield hfits part.key
    exact ⟨origin, part.before, id, graph, .inl ⟨index, hnumber, hresolved, rfl⟩, hconnect,
      hafter.trans hlink⟩
  have hrefused : TypeExpr.textFits group.className
      (setting.schema.inputOf cls call.field).linkType = false → ∃ title, part.after =
        part.before.report (.refusedLink group.className title call.field.name
          (setting.schema.inputOf cls call.field).linkType) := by
    intro hfits
    rw [← hname] at hfits ⊢
    obtain ⟨title, hlink⟩ := link_of_not_fits horigin htargetBefore hfield hfits part.key
    exact ⟨title, hafter.trans hlink⟩
  refine ⟨group, hgroup, hmember, ⟨⟨fun h => ?_, hlinked⟩, hrefused, fun howns => ?_⟩⟩
  · by_contra hfits
    obtain ⟨title, hreported⟩ := hrefused (by simpa using hfits)
    have hmore := h.links_lt
    rw [hreported] at hmore
    exact absurd hmore (Nat.lt_irrefl _)
  · have hclass : group.className = className := by
      rcases hfound with hkey | hsame
      · exact howns _ (hkey ▸ classOfKey?_of_plan hplan hgroup)
      · exact hsame
    exact ⟨hclass, hlinked (hclass ▸ hlets)⟩

end

/--
The gate lets in what an import resolves: the slot of a field lets in the class that the field
refers to, and in every call that fills a slot by links, with no slot left out, the node made
for an inline object is linked, and the node of an index is linked exactly if the class of its
group fits, which it does unless the key of the class that the field refers to is that of
another class.
-/
theorem gated_fillings (haccepted : setting.schema.Accepted)
    (hserves : setting.registry.Serves setting.schema) (hg : g.WellFormed)
    (hfits : (Edit.importConfig setting (.obj document)).Fits g) :
    (∀ cls ∈ setting.schema.classes, ∀ field ∈ cls.fields, ∀ className,
      setting.schema.modelOf? field = some className → setting.schema.TakesModel cls field →
      TypeExpr.textFits className (setting.schema.inputOf cls field).linkType = true) ∧
    Complete setting g document ∧
    ∀ call ∈ fillings setting g document, ∃ cls ∈ setting.schema.classes,
      IsOf setting.schema call.before.graph call.target cls ∧
      cls.fields[call.slot]? = some call.field ∧
      ∀ className, setting.schema.modelOf? call.field = some className →
        setting.schema.TakesModel cls call.field →
        ∀ part ∈ call.parts setting (madeGroups setting g document),
          (∀ object, part.element = .obj object →
            part.Linked setting (madeGroups setting g document) call) ∧
          ∀ index origin, part.element.int64? = some index →
            resolve? setting.schema (madeGroups setting g document) call.field index =
              some origin →
            ∃ group ∈ madeGroups setting g document, origin ∈ group.nodes.map Prod.fst ∧
              Gated setting (madeGroups setting g document) call part
                (setting.schema.inputOf cls call.field).linkType className group := by
  have hreach := reaches_of_fits hfits
  obtain ⟨hplan, -⟩ := plan_madeGroups haccepted hserves g document
  refine ⟨fun cls hcls field hfield className => haccepted.textFits_linkType hcls hfield,
    complete_fillings haccepted hserves hg hreach, fun call hcall => ?_⟩
  obtain ⟨hproper, hunderway, -, hlast⟩ := between_fillings haccepted hserves hg hreach call hcall
  obtain ⟨cls, hcls, htarget, hfield, -⟩ := hproper.slot
  refine ⟨cls, hcls, htarget, hfield, fun className hmodel htakes part hpart => ?_⟩
  have hlets := haccepted.textFits_linkType hcls (List.mem_of_getElem? hfield) hmodel htakes
  have hpartReach := hreach.back ((steps_after_part hproper hpart).trans hlast)
  exact ⟨fun object hobject => linked_object hproper hunderway htarget hfield hmodel hlets hpart
      hpartReach hserves hobject,
    fun index origin hnumber hresolved => gated_index hunderway htarget hfield hmodel hlets hpart
      hpartReach hplan hnumber hresolved⟩

/-- A schema where the plural of one class is the field for another. -/
def workshop : Schema :=
  Schema.ofClasses "s" "Index" "App"
    [ ⟨"Tool", [⟨"name", .named "str", "str", ""⟩]⟩
    , ⟨"Gadget", [⟨"name", .named "str", "str", ""⟩]⟩
    , ⟨"Task", [⟨"tool", .named "Tool", "Tool", ""⟩]⟩
    , ⟨"App",
        [ ⟨"tools", .wrapped .list (.named "Gadget"), "List[Gadget]", ""⟩
        , ⟨"tasks", .wrapped .list (.named "Task"), "List[Task]", ""⟩ ]⟩ ]

def workshopSource : String :=
  "class Tool:\n  name: str\nclass Gadget:\n  name: str\nclass Task:\n  tool: Tool\n" ++
  "class App:\n  tools: List[Gadget]\n  tasks: List[Task]\n"

set_option maxRecDepth 4000 in
theorem accepted_workshop : workshop.Accepted := by
  have hread : (Schema.parseClasses workshopSource).1 = workshop.classes := by
    with_unfolding_all rfl
  exact Schema.accepted_ofClasses hread (by decide) (by decide) (by decide) (by decide)
    fun _ => by decide

def workshopSetting : Setting :=
  ⟨workshop, Registry.initial.add workshop 1, ImportLayout.standard⟩

/-- A gadget under the plural of `Tool`, a task that counts it, and one with a tool of its own. -/
def workshopDocument : List (String × Json) :=
  [ ("tasks", .arr [.obj [("tool", .int 0)], .obj [("tool", .obj [("name", .str "t")])]])
  , ("tools", .arr [.obj [("name", .str "g")]]) ]

/-- The key of `Tool` is that of `Gadget`, so the index is refused; the inline tool is linked. -/
theorem gated_fillings_workshop :
    workshop.Accepted ∧ workshopSetting.registry.Serves workshop ∧
    Graph.empty.WellFormed ∧
    (Edit.importConfig workshopSetting (.obj workshopDocument)).Fits Graph.empty ∧
    workshop.classOfKey? (workshop.keyOfClass "Tool") = some "Gadget" ∧
    (run workshopSetting Graph.empty workshopDocument).2.issues =
      [.refusedLink "Gadget" "s.Task" "tool" "Tool"] ∧
    Complete workshopSetting Graph.empty workshopDocument ∧
    ((fillings workshopSetting Graph.empty workshopDocument).flatMap fun call =>
      (call.parts workshopSetting
        (madeGroups workshopSetting Graph.empty workshopDocument)).map fun part =>
          part.element.int64?) = [some 0, none] ∧
    ∀ call ∈ fillings workshopSetting Graph.empty workshopDocument,
      ∀ part ∈ call.parts workshopSetting
        (madeGroups workshopSetting Graph.empty workshopDocument),
        (∀ object, part.element = .obj object →
          part.Linked workshopSetting
            (madeGroups workshopSetting Graph.empty workshopDocument) call) ∧
        (part.element.int64?.isSome = true →
          ¬ part.Linked workshopSetting
            (madeGroups workshopSetting Graph.empty workshopDocument) call) := by
  have hfits : (Edit.importConfig workshopSetting (.obj workshopDocument)).Fits Graph.empty := by
    decide +kernel
  have hserves : workshopSetting.registry.Serves workshop :=
    Registry.serves_add (by decide) (by decide)
  obtain ⟨-, hcomplete, hgated⟩ :=
    gated_fillings accepted_workshop hserves Graph.WellFormed.empty hfits
  have hfields : ∀ call ∈ fillings workshopSetting Graph.empty workshopDocument,
      workshop.modelOf? call.field = some "Tool" ∧
        call.field.type.required.isCollection = false := by
    decide +kernel
  have hcounts : ∀ call ∈ fillings workshopSetting Graph.empty workshopDocument,
      ∀ part ∈ call.parts workshopSetting
        (madeGroups workshopSetting Graph.empty workshopDocument),
        part.element.int64?.isSome = true → part.after.links = part.before.links := by
    decide +kernel
  refine ⟨accepted_workshop, hserves, Graph.WellFormed.empty, hfits, by decide, ?_, hcomplete,
    by decide +kernel, fun call hcall part hpart => ⟨fun object hobject => ?_, fun hnumber h => ?_⟩⟩
  · with_unfolding_all rfl
  · obtain ⟨cls, -, -, -, hparts⟩ := hgated call hcall
    obtain ⟨hmodel, hplain⟩ := hfields call hcall
    exact (hparts "Tool" hmodel (.inr hplain) part hpart).1 object hobject
  · have hlinks := hcounts call hcall part hpart hnumber
    have hmore := h.links_lt
    omega

end Import

end SlotGraph
