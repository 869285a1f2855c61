import SlotGraph.Proofs.Import.Beside
import SlotGraph.Proofs.Import.Indices
import SlotGraph.Proofs.Import.Inline

/-!
# Imports under way

Once the nodes of the groups are made, every later step of an import finds a graph that is
well formed, the nodes of the groups with the templates of their classes, and room in the
counters.  Then a link between two nodes of declared classes either gets in or is reported
as refused: that an end of it is missing does not happen.
-/

namespace SlotGraph

namespace Import

variable {setting : Setting} {groups : List Group} {g : Graph} {p p' : Progress}
  {document : List (String × Json)}

/-! ## Nodes of a class -/

def IsOf (schema : Schema) (g : Graph) (id : NodeId) (cls : SchemaClass) : Prop :=
  ∃ template, g.shape? id = some template ∧ schema.IsTemplate cls template

namespace IsOf

variable {schema : Schema} {id origin target : NodeId} {slot : Nat} {cls made : SchemaClass}
  {field : Field}

theorem knows (h : IsOf schema g id cls) : g.Knows id := by
  obtain ⟨template, hshape, -⟩ := h
  exact Graph.knows_of_shape? hshape

theorem steps (h : IsOf schema p.graph id cls) (hsteps : Steps setting p p') :
    IsOf schema p'.graph id cls := by
  have hknown := h.knows
  obtain ⟨template, hshape, htemplate⟩ := h
  obtain ⟨added, hshapes, -⟩ := hsteps.shapes_append
  exact ⟨template, (hknown.shape?_append hshapes).trans hshape, htemplate⟩

theorem input_eq (h : IsOf schema g id cls) (hfield : cls.fields[slot]? = some field) :
    (g.shape? id).bind (·.inputs[slot]?) = some (schema.inputOf cls field) := by
  obtain ⟨template, hshape, htemplate⟩ := h
  rw [hshape, Option.bind_some, htemplate.input_eq hfield]

/-- A slot admits a node of a class exactly when the class fits its link type. -/
theorem admits_eq (horigin : IsOf schema g origin made) (htarget : IsOf schema g target cls)
    (hfield : cls.fields[slot]? = some field) :
    g.admits origin target slot =
      TypeExpr.textFits made.name (schema.inputOf cls field).linkType := by
  obtain ⟨template, hshape, htemplate⟩ := horigin
  rw [Graph.admits, htarget.input_eq hfield, hshape, Option.bind_some, htemplate.outputs]
  rfl

theorem of_mem_shapes (hwf : g.WellFormed) {template : NodeTemplate}
    (hshape : (id, template) ∈ g.shapes) (htemplate : schema.IsTemplate cls template) :
    IsOf schema g id cls :=
  ⟨template, hwf.shape?_eq_some_iff.2 hshape, htemplate⟩

end IsOf

/-! ## One link -/

section

variable {origin target : NodeId} {slot : Nat} {cls made : SchemaClass} {field : Field}
  (horigin : IsOf setting.schema p.graph origin made)
  (htarget : IsOf setting.schema p.graph target cls)
  (hfield : cls.fields[slot]? = some field)

include horigin htarget hfield

/-- A link from a node whose class fits is made and counted. -/
theorem link_of_fits
    (hfits : TypeExpr.textFits made.name (setting.schema.inputOf cls field).linkType = true)
    (key : String) :
    ∃ id graph, p.graph.connect origin 0 target slot = .ok (id, graph) ∧
      p.link origin target slot key =
        { p with
          graph := if key = "" then graph else (graph.setKey? id key).getD graph
          links := p.links + 1 } := by
  have hadmits : p.graph.admits origin target slot = true :=
    (horigin.admits_eq htarget hfield).trans hfits
  obtain ⟨id, graph, hconnect⟩ := Graph.connect_ok_iff_admits.2 hadmits
  exact ⟨id, graph, hconnect, by rw [Progress.link, hconnect]⟩

/-- A link from a node whose class does not fit is reported as refused. -/
theorem link_of_not_fits
    (hfits : TypeExpr.textFits made.name (setting.schema.inputOf cls field).linkType = false)
    (key : String) :
    ∃ title, p.link origin target slot key =
      p.report (.refusedLink made.name title field.name
        (setting.schema.inputOf cls field).linkType) := by
  have hinput := htarget.input_eq hfield
  obtain ⟨template, hshape, htemplate⟩ := horigin
  obtain ⟨originNode, horiginNode, rfl⟩ := Option.map_eq_some_iff.1 hshape
  have houtput := Graph.shape?_outputs horiginNode 0
  rw [hshape, Option.bind_some, htemplate.outputs] at houtput
  obtain ⟨output, houtputAt, hspec⟩ := Option.map_eq_some_iff.1 houtput.symm
  cases htargetNode : p.graph.findNode? target with
  | none =>
      simp [Graph.shape?, htargetNode] at hinput
  | some targetNode =>
      rw [Graph.shape?_inputs htargetNode] at hinput
      obtain ⟨input, hinputAt, hinputSpec⟩ := Option.map_eq_some_iff.1 hinput
      have htype : output.type = made.name := congrArg OutputSpec.type hspec
      have hlinkType : input.linkType = (setting.schema.inputOf cls field).linkType :=
        congrArg InputSpec.linkType hinputSpec
      have hname : input.name = field.name := congrArg InputSpec.name hinputSpec
      refine ⟨targetNode.title, ?_⟩
      rw [Progress.link, Graph.connect, horiginNode, htargetNode]
      simp only [houtputAt, hinputAt, htype, hlinkType, hname, hfits]
      rfl

end

/-! ## Progress after the first pass -/

/--
How far an import into a graph has come once its groups are made: it is counted, and the
nodes of the groups have the templates of their classes.
-/
structure Underway (setting : Setting) (groups : List Group) (g : Graph) (p : Progress) :
    Prop where
  counted : Counted g p
  stocked : ∀ group ∈ groups, ∃ cls ∈ setting.schema.classes, cls.name = group.className ∧
    ∀ id ∈ group.nodes.map Prod.fst, IsOf setting.schema p.graph id cls

theorem Underway.steps (h : Underway setting groups g p) (hsteps : Steps setting p p')
    (hreach : Reaches g p') : Underway setting groups g p' where
  counted := h.counted.steps hsteps hreach.1 hreach.2
  stocked := by
    intro group hgroup
    obtain ⟨cls, hcls, hname, hnodes⟩ := h.stocked group hgroup
    exact ⟨cls, hcls, hname, fun id hid => (hnodes id hid).steps hsteps⟩

theorem Underway.isOf_addNode (h : Underway setting groups g p) {cls : SchemaClass}
    {template : NodeTemplate} {x y : Float}
    (hfind : setting.registry.find? setting.schema.name cls.name = some template)
    (htemplate : setting.schema.IsTemplate cls template)
    (hreach : Reaches g { p with graph := (p.graph.addNode template x y).2 }) :
    IsOf setting.schema (p.graph.addNode template x y).2 (p.graph.addNode template x y).1 cls := by
  have hmade := h.counted.steps (.single (Step.create p cls.name template x y hfind))
    hreach.1 hreach.2
  refine .of_mem_shapes hmade.wellFormed ?_ htemplate
  rw [Graph.shapes_addNode]
  exact List.mem_append_right _ (List.mem_singleton_self _)

def afterGroups (setting : Setting) (g : Graph) (document : List (String × Json)) : Progress :=
  (createGroups setting setting.layout.columnStartX document (Progress.start g)).2.2

theorem steps_afterGroups (setting : Setting) (g : Graph) (document : List (String × Json)) :
    Steps setting (Progress.start g) (afterGroups setting g document) :=
  steps_createGroups _ document _

/-- The first pass of an import makes its groups out of nodes of their classes. -/
theorem underway_afterGroups (haccepted : setting.schema.Accepted)
    (hserves : setting.registry.Serves setting.schema) (hg : g.WellFormed)
    (hreach : Reaches g (afterGroups setting g document)) :
    Underway setting (madeGroups setting g document) g (afterGroups setting g document) := by
  have hcounted := (Counted.start hg).steps (steps_afterGroups setting g document)
    hreach.1 hreach.2
  obtain ⟨hplan, hshapes⟩ := plan_madeGroups haccepted hserves g document
  refine ⟨hcounted, fun group hgroup => ?_⟩
  obtain ⟨cls, template, hcls, hname, -, hfind, htemplate⟩ :=
    class_of_plan haccepted hserves hplan hgroup
  refine ⟨cls, hcls, hname, fun id hid => ?_⟩
  obtain ⟨node, hnode, rfl⟩ := List.mem_map.1 hid
  refine .of_mem_shapes hcounted.wellFormed ?_ htemplate
  rw [afterGroups, hshapes]
  exact List.mem_append_right _ (List.mem_flatMap.2 ⟨group, hgroup, mem_shapes hfind hnode⟩)

end Import

end SlotGraph
