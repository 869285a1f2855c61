import SlotGraph.Config.Build
import SlotGraph.Proofs.Graph.Linking
import SlotGraph.Proofs.Schema.Templates

/-!
# Groups by shape

Which nodes a group has follows from the shapes of the nodes alone.  The index under
which links to a node are written is its position in its group.
-/

namespace SlotGraph

namespace NodeTemplate

/-- Whether nodes of this template stand in the group of a class. -/
def joins (schema : Schema) (className : String) (template : NodeTemplate) : Bool :=
  template.valueKind.isNone && template.schemaName == schema.name && !template.isRoot &&
    template.className == className

/-- Whether nodes of this template are roots of a schema. -/
def leads (schema : Schema) (template : NodeTemplate) : Bool :=
  template.valueKind.isNone && template.schemaName == schema.name && template.isRoot

end NodeTemplate

theorem Schema.IsTemplate.joins_eq {schema : Schema} {cls : SchemaClass}
    {template : NodeTemplate} (h : schema.IsTemplate cls template) (className : String) :
    template.joins schema className = (!schema.isRoot cls && cls.name == className) := by
  obtain ⟨schemaId, classId, rfl⟩ := h
  simp [NodeTemplate.joins, NodeTemplate.ofClass, Schema.isRoot]

theorem Schema.IsTemplate.leads_eq {schema : Schema} {cls : SchemaClass}
    {template : NodeTemplate} (h : schema.IsTemplate cls template) :
    template.leads schema = schema.isRoot cls := by
  obtain ⟨schemaId, classId, rfl⟩ := h
  simp [NodeTemplate.leads, NodeTemplate.ofClass, Schema.isRoot]

namespace Graph

variable {g : Graph} {schema : Schema} {className : String}

theorem group_eq (g : Graph) (schema : Schema) (className : String) :
    g.group schema className =
      g.nodes.filter fun node => node.shape.joins schema className := by
  rw [group, groupedNodes, List.filter_filter]
  refine List.filter_congr fun node _ => ?_
  rw [Bool.and_comm]
  simp [belongsTo, NodeTemplate.joins, Node.shape, Node.isValueNode]

theorem mem_group {node : Node} :
    node ∈ g.group schema className ↔
      node ∈ g.nodes ∧ node.shape.joins schema className = true := by
  rw [group_eq, List.mem_filter]

theorem ids_group (g : Graph) (schema : Schema) (className : String) :
    (g.group schema className).map Node.id =
      (g.shapes.filter fun entry => entry.2.joins schema className).map Prod.fst := by
  rw [group_eq, shapes, List.filter_map, List.map_map]
  rfl

theorem mem_groupedNodes {node : Node} :
    node ∈ g.groupedNodes schema ↔ node ∈ g.group schema node.className := by
  simp [group]

theorem shapes_rootNodes (g : Graph) (schema : Schema) :
    ((g.rootNodes schema).map fun node => (node.id, node.shape)) =
      g.shapes.filter fun entry => entry.2.leads schema := by
  rw [shapes, List.filter_map, rootNodes]
  refine congrArg _ (List.filter_congr fun node _ => ?_)
  simp [belongsTo, NodeTemplate.leads, Node.shape, Node.isValueNode]

theorem rootNodes_eq_nil_of_leads (h : ∀ node ∈ g.nodes, node.shape.leads schema = false) :
    g.rootNodes schema = [] := by
  have hshapes := shapes_rootNodes g schema
  rw [List.filter_eq_nil_iff.2] at hshapes
  · exact List.map_eq_nil_iff.1 hshapes
  · intro entry hentry
    obtain ⟨node, hnode, rfl⟩ := List.mem_map.1 hentry
    rw [h node hnode]
    exact Bool.false_ne_true

theorem WellFormed.admits_eq (h : g.WellFormed) {node : Node} (hnode : node ∈ g.nodes)
    {cls : SchemaClass} (hclass : schema.IsTemplate cls node.shape) {id : NodeId} {slot : Nat}
    {input : InputSpec} (hinput : (g.shape? id).bind (·.inputs[slot]?) = some input) :
    g.admits node.id id slot = TypeExpr.textFits cls.name input.linkType := by
  rw [admits, h.shape?_eq hnode, hinput, Option.bind_some, hclass.outputs]
  rfl

theorem int64?_index (hcount : (g.nodes.length : Int) ≤ lastId) {index : Nat} {node : Node}
    (hnode : (g.group schema className)[index]? = some node) :
    (Json.int index).int64? = some (index : Int) := by
  have hlt := (List.getElem?_eq_some_iff.1 hnode).1
  have hle : (g.group schema className).length ≤ g.nodes.length := by
    rw [group_eq]
    exact List.length_filter_le _ _
  unfold lastId at hcount
  rw [Json.int64?, Json.integer?, Option.map_some, Int.bmod_eq_of_le] <;> omega

theorem WellFormed.groupIndex?_eq (h : g.WellFormed) {index : Nat} {node : Node}
    (hnode : (g.group schema className)[index]? = some node) :
    g.groupIndex? schema node.id = some index := by
  have hmem := List.mem_of_getElem? hnode
  obtain ⟨hgrouped, hclass⟩ := List.mem_filter.1 hmem
  rw [beq_iff_eq] at hclass
  have hfind : (g.groupedNodes schema).find? (fun other => other.id == node.id) =
      some node := by
    have hsome : ((g.groupedNodes schema).find? fun other => other.id == node.id).isSome := by
      rw [List.find?_isSome]
      exact ⟨node, hgrouped, by simp⟩
    obtain ⟨found, hfound⟩ := Option.isSome_iff_exists.1 hsome
    have hid : found.id = node.id := by
      simpa using List.find?_some hfound
    have hsame := h.node_unique (List.mem_of_mem_filter (List.mem_of_find?_eq_some hfound))
      (List.mem_of_mem_filter hgrouped) hid
    rw [hfound, hsame]
  have hdistinct : ((g.group schema className).map Node.id).Nodup := by
    rw [group_eq]
    exact h.nodes_distinct.sublist (List.filter_sublist.map _)
  rw [groupIndex?, hfind, Option.bind_some, hclass]
  obtain ⟨hlt, hget⟩ := List.getElem?_eq_some_iff.1 hnode
  rw [List.findIdx?_eq_some_iff_getElem]
  refine ⟨hlt, by rw [hget]; simp, fun other hother => ?_⟩
  have hne := List.pairwise_iff_getElem.1 hdistinct other index
    (by rw [List.length_map]; omega) (by rw [List.length_map]; exact hlt) hother
  simpa [hget] using hne

end Graph

namespace Build

variable {g : Graph} {schema : Schema}

/-- A link from a grouped node is written as its position in its group. -/
theorem resolve_eq (h : g.WellFormed) {className : String} {index : Nat} {node : Node}
    (hnode : (g.group schema className)[index]? = some node) :
    resolve g schema node.id = .int index := by
  rw [resolve, h.groupIndex?_eq hnode]

end Build

end SlotGraph
