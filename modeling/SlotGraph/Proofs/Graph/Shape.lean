import SlotGraph.Graph.Edit

/-!
# The shape of a node

What an edit of a node never changes: its number and all that its template fixed.
The shape of a node is the template that it shows; a fresh node shows the template
that it was made from.
-/

namespace SlotGraph

namespace Feed

def intake : Feed → Intake
  | .single _ native => .single (native.map NativeCell.kind)
  | .many keyed _ => .many keyed

@[simp] theorem intake_attach (id : LinkId) (feed : Feed) :
    (feed.attach id).intake = feed.intake := by
  cases feed <;> rfl

@[simp] theorem intake_detach (id : LinkId) (feed : Feed) :
    (feed.detach id).intake = feed.intake := by
  cases feed <;> rfl

@[simp] theorem intake_setNative (value : Json) (feed : Feed) :
    (feed.setNative value).intake = feed.intake := by
  cases feed with
  | many keyed links =>
      rfl
  | single held native =>
      cases native <;> rfl

@[simp] theorem intake_unlinked (feed : Feed) : feed.unlinked.intake = feed.intake := by
  cases feed <;> rfl

@[simp] theorem intake_ofIntake (intake : Intake) : (ofIntake intake).intake = intake := by
  cases intake with
  | many keyed =>
      rfl
  | single native =>
      cases native <;> rfl

theorem collects_eq_of_intake {a b : Feed} (h : a.intake = b.intake) :
    a.collects = b.collects := by
  cases a <;> cases b <;> simp_all [intake, collects]

end Feed

namespace InputSlot

def spec (slot : InputSlot) : InputSpec :=
  { name := slot.name
    type := slot.type
    linkType := slot.linkType
    optional := slot.optional
    intake := slot.feed.intake }

@[simp] theorem spec_ofSpec (spec : InputSpec) : (ofSpec spec).spec = spec := by
  simp [ofSpec, InputSlot.spec]

end InputSlot

namespace OutputSlot

def spec (slot : OutputSlot) : OutputSpec :=
  ⟨slot.name, slot.type⟩

end OutputSlot

namespace Node

def shape (node : Node) : NodeTemplate :=
  { key := node.template
    schemaName := node.schemaName
    className := node.className
    isRoot := node.isRoot
    valueKind := node.cell.map NativeCell.kind
    outputs := node.outputs.map OutputSlot.spec
    inputs := node.inputs.map InputSlot.spec
    width := node.width
    height := node.height }

@[simp] theorem shape_ofTemplate (template : NodeTemplate) (id : NodeId) :
    (ofTemplate template id).shape = template := by
  cases template with
  | mk key schemaName className isRoot valueKind outputs inputs width height =>
      cases valueKind <;> simp [ofTemplate, shape, OutputSlot.spec, Function.comp_def]

theorem names_shape (node : Node) :
    node.shape.inputs.map InputSpec.name = node.inputs.map InputSlot.name := by
  rw [shape, List.map_map]
  rfl

theorem modify_map_eq {α β : Type} (change : α → α) (view : α → β)
    (hkeep : ∀ x, view (change x) = view x) (xs : List α) (i : Nat) :
    (xs.modify i change).map view = xs.map view := by
  apply List.ext_getElem?
  intro j
  rw [List.getElem?_map, List.getElem?_modify, List.getElem?_map]
  split <;> simp [Function.comp_def, hkeep]

@[simp] theorem shape_modifyFeed {change : Feed → Feed}
    (hkeep : ∀ feed, (change feed).intake = feed.intake) (node : Node) (slot : Nat) :
    (node.modifyFeed slot change).shape = node.shape := by
  have hinputs := modify_map_eq
    (fun input => { input with feed := change input.feed }) InputSlot.spec
    (fun input => by simp [InputSlot.spec, hkeep]) node.inputs slot
  simp [modifyFeed, shape, hinputs]

@[simp] theorem shape_modifyOutput (node : Node) (slot : Nat)
    (change : List LinkId → List LinkId) :
    (node.modifyOutput slot change).shape = node.shape := by
  have houtputs := modify_map_eq
    (fun output => { output with links := change output.links }) OutputSlot.spec
    (fun output => rfl) node.outputs slot
  simp [modifyOutput, shape, houtputs]

@[simp] theorem shape_remember (node : Node) (value : NodeValue) :
    (node.remember value).shape = node.shape := by
  have houtputs := modify_map_eq
    (fun output => { output with cached := some value }) OutputSlot.spec
    (fun output => rfl) node.outputs 0
  simp [remember, shape, houtputs]

@[simp] theorem shape_unlinked (node : Node) : node.unlinked.shape = node.shape := by
  simp [unlinked, shape, InputSlot.spec, OutputSlot.spec, Function.comp_def]

end Node

namespace Graph

/-- The nodes of a graph by number and shape. -/
def shapes (g : Graph) : List (NodeId × NodeTemplate) :=
  g.nodes.map fun node => (node.id, node.shape)

theorem shapes_modifyNode {g : Graph} {id : NodeId} {change : Node → Node}
    (hid : ∀ node, (change node).id = node.id)
    (hshape : ∀ node, (change node).shape = node.shape) :
    (g.modifyNode id change).shapes = g.shapes := by
  simp only [shapes, modifyNode, List.map_map]
  apply List.map_congr_left
  intro node _
  simp only [Function.comp]
  split <;> simp [hid, hshape]

theorem shapes_modifyFeed {change : Feed → Feed}
    (hkeep : ∀ feed, (change feed).intake = feed.intake) (g : Graph) (id : NodeId)
    (slot : Nat) :
    (g.modifyNode id fun node => node.modifyFeed slot change).shapes = g.shapes :=
  shapes_modifyNode (fun _ => rfl) fun node => Node.shape_modifyFeed hkeep node slot

theorem shapes_modifyOutput (g : Graph) (id : NodeId) (slot : Nat)
    (change : List LinkId → List LinkId) :
    (g.modifyNode id fun node => node.modifyOutput slot change).shapes = g.shapes :=
  shapes_modifyNode (fun _ => rfl) fun node => node.shape_modifyOutput slot change

@[simp] theorem shapes_attach (g : Graph) (link : Link) :
    (g.attach link).shapes = g.shapes :=
  (shapes_modifyFeed (Feed.intake_attach link.id) _ _ _).trans (shapes_modifyOutput _ _ _ _)

@[simp] theorem shapes_detach (g : Graph) (link : Link) :
    (g.detach link).shapes = g.shapes :=
  (shapes_modifyFeed (Feed.intake_detach link.id) _ _ _).trans (shapes_modifyOutput _ _ _ _)

@[simp] theorem shapes_dropLink (g : Graph) (id : LinkId) :
    (g.dropLink id).shapes = g.shapes := by
  unfold dropLink
  split <;> simp

@[simp] theorem shapes_dropLinks (g : Graph) (ids : List LinkId) :
    (g.dropLinks ids).shapes = g.shapes := by
  induction ids generalizing g with
  | nil =>
      rfl
  | cons id rest ih =>
      exact (ih (g.dropLink id)).trans (g.shapes_dropLink id)

theorem map_fst_shapes (g : Graph) : g.shapes.map Prod.fst = g.nodes.map Node.id := by
  rw [shapes, List.map_map]
  rfl

/-- Taking out the first node of a number takes out the only one. -/
theorem eraseP_eq_filter {nodes : List Node} (h : (nodes.map Node.id).Nodup) (id : NodeId) :
    nodes.eraseP (fun node => node.id == id) = nodes.filter fun node => node.id != id := by
  induction nodes with
  | nil =>
      rfl
  | cons first rest ih =>
      obtain ⟨hfirst, hrest⟩ := List.nodup_cons.1 h
      by_cases hid : first.id = id
      · have hothers : ∀ node ∈ rest, node.id ≠ id := fun node hnode heq =>
          hfirst (hid.trans heq.symm ▸ List.mem_map_of_mem hnode)
        have hkept : rest.filter (fun node => node.id != id) = rest :=
          List.filter_eq_self.2 fun node hnode => bne_iff_ne.2 (hothers node hnode)
        simp [hid, hkept]
      · simp [hid, ih hrest]

/-- Without a node its shape alone is missing. -/
theorem shapes_removeNode {g : Graph} (h : (g.nodes.map Node.id).Nodup) (id : NodeId) :
    ((g.removeNode? id).getD g).shapes = g.shapes.filter fun pair => pair.1 != id := by
  rw [removeNode?]
  split
  · next hmissing =>
      rw [Option.getD_none, eq_comm, List.filter_eq_self]
      intro pair hpair
      obtain ⟨node, hnode, rfl⟩ := List.mem_map.1 hpair
      simpa using List.find?_eq_none.1 (Option.isNone_iff_eq_none.1 hmissing) node hnode
  · have hsame := shapes_dropLinks g (g.linksOf id)
    rw [← map_fst_shapes, ← hsame, map_fst_shapes] at h
    rw [Option.getD_some, ← hsame, shapes, shapes, List.filter_map, eraseP_eq_filter h]
    rfl

theorem exists_of_shapes_eq {g g' : Graph} (h : g'.shapes = g.shapes) {node : Node}
    (hnode : node ∈ g'.nodes) :
    ∃ old ∈ g.nodes, old.id = node.id ∧ old.shape = node.shape := by
  have hmem : (node.id, node.shape) ∈ g.shapes := h ▸ List.mem_map_of_mem hnode
  obtain ⟨old, hold, heq⟩ := List.mem_map.1 hmem
  exact ⟨old, hold, congrArg Prod.fst heq, congrArg Prod.snd heq⟩

end Graph

end SlotGraph
