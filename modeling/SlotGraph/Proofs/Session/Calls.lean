import SlotGraph.Proofs.Graph.Templates
import SlotGraph.Session

/-!
# What a host does to a session

A host calls the session or edits its graph.  A call changes the graph by a list of
edits, so what edits keep is kept by calls.
-/

namespace SlotGraph

inductive Call where
  | register (name source indexType rootType : String)
  | removeSchema (name : String)
  | createNode (schemaName className : String) (x y : Float)
  | removeNode (id : NodeId)
  | connect (origin : NodeId) (originSlot : Nat) (target : NodeId) (targetSlot : Nat)
  | removeLink (id : LinkId)
  | buildConfig (name : String)
  | importConfig (document : Json) (name : String) (replace : Bool)
  | loadGraph (document : Json)
  | clearIssues
  | setLayout (layout : ImportLayout)
  /-- An edit of the graph itself. -/
  | editGraph (change : Edit)

namespace Call

def apply (s : Session) : Call → Session
  | .register name source indexType rootType => (s.register name source indexType rootType).2
  | .removeSchema name => (s.removeSchema name).2
  | .createNode schemaName className x y => (s.createNode schemaName className x y).2
  | .removeNode id => (s.removeNode id).2
  | .connect origin originSlot target targetSlot =>
      (s.connect origin originSlot target targetSlot).2
  | .removeLink id => (s.removeLink id).2
  | .buildConfig name => (s.buildConfig name).2
  | .importConfig document name replace => (s.importConfig document name replace).2
  | .loadGraph document => (s.loadGraph document).2
  | .clearIssues => s.clearIssues
  | .setLayout layout => { s with layout := layout }
  | .editGraph change => { s with graph := change.apply s.graph }

def edits (s : Session) : Call → List Edit
  | .removeSchema name =>
      if (s.findSchema? name).isSome then
        (s.graph.nodes.filter fun node => node.schemaName == name).map fun node =>
          .removeNode node.id
      else
        []
  | .createNode schemaName className x y =>
      (s.registry.find? schemaName className).toList.map fun template => .addNode template x y
  | .removeNode id => [.removeNode id]
  | .connect origin originSlot target targetSlot =>
      [.connect origin originSlot target targetSlot]
  | .removeLink id => [.removeLink id]
  | .buildConfig name => (s.findSchema? name).toList.map Edit.build
  | .importConfig document name replace =>
      match s.importSchema? name, document with
      | some schema, .obj members =>
          (if replace then [.clear] else []) ++
            [.importConfig ⟨schema, s.registry, s.layout⟩ (.obj members)]
      | _, _ => []
  | .loadGraph document => [.load s.registry document]
  | .editGraph change => [change]
  | .register .. | .clearIssues | .setLayout _ => []

/--
What a host keeps to: a source is a text that memory holds, and an edit of the graph
makes nodes from the templates of the session and is handed signed 64-bit numbers.
-/
def Permitted (s : Session) : Call → Prop
  | .register _ source _ _ => source.length < 2 ^ 64
  | .editGraph change => change.Uses s.registry ∧ change.Signed
  | _ => True

/-- Whether a call may change which schemas are registered. -/
def registers : Call → Bool
  | .register .. | .removeSchema _ => true
  | _ => false

end Call

namespace Session

variable {s : Session}

/-! ## The graph of a session -/

theorem withoutNodes_eq (g : Graph) (ids : List NodeId) :
    withoutNodes g ids = Edit.run g (ids.map Edit.removeNode) := by
  rw [withoutNodes, Edit.run, List.foldl_map]
  rfl

theorem shapes_withoutNodes {g : Graph} (h : (g.nodes.map Node.id).Nodup)
    (ids : List NodeId) :
    (withoutNodes g ids).shapes = g.shapes.filter fun pair => !ids.contains pair.1 := by
  induction ids generalizing g with
  | nil =>
      simp [withoutNodes]
  | cons id rest ih =>
      have hone := Graph.shapes_removeNode h id
      have hleft : (((g.removeNode? id).getD g).nodes.map Node.id).Nodup := by
        rw [← Graph.map_fst_shapes, hone]
        exact (Graph.map_fst_shapes g ▸ h).sublist (List.filter_sublist.map _)
      have hrest := ih hleft
      rw [hone, List.filter_filter] at hrest
      refine hrest.trans (List.filter_congr fun pair _ => ?_)
      rw [List.contains_cons, Bool.not_or, Bool.and_comm]
      rfl

/-- After a schema's nodes are removed, the nodes left are old ones of other schemas. -/
theorem mem_withoutNodes {g : Graph} (hdistinct : (g.nodes.map Node.id).Nodup)
    {name : String} {node : Node} (h : node ∈ (withoutNodes g
      ((g.nodes.filter fun node => node.schemaName == name).map Node.id)).nodes) :
    node.schemaName ≠ name := by
  have hshape := List.mem_map_of_mem (f := fun node : Node => (node.id, node.shape)) h
  change _ ∈ Graph.shapes _ at hshape
  rw [shapes_withoutNodes hdistinct] at hshape
  obtain ⟨hmem, hkept⟩ := List.mem_filter.1 hshape
  obtain ⟨old, hold, heq⟩ := List.mem_map.1 hmem
  obtain ⟨hid, hsame⟩ := Prod.mk.inj heq
  rintro rfl
  have hdoomed : node.id ∈
      (g.nodes.filter fun other => other.schemaName == node.schemaName).map Node.id := by
    rw [← hid]
    refine List.mem_map_of_mem (List.mem_filter.2 ⟨hold, ?_⟩)
    exact beq_of_eq (congrArg NodeTemplate.schemaName hsame)
  simp [hdoomed] at hkept

theorem findSchema?_isSome {name : String} :
    (s.findSchema? name).isSome =
      (s.schemas.find? fun registered => registered.schema.name == name).isSome := by
  rw [findSchema?, Option.isSome_map]

theorem graph_apply (s : Session) (call : Call) :
    (call.apply s).graph = Edit.run s.graph (call.edits s) := by
  cases call with
  | register name source indexType rootType =>
      rw [Call.apply, register]
      split <;> rfl
  | removeSchema name =>
      rw [Call.apply, Call.edits, removeSchema, findSchema?_isSome]
      split
      · next registered hfind =>
          rw [hfind, Option.isSome_some, if_pos rfl]
          simp only [withoutNodes_eq, List.map_map]
          rfl
      · next hfind =>
          rw [hfind, Option.isSome_none]
          rfl
  | createNode schemaName className x y =>
      rw [Call.apply, Call.edits, createNode]
      cases s.registry.find? schemaName className <;> rfl
  | removeNode id =>
      show (s.change (s.graph.removeNode? id)).2.graph = (s.graph.removeNode? id).getD s.graph
      cases s.graph.removeNode? id <;> rfl
  | connect origin originSlot target targetSlot =>
      show (s.connect origin originSlot target targetSlot).2.graph =
        Edit.apply s.graph (.connect origin originSlot target targetSlot)
      rw [connect, Edit.apply]
      cases s.graph.connect origin originSlot target targetSlot <;> rfl
  | removeLink id =>
      show (s.change (s.graph.removeLink? id)).2.graph = (s.graph.removeLink? id).getD s.graph
      cases s.graph.removeLink? id <;> rfl
  | buildConfig name =>
      rw [Call.apply, Call.edits, buildConfig]
      cases s.findSchema? name <;> rfl
  | importConfig document name replace =>
      unfold Call.apply Call.edits importConfig
      dsimp only
      cases s.importSchema? name with
      | none =>
          rfl
      | some schema =>
          cases document with
          | obj members =>
              cases replace <;> rfl
          | _ =>
              rfl
  | loadGraph document =>
      show (s.loadGraph document).2.graph = Edit.apply s.graph (.load s.registry document)
      rw [loadGraph, Edit.apply]
      cases Graph.load? s.registry s.graph document <;> rfl
  | clearIssues =>
      rfl
  | setLayout layout =>
      rfl
  | editGraph change =>
      rfl

theorem uses_edits {call : Call} (h : call.Permitted s) :
    ∀ edit ∈ call.edits s, edit.Uses s.registry ∧ edit.Signed := by
  intro edit hedit
  cases call with
  | removeSchema name =>
      rw [Call.edits] at hedit
      split at hedit
      · obtain ⟨node, -, rfl⟩ := List.mem_map.1 hedit
        exact ⟨trivial, trivial⟩
      · simp at hedit
  | createNode schemaName className x y =>
      obtain ⟨template, htemplate, rfl⟩ := List.mem_map.1 hedit
      exact ⟨List.mem_of_find?_eq_some (Option.mem_toList.1 htemplate), trivial⟩
  | buildConfig name =>
      obtain ⟨schema, -, rfl⟩ := List.mem_map.1 hedit
      exact ⟨trivial, trivial⟩
  | importConfig document name replace =>
      unfold Call.edits at hedit
      dsimp only at hedit
      split at hedit
      · rcases List.mem_append.1 hedit with hclear | himport
        · split at hclear
          · rw [List.mem_singleton.1 hclear]
            exact ⟨trivial, trivial⟩
          · simp at hclear
        · rw [List.mem_singleton.1 himport]
          exact ⟨rfl, trivial⟩
      · simp at hedit
  | loadGraph document =>
      rw [List.mem_singleton.1 hedit]
      exact ⟨rfl, trivial⟩
  | editGraph change =>
      rw [List.mem_singleton.1 hedit]
      exact h
  | removeNode | connect | removeLink =>
      rw [List.mem_singleton.1 hedit]
      exact ⟨trivial, trivial⟩
  | register | clearIssues | setLayout =>
      exact absurd hedit List.not_mem_nil

theorem catalogue_apply (s : Session) (call : Call) (h : call.registers = false) :
    (call.apply s).schemas = s.schemas ∧ (call.apply s).nextSchemaId = s.nextSchemaId ∧
      (call.apply s).registry = s.registry := by
  have hchange : ∀ result, (s.change result).2.schemas = s.schemas ∧
      (s.change result).2.nextSchemaId = s.nextSchemaId ∧
      (s.change result).2.registry = s.registry := by
    intro result
    cases result <;> exact ⟨rfl, rfl, rfl⟩
  cases call with
  | register | removeSchema =>
      simp [Call.registers] at h
  | createNode schemaName className x y =>
      rw [Call.apply, createNode]
      split <;> exact ⟨rfl, rfl, rfl⟩
  | removeNode id =>
      exact hchange (s.graph.removeNode? id)
  | connect origin originSlot target targetSlot =>
      rw [Call.apply, Session.connect]
      split <;> exact ⟨rfl, rfl, rfl⟩
  | removeLink id =>
      exact hchange (s.graph.removeLink? id)
  | buildConfig name =>
      rw [Call.apply, buildConfig]
      split <;> exact ⟨rfl, rfl, rfl⟩
  | importConfig document name replace =>
      unfold Call.apply importConfig
      dsimp only
      split <;> exact ⟨rfl, rfl, rfl⟩
  | loadGraph document =>
      rw [Call.apply, Session.loadGraph]
      split <;> exact ⟨rfl, rfl, rfl⟩
  | clearIssues | setLayout layout | editGraph change =>
      exact ⟨rfl, rfl, rfl⟩

end Session

end SlotGraph
