import SlotGraph.Proofs.Config.Order
import SlotGraph.Proofs.Session.Reload

/-!
# Reading a graph

Evaluating a node and building a document read a graph: all that they leave in it are the
results on the first output slots of the nodes that were evaluated.  No evaluation looks at
a result that was kept, so whatever is read first, a build gives the same document and
reports the same.
-/

namespace SlotGraph

namespace Node

theorem remember_remember (node : Node) (first second : NodeValue) :
    (node.remember first).remember second = node.remember second := by
  rw [remember, remember, remember, List.modify_modify_eq]
  rfl

@[simp] theorem inward_remember (node : Node) (value : NodeValue) :
    (node.remember value).inward = node.inward :=
  rfl

end Node

namespace Graph

variable {g g' : Graph}

/-- A node with its result kept on it, if it is one of some nodes. -/
def kept (g : Graph) (ids : List NodeId) (node : Node) : Node :=
  if node.id ∈ ids then (g.value? node.id).elim node node.remember else node

/-- The graph with the results of some of its nodes kept on them. -/
def keeping (g : Graph) (ids : List NodeId) : Graph :=
  { g with nodes := g.nodes.map (g.kept ids) }

theorem value?_inward (g : Graph) (id : NodeId) : g.inward.value? id = g.value? id := by
  rw [value?, value?, Build.findNode?_inward, Option.map_map]
  rfl

theorem value?_congr (h : g'.inward = g.inward) (id : NodeId) : g'.value? id = g.value? id := by
  rw [← value?_inward, h, value?_inward]

theorem kept_of_mem {ids : List NodeId} {node : Node} (h : node.id ∈ ids) :
    g.kept ids node = (g.value? node.id).elim node node.remember :=
  if_pos h

theorem kept_of_not_mem {ids : List NodeId} {node : Node} (h : node.id ∉ ids) :
    g.kept ids node = node :=
  if_neg h

@[simp] theorem id_kept (g : Graph) (ids : List NodeId) (node : Node) :
    (g.kept ids node).id = node.id := by
  rw [kept]
  split
  · cases g.value? node.id <;> rfl
  · rfl

@[simp] theorem inward_kept (g : Graph) (ids : List NodeId) (node : Node) :
    (g.kept ids node).inward = node.inward := by
  rw [kept]
  split
  · cases g.value? node.id <;> rfl
  · rfl

@[simp] theorem inward_keeping (g : Graph) (ids : List NodeId) :
    (g.keeping ids).inward = g.inward := by
  simp [inward, keeping, Function.comp_def]

theorem keeping_nil (g : Graph) : g.keeping [] = g := by
  rw [keeping, List.map_congr_left fun node _ => kept_of_not_mem List.not_mem_nil, List.map_id']

/-- What is kept depends on which nodes were evaluated, not on when or how often. -/
theorem keeping_congr {ids ids' : List NodeId} (h : ∀ id, id ∈ ids ↔ id ∈ ids') :
    g.keeping ids = g.keeping ids' := by
  have hkept : g.kept ids = g.kept ids' := by
    funext node
    simp only [kept, h]
  rw [keeping, keeping, hkept]

theorem remember_kept {ids : List NodeId} {node : Node} {value : NodeValue}
    (h : g.value? node.id = some value) :
    (g.kept ids node).remember value = g.kept (ids ++ [node.id]) node := by
  rw [kept_of_mem (List.mem_append_right ids (List.mem_singleton.2 rfl)), h, Option.elim_some]
  by_cases hold : node.id ∈ ids
  · rw [kept_of_mem hold, h, Option.elim_some, Node.remember_remember]
  · rw [kept_of_not_mem hold]

theorem kept_append_of_ne {ids : List NodeId} {node : Node} {id : NodeId} (h : node.id ≠ id) :
    g.kept (ids ++ [id]) node = g.kept ids node := by
  simp [kept, h]

theorem remember_keeping (g : Graph) (ids : List NodeId) (id : NodeId) :
    (g.keeping ids).remember id = g.keeping (ids ++ [id]) := by
  rw [remember, value?_congr (inward_keeping g ids)]
  have hnodes : ∀ {nodes : List Node}, nodes = g.nodes.map (g.kept (ids ++ [id])) →
      { g with nodes := nodes } = g.keeping (ids ++ [id]) := by
    rintro _ rfl
    rfl
  cases hvalue : g.value? id with
  | none =>
      -- No node has the number, so there is none to keep a result on.
      have hother : ∀ node ∈ g.nodes, node.id ≠ id := by
        rintro node hnode rfl
        rw [value?, Option.map_eq_none_iff, findNode?, List.find?_eq_none] at hvalue
        exact hvalue node hnode (beq_self_eq_true node.id)
      exact hnodes (List.map_congr_left fun node hnode =>
        (kept_append_of_ne (hother node hnode)).symm)
  | some value =>
      refine hnodes ?_
      rw [keeping, List.map_map]
      refine List.map_congr_left fun node _ => ?_
      rw [Function.comp_apply, id_kept]
      split
      · next hid =>
          subst hid
          exact remember_kept hvalue
      · next hid =>
          exact (kept_append_of_ne hid).symm

/-- Evaluating some nodes in turn keeps their results on them. -/
theorem foldl_remember (g : Graph) (ids : List NodeId) :
    ids.foldl remember g = g.keeping ids := by
  have hfold : ∀ (rest old : List NodeId),
      rest.foldl remember (g.keeping old) = g.keeping (old ++ rest) := by
    intro rest
    induction rest with
    | nil =>
        intro old
        rw [List.foldl_nil, List.append_nil]
    | cons id rest ih =>
        intro old
        rw [List.foldl_cons, remember_keeping, ih, List.append_assoc, List.singleton_append]
  have hall := hfold ids []
  rwa [keeping_nil, List.nil_append] at hall

theorem inward_remember (g : Graph) (id : NodeId) : (g.remember id).inward = g.inward := by
  have hone := g.foldl_remember [id]
  rw [List.foldl_cons, List.foldl_nil] at hone
  rw [hone, inward_keeping]

end Graph

namespace Build

/-- A build keeps the results of the nodes that it evaluated, and changes nothing else. -/
theorem remembered_eq (build : Build) (g : Graph) :
    build.remembered g = g.keeping build.evaluated :=
  g.foldl_remember build.evaluated

theorem ofGraph_congr {g g' : Graph} (h : g'.inward = g.inward) (schema : Schema) :
    ofGraph g' schema = ofGraph g schema := by
  rw [← ofGraph_inward, h, ofGraph_inward]

end Build

/-! ## Readings -/

/-- What reads a graph: an evaluation of a node, or a build. -/
inductive Reading where
  | evaluate (id : NodeId)
  | build (schema : Schema)

namespace Reading

def apply (g : Graph) : Reading → Graph
  | .evaluate id => Edit.apply g (.evaluate id)
  | .build schema => Edit.apply g (.build schema)

def run (g : Graph) (readings : List Reading) : Graph :=
  readings.foldl apply g

theorem inward_apply (g : Graph) (reading : Reading) : (reading.apply g).inward = g.inward := by
  cases reading with
  | evaluate id =>
      exact g.inward_remember id
  | build schema =>
      show ((Build.ofGraph g schema).remembered g).inward = g.inward
      rw [Build.remembered_eq, Graph.inward_keeping]

theorem inward_run (g : Graph) (readings : List Reading) : (run g readings).inward = g.inward := by
  induction readings generalizing g with
  | nil =>
      rfl
  | cons reading rest ih =>
      exact (ih (reading.apply g)).trans (inward_apply g reading)

end Reading

end SlotGraph
