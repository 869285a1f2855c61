import SlotGraph.Proofs.Config.Places
import SlotGraph.Proofs.Config.Readings
import SlotGraph.Proofs.Config.TopLevel

/-!
# Builds carried out step by step

A build can be carried out on the graph itself: one node after the other is evaluated, its
result is kept on it before the next one has its turn, and a link from a value node is
written by evaluating that node in the middle of the writing.  What this comes to is the
build of the graph as it was.  A value node holds no links, so writing one never leads
further, whatever cycles the links of the graph run in.
-/

namespace SlotGraph

/-- A build that is being carried out. -/
structure Draft where
  graph : Graph
  issues : List Issue

namespace Draft

variable {α β : Type}

def report (d : Draft) (issue : Issue) : Draft :=
  { d with issues := d.issues ++ [issue] }

def evaluate (d : Draft) (id : NodeId) : Option NodeValue × Draft :=
  (d.graph.value? id, { d with graph := d.graph.remember id })

def each (step : α → Draft → β × Draft) : List α → Draft → List β × Draft
  | [], d => ([], d)
  | x :: xs, d =>
      let (y, d) := step x d
      let (ys, d) := each step xs d
      (y :: ys, d)

/-- How a link from a node is written. -/
abbrev Resolver :=
  NodeId → Draft → Json × Draft

mutual

def write (resolver : Resolver) : NodeValue → Draft → Json × Draft
  | .scalar value, d => (value, d)
  | .array items, d =>
      let (written, d) := writeItems resolver items d
      (.arr written, d)
  | .object members, d =>
      let (written, d) := writeMembers resolver members d
      (Json.ofMembers written, d)
  | .ref id, d => resolver id d
termination_by structural value => value

def writeItems (resolver : Resolver) : List NodeValue → Draft → List Json × Draft
  | [], d => ([], d)
  | item :: items, d =>
      let (first, d) := write resolver item d
      let (rest, d) := writeItems resolver items d
      (first :: rest, d)
termination_by structural items => items

def writeMembers (resolver : Resolver) :
    List (String × NodeValue) → Draft → List (String × Json) × Draft
  | [], d => ([], d)
  | (key, value) :: members, d =>
      let (first, d) := write resolver value d
      let (rest, d) := writeMembers resolver members d
      ((key, first) :: rest, d)
termination_by structural members => members

end

/-- How a link is written, and by `inner` the links that are met in a value node. -/
def resolverWith (g : Graph) (schema : Schema) (inner : Resolver) : Resolver := fun id d =>
  match g.groupIndex? schema id with
  | some index => (.int index, d)
  | none =>
      let unresolved := Issue.linkWithoutIndex id ((d.graph.findNode? id).map Node.title)
      if (d.graph.findNode? id).any Node.isValueNode then
        match d.evaluate id with
        | (some value, d) => write inner value d
        | (none, d) => (.null, d.report unresolved)
      else
        (.null, d.report unresolved)

/-- How a link is written if value nodes lead to value nodes at most so often. -/
def resolverAt (g : Graph) (schema : Schema) : Nat → Resolver
  | 0 => fun _ d => (.null, d)
  | depth + 1 => resolverWith g schema (resolverAt g schema depth)

/-- Write a member; text that spells out an array or object becomes one. -/
def writeMember (resolver : Resolver) (member : String × NodeValue) (d : Draft) :
    (String × Json) × Draft :=
  match member.2 with
  | .scalar (.str text) => ((member.1, (Build.spelledOut? text).getD (.str text)), d)
  | value =>
      let (written, d) := write resolver value d
      ((member.1, written), d)

/-- Evaluate a node and write those of its members that are wanted. -/
def writeNode (resolver : Resolver) (wanted : String × NodeValue → Bool) (id : NodeId)
    (d : Draft) : List (String × Json) × Draft :=
  match d.evaluate id with
  | (some value, d) => each (writeMember resolver) (value.members.filter wanted) d
  | (none, d) => ([], d)

def writeGroup (g : Graph) (schema : Schema) (resolver : Resolver) (className : String)
    (d : Draft) : (String × Json) × Draft :=
  let key := schema.keyOfClass className
  let (entries, d) :=
    each (fun node d => writeNode resolver (fun _ => true) node.id d) (g.group schema className) d
  ((key, Build.groupValue schema key (entries.map Json.ofMembers)), d)

/-- Write the members that the first root node adds. -/
def writeRoot (g : Graph) (schema : Schema) (resolver : Resolver) (d : Draft) :
    List (String × Json) × Draft :=
  match (g.rootNodes schema).head? with
  | some root => writeNode resolver (fun member => !schema.isGroupKey member.1) root.id d
  | none => ([], d)

/-- Build the document of a schema on a graph: the document, and what the graph has become. -/
def build (depth : Nat) (g : Graph) (schema : Schema) : Json × Draft :=
  let resolver := resolverAt g schema depth
  let (groups, d) := each (writeGroup g schema resolver) (g.groupOrder schema) ⟨g, []⟩
  let (rest, d) := writeRoot g schema resolver d
  (Json.ofMembers (groups ++ rest), d)

/-! ## What a step comes to -/

/--
What a step writes, which nodes it evaluates and what it reports, whatever was done before
it.
-/
def Writes (g : Graph) (step : Draft → β × Draft) (written : β) (evaluated : List NodeId)
    (issues : List Issue) : Prop :=
  ∀ ids old, step ⟨g.keeping ids, old⟩ =
    (written, ⟨g.keeping (ids ++ evaluated), old ++ issues⟩)

namespace Writes

variable {g : Graph}

theorem nothing (written : β) : Writes g (fun d => (written, d)) written [] [] := by
  intro ids old
  rw [List.append_nil, List.append_nil]

theorem map {step : Draft → α × Draft} {written : α} {evaluated : List NodeId}
    {issues : List Issue} (h : Writes g step written evaluated issues) (f : α → β) :
    Writes g (fun d => (f (step d).1, (step d).2)) (f written) evaluated issues := by
  intro ids old
  dsimp only
  rw [h ids old]

theorem andThen {γ : Type} {step : Draft → α × Draft} {next : Draft → β × Draft}
    {first : α} {second : β} {evaluated evaluated' : List NodeId} {issues issues' : List Issue}
    (hfirst : Writes g step first evaluated issues)
    (hsecond : Writes g next second evaluated' issues') (f : α → β → γ) :
    Writes g (fun d => (f (step d).1 (next (step d).2).1, (next (step d).2).2))
      (f first second) (evaluated ++ evaluated') (issues ++ issues') := by
  intro ids old
  dsimp only
  rw [hfirst ids old, hsecond, List.append_assoc, List.append_assoc]

/-- An evaluation comes to the value of the node, as it was at first. -/
theorem evaluating {id : NodeId} {value : NodeValue} (hvalue : g.value? id = some value)
    (step : NodeValue → Draft → β × Draft) (otherwise : Draft → β × Draft) {written : β}
    {evaluated : List NodeId} {issues : List Issue}
    (h : Writes g (step value) written evaluated issues) :
    Writes g
      (fun d => match d.evaluate id with
        | (some value, d) => step value d
        | (none, d) => otherwise d)
      written (id :: evaluated) issues := by
  intro ids old
  have hsame : (g.keeping ids).value? id = some value :=
    (Graph.value?_congr (Graph.inward_keeping g ids) id).trans hvalue
  simp only [evaluate, hsame, Graph.remember_keeping]
  rw [h, List.append_assoc, List.singleton_append]

theorem each {step : α → Draft → β × Draft} {written : α → β} {evaluated : α → List NodeId}
    {issues : α → List Issue} {xs : List α}
    (h : ∀ x ∈ xs, Writes g (step x) (written x) (evaluated x) (issues x)) :
    Writes g (Draft.each step xs) (xs.map written) (xs.flatMap evaluated)
      (xs.flatMap issues) := by
  induction xs with
  | nil =>
      exact nothing []
  | cons x rest ih =>
      exact (h x List.mem_cons_self).andThen
        (ih fun y hy => h y (List.mem_cons_of_mem x hy)) List.cons

end Writes

/-! ## Writing links -/

section

variable {g : Graph} {schema : Schema}

def evaluates (g : Graph) (schema : Schema) (id : NodeId) : Bool :=
  (g.groupIndex? schema id).isNone && (g.findNode? id).any Node.isValueNode

/-- Whether value nodes put out what JSON data can be: members are in order. -/
def Plain (g : Graph) : Prop :=
  ∀ node ∈ g.nodes, ∀ cell, node.cell = some cell →
    ∀ resolve, (NodeValue.ofJson cell.output).toJson resolve = cell.output

mutual

/-- Plain data holds no links, so nothing happens while it is written. -/
theorem write_ofJson (resolver : Resolver) (resolve : NodeId → Json) (d : Draft) :
    ∀ value : Json, write resolver (NodeValue.ofJson value) d =
      ((NodeValue.ofJson value).toJson resolve, d)
  | .arr items => by
      rw [NodeValue.ofJson, write, writeItems_ofItems resolver resolve d items, NodeValue.toJson]
  | .obj members => by
      rw [NodeValue.ofJson, write, writeMembers_ofMembers resolver resolve d members,
        NodeValue.toJson]
  | .null | .bool _ | .int _ | .minusZero | .float _ | .str _ => rfl

theorem writeItems_ofItems (resolver : Resolver) (resolve : NodeId → Json) (d : Draft) :
    ∀ items : List Json, writeItems resolver (NodeValue.ofItems items) d =
      (NodeValue.toItems resolve (NodeValue.ofItems items), d)
  | [] => rfl
  | item :: items => by
      rw [NodeValue.ofItems, writeItems, write_ofJson resolver resolve d item]
      dsimp only
      rw [writeItems_ofItems resolver resolve d items, NodeValue.toItems]

theorem writeMembers_ofMembers (resolver : Resolver) (resolve : NodeId → Json) (d : Draft) :
    ∀ members : List (String × Json), writeMembers resolver (NodeValue.ofMembers members) d =
      (NodeValue.toMembers resolve (NodeValue.ofMembers members), d)
  | [] => rfl
  | (key, value) :: members => by
      rw [NodeValue.ofMembers, writeMembers, write_ofJson resolver resolve d value]
      dsimp only
      rw [writeMembers_ofMembers resolver resolve d members, NodeValue.toMembers]

end

/-- Keeping results changes nothing that is looked up of a node, but its output slots. -/
theorem findNode?_keeping (ids : List NodeId) (id : NodeId) :
    ((g.keeping ids).findNode? id).map Node.inward = (g.findNode? id).map Node.inward := by
  rw [← Build.findNode?_inward, Graph.inward_keeping, Build.findNode?_inward]

theorem any_isValueNode_keeping (ids : List NodeId) (id : NodeId) :
    ((g.keeping ids).findNode? id).any Node.isValueNode =
      (g.findNode? id).any Node.isValueNode := by
  have hfind := congrArg (Option.any Node.isValueNode) (findNode?_keeping (g := g) ids id)
  rwa [Option.any_map, Option.any_map] at hfind

theorem title_keeping (ids : List NodeId) (id : NodeId) :
    ((g.keeping ids).findNode? id).map Node.title = (g.findNode? id).map Node.title := by
  have hfind := congrArg (Option.map Node.title) (findNode?_keeping (g := g) ids id)
  rwa [Option.map_map, Option.map_map] at hfind

theorem writes_resolverWith_of_index (inner : Resolver) {id : NodeId} {index : Nat}
    (hindex : g.groupIndex? schema id = some index) :
    Writes g (resolverWith g schema inner id) (Build.resolve g schema id)
      ([id].filter (evaluates g schema)) ([id].filterMap (Build.issueOf? g schema)) := by
  have hevaluates : evaluates g schema id = false := by
    rw [evaluates, hindex]
    rfl
  have hissue : Build.issueOf? g schema id = none := by
    rw [Build.issueOf?, hindex]
    rfl
  intro ids old
  simp [resolverWith, Build.resolve, hindex, hevaluates, hissue]

/-- A link from a value node makes it be evaluated; what is written then leads no further. -/
theorem writes_resolverWith_of_value (hplain : Plain g) (inner : Resolver) {id : NodeId}
    {node : Node} {cell : NativeCell} (hindex : g.groupIndex? schema id = none)
    (hfind : g.findNode? id = some node) (hcell : node.cell = some cell) :
    Writes g (resolverWith g schema inner id) (Build.resolve g schema id)
      ([id].filter (evaluates g schema)) ([id].filterMap (Build.issueOf? g schema)) := by
  have hany : (g.findNode? id).any Node.isValueNode = true := by
    rw [hfind, Option.any_some, Node.isValueNode, hcell]
    rfl
  have hevaluates : evaluates g schema id = true := by
    rw [evaluates, hindex, hany]
    rfl
  have hissue : Build.issueOf? g schema id = none := by
    rw [Build.issueOf?, hany, Bool.or_true, if_pos rfl]
  have hresolve : Build.resolve g schema id = cell.output := by
    rw [Build.resolve, hindex, hfind, Option.bind_some, hcell]
  have hvalue : g.value? id = some (NodeValue.ofJson cell.output) := by
    rw [Graph.value?, hfind, Option.map_some, Graph.nodeValue, hcell]
  have hwrite : Writes g (write inner (NodeValue.ofJson cell.output)) cell.output [] [] := by
    intro ids old
    rw [write_ofJson inner fun _ => .null,
      hplain node (List.mem_of_find?_eq_some hfind) cell hcell, List.append_nil,
      List.append_nil]
  intro ids old
  have hrun := Writes.evaluating hvalue (write inner)
    (fun d => (.null, d.report (.linkWithoutIndex id ((g.findNode? id).map Node.title))))
    hwrite ids old
  rw [resolverWith, hindex]
  dsimp only
  rw [any_isValueNode_keeping, if_pos hany, title_keeping, hresolve, List.filter_singleton,
    hevaluates, cond_true, List.filterMap_cons_none hissue, List.filterMap_nil]
  exact hrun

/-- Any other link is written as `null`, which is reported. -/
theorem writes_resolverWith_of_other (inner : Resolver) {id : NodeId}
    (hindex : g.groupIndex? schema id = none) (hcell : (g.findNode? id).bind Node.cell = none) :
    Writes g (resolverWith g schema inner id) (Build.resolve g schema id)
      ([id].filter (evaluates g schema)) ([id].filterMap (Build.issueOf? g schema)) := by
  have hany : (g.findNode? id).any Node.isValueNode = false := by
    cases hfind : g.findNode? id with
    | none =>
        rfl
    | some node =>
        rw [hfind, Option.bind_some] at hcell
        rw [Option.any_some, Node.isValueNode, hcell]
        rfl
  have hevaluates : evaluates g schema id = false := by
    rw [evaluates, hany, Bool.and_false]
  have hissue : Build.issueOf? g schema id =
      some (.linkWithoutIndex id ((g.findNode? id).map Node.title)) := by
    rw [Build.issueOf?, hindex, hany]
    rfl
  intro ids old
  simp [resolverWith, Build.resolve, hindex, any_isValueNode_keeping, hany,
    title_keeping, hcell, hevaluates, hissue, report]

/-- A link is written as it is resolved, and at most the node that it comes from is evaluated. -/
theorem writes_resolverWith (hplain : Plain g) (inner : Resolver) (id : NodeId) :
    Writes g (resolverWith g schema inner id) (Build.resolve g schema id)
      ([id].filter (evaluates g schema)) ([id].filterMap (Build.issueOf? g schema)) := by
  cases hindex : g.groupIndex? schema id with
  | some index =>
      exact writes_resolverWith_of_index inner hindex
  | none =>
      cases hcell : (g.findNode? id).bind Node.cell with
      | some cell =>
          obtain ⟨node, hfind, hcell⟩ := Option.bind_eq_some_iff.1 hcell
          exact writes_resolverWith_of_value hplain inner hindex hfind hcell
      | none =>
          exact writes_resolverWith_of_other inner hindex hcell

/-! ## Writing values and nodes -/

def Resolves (g : Graph) (schema : Schema) (resolver : Resolver) : Prop :=
  ∀ id, Writes g (resolver id) (Build.resolve g schema id) ([id].filter (evaluates g schema))
    ([id].filterMap (Build.issueOf? g schema))

variable {resolver : Resolver}

mutual

/-- A value is written with each reference resolved, and its references are met in order. -/
theorem writes_write (h : Resolves g schema resolver) : ∀ value : NodeValue,
    Writes g (write resolver value) (value.toJson (Build.resolve g schema))
      (value.refs.filter (evaluates g schema)) (value.refs.filterMap (Build.issueOf? g schema))
  | .scalar value => .nothing value
  | .array items => (writes_writeItems h items).map Json.arr
  | .object members => (writes_writeMembers h members).map Json.ofMembers
  | .ref id => h id

theorem writes_writeItems (h : Resolves g schema resolver) : ∀ items : List NodeValue,
    Writes g (writeItems resolver items) (NodeValue.toItems (Build.resolve g schema) items)
      ((NodeValue.refsOfItems items).filter (evaluates g schema))
      ((NodeValue.refsOfItems items).filterMap (Build.issueOf? g schema))
  | [] => .nothing []
  | item :: items => by
      rw [NodeValue.refsOfItems, List.filter_append, List.filterMap_append]
      exact (writes_write h item).andThen (writes_writeItems h items) List.cons

theorem writes_writeMembers (h : Resolves g schema resolver) :
    ∀ members : List (String × NodeValue),
      Writes g (writeMembers resolver members)
        (NodeValue.toMembers (Build.resolve g schema) members)
        ((NodeValue.refsOfMembers members).filter (evaluates g schema))
        ((NodeValue.refsOfMembers members).filterMap (Build.issueOf? g schema))
  | [] => .nothing []
  | (key, value) :: members => by
      rw [NodeValue.refsOfMembers, List.filter_append, List.filterMap_append]
      exact (writes_write h value).andThen (writes_writeMembers h members)
        fun first rest => (key, first) :: rest

end

theorem writes_writeMember (h : Resolves g schema resolver) (member : String × NodeValue) :
    Writes g (writeMember resolver member)
      (member.1, Build.writeMember g schema member.2)
      (member.2.refs.filter (evaluates g schema))
      (member.2.refs.filterMap (Build.issueOf? g schema)) := by
  obtain ⟨key, value⟩ := member
  have hvalue := (writes_write h value).map fun written => (key, written)
  cases value with
  | scalar plain =>
      cases plain with
      | str text =>
          exact .nothing _
      | _ =>
          exact hvalue
  | _ =>
      exact hvalue

theorem writes_writeNode (h : Resolves g schema resolver) (wanted : String × NodeValue → Bool)
    {node : Node} (hfind : g.findNode? node.id = some node) :
    Writes g (writeNode resolver wanted node.id)
      (Build.writeMembers g schema ((g.nodeValue node).members.filter wanted))
      (node.id :: (Build.memberRefs ((g.nodeValue node).members.filter wanted)).filter
        (evaluates g schema))
      ((Build.memberRefs ((g.nodeValue node).members.filter wanted)).filterMap
        (Build.issueOf? g schema)) := by
  have hvalue : g.value? node.id = some (g.nodeValue node) := by
    rw [Graph.value?, hfind, Option.map_some]
  rw [Build.memberRefs, List.filter_flatMap, List.filterMap_flatMap]
  exact Writes.evaluating hvalue _ _ (Writes.each fun member _ => writes_writeMember h member)

/-! ## The whole build -/

variable (hdistinct : (g.nodes.map Node.id).Nodup)

def groupEvaluated (g : Graph) (schema : Schema) (className : String) : List NodeId :=
  (g.group schema className).flatMap fun node =>
    node.id :: (Build.memberRefs (g.nodeValue node).members).filter (evaluates g schema)

/-- The references that writing a group meets, in order. -/
def groupRefs (g : Graph) (schema : Schema) (className : String) : List NodeId :=
  (g.group schema className).flatMap fun node => Build.memberRefs (g.nodeValue node).members

include hdistinct in
theorem writes_writeGroup (h : Resolves g schema resolver) (className : String) :
    Writes g (writeGroup g schema resolver className)
      (schema.keyOfClass className, Build.groupValue schema (schema.keyOfClass className)
        ((g.group schema className).map (Build.entry g schema)))
      (groupEvaluated g schema className)
      ((groupRefs g schema className).filterMap (Build.issueOf? g schema)) := by
  have hnode : ∀ node ∈ g.group schema className,
      Writes g (writeNode resolver (fun _ => true) node.id)
        (Build.writeMembers g schema (g.nodeValue node).members)
        (node.id :: (Build.memberRefs (g.nodeValue node).members).filter (evaluates g schema))
        ((Build.memberRefs (g.nodeValue node).members).filterMap (Build.issueOf? g schema)) := by
    intro node hnode
    have hfind : g.findNode? node.id = some node :=
      find?_of_nodup_map hdistinct (Graph.mem_group.1 hnode).1
    simpa using writes_writeNode h (fun _ => true) hfind
  have hgroup := (Writes.each hnode).map fun entries =>
    (schema.keyOfClass className,
      Build.groupValue schema (schema.keyOfClass className) (entries.map Json.ofMembers))
  rw [groupRefs, List.filterMap_flatMap]
  rw [List.map_map] at hgroup
  exact hgroup

/-- The nodes that writing the members of the first root evaluates, in order. -/
def rootEvaluated (g : Graph) (schema : Schema) : List NodeId :=
  ((g.rootNodes schema).head?.map Node.id).toList ++
    (Build.memberRefs (Build.rootValues g schema)).filter (evaluates g schema)

include hdistinct in
theorem writes_writeRoot (h : Resolves g schema resolver) :
    Writes g (writeRoot g schema resolver)
      (Build.writeMembers g schema (Build.rootValues g schema)) (rootEvaluated g schema)
      ((Build.memberRefs (Build.rootValues g schema)).filterMap (Build.issueOf? g schema)) := by
  unfold writeRoot rootEvaluated Build.rootValues
  cases hhead : (g.rootNodes schema).head? with
  | none =>
      exact .nothing []
  | some root =>
      have hmem : root ∈ g.nodes :=
        (List.mem_filter.1 (List.mem_of_head? hhead)).1
      exact writes_writeNode h _ (find?_of_nodup_map hdistinct hmem)

theorem mem_groupedNodes_iff_exists {node : Node} :
    node ∈ g.groupedNodes schema ↔
      ∃ className ∈ g.groupOrder schema, node ∈ g.group schema className := by
  constructor
  · intro hnode
    have hgroup := Graph.mem_groupedNodes.1 hnode
    exact ⟨node.className, Build.mem_groupOrder.2 (List.ne_nil_of_mem hgroup), hgroup⟩
  · rintro ⟨className, -, hnode⟩
    exact (List.mem_filter.1 hnode).1

theorem mem_groupEvaluated {id : NodeId} :
    id ∈ (g.groupOrder schema).flatMap (groupEvaluated g schema) ↔
      id ∈ (g.groupedNodes schema).map Node.id ∨
        id ∈ ((g.groupOrder schema).flatMap (groupRefs g schema)).filter
          (evaluates g schema) := by
  simp only [groupEvaluated, groupRefs, List.mem_flatMap, List.mem_filter, List.mem_cons,
    List.mem_map]
  constructor
  · rintro ⟨className, horder, node, hnode, hid | ⟨href, hevaluates⟩⟩
    · exact .inl ⟨node, mem_groupedNodes_iff_exists.2 ⟨className, horder, hnode⟩, hid.symm⟩
    · exact .inr ⟨⟨className, horder, node, hnode, href⟩, hevaluates⟩
  · rintro (⟨node, hnode, hid⟩ | ⟨⟨className, horder, node, hnode, href⟩, hevaluates⟩)
    · obtain ⟨className, horder, hgroup⟩ := mem_groupedNodes_iff_exists.1 hnode
      exact ⟨className, horder, node, hgroup, .inl hid.symm⟩
    · exact ⟨className, horder, node, hnode, .inr ⟨href, hevaluates⟩⟩

/-- The nodes that the steps evaluate are those that a build says it evaluates. -/
theorem mem_evaluatedNodes {id : NodeId} :
    id ∈ (g.groupOrder schema).flatMap (groupEvaluated g schema) ++ rootEvaluated g schema ↔
      id ∈ Build.evaluatedNodes g schema := by
  have hwritten : (Build.writtenRefs g schema).filter (evaluates g schema) =
      ((g.groupOrder schema).flatMap (groupRefs g schema)).filter (evaluates g schema) ++
        (Build.memberRefs (Build.rootValues g schema)).filter (evaluates g schema) :=
    List.filter_append ..
  have hall : Build.evaluatedNodes g schema =
      (g.groupedNodes schema).map Node.id ++ ((g.rootNodes schema).head?.map Node.id).toList ++
        (Build.writtenRefs g schema).filter (evaluates g schema) := rfl
  rw [hall, hwritten, List.mem_append, mem_groupEvaluated, rootEvaluated]
  simp only [List.mem_append]
  tauto

include hdistinct in
/--
Carried out on a graph whose nodes have numbers of their own, with value nodes that put out
JSON data, a build gives the document that `Build.ofGraph` does, reports the same issues in
the same order, and leaves the same graph.  It makes no difference how far value nodes may
lead to value nodes: they never do.
-/
theorem build_eq (hplain : Plain g) (depth : Nat) :
    build (depth + 1) g schema =
      ((Build.ofGraph g schema).config,
        ⟨(Build.ofGraph g schema).remembered g, (Build.ofGraph g schema).issues⟩) := by
  have hresolver : Resolves g schema (resolverAt g schema (depth + 1)) :=
    fun id => writes_resolverWith hplain (resolverAt g schema depth) id
  have hgroups := Writes.each fun className (_ : className ∈ g.groupOrder schema) =>
    writes_writeGroup hdistinct hresolver className
  have hbuild := hgroups.andThen (writes_writeRoot hdistinct hresolver)
    (fun groups rest => Json.ofMembers (groups ++ rest)) [] []
  rw [Graph.keeping_nil, List.nil_append, List.nil_append] at hbuild
  refine hbuild.trans ?_
  have hissues : (g.groupOrder schema).flatMap
        (fun className => (groupRefs g schema className).filterMap (Build.issueOf? g schema)) ++
        (Build.memberRefs (Build.rootValues g schema)).filterMap (Build.issueOf? g schema) =
      (Build.ofGraph g schema).issues := by
    rw [← List.filterMap_flatMap, ← List.filterMap_append]
    rfl
  rw [Build.remembered_eq, Graph.keeping_congr fun id => mem_evaluatedNodes, hissues]
  rfl

/-- Results that are kept make no difference to what value nodes put out. -/
theorem Plain.congr {g' : Graph} (hplain : Plain g) (hinward : g'.inward = g.inward) :
    Plain g' := by
  intro node hnode cell hcell
  have hnodes : g'.nodes.map Node.inward = g.nodes.map Node.inward :=
    congrArg Graph.nodes hinward
  have hmem : node.inward ∈ g.nodes.map Node.inward := hnodes ▸ List.mem_map_of_mem hnode
  obtain ⟨other, hother, hsame⟩ := List.mem_map.1 hmem
  refine hplain other hother cell ?_
  have hcells : other.inward.cell = node.inward.cell := congrArg Node.cell hsame
  exact hcells.trans hcell

/-- Data that is neither an array nor an object has no members to be in order. -/
theorem plain_of_scalars
    (h : g.nodes.all (fun node => !node.cell.any fun cell => cell.output.isStructured) = true) :
    Plain g := by
  intro node hnode cell hcell resolve
  have hscalar := List.all_eq_true.1 h node hnode
  rw [hcell, Option.any_some] at hscalar
  cases hvalue : cell.output with
  | arr | obj =>
      rw [hvalue] at hscalar
      cases hscalar
  | _ =>
      rfl

end

end Draft

namespace Build

/--
A build of any graph leaves everything in it as it is but the results on the first output
slots of the nodes that were evaluated.  Made again, after any readings in between, it
gives the same document, reports the same and evaluates the same nodes.  So it does if it is
carried out step by step, on nodes with numbers of their own and value nodes that put out
JSON data.
-/
theorem ofGraph_run_readings (g : Graph) (schema : Schema) (readings : List Reading) :
    let build := ofGraph g schema
    let later := Reading.run (build.remembered g) readings
    build.remembered g = g.keeping build.evaluated ∧
      ofGraph later schema = build ∧
      ((g.nodes.map Node.id).Nodup → Draft.Plain g → ∀ depth,
        Draft.build (depth + 1) g schema =
          (build.config, ⟨build.remembered g, build.issues⟩) ∧
        Draft.build (depth + 1) later schema =
          (build.config, ⟨build.remembered later, build.issues⟩)) := by
  intro build later
  have hinward : later.inward = g.inward := by
    rw [Reading.inward_run, remembered_eq, Graph.inward_keeping]
  have hsame : ofGraph later schema = build := ofGraph_congr hinward schema
  refine ⟨remembered_eq build g, hsame, fun hdistinct hplain depth => ⟨?_, ?_⟩⟩
  · exact Draft.build_eq hdistinct hplain depth
  · have hids := congrArg (fun graph : Graph => graph.nodes.map Node.id) hinward
    simp only [Graph.inward, List.map_map] at hids
    have hlater : (later.nodes.map Node.id).Nodup := hids.symm ▸ hdistinct
    rw [Draft.build_eq hlater (hplain.congr hinward) depth, hsame]

end Build

namespace Session

def ringSource : String :=
  "class Ring:\n  next: List[Union[Ring, Index]]\n  label: str\n"

/-- Two rings that lead to each other, one of them to itself, and a value that is a label. -/
def ringCalls : List Call :=
  [ .register "s" ringSource "" ""
  , .createNode "s" "Ring" 10.0 0.5
  , .createNode "s" "Ring" 10.0 250.0
  , .createNode "Native" "String" 400.0 0.5
  , .editGraph (.setProperty 3 (.str "b"))
  , .connect 1 0 2 0
  , .connect 2 0 2 0
  , .connect 2 0 1 0
  , .connect 3 0 1 1 ]

def ringSession : Session :=
  (Session.start ImportLayout.standard).after ringCalls

/-- A build goes round no cycle, and looks at no result that was kept. -/
theorem ofGraph_run_readings_ring :
    (ringSession.graph.nodes.map Node.id).Nodup ∧ Draft.Plain ringSession.graph ∧
    ringSession.graph.links.map (fun link => (link.origin, link.target)) =
      [(1, 2), (2, 2), (2, 1), (3, 1)] ∧
    ∃ schema, ringSession.findSchema? "s" = some schema ∧
      let build := Build.ofGraph ringSession.graph schema
      let later := Reading.run (build.remembered ringSession.graph) [.evaluate 2]
      build.evaluated = [1, 2, 3] ∧
        (Draft.build 1 ringSession.graph schema).1 = build.config ∧
        (Draft.build 1 later schema).1 = build.config := by
  have hdistinct : (ringSession.graph.nodes.map Node.id).Nodup := by
    decide +kernel
  have hplain : Draft.Plain ringSession.graph :=
    Draft.plain_of_scalars (by decide +kernel)
  have hschema : (ringSession.findSchema? "s").map
      (fun schema => (Build.ofGraph ringSession.graph schema).evaluated) = some [1, 2, 3] := by
    decide +kernel
  obtain ⟨schema, hfind, hevaluated⟩ := Option.map_eq_some_iff.1 hschema
  obtain ⟨-, -, hsteps⟩ :=
    Build.ofGraph_run_readings ringSession.graph schema [.evaluate 2]
  obtain ⟨hfirst, hlater⟩ := hsteps hdistinct hplain 0
  exact ⟨hdistinct, hplain, by decide +kernel, schema, hfind, hevaluated,
    congrArg Prod.fst hfirst, congrArg Prod.fst hlater⟩

end Session

end SlotGraph
