import SlotGraph.Proofs.Import.Populate

/-!
# Making the nodes of the groups

The first pass of an import makes one fresh node for each element under a group key,
in the order of the document, and passes over the other keys.
-/

namespace SlotGraph

namespace Graph

/-- A graph of fresh nodes only. -/
structure Pristine (g : Graph) : Prop where
  links : g.links = []
  feeds : ∀ node ∈ g.nodes, ∀ input ∈ node.inputs, ∃ intake, input.feed = Feed.ofIntake intake

theorem Pristine.empty : Graph.empty.Pristine :=
  ⟨rfl, fun _ hnode => absurd hnode List.not_mem_nil⟩

@[simp] theorem shapes_addNode (g : Graph) (template : NodeTemplate) (x y : Float) :
    (g.addNode template x y).2.shapes =
      g.shapes ++ [((g.addNode template x y).1, template)] := by
  have hshape : { Node.ofTemplate template (nextId g.lastNode) with x := x, y := y }.shape =
      template :=
    Node.shape_ofTemplate template (nextId g.lastNode)
  rw [shapes, addNode, List.map_append, List.map_singleton, hshape]
  rfl

theorem Pristine.addNode {g : Graph} (h : g.Pristine) (template : NodeTemplate)
    (x y : Float) : (g.addNode template x y).2.Pristine := by
  refine ⟨h.links, fun node hnode input hinput => ?_⟩
  rw [Graph.addNode] at hnode
  rcases List.mem_append.1 hnode with hold | hnew
  · exact h.feeds node hold input hinput
  · rw [List.mem_singleton] at hnew
    subst hnew
    obtain ⟨spec, -, rfl⟩ := List.mem_map.1 hinput
    exact ⟨spec.intake, rfl⟩

theorem Pristine.content_eq {g : Graph} (h : g.Pristine) {id : NodeId} {slot : Nat}
    {input : InputSpec} (hinput : (g.shape? id).bind (·.inputs[slot]?) = some input) :
    g.content id slot = input.intake.freshContent := by
  cases hfind : g.findNode? id with
  | none =>
      simp [shape?, hfind] at hinput
  | some node =>
      rw [shape?_inputs hfind] at hinput
      obtain ⟨slotHere, hslot, rfl⟩ := Option.map_eq_some_iff.1 hinput
      obtain ⟨intake, hfeed⟩ := h.feeds node (findNode?_mem hfind).1 slotHere
        (List.mem_of_getElem? hslot)
      rw [content, sources, h.links, held?, hfind, Option.bind_some, Node.nativeAt?, hslot,
        Option.bind_some, hfeed, Feed.native?_ofIntake, InputSlot.spec, hfeed,
        Feed.intake_ofIntake]
      rfl

end Graph

namespace Import

variable {setting : Setting} {p : Progress}

def Group.shapes (setting : Setting) (group : Group) : List (NodeId × NodeTemplate) :=
  group.nodes.filterMap fun node =>
    (setting.registry.find? setting.schema.name group.className).map fun template =>
      (node.1, template)

/-- What a group was made for: its key, its class and its elements. -/
def Group.plan (group : Group) : String × String × List Json :=
  (group.key, group.className, group.nodes.map Prod.snd)

def planned (schema : Schema) (document : List (String × Json)) :
    List (String × String × List Json) :=
  document.filterMap fun member =>
    (groupElements? schema member.1 member.2).map fun found => (member.1, found)

def looseKeys (schema : Schema) (document : List (String × Json)) : List String :=
  (document.filter fun member => (groupElements? schema member.1 member.2).isNone).map Prod.fst

theorem createElements_spec {className : String} {template : NodeTemplate}
    (hfind : setting.registry.find? setting.schema.name className = some template)
    (x : Float) (row : Nat) (elements : List Json) (p : Progress) :
    (createElements setting className x row elements p).1.map Prod.snd = elements ∧
    (createElements setting className x row elements p).2.graph.shapes =
      p.graph.shapes ++ ((createElements setting className x row elements p).1.map
        fun node => (node.1, template)) ∧
    (p.graph.Pristine →
      (createElements setting className x row elements p).2.graph.Pristine) := by
  induction elements generalizing row p with
  | nil =>
      simp [createElements]
  | cons element rest ih =>
      have hcreate : p.createNode setting className x (setting.layout.rowY row) =
          (some (p.graph.addNode template x (setting.layout.rowY row)).1,
            { p with graph := (p.graph.addNode template x (setting.layout.rowY row)).2 }) := by
        rw [Progress.createNode, hfind]
      obtain ⟨helements, hshapes, hpristine⟩ := ih (row + 1)
        { p with graph := (p.graph.addNode template x (setting.layout.rowY row)).2 }
      rw [createElements, hcreate]
      refine ⟨?_, ?_, fun h => hpristine (h.addNode template _ _)⟩
      · rw [List.map_cons, helements]
      · rw [hshapes, Graph.shapes_addNode, List.append_assoc]
        rfl

/-- The first pass makes the groups that the document asks for, all of fresh nodes. -/
theorem createGroups_spec (x : Float) (document : List (String × Json)) (p : Progress)
    (hserved : ∀ entry ∈ planned setting.schema document,
      (setting.registry.find? setting.schema.name entry.2.1).isSome) :
    (createGroups setting x document p).1.map Group.plan = planned setting.schema document ∧
    (createGroups setting x document p).2.1 = looseKeys setting.schema document ∧
    (createGroups setting x document p).2.2.graph.shapes =
      p.graph.shapes ++ (createGroups setting x document p).1.flatMap (Group.shapes setting) ∧
    (p.graph.Pristine → (createGroups setting x document p).2.2.graph.Pristine) := by
  induction document generalizing x p with
  | nil =>
      simp [createGroups, planned, looseKeys]
  | cons member rest ih =>
      obtain ⟨key, value⟩ := member
      cases hgroup : groupElements? setting.schema key value with
      | none =>
          have hrest : ∀ entry ∈ planned setting.schema rest,
              (setting.registry.find? setting.schema.name entry.2.1).isSome := by
            intro entry hentry
            exact hserved entry (by rw [planned, List.filterMap_cons, hgroup]; exact hentry)
          obtain ⟨hplan, hloose, hshapes, hpristine⟩ := ih x p hrest
          rw [createGroups, hgroup]
          refine ⟨?_, ?_, hshapes, hpristine⟩
          · rw [planned, List.filterMap_cons, hgroup]
            exact hplan
          · rw [looseKeys, List.filter_cons_of_pos (by simp [hgroup]), List.map_cons]
            exact congrArg (List.cons key) hloose
      | some found =>
          obtain ⟨className, elements⟩ := found
          have hplanned : planned setting.schema ((key, value) :: rest) =
              (key, className, elements) :: planned setting.schema rest := by
            rw [planned, List.filterMap_cons, hgroup]
            rfl
          rw [hplanned] at hserved ⊢
          obtain ⟨template, hfind⟩ := Option.isSome_iff_exists.1
            (hserved (key, className, elements) List.mem_cons_self)
          obtain ⟨helements, hmade, hmadePristine⟩ :=
            createElements_spec hfind x 0 elements p
          obtain ⟨hplan, hloose, hshapes, hpristine⟩ :=
            ih (x + setting.layout.columnSpacing)
              (createElements setting className x 0 elements p).2
              (fun entry hentry => hserved entry (List.mem_cons_of_mem _ hentry))
          rw [createGroups, hgroup]
          refine ⟨?_, ?_, ?_, fun h => hpristine (hmadePristine h)⟩
          · rw [List.map_cons, hplan, Group.plan, helements]
          · rw [looseKeys, List.filter_cons_of_neg (by simp [hgroup])]
            exact hloose
          · rw [hshapes, hmade, List.append_assoc, List.flatMap_cons, Group.shapes, hfind]
            simp

end Import

end SlotGraph
