import SlotGraph.Proofs.Graph.Removals
import SlotGraph.Proofs.Session.Reload

/-!
# What a removed schema leaves

A schema that is dropped takes its templates and its nodes with it, the nodes one after the
other.  What is left of a well-formed graph is its restriction to the nodes of the other
schemas and to the links between them.
-/

namespace SlotGraph

namespace Graph

variable {g : Graph}

def ofSchema (g : Graph) (name : String) (id : NodeId) : Bool :=
  (g.findNode? id).any fun node => node.schemaName == name

theorem WellFormed.removeNode?_getD (h : g.WellFormed) (id : NodeId) :
    (g.removeNode? id).getD g =
      g.restrict (fun node => node.id != id) fun link => !link.touches id := by
  rw [h.removeNode?_eq]
  cases hfind : g.findNode? id with
  | some node =>
      rfl
  | none =>
      have habsent : ∀ node ∈ g.nodes, (node.id != id) = true := by
        simpa [findNode?] using hfind
      refine (h.restrict_all habsent fun link hlink => ?_).symm
      obtain ⟨origin, horigin, horiginId, -⟩ := h.count_output hlink
      obtain ⟨target, htarget, htargetId, -⟩ := h.count_input hlink
      have hleaves := habsent origin horigin
      have henters := habsent target htarget
      rw [horiginId] at hleaves
      rw [htargetId] at henters
      simp_all [Link.touches]

theorem WellFormed.withoutNodes_eq (h : g.WellFormed) (ids : List NodeId) :
    Session.withoutNodes g ids =
      g.restrict (fun node => !ids.contains node.id) fun link =>
        !(ids.contains link.origin || ids.contains link.target) := by
  induction ids generalizing g with
  | nil =>
      exact (h.restrict_all (fun _ _ => rfl) fun _ _ => rfl).symm
  | cons id rest ih =>
      have hone := h.removeNode?_getD id
      have hleft : ((g.removeNode? id).getD g).WellFormed := by
        cases hremove : g.removeNode? id with
        | none =>
            exact h
        | some left =>
            exact h.removeNode hremove
      refine (ih hleft).trans ?_
      rw [hone, h.restrict_restrict fun _ _ => rfl]
      refine restrict_congr (fun node _ => ?_) fun link _ => ?_
      · rw [List.contains_cons, Bool.not_or]
        rfl
      · rw [List.contains_cons, List.contains_cons, Link.touches, ← Bool.not_or]
        congr 1
        ac_rfl

theorem WellFormed.ofSchema_eq (h : g.WellFormed) {node : Node} (hnode : node ∈ g.nodes)
    (name : String) : g.ofSchema name node.id = (node.schemaName == name) := by
  rw [ofSchema, h.findNode?_eq hnode]
  rfl

/-- The numbers that a removed schema takes with it are those of its nodes. -/
theorem WellFormed.contains_ofSchema (h : g.WellFormed) (name : String) (id : NodeId) :
    ((g.nodes.filter fun node => node.schemaName == name).map Node.id).contains id =
      g.ofSchema name id := by
  rw [Bool.eq_iff_iff, List.contains_iff_mem, List.mem_map, ofSchema, Option.any_eq_true]
  constructor
  · rintro ⟨node, hnode, rfl⟩
    obtain ⟨hmem, hname⟩ := List.mem_filter.1 hnode
    exact ⟨node, h.findNode?_eq hmem, hname⟩
  · rintro ⟨node, hfind, hname⟩
    obtain ⟨hmem, hid⟩ := findNode?_mem hfind
    exact ⟨node, List.mem_filter.2 ⟨hmem, hname⟩, hid⟩

theorem WellFormed.withoutNodes_ofSchema (h : g.WellFormed) (name : String) :
    Session.withoutNodes g
        ((g.nodes.filter fun node => node.schemaName == name).map Node.id) =
      g.restrict (fun node => node.schemaName != name) fun link =>
        !(g.ofSchema name link.origin || g.ofSchema name link.target) := by
  rw [h.withoutNodes_eq]
  simp only [h.contains_ofSchema]
  exact restrict_congr (fun node hnode => congrArg not (h.ofSchema_eq hnode name)) fun _ _ => rfl

end Graph

namespace Session

/-- What is left of a session whose registry lists its schemas when one of them is dropped. -/
theorem Catalogued.removeSchema_eq {s : Session} (hs : s.Catalogued) (h : s.graph.WellFormed)
    (name : String) :
    s.removeSchema name =
      if (s.findSchema? name).isSome then
        (true,
          { s with
            schemas := s.schemas.filter fun registered => registered.schema.name != name
            registry := ⟨s.registry.templates.filter fun template =>
              template.schemaName != name⟩
            graph := s.graph.restrict (fun node => node.schemaName != name) fun link =>
              !(s.graph.ofSchema name link.origin || s.graph.ofSchema name link.target) })
      else (false, s) := by
  rw [Session.removeSchema, findSchema?_isSome]
  split
  · next removed hfind =>
      have hremoved := List.mem_of_find?_eq_some hfind
      obtain rfl : removed.schema.name = name := by
        simpa using List.find?_some hfind
      have htemplates : s.registry.remove removed.id = ⟨s.registry.templates.filter
          fun template => template.schemaName != removed.schema.name⟩ :=
        congrArg Registry.mk (hs.templates_remove hremoved)
      rw [hfind, Option.isSome_some, if_pos rfl, ← h.withoutNodes_ofSchema, ← htemplates]
  · next hfind =>
      rw [hfind]
      rfl

/--
Every removal from a well-formed graph restricts it: to the other nodes and the links that do
not touch the removed one, to the other links, to the links that do not enter the slot or any
slot of the node that collects many, and with a schema to the nodes of the others.  The links
that a slot loses are counted.
-/
theorem removals_exact {g : Graph} (h : g.WellFormed) :
    (∀ id, g.removeNode? id = (g.findNode? id).map fun _ =>
      g.restrict (fun node => node.id != id) fun link => !link.touches id) ∧
    (∀ id, g.removeLink? id = (g.findLink? id).map fun _ =>
      g.restrict (fun _ => true) fun link => link.id != id) ∧
    (∀ id slot, g.clearInput id slot =
      ((g.links.filter (Link.enters id slot)).length,
        g.restrict (fun _ => true) fun link => !link.enters id slot)) ∧
    (∀ id, g.clearCollected id =
      ((g.links.filter (g.collects id)).length,
        g.restrict (fun _ => true) fun link => !g.collects id link)) ∧
    ∀ s : Session, s.graph = g → s.Catalogued → ∀ name, s.removeSchema name =
      if (s.findSchema? name).isSome then
        (true,
          { s with
            schemas := s.schemas.filter fun registered => registered.schema.name != name
            registry := ⟨s.registry.templates.filter fun template =>
              template.schemaName != name⟩
            graph := g.restrict (fun node => node.schemaName != name) fun link =>
              !(g.ofSchema name link.origin || g.ofSchema name link.target) })
      else (false, s) :=
  ⟨h.removeNode?_eq, h.removeLink?_eq, h.clearInput_eq, h.clearCollected_eq,
    by rintro s rfl hs name; exact hs.removeSchema_eq h name⟩

/--
Two tools, the second of which lists the first one twice and follows itself, and a shelf of
another schema that has the first tool.
-/
def shelfCalls : List Call :=
  [ .register "s" "class Tool:\n  next: Tool\n  parts: List[Union[Tool, Index]]\n" "" ""
  , .register "t" "class Shelf:\n  tools: List[Union[Tool, Index]]\n" "" ""
  , .createNode "s" "Tool" 10.0 0.5
  , .createNode "s" "Tool" 400.0 0.5
  , .createNode "t" "Shelf" 400.0 250.0
  , .connect 1 0 2 1
  , .connect 2 0 2 0
  , .connect 1 0 3 0
  , .connect 1 0 2 1 ]

def shelfSession : Session :=
  (Session.start ImportLayout.standard).after shelfCalls

theorem reachable_shelfSession : shelfSession.Reachable := by
  refine (Reachable.start ImportLayout.standard).after
    ⟨⟨show String.length _ < 2 ^ 64 from ?_, trivial⟩,
      ⟨show String.length _ < 2 ^ 64 from ?_, trivial⟩, ⟨trivial, ?_⟩, ⟨trivial, ?_⟩,
      ⟨trivial, ?_⟩, ⟨trivial, ?_⟩, ⟨trivial, ?_⟩, ⟨trivial, ?_⟩, ⟨trivial, ?_⟩, trivial⟩
  all_goals decide +kernel

/-- What the slots of that session list, and what they list after one removal or another. -/
theorem removals_exact_shelfSession :
    shelfSession.graph.WellFormed ∧ shelfSession.Catalogued ∧
    (shelfSession.graph.outRows, shelfSession.graph.inRows) =
      ([(1, [[1, 3, 4]]), (2, [[2]]), (3, [[]])],
        [(1, [[], []]), (2, [[2], [1, 4]]), (3, [[3]])]) ∧
    (shelfSession.graph.removeNode? 2).map (fun left => (left.outRows, left.inRows)) =
      some ([(1, [[3]]), (3, [[]])], [(1, [[], []]), (3, [[3]])]) ∧
    (shelfSession.graph.removeLink? 3).map (fun left => (left.outRows, left.inRows)) =
      some ([(1, [[1, 4]]), (2, [[2]]), (3, [[]])],
        [(1, [[], []]), (2, [[2], [1, 4]]), (3, [[]])]) ∧
    ((shelfSession.graph.clearInput 2 0).1, (shelfSession.graph.clearInput 2 0).2.inRows) =
      (1, [(1, [[], []]), (2, [[], [1, 4]]), (3, [[3]])]) ∧
    ((shelfSession.graph.clearCollected 2).1, (shelfSession.graph.clearCollected 2).2.outRows) =
      (2, [(1, [[3]]), (2, [[2]]), (3, [[]])]) ∧
    ((shelfSession.removeSchema "s").1, (shelfSession.removeSchema "s").2.graph.inRows) =
      (true, [(3, [[]])]) := by
  have hsound := reachable_shelfSession.sound
  obtain ⟨hnode, hlink, hinput, hcollected, hschema⟩ := removals_exact hsound.wellFormed
  rw [hnode, hlink, hinput, hcollected, hschema shelfSession rfl hsound.catalogued]
  refine ⟨hsound.wellFormed, hsound.catalogued, ?_, ?_, ?_, ?_, ?_, ?_⟩
  all_goals decide +kernel

end Session

end SlotGraph
