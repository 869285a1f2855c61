import SlotGraph.Proofs.Graph.Linking
import SlotGraph.Proofs.Graph.Runs
import SlotGraph.Proofs.Schema.Templates

/-!
# Graphs that are wired from a schema

A host that only makes nodes of the classes beside the root, links them and fills
their native slots leaves a graph in which every link fits and has no key of its own.
-/

namespace SlotGraph

/-- The edits that make nodes of the classes beside the root, link them or fill them. -/
inductive Edit.Wires (schema : Schema) : Edit → Prop where
  | addNode {cls : SchemaClass} {template : NodeTemplate} (x y : Float) :
      cls ∈ schema.classes → schema.isRoot cls = false → schema.IsTemplate cls template →
      Wires schema (.addNode template x y)
  | connect (origin : NodeId) (originSlot : Nat) (target : NodeId) (targetSlot : Nat) :
      Wires schema (.connect origin originSlot target targetSlot)
  | setNative (id : NodeId) (slot : Nat) (value : Json) :
      Wires schema (.setNative id slot value)

namespace Graph

/-- A graph of nodes beside the root, whose links fit and have no keys of their own. -/
structure Wired (schema : Schema) (g : Graph) : Prop where
  wellFormed : g.WellFormed
  inOrder : g.InOrder
  made : ∀ node ∈ g.nodes, ∃ cls ∈ schema.classes,
    schema.isRoot cls = false ∧ schema.IsTemplate cls node.shape
  unkeyed : ∀ link ∈ g.links, link.key = ""
  admitted : ∀ link ∈ g.links, g.admits link.origin link.target link.targetSlot = true

variable {schema : Schema} {g : Graph}

theorem Wired.empty (schema : Schema) : Wired schema Graph.empty where
  wellFormed := WellFormed.empty
  inOrder := InOrder.empty
  made := by
    simp [Graph.empty]
  unkeyed := by
    simp [Graph.empty]
  admitted := by
    simp [Graph.empty]

theorem Wired.addNode (h : Wired schema g) (hroom : g.lastNode < lastId) {cls : SchemaClass}
    {template : NodeTemplate} (hcls : cls ∈ schema.classes)
    (hroot : schema.isRoot cls = false) (htemplate : schema.IsTemplate cls template)
    (x y : Float) : Wired schema (g.addNode template x y).2 where
  wellFormed := h.wellFormed.addNode hroom template x y
  inOrder := h.inOrder.addNode template x y
  made := by
    intro node hnode
    rcases List.mem_append.1 hnode with hold | hnew
    · exact h.made node hold
    · obtain rfl := List.mem_singleton.1 hnew
      have hshape : ({ Node.ofTemplate template (nextId g.lastNode) with x := x, y := y } :
          Node).shape = template := Node.shape_ofTemplate template (nextId g.lastNode)
      exact ⟨cls, hcls, hroot, by rw [hshape]; exact htemplate⟩
  unkeyed := h.unkeyed
  admitted := by
    intro link hlink
    obtain ⟨origin, horigin, horiginId, -⟩ := h.wellFormed.count_output hlink
    obtain ⟨target, htarget, htargetId, -⟩ := h.wellFormed.count_input hlink
    have hends : link.origin ∈ g.nodes.map Node.id ∧ link.target ∈ g.nodes.map Node.id :=
      ⟨horiginId ▸ List.mem_map_of_mem horigin, htargetId ▸ List.mem_map_of_mem htarget⟩
    rw [admits_addNode_of_ne (h.wellFormed.ne_addNode hroom hends.1)
      (h.wellFormed.ne_addNode hroom hends.2)]
    exact h.admitted link hlink

/-- A connection leaves old links and one new one. -/
theorem mem_links_connect {g' : Graph} {o t : NodeId} {os ts : Nat} {id : LinkId}
    (hwf : g.WellFormed) (hroom : g.lastLink < lastId)
    (hconnect : g.connect o os t ts = .ok (id, g')) {link : Link} (hlink : link ∈ g'.links) :
    link ∈ g.links ∨ ∃ type, link = ⟨id, o, os, t, ts, type, ""⟩ := by
  obtain ⟨-, -, output, input, -, -, -, -, -, rfl, rfl⟩ := connect_eq_ok_iff.1 hconnect
  have hnew : ∀ other ∈ (g.dropLinks (displaced input)).links,
      other.id ≠ nextId g.lastLink := by
    intro other hother
    have hle := (hwf.links_numbered other (mem_links_dropLinks.1 hother).1).2
    rw [nextId_eq hwf.counters_nonneg.2 hroom]
    exact Int.ne_of_lt (Int.lt_add_one_of_le hle)
  rcases (mem_insertLink hnew).1 hlink with rfl | hold
  · exact Or.inr ⟨output.type, rfl⟩
  · exact Or.inl (mem_links_dropLinks.1 hold).1

theorem Wired.connect {g' : Graph} (h : Wired schema g) (hroom : g.lastLink < lastId)
    {o t : NodeId} {os ts : Nat} {id : LinkId}
    (hconnect : g.connect o os t ts = .ok (id, g')) : Wired schema g' where
  wellFormed := h.wellFormed.connect hroom hconnect
  inOrder := h.inOrder.connect h.wellFormed hroom hconnect
  made := by
    intro node hnode
    obtain ⟨old, hold, -, hshape⟩ := exists_of_shapes_eq (shapes_connect hconnect) hnode
    rw [← hshape]
    exact h.made old hold
  unkeyed := by
    intro link hlink
    rcases mem_links_connect h.wellFormed hroom hconnect hlink with hold | ⟨type, rfl⟩
    · exact h.unkeyed link hold
    · rfl
  admitted := by
    intro link hlink
    rw [admits_congr (shapes_connect hconnect)]
    rcases mem_links_connect h.wellFormed hroom hconnect hlink with hold | ⟨type, rfl⟩
    · exact h.admitted link hold
    · -- A node of a class has one output.
      obtain ⟨origin, -, output, -, horigin, -, houtput, -⟩ := connect_eq_ok_iff.1 hconnect
      obtain ⟨cls, -, -, hclass⟩ := h.made origin (findNode?_mem horigin).1
      have hlength : origin.outputs.length = 1 := by
        simpa [Node.shape] using congrArg List.length hclass.outputs
      have hfirst : os = 0 := by
        have hlt := (List.getElem?_eq_some_iff.1 houtput).1
        omega
      subst hfirst
      exact connect_ok_iff_admits.1 ⟨id, g', hconnect⟩

theorem Wired.setNative {g' : Graph} (h : Wired schema g) {id : NodeId} {slot : Nat}
    {value : Json} (hset : g.setNative? id slot value = some g') : Wired schema g' := by
  have hshapes := shapes_setNative hset
  have hlinks : g'.links = g.links := by
    rw [setNative?_eq_some hset]
    rfl
  refine ⟨h.wellFormed.setNative hset, h.inOrder.setNative hset, ?_, ?_, ?_⟩
  · intro node hnode
    obtain ⟨old, hold, -, hshape⟩ := exists_of_shapes_eq hshapes hnode
    rw [← hshape]
    exact h.made old hold
  · rw [hlinks]
    exact h.unkeyed
  · rw [hlinks]
    intro link hlink
    rw [admits_congr hshapes]
    exact h.admitted link hlink

theorem Wired.apply (h : Wired schema g) {edit : Edit} (hedit : edit.Wires schema)
    (hfits : edit.Fits g) : Wired schema (edit.apply g) := by
  cases hedit with
  | addNode x y hcls hroot htemplate =>
      exact h.addNode (Int.lt_of_add_one_le hfits.1) hcls hroot htemplate x y
  | connect origin originSlot target targetSlot =>
      rw [Edit.apply]
      split
      · next id next hconnect =>
          refine h.connect ?_ hconnect
          have hroom := hfits.2
          rw [Edit.draws, hconnect] at hroom
          exact Int.lt_of_add_one_le hroom
      · exact h
  | setNative id slot value =>
      rw [Edit.apply]
      cases hset : g.setNative? id slot value with
      | none =>
          exact h
      | some next =>
          exact h.setNative hset

/-- A run of such edits leaves a graph wired, as long as the numbers do not run out. -/
theorem Wired.run (h : Wired schema g) {edits : List Edit}
    (hedits : ∀ edit ∈ edits, edit.Wires schema) (hfits : Edit.RunFits g edits) :
    Wired schema (Edit.run g edits) := by
  induction edits generalizing g with
  | nil =>
      exact h
  | cons edit rest ih =>
      exact ih (h.apply (hedits edit List.mem_cons_self) hfits.1)
        (fun other hother => hedits other (List.mem_cons_of_mem _ hother)) hfits.2

end Graph

end SlotGraph
