import SlotGraph.Proofs.Graph.Content

/-!
# Linking into a slot with room

Whether a link is let in is a matter of the shapes of its two nodes.  A link that is
let into a slot with room goes last there, and nothing else in the graph changes what
it holds.
-/

namespace SlotGraph

def Intake.collects : Intake → Bool
  | .single _ => false
  | .many _ => true

theorem Feed.collects_intake (feed : Feed) : feed.intake.collects = feed.collects := by
  cases feed <;> rfl

namespace Graph

def shape? (g : Graph) (id : NodeId) : Option NodeTemplate :=
  (g.findNode? id).map Node.shape

theorem shape?_eq_find? (g : Graph) (id : NodeId) :
    g.shape? id = (g.shapes.find? fun entry => entry.1 == id).map Prod.snd := by
  rw [shape?, findNode?, shapes, List.find?_map, Option.map_map]
  rfl

theorem shape?_congr {g g' : Graph} (h : g'.shapes = g.shapes) (id : NodeId) :
    g'.shape? id = g.shape? id := by
  rw [shape?_eq_find?, shape?_eq_find?, h]

theorem WellFormed.shape?_eq {g : Graph} (h : g.WellFormed) {node : Node}
    (hnode : node ∈ g.nodes) : g.shape? node.id = some node.shape := by
  rw [shape?, h.findNode?_eq hnode]
  rfl

theorem WellFormed.shape?_eq_some_iff {g : Graph} (h : g.WellFormed) {id : NodeId}
    {template : NodeTemplate} :
    g.shape? id = some template ↔ (id, template) ∈ g.shapes := by
  simp only [shape?, Option.map_eq_some_iff, h.findNode?_eq_some_iff, shapes, List.mem_map,
    Prod.mk.injEq, and_assoc]

/-- Whether an output type of one node fits the slot of another. -/
def admits (g : Graph) (origin target : NodeId) (slot : Nat) : Bool :=
  match (g.shape? origin).bind (·.outputs[0]?), (g.shape? target).bind (·.inputs[slot]?) with
  | some output, some input => TypeExpr.textFits output.type input.linkType
  | _, _ => false

theorem admits_congr {g g' : Graph} (h : g'.shapes = g.shapes) (origin target : NodeId)
    (slot : Nat) : g'.admits origin target slot = g.admits origin target slot := by
  rw [admits, admits, shape?_congr h, shape?_congr h]

theorem shape?_outputs {g : Graph} {id : NodeId} {node : Node}
    (hfind : g.findNode? id = some node) (slot : Nat) :
    ((g.shape? id).bind (·.outputs[slot]?)) = node.outputs[slot]?.map OutputSlot.spec := by
  simp [shape?, hfind, Node.shape]

theorem shape?_inputs {g : Graph} {id : NodeId} {node : Node}
    (hfind : g.findNode? id = some node) (slot : Nat) :
    ((g.shape? id).bind (·.inputs[slot]?)) = node.inputs[slot]?.map InputSlot.spec := by
  simp [shape?, hfind, Node.shape]

/-- A slot holds a native value exactly when its blueprint has a kind for one. -/
theorem isSome_held? {g : Graph} {id : NodeId} {slot : Nat} {input : InputSpec}
    (hinput : (g.shape? id).bind (·.inputs[slot]?) = some input) :
    (g.held? id slot).isSome = input.intake.native?.isSome := by
  cases hfind : g.findNode? id with
  | none =>
      simp [shape?, hfind] at hinput
  | some node =>
      rw [shape?_inputs hfind] at hinput
      obtain ⟨slotHere, hslot, rfl⟩ := Option.map_eq_some_iff.1 hinput
      rw [held?, hfind, Option.bind_some, Node.nativeAt?, hslot, Option.bind_some,
        InputSlot.spec, ← Feed.native?_kind, Option.isSome_map, Option.isSome_map]

/-- A link from a first output is made exactly when the slot admits it. -/
theorem connect_ok_iff_admits {g : Graph} {o t : NodeId} {slot : Nat} :
    (∃ id g', g.connect o 0 t slot = .ok (id, g')) ↔ g.admits o t slot = true := by
  constructor
  · rintro ⟨id, g', hconnect⟩
    obtain ⟨origin, target, output, input, horigin, htarget, houtput, hinput, hfits, -⟩ :=
      connect_eq_ok_iff.1 hconnect
    rw [admits, shape?_outputs horigin, shape?_inputs htarget, houtput, hinput]
    exact hfits
  · intro hadmits
    unfold admits at hadmits
    split at hadmits
    · next output input houtput hinput =>
        cases horigin : g.findNode? o with
        | none =>
            simp [shape?, horigin] at houtput
        | some origin =>
            cases htarget : g.findNode? t with
            | none =>
                simp [shape?, htarget] at hinput
            | some target =>
                rw [shape?_outputs horigin] at houtput
                rw [shape?_inputs htarget] at hinput
                obtain ⟨out, hout, rfl⟩ := Option.map_eq_some_iff.1 houtput
                obtain ⟨inp, hinp, rfl⟩ := Option.map_eq_some_iff.1 hinput
                exact ⟨_, _, connect_eq_ok_iff.2 ⟨origin, target, out, inp, horigin, htarget,
                  hout, hinp, hadmits, rfl, rfl⟩⟩
    · simp at hadmits

/-- Whether a slot of a node has room for some more links. -/
def HasRoom (g : Graph) (id : NodeId) (slot count : Nat) : Prop :=
  ∀ input, (g.shape? id).bind (·.inputs[slot]?) = some input →
    input.intake.collects = true ∨ (g.sources id slot).length + count ≤ 1

theorem WellFormed.displaced_eq {g : Graph} (h : g.WellFormed) {t : NodeId} {slot : Nat}
    {target : Node} {input : InputSlot} (htarget : g.findNode? t = some target)
    (hinput : target.inputs[slot]? = some input) (hroom : g.HasRoom t slot 1) :
    displaced input = [] := by
  have hslot := hroom input.spec (by rw [shape?_inputs htarget, hinput]; rfl)
  rw [displaced, ← Feed.collects_intake]
  rcases hslot with hmany | hfree
  · exact if_pos hmany
  · split
    · rfl
    · obtain ⟨hnode, rfl⟩ := findNode?_mem htarget
      have hnil : g.sources target.id slot = [] := by
        apply List.eq_nil_of_length_eq_zero
        omega
      apply List.eq_nil_iff_forall_not_mem.2
      intro id hid
      obtain ⟨link, hlink, -, hend, hposition⟩ := (h.mem_input_iff hnode hinput).1 hid
      have hsource := mem_sources.2 ⟨link, hlink, hend, hposition, rfl⟩
      rw [hnil] at hsource
      simp at hsource

theorem WellFormed.connect_links {g g' : Graph} (h : g.WellFormed) (hcount : g.lastLink < lastId)
    {o t : NodeId} {os slot : Nat} {id : LinkId} (hroom : g.HasRoom t slot 1)
    (hconnect : g.connect o os t slot = .ok (id, g')) :
    (∀ other position, g'.held? other position = g.held? other position) ∧
      ∃ type, g'.links = g.links ++ [⟨id, o, os, t, slot, type, ""⟩] ∧
        ∀ link ∈ g.links, link.id ≠ id := by
  obtain ⟨origin, target, output, input, horigin, htarget, houtput, hinput, -, rfl, rfl⟩ :=
    connect_eq_ok_iff.1 hconnect
  have hnext := nextId_eq h.counters_nonneg.2 hcount
  have hbefore : ∀ link ∈ g.links, link.id < nextId g.lastLink := by
    intro link hlink
    rw [hnext]
    exact Int.lt_add_one_of_le (h.links_numbered link hlink).2
  rw [h.displaced_eq htarget hinput hroom]
  refine ⟨fun other position => held?_attach _ _ other position, output.type, ?_, ?_⟩
  · exact insertLink_of_gt hbefore
  · exact fun link hlink => Int.ne_of_lt (hbefore link hlink)

theorem WellFormed.connect_keyed {g g' : Graph} (h : g.WellFormed) (hcount : g.lastLink < lastId)
    {o t : NodeId} {slot : Nat} {id : LinkId} {key : String} (hroom : g.HasRoom t slot 1)
    (hconnect : g.connect o 0 t slot = .ok (id, g')) (other : NodeId) (position : Nat) :
    (if key = "" then g' else (g'.setKey? id key).getD g').content other position =
      ⟨g.sources other position ++ if other = t ∧ position = slot then [⟨o, key⟩] else [],
        g.held? other position⟩ := by
  obtain ⟨hheld, type, hlinks, hnew⟩ := h.connect_links hcount hroom hconnect
  have hkeyed : (if key = "" then g' else (g'.setKey? id key).getD g').links =
      g.links ++ [⟨id, o, 0, t, slot, type, key⟩] := by
    split
    · next hkey =>
        rw [hlinks, hkey]
    · rw [setKey?_getD]
      simp only [hlinks, List.map_append, List.map_singleton, if_true]
      congr 1
      refine (List.map_congr_left fun link hlink => ?_).trans (List.map_id _)
      simp [hnew link hlink]
  have hheldKeyed : (if key = "" then g' else (g'.setKey? id key).getD g').held? other position =
      g.held? other position := by
    split
    · exact hheld other position
    · rw [setKey?_getD]
      exact hheld other position
  have henters : Link.enters other position ⟨id, o, 0, t, slot, type, key⟩ = true ↔
      other = t ∧ position = slot := by
    rw [Link.enters, Bool.and_eq_true, beq_iff_eq, beq_iff_eq]
    exact and_congr eq_comm eq_comm
  rw [content, hheldKeyed, sources_of_append hkeyed]
  simp only [henters, Link.source]

/-! ## A node that joins -/

section

variable {g : Graph} {template : NodeTemplate} {x y : Float} {other : NodeId}

theorem findNode?_addNode_of_ne (hother : other ≠ (g.addNode template x y).1) :
    (g.addNode template x y).2.findNode? other = g.findNode? other := by
  have hnew : ((Node.ofTemplate template (nextId g.lastNode)).id == other) = false :=
    beq_false_of_ne (Ne.symm hother)
  rw [findNode?, addNode, List.find?_append]
  simp [findNode?, hnew]

theorem content_addNode_of_ne (hother : other ≠ (g.addNode template x y).1) (slot : Nat) :
    (g.addNode template x y).2.content other slot = g.content other slot := by
  rw [content, content, held?, findNode?_addNode_of_ne hother, sources_of_links rfl]
  rfl

/-- A node that joins changes no decision about links between others. -/
theorem admits_addNode_of_ne {origin : NodeId} (horigin : origin ≠ (g.addNode template x y).1)
    (hother : other ≠ (g.addNode template x y).1) (slot : Nat) :
    (g.addNode template x y).2.admits origin other slot = g.admits origin other slot := by
  rw [admits, admits, shape?, shape?, shape?, shape?, findNode?_addNode_of_ne horigin,
    findNode?_addNode_of_ne hother]

theorem WellFormed.ne_addNode (h : g.WellFormed) (hroom : g.lastNode < lastId)
    (hother : other ∈ g.nodes.map Node.id) : other ≠ (g.addNode template x y).1 := by
  obtain ⟨node, hnode, rfl⟩ := List.mem_map.1 hother
  have hid : (g.addNode template x y).1 = g.lastNode + 1 :=
    nextId_eq h.counters_nonneg.1 hroom
  rw [hid]
  exact Int.ne_of_lt (Int.lt_add_one_of_le (h.nodes_numbered node hnode).2)

end

theorem WellFormed.content_addNode {g : Graph} (h : g.WellFormed) (hroom : g.lastNode < lastId)
    {template : NodeTemplate} {x y : Float} {slot : Nat} {input : InputSpec}
    (hinput : template.inputs[slot]? = some input) :
    (g.addNode template x y).2.content (g.addNode template x y).1 slot =
      input.intake.freshContent := by
  have hadded := h.addNode hroom template x y
  have hid : (g.addNode template x y).1 = g.lastNode + 1 :=
    nextId_eq h.counters_nonneg.1 hroom
  have hfind : (g.addNode template x y).2.findNode? (g.addNode template x y).1 =
      some { Node.ofTemplate template (g.addNode template x y).1 with x := x, y := y } :=
    hadded.findNode?_eq_some_iff.2 ⟨List.mem_append_right _ List.mem_cons_self, rfl⟩
  have hsources : (g.addNode template x y).2.sources (g.addNode template x y).1 slot = [] := by
    have hlinks : (g.addNode template x y).2.links = g.links := rfl
    rw [sources_of_links hlinks]
    apply List.eq_nil_iff_forall_not_mem.2
    intro source hsource
    obtain ⟨link, hlink, htarget, -⟩ := mem_sources.1 hsource
    obtain ⟨node, hnode, hnodeId, -⟩ := h.count_input hlink
    rw [htarget] at hnodeId
    exact h.ne_addNode hroom (List.mem_map.2 ⟨node, hnode, hnodeId⟩) rfl
  rw [content, hsources, held?, hfind, Option.bind_some, Node.nativeAt?]
  simp only [Node.ofTemplate, List.getElem?_map, hinput, Option.map_some, Option.bind_some,
    InputSlot.ofSpec, Feed.native?_ofIntake]
  rfl

end Graph

end SlotGraph
