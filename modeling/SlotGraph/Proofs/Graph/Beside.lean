import SlotGraph.Proofs.Graph.Shift

/-!
# Graphs side by side

A graph put beside another one, with numbers that go on from those of the other: all that
is done to a node or a link of this graph is done to the shifted one in the two graphs
together, and the other graph does not notice.
-/

namespace SlotGraph

namespace Graph

/-- The offset that leads past all numbers that a graph has counted. -/
def past (g : Graph) : Offset :=
  ⟨g.lastNode, g.lastLink⟩

/-- Two graphs as one, in which the numbers of the second go on from those of the first. -/
def beside (g h : Graph) : Graph :=
  { h.shift g.past with
    nodes := g.nodes ++ h.nodes.map (Node.shift g.past)
    links := g.links ++ h.links.map (Link.shift g.past) }

theorem ext_fields {g g' : Graph} (hnodes : g'.nodes = g.nodes) (hlinks : g'.links = g.links)
    (hlastNode : g'.lastNode = g.lastNode) (hlastLink : g'.lastLink = g.lastLink) : g' = g := by
  cases g
  cases g'
  simp_all

variable {g h : Graph}

theorem beside_empty (g : Graph) : g.beside empty = g :=
  ext_fields (List.append_nil _) (List.append_nil _) (Int.zero_add _) (Int.zero_add _)

/-! ## Looking up -/

/-- The numbers of the first graph are below those of the second one. -/
theorem WellFormed.ne_past_node (hg : g.WellFormed) {id : NodeId} (hid : 0 < id) :
    ∀ node ∈ g.nodes, node.id ≠ id + g.lastNode := by
  intro node hnode
  have hle := (hg.nodes_numbered node hnode).2
  lia

theorem WellFormed.lt_past_link (hg : g.WellFormed) {id : LinkId} (hid : 0 < id) :
    ∀ link ∈ g.links, link.id < id + g.lastLink := by
  intro link hlink
  have hle := (hg.links_numbered link hlink).2
  lia

theorem WellFormed.findNode?_beside (hg : g.WellFormed) (h : Graph) {id : NodeId}
    (hid : 0 < id) :
    (g.beside h).findNode? (id + g.lastNode) = (h.findNode? id).map (Node.shift g.past) := by
  have hnone : g.nodes.find? (fun node => node.id == id + g.lastNode) = none := by
    simpa [List.find?_eq_none] using hg.ne_past_node hid
  rw [← findNode?_shift, findNode?, beside, List.find?_append, hnone, Option.none_or]
  rfl

theorem WellFormed.findLink?_beside (hg : g.WellFormed) (h : Graph) {id : LinkId}
    (hid : 0 < id) :
    (g.beside h).findLink? (id + g.lastLink) = (h.findLink? id).map (Link.shift g.past) := by
  have hnone : g.links.find? (fun link => link.id == id + g.lastLink) = none := by
    simpa [List.find?_eq_none] using fun link hlink => Int.ne_of_lt (hg.lt_past_link hid link hlink)
  rw [← findLink?_shift, findLink?, beside, List.find?_append, hnone, Option.none_or]
  rfl

/-! ## Nodes -/

theorem addNode_beside (hg : 0 ≤ g.lastNode) (hh : 0 ≤ h.lastNode)
    (hroom : g.lastNode + h.lastNode < lastId) (template : NodeTemplate) (x y : Float) :
    (g.beside h).addNode template x y =
      ((h.addNode template x y).1 + g.lastNode, g.beside (h.addNode template x y).2) := by
  have hnext : nextId (h.lastNode + g.lastNode) = nextId h.lastNode + g.lastNode := by
    rw [nextId_eq (Int.add_nonneg hh hg) (by lia), nextId_eq hh (by lia)]
    lia
  have hnew : Node.shift g.past
        { Node.ofTemplate template (nextId h.lastNode) with x := x, y := y } =
      { Node.ofTemplate template (nextId h.lastNode + g.lastNode) with x := x, y := y } :=
    congrArg (fun node => { node with x := x, y := y })
      (Node.shift_ofTemplate g.past template (nextId h.lastNode))
  refine Prod.ext hnext (ext_fields ?_ rfl hnext rfl)
  show (g.nodes ++ h.nodes.map _) ++ [_] = g.nodes ++ (h.nodes ++ [_]).map (Node.shift g.past)
  rw [List.map_append, List.map_singleton, hnew, List.append_assoc, ← hnext]
  rfl

theorem WellFormed.modifyNode_beside (hg : g.WellFormed) (h : Graph) {id : NodeId}
    (hid : 0 < id) {change change' : Node → Node}
    (hchange : ∀ node, change' (node.shift g.past) = (change node).shift g.past) :
    (g.beside h).modifyNode (id + g.lastNode) change' = g.beside (h.modifyNode id change) := by
  refine ext_fields ?_ rfl rfl rfl
  have hfirst : (g.nodes.map fun node =>
      if node.id = id + g.lastNode then change' node else node) = g.nodes := by
    refine (List.map_congr_left fun node hnode => ?_).trans (List.map_id _)
    exact if_neg (hg.ne_past_node hid node hnode)
  show (g.nodes ++ h.nodes.map (Node.shift g.past)).map _ = g.nodes ++ (h.nodes.map _).map _
  rw [List.map_append, hfirst, List.map_map, List.map_map]
  congr 1
  refine List.map_congr_left fun node _ => ?_
  have hsame : (node.shift g.past).id = id + g.lastNode ↔ node.id = id :=
    Int.add_left_inj g.lastNode
  simp only [Function.comp, hsame]
  split
  · exact hchange node
  · rfl

theorem WellFormed.setNative?_beside (hg : g.WellFormed) (h : Graph) {id : NodeId}
    (hid : 0 < id) (slot : Nat) (value : Json) :
    (g.beside h).setNative? (id + g.lastNode) slot value =
      (h.setNative? id slot value).map g.beside := by
  have hcell : (((g.beside h).findNode? (id + g.lastNode)).bind fun node =>
      node.nativeAt? slot) = (h.findNode? id).bind fun node => node.nativeAt? slot := by
    rw [hg.findNode?_beside h hid, Option.bind_map]
    exact Option.bind_congr fun node _ => node.nativeAt?_shift g.past slot
  have hset : (g.beside h).modifyNode (id + g.lastNode)
        (fun node => node.modifyFeed slot (Feed.setNative value)) =
      g.beside (h.modifyNode id fun node => node.modifyFeed slot (Feed.setNative value)) :=
    hg.modifyNode_beside h hid fun node =>
      node.modifyFeed_shift g.past (Feed.setNative_shift g.past.link value) slot
  rw [setNative?, setNative?, hcell, hset]
  split <;> rfl

/-! ## Links -/

theorem insertLink_append {link : Link} {links : List Link}
    (hbefore : ∀ other ∈ links, other.id < link.id) (rest : List Link) :
    insertLink link (links ++ rest) = links ++ insertLink link rest := by
  induction links with
  | nil =>
      rfl
  | cons first later ih =>
      have hlt := hbefore first List.mem_cons_self
      rw [List.cons_append, insertLink, if_neg (Int.not_lt.2 (Int.le_of_lt hlt)),
        if_neg (Int.ne_of_gt hlt), ih fun other hother =>
          hbefore other (List.mem_cons_of_mem first hother), List.cons_append]

theorem WellFormed.attach_beside (hg : g.WellFormed) (h : Graph) {link : Link}
    (hid : 0 < link.id) (horigin : 0 < link.origin) (htarget : 0 < link.target) :
    (g.beside h).attach (link.shift g.past) = g.beside (h.attach link) := by
  have hlisted : { g.beside h with
        links := insertLink (link.shift g.past) (g.beside h).links } =
      g.beside { h with links := insertLink link h.links } := by
    refine ext_fields rfl ?_ rfl rfl
    show insertLink _ (g.links ++ h.links.map _) = g.links ++ (insertLink link h.links).map _
    rw [insertLink_append (hg.lt_past_link hid), insertLink_shift]
  have hleft : (g.beside { h with links := insertLink link h.links }).modifyNode
        (link.origin + g.lastNode)
        (fun node => node.modifyOutput link.originSlot fun links =>
          links ++ [link.id + g.lastLink]) =
      g.beside ({ h with links := insertLink link h.links }.modifyNode link.origin
        fun node => node.modifyOutput link.originSlot fun links => links ++ [link.id]) :=
    hg.modifyNode_beside _ horigin fun node =>
      node.modifyOutput_shift g.past (fun links => by simp [past]) link.originSlot
  rw [Graph.attach, hlisted]
  refine (congrArg (fun g' : Graph => g'.modifyNode _ _) hleft).trans ?_
  exact hg.modifyNode_beside _ htarget fun node =>
    node.modifyFeed_shift g.past (Feed.attach_shift g.past.link link.id) link.targetSlot

theorem WellFormed.detach_beside (hg : g.WellFormed) (h : Graph) {link : Link}
    (hid : 0 < link.id) (horigin : 0 < link.origin) (htarget : 0 < link.target) :
    (g.beside h).detach (link.shift g.past) = g.beside (h.detach link) := by
  have hfirst : (g.links.filter fun other => other.id != (link.shift g.past).id) = g.links :=
    List.filter_eq_self.2 fun other hother =>
      bne_iff_ne.2 (Int.ne_of_lt (hg.lt_past_link hid other hother))
  have hstruck : { g.beside h with
        links := (g.beside h).links.filter fun other => other.id != (link.shift g.past).id } =
      g.beside { h with links := h.links.filter fun other => other.id != link.id } := by
    refine ext_fields rfl ?_ rfl rfl
    show (g.links ++ h.links.map _).filter _ = g.links ++ (h.links.filter _).map _
    rw [List.filter_append, hfirst, List.filter_map]
    congr 2
    exact List.filter_congr fun other _ =>
      congrArg not (add_beq_add other.id link.id g.lastLink)
  have hleft : (g.beside { h with
          links := h.links.filter fun other => other.id != link.id }).modifyNode
        (link.origin + g.lastNode)
        (fun node => node.modifyOutput link.originSlot fun links =>
          links.filter fun other => other != link.id + g.lastLink) =
      g.beside ({ h with links := h.links.filter fun other => other.id != link.id }.modifyNode
        link.origin fun node => node.modifyOutput link.originSlot fun links =>
          links.filter fun other => other != link.id) :=
    hg.modifyNode_beside _ horigin fun node =>
      node.modifyOutput_shift g.past (fun links => filter_map_add links link.id g.lastLink)
        link.originSlot
  rw [Graph.detach, hstruck]
  refine (congrArg (fun g' : Graph => g'.modifyNode _ _) hleft).trans ?_
  exact hg.modifyNode_beside _ htarget fun node =>
    node.modifyFeed_shift g.past (Feed.detach_shift g.past.link link.id) link.targetSlot

theorem WellFormed.ends_pos (hh : h.WellFormed) {link : Link} (hlink : link ∈ h.links) :
    0 < link.origin ∧ 0 < link.target := by
  obtain ⟨origin, horigin, horiginId, -⟩ := hh.count_output hlink
  obtain ⟨target, htarget, htargetId, -⟩ := hh.count_input hlink
  exact ⟨horiginId ▸ (hh.nodes_numbered origin horigin).1,
    htargetId ▸ (hh.nodes_numbered target htarget).1⟩

theorem WellFormed.dropLink_beside (hg : g.WellFormed) (hh : h.WellFormed) {id : LinkId}
    (hid : 0 < id) : (g.beside h).dropLink (id + g.lastLink) = g.beside (h.dropLink id) := by
  rw [Graph.dropLink, Graph.dropLink, hg.findLink?_beside h hid]
  cases hfind : h.findLink? id with
  | none =>
      rfl
  | some link =>
      obtain ⟨hlink, rfl⟩ := findLink?_mem hfind
      obtain ⟨horigin, htarget⟩ := hh.ends_pos hlink
      exact hg.detach_beside h hid horigin htarget

theorem WellFormed.dropLinks_beside (hg : g.WellFormed) (hh : h.WellFormed)
    {ids : List LinkId} (hids : ∀ id ∈ ids, 0 < id) :
    (g.beside h).dropLinks (ids.map (· + g.lastLink)) = g.beside (h.dropLinks ids) := by
  induction ids generalizing h with
  | nil =>
      rfl
  | cons id rest ih =>
      obtain ⟨hfirst, hrest⟩ := List.forall_mem_cons.1 hids
      show ((g.beside h).dropLink (id + g.lastLink)).dropLinks _ = _
      rw [hg.dropLink_beside hh hfirst]
      exact ih (hh.dropLink id) hrest

theorem displaced_shift (d : Int) (input : InputSlot) :
    displaced (input.shift d) = (displaced input).map (· + d) := by
  unfold displaced
  rw [InputSlot.shift, Feed.collects_shift, Feed.links_shift]
  split <;> rfl

theorem WellFormed.displaced_pos (hh : h.WellFormed) {target : Node} (htarget : target ∈ h.nodes)
    {slot : Nat} {input : InputSlot} (hinput : target.inputs[slot]? = some input) :
    ∀ id ∈ displaced input, 0 < id := by
  intro id hid
  unfold displaced at hid
  split at hid
  · simp at hid
  · obtain ⟨link, hlink, rfl, -⟩ := (hh.mem_input_iff htarget hinput).1 hid
    exact (hh.links_numbered link hlink).1

theorem WellFormed.connect_beside_error (hg : g.WellFormed) {o t : NodeId} {os ts : Nat}
    (ho : 0 < o) (ht : 0 < t) {fault : LinkFault} (hconnect : h.connect o os t ts = .error fault) :
    (g.beside h).connect (o + g.lastNode) os (t + g.lastNode) ts = .error fault := by
  unfold Graph.connect at hconnect ⊢
  rw [hg.findNode?_beside h ho, hg.findNode?_beside h ht]
  cases horigin : h.findNode? o with
  | none =>
      rw [horigin] at hconnect
      exact hconnect
  | some origin =>
      cases htarget : h.findNode? t with
      | none =>
          rw [horigin, htarget] at hconnect
          exact hconnect
      | some target =>
          rw [horigin, htarget] at hconnect
          simp only [Option.map_some, Node.shift, List.getElem?_map] at hconnect ⊢
          cases houtput : origin.outputs[os]? with
          | none =>
              rw [houtput] at hconnect
              exact hconnect
          | some output =>
              cases hinput : target.inputs[ts]? with
              | none =>
                  rw [houtput, hinput] at hconnect
                  exact hconnect
              | some input =>
                  rw [houtput, hinput] at hconnect
                  simp only [Option.map_some, OutputSlot.shift, InputSlot.shift] at hconnect ⊢
                  split at hconnect
                  · simp at hconnect
                  · next hrefused =>
                      rw [if_neg hrefused]
                      exact hconnect

/-- A link that is made is made beside another graph, under the next number there. -/
theorem WellFormed.connect_beside_ok (hg : g.WellFormed) (hh : h.WellFormed) {o t : NodeId}
    {os ts : Nat} (ho : 0 < o) (ht : 0 < t) {id : LinkId} {h' : Graph}
    (hconnect : h.connect o os t ts = .ok (id, h')) :
    ∃ id' g', (g.beside h).connect (o + g.lastNode) os (t + g.lastNode) ts = .ok (id', g') ∧
      (g.lastLink + h.lastLink < lastId → id' = id + g.lastLink ∧ g' = g.beside h') := by
  obtain ⟨origin, target, output, input, horigin, htarget, houtput, hinput, hfits, rfl, rfl⟩ :=
    connect_eq_ok_iff.1 hconnect
  have horigin' := hg.findNode?_beside h ho
  have htarget' := hg.findNode?_beside h ht
  rw [horigin, Option.map_some] at horigin'
  rw [htarget, Option.map_some] at htarget'
  have houtput' : (origin.shift g.past).outputs[os]? = some (output.shift g.past) := by
    rw [Node.shift, List.getElem?_map, houtput, Option.map_some]
  have hinput' : (target.shift g.past).inputs[ts]? = some (input.shift g.past.link) := by
    rw [Node.shift, List.getElem?_map, hinput, Option.map_some]
  refine ⟨_, _, connect_eq_ok_iff.2 ⟨_, _, _, _, horigin', htarget', houtput', hinput', hfits,
    rfl, rfl⟩, fun hroom => ?_⟩
  have hpos := hg.counters_nonneg.2
  have hpos' := hh.counters_nonneg.2
  have hnext : nextId (h.lastLink + g.lastLink) = nextId h.lastLink + g.lastLink := by
    rw [nextId_eq (Int.add_nonneg hpos' hpos) (by lia), nextId_eq hpos' (by lia)]
    lia
  have hcleared := hg.dropLinks_beside hh (hh.displaced_pos (findNode?_mem htarget).1 hinput)
  have hcounted : { (g.beside h).dropLinks (displaced (input.shift g.past.link)) with
        lastLink := nextId (h.lastLink + g.lastLink) } =
      g.beside { h.dropLinks (displaced input) with lastLink := nextId h.lastLink } := by
    rw [displaced_shift, hnext]
    exact congrArg (fun g' : Graph => { g' with lastLink := nextId h.lastLink + g.lastLink })
      hcleared
  have hid : 0 < (Link.mk (nextId h.lastLink) o os t ts output.type "").id := by
    show 0 < nextId h.lastLink
    rw [nextId_eq hpos' (by lia)]
    lia
  have hattached :=
    hg.attach_beside { h.dropLinks (displaced input) with lastLink := nextId h.lastLink } hid ho ht
  refine ⟨hnext, ?_⟩
  rw [← hattached, ← hcounted]
  exact congrArg (fun number => Graph.attach _
    ⟨number, o + g.lastNode, os, t + g.lastNode, ts, output.type, ""⟩) hnext

theorem WellFormed.setKey?_beside (hg : g.WellFormed) (h : Graph) {id : LinkId} (hid : 0 < id)
    (key : String) :
    (g.beside h).setKey? (id + g.lastLink) key = (h.setKey? id key).map g.beside := by
  have hfound : ((g.beside h).findLink? (id + g.lastLink)).isNone = (h.findLink? id).isNone := by
    rw [hg.findLink?_beside h hid, Option.isNone_map]
  have hlinks : ((g.beside h).links.map fun link =>
        if link.id = id + g.lastLink then { link with key := key } else link) =
      g.links ++ (h.links.map fun link =>
        if link.id = id then { link with key := key } else link).map (Link.shift g.past) := by
    have hfirst : (g.links.map fun link =>
        if link.id = id + g.lastLink then { link with key := key } else link) = g.links := by
      refine (List.map_congr_left fun link hlink => ?_).trans (List.map_id _)
      exact if_neg (Int.ne_of_lt (hg.lt_past_link hid link hlink))
    show (g.links ++ h.links.map (Link.shift g.past)).map _ = _
    rw [List.map_append, hfirst, List.map_map, List.map_map]
    congr 1
    refine List.map_congr_left fun link _ => ?_
    have hsame : (link.shift g.past).id = id + g.lastLink ↔ link.id = id :=
      Int.add_left_inj g.lastLink
    simp only [Function.comp, hsame]
    split <;> rfl
  rw [setKey?, Graph.setKey?, hfound]
  split
  · rfl
  · exact congrArg some (ext_fields rfl hlinks rfl rfl)

end Graph

end SlotGraph
