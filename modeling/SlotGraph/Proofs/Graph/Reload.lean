import SlotGraph.Proofs.Graph.Linking
import SlotGraph.Proofs.Graph.NodeDocument

/-!
# Graphs read back from their documents

A graph whose nodes are found among the templates of a registry is read back from its
document with all its nodes and links.  Links are listed in the document by number, and
so are they in the slots of the graph that is read back; what the document says of that
graph is what it said of the first.
-/

namespace SlotGraph

namespace Graph

/-- Whether a registry has the template that a node was made from. -/
structure Findable (registry : Registry) (node : Node) : Prop where
  named : node.schemaName ≠ "" ∧ node.className ≠ ""
  found : ∃ template, registry.find? node.schemaName node.className = some template ∧
    node.MadeFrom template
  /-- Slots are numbered in 64 bits. -/
  slots : node.inputs.length ≤ 2 ^ 64 ∧ node.outputs.length ≤ 2 ^ 64

/-- A graph that says all that there is to say of it in its document. -/
structure Storable (registry : Registry) (g : Graph) : Prop where
  wellFormed : g.WellFormed
  held : g.Held
  findable : ∀ node ∈ g.nodes, Findable registry node

/-- A graph with the nodes, links and counters of another, links listed by number. -/
structure Reloads (g g' : Graph) : Prop where
  wellFormed : g'.WellFormed
  inOrder : g'.InOrder
  nodes : g'.nodes.map Node.bare = g.nodes.map Node.bare
  links : g'.links = g.links
  lastNode : g'.lastNode = g.lastNode
  lastLink : g'.lastLink = g.lastLink

variable {registry : Registry} {g g' : Graph}

/-! ## Bare nodes -/

theorem shapes_of_bare (h : g'.nodes.map Node.bare = g.nodes.map Node.bare) :
    g'.shapes = g.shapes := by
  have hshape : ∀ node : Node, node.bare.shape = node.shape := by
    intro node
    simp [Node.bare, Node.shape, InputSlot.spec, OutputSlot.spec, Function.comp_def]
  have hview : ∀ nodes : List Node, nodes.map (fun node => (node.id, node.shape)) =
      (nodes.map Node.bare).map fun node => (node.id, node.shape) := by
    intro nodes
    rw [List.map_map]
    exact List.map_congr_left fun node _ => by simp only [Function.comp, hshape]; rfl
  rw [shapes, shapes, hview, h, ← hview]

theorem bare_modifyNode {id : NodeId} {change : Node → Node}
    (hbare : ∀ node, (change node).bare = node.bare) (g : Graph) :
    (g.modifyNode id change).nodes.map Node.bare = g.nodes.map Node.bare := by
  rw [modifyNode, List.map_map]
  refine List.map_congr_left fun node _ => ?_
  simp only [Function.comp]
  split
  · exact hbare node
  · rfl

theorem bare_attach (g : Graph) (link : Link) :
    (g.attach link).nodes.map Node.bare = g.nodes.map Node.bare := by
  have hfeed : ∀ feed : Feed, (feed.attach link.id).unlinked = feed.unlinked := by
    intro feed
    cases feed <;> rfl
  refine (bare_modifyNode (fun node => ?_) _).trans (bare_modifyNode (fun node => ?_) _)
  · have hinputs := Node.modify_map_eq
      (fun input => { input with feed := Feed.attach link.id input.feed })
      (fun input => { input with feed := input.feed.unlinked })
      (fun input => by simp only [hfeed]) node.inputs link.targetSlot
    rw [Node.bare, Node.modifyFeed, hinputs]
    rfl
  · have houtputs := Node.modify_map_eq
      (fun output => { output with links := output.links ++ [link.id] })
      (fun output => ({ output with links := [], cached := none } : OutputSlot))
      (fun _ => rfl) node.outputs link.originSlot
    rw [Node.bare, Node.modifyOutput, houtputs]
    rfl

theorem nodeDocument_bare (node : Node) : nodeDocument node.bare = nodeDocument node := by
  have hnatives : nativesDocument node.bare.inputs = nativesDocument node.inputs := by
    rw [nativesDocument, nativesDocument, Node.bare, List.zipIdx_map, List.filterMap_map]
    refine congrArg Json.ofMembers (List.filterMap_congr fun indexed _ => ?_)
    simp only [Function.comp, Prod.map, Feed.native?_unlinked]
    rfl
  rw [nodeDocument, hnatives]
  rfl

/-- A document tells graphs with the same bare nodes, links and counters not apart. -/
theorem document_congr (hnodes : g'.nodes.map Node.bare = g.nodes.map Node.bare)
    (hlinks : g'.links = g.links) (hlastNode : g'.lastNode = g.lastNode)
    (hlastLink : g'.lastLink = g.lastLink) : g'.document = g.document := by
  have hview : ∀ nodes : List Node,
      nodes.map nodeDocument = (nodes.map Node.bare).map nodeDocument := by
    intro nodes
    rw [List.map_map]
    exact List.map_congr_left fun node _ => (nodeDocument_bare node).symm
  rw [document, document, hlinks, hlastNode, hlastLink, hview g'.nodes, hnodes, ← hview]

/-! ## Loading nodes -/

/-- A node is restored from its document where its number is free. -/
theorem loadNode_document {node : Node} (hfindable : Findable registry node)
    (hlow : 0 < node.id) (hhigh : node.id ≤ lastId)
    (hfree : node.id ∉ g.nodes.map Node.id) (hlink : 0 ≤ g.lastLink) :
    loadNode registry g (nodeDocument node) =
      ({ g with nodes := g.nodes ++ [node.bare], lastNode := max g.lastNode node.id }, []) := by
  obtain ⟨⟨hschema, hclass⟩, ⟨template, hfind, hmade⟩, hslots, -⟩ := hfindable
  have htemplate : templateOf? registry (nodeDocument node) = some template := by
    obtain ⟨hschemaName, hclassName, -⟩ := names_nodeDocument node
    rw [templateOf?, hschemaName, hclassName]
    simp only [if_pos (And.intro hschema hclass), hfind]
    rfl
  have hrestore : g.restoreNode? node.bare =
      some { g with nodes := g.nodes ++ [node.bare], lastNode := max g.lastNode node.id } := by
    have hnone : (g.findNode? node.bare.id).isSome = false := by
      rw [← Bool.not_eq_true, findNode?_isSome]
      rintro ⟨other, hother, hid⟩
      exact hfree (List.mem_map.2 ⟨other, hother, hid⟩)
    have hpositive : ¬ node.bare.id ≤ 0 := Int.not_le.2 hlow
    have hcounter : max g.lastLink 0 = g.lastLink := Int.max_eq_left hlink
    rw [restoreNode?, if_neg (by simp [hnone, hpositive])]
    simp only [raiseCounters, Node.bare_unlinked, hcounter]
    rfl
  have hobject : (nodeDocument node).isObject = true := rfl
  rw [loadNode, hobject]
  simp only [Bool.not_true, Bool.false_eq_true, if_false, htemplate,
    nodeOfDocument_nodeDocument hmade (Int.le_of_lt hlow) hhigh hslots, hrestore,
    Option.getD_some]

theorem loadNodes_documents {nodes : List Node} {last : NodeId}
    (hfindable : ∀ node ∈ nodes, Findable registry node)
    (hnumbers : ∀ node ∈ nodes, 0 < node.id ∧ node.id ≤ last) (hlast : last ≤ lastId)
    (hdistinct : (g.nodes.map Node.id ++ nodes.map Node.id).Nodup)
    (hnode : g.lastNode ≤ last) (hlink : 0 ≤ g.lastLink) :
    ∃ g', loadNodes registry g (nodes.map nodeDocument) = (g', []) ∧
      g'.nodes = g.nodes ++ nodes.map Node.bare ∧ g'.links = g.links ∧
      g'.lastLink = g.lastLink ∧ g'.lastNode ≤ last := by
  induction nodes generalizing g with
  | nil =>
      exact ⟨g, rfl, by simp, rfl, rfl, hnode⟩
  | cons node rest ih =>
      -- No node restored so far has the number of this one, since the graph had both.
      obtain ⟨hlow, hhigh⟩ := hnumbers node List.mem_cons_self
      have hfree : node.id ∉ g.nodes.map Node.id := fun hmem =>
        (List.nodup_append.1 hdistinct).2.2 _ hmem _ List.mem_cons_self rfl
      have hfirst := loadNode_document (hfindable node List.mem_cons_self) hlow
        (Int.le_trans hhigh hlast) hfree hlink
      obtain ⟨g', hload, hnodes, hlinks, hlastLink, hlastNode⟩ :=
        ih (g := { g with nodes := g.nodes ++ [node.bare], lastNode := max g.lastNode node.id })
          (fun other hother => hfindable other (List.mem_cons_of_mem _ hother))
          (fun other hother => hnumbers other (List.mem_cons_of_mem _ hother))
          (by simpa [Node.bare] using hdistinct) (Int.max_le.2 ⟨hnode, hhigh⟩) hlink
      refine ⟨g', ?_, by simpa using hnodes, hlinks, hlastLink, hlastNode⟩
      rw [List.map_cons, loadNodes, hfirst]
      simp only [hload, List.nil_append]

/-! ## Loading links -/

theorem WellFormed.single_entered (h : g.WellFormed) {node : Node} {slot : Nat}
    {input : InputSlot} (hnode : node ∈ g.nodes) (hslot : node.inputs[slot]? = some input)
    (hsingle : input.feed.collects = false) {a b : Link} (ha : a ∈ g.links) (hb : b ∈ g.links)
    (haEnd : a.target = node.id ∧ a.targetSlot = slot)
    (hbEnd : b.target = node.id ∧ b.targetSlot = slot) : a = b := by
  have hlisted : ∀ link ∈ g.links, link.target = node.id ∧ link.targetSlot = slot →
      link.id ∈ input.feed.links :=
    fun link hlink hend => (h.mem_input_iff hnode hslot).2 ⟨link, hlink, rfl, hend⟩
  refine h.link_unique ha hb ?_
  have haId := hlisted a ha haEnd
  have hbId := hlisted b hb hbEnd
  cases hfeed : input.feed with
  | many keyed links =>
      rw [hfeed] at hsingle
      exact absurd hsingle (by simp [Feed.collects])
  | single held native =>
      rw [hfeed, Feed.links, Option.mem_toList] at haId hbId
      exact Option.some.inj (haId.symm.trans hbId)

/-- The graph that loading has come to, having restored some links of a graph. -/
structure Loading (g : Graph) (done : List Link) (h : Graph) : Prop where
  wellFormed : h.WellFormed
  inOrder : h.InOrder
  nodes : h.nodes.map Node.bare = g.nodes.map Node.bare
  links : h.links = done
  lastNode : h.lastNode ≤ g.lastNode
  lastLink : h.lastLink ≤ g.lastLink

section

variable {h : Graph} {done rest : List Link} {link : Link} (hg : g.Storable registry)
  (hlinks : g.links = done ++ link :: rest) (hload : Loading g done h)

include hlinks

theorem mem_of_links : link ∈ g.links := by
  rw [hlinks]
  exact List.mem_append_right _ List.mem_cons_self

include hg

theorem lt_of_mem_done : ∀ other ∈ done, other.id < link.id := by
  intro other hother
  have hascending := hg.wellFormed.links_ascending
  rw [hlinks, List.map_append, List.map_cons] at hascending
  exact (List.pairwise_append.1 hascending).2.2 _ (List.mem_map_of_mem hother) _
    List.mem_cons_self

theorem linkOfDocument_of_mem : linkOfDocument (linkDocument link) = link := by
  have hmem := mem_of_links hlinks
  have hfits : ∀ {n last : Int}, 0 < n ∧ n ≤ last → last ≤ lastId → 0 ≤ n ∧ n ≤ lastId :=
    fun hn hlast => ⟨Int.le_of_lt hn.1, Int.le_trans hn.2 hlast⟩
  obtain ⟨origin, horigin, horiginId, output, houtput, -⟩ := hg.wellFormed.count_output hmem
  obtain ⟨target, htarget, htargetId, input, hinput, -⟩ := hg.wellFormed.count_input hmem
  refine linkOfDocument_linkDocument (hfits (hg.wellFormed.links_numbered link hmem) hg.held.2)
    ?_ ?_ ⟨?_, ?_⟩
  · rw [← horiginId]
    exact hfits (hg.wellFormed.nodes_numbered origin horigin) hg.held.1
  · rw [← htargetId]
    exact hfits (hg.wellFormed.nodes_numbered target htarget) hg.held.1
  · have hlt := (List.getElem?_eq_some_iff.1 houtput).1
    exact Nat.lt_of_lt_of_le hlt (hg.findable origin horigin).slots.2
  · have hlt := (List.getElem?_eq_some_iff.1 hinput).1
    exact Nat.lt_of_lt_of_le hlt (hg.findable target htarget).slots.1

include hload

/-- The slot that a link entered has room for it: no earlier link entered a single slot. -/
theorem Loading.hasRoom : h.HasRoom link.target link.targetSlot 1 := by
  intro spec hspec
  have hmem := mem_of_links hlinks
  obtain ⟨target, htarget, htargetId, input, hinput, -⟩ := hg.wellFormed.count_input hmem
  have hfind : g.findNode? link.target = some target :=
    htargetId ▸ hg.wellFormed.findNode?_eq htarget
  rw [shape?_congr (shapes_of_bare hload.nodes), shape?_inputs hfind, hinput] at hspec
  obtain rfl := Option.some.inj hspec
  cases hcollects : input.feed.collects with
  | true =>
      exact Or.inl (by rwa [← Feed.collects_intake] at hcollects)
  | false =>
      right
      have hnone : h.sources link.target link.targetSlot = [] := by
        refine List.eq_nil_iff_forall_not_mem.2 fun source hsource => ?_
        obtain ⟨other, hother, hotherTarget, hotherSlot, -⟩ := mem_sources.1 hsource
        rw [hload.links] at hother
        have hmemOther : other ∈ g.links := by
          rw [hlinks]
          exact List.mem_append_left _ hother
        have hsame := hg.wellFormed.single_entered htarget hinput hcollects hmemOther hmem
          ⟨hotherTarget.trans htargetId.symm, hotherSlot⟩ ⟨htargetId.symm, rfl⟩
        exact Int.lt_irrefl _ (hsame ▸ lt_of_mem_done hg hlinks other hother)
      rw [hnone]
      decide

/-- The next link is restored as well, into the slot that it entered. -/
theorem Loading.step : Loading g (done ++ [link]) (loadLink h (linkDocument link)) := by
  have hmem := mem_of_links hlinks
  obtain ⟨hpositive, hcounted⟩ := hg.wellFormed.links_numbered link hmem
  have hshapes := shapes_of_bare hload.nodes
  obtain ⟨origin, horigin, horiginId, output, houtput, -⟩ := hg.wellFormed.count_output hmem
  obtain ⟨target, htarget, htargetId, input, hinput, -⟩ := hg.wellFormed.count_input hmem
  obtain ⟨origin', horigin', horiginId', houtputs, -⟩ := exists_slots_of_shapes hshapes horigin
  obtain ⟨target', htarget', htargetId', -, hinputs⟩ := exists_slots_of_shapes hshapes htarget
  have hleaves : link.originSlot < origin'.outputs.length :=
    houtputs ▸ (List.getElem?_eq_some_iff.1 houtput).1
  have henters : link.targetSlot < target'.inputs.length :=
    hinputs ▸ (List.getElem?_eq_some_iff.1 hinput).1
  have hinput' := List.getElem?_eq_getElem henters
  have hfindOrigin : h.findNode? link.origin = some origin' :=
    hload.wellFormed.findNode?_eq_some_iff.2 ⟨horigin', horiginId'.trans horiginId⟩
  have hfindTarget : h.findNode? link.target = some target' :=
    hload.wellFormed.findNode?_eq_some_iff.2 ⟨htarget', htargetId'.trans htargetId⟩
  have hentered : h.entered? link = some target'.inputs[link.targetSlot] :=
    entered?_eq_some_iff.2 ⟨origin', target', hfindOrigin, hfindTarget, hleaves, hinput'⟩
  -- Of the links of a well-formed graph none displaces another when it is restored.
  have hdisplaced : displaced target'.inputs[link.targetSlot] = [] :=
    hload.wellFormed.displaced_eq hfindTarget hinput' (hload.hasRoom hg hlinks)
  have hbefore : ∀ other ∈ h.links, other.id < link.id := by
    rw [hload.links]
    exact lt_of_mem_done hg hlinks
  have hnew : ¬ (link.id ≤ 0 ∨ (h.findLink? link.id).isSome) := by
    rw [not_or, Int.not_le, findLink?_isSome]
    refine ⟨hpositive, ?_⟩
    rintro ⟨other, hother, hid⟩
    exact Int.ne_of_lt (hbefore other hother) hid
  have hrestore : h.restoreLink? link = some ((h.attach link).raiseCounters 0 link.id) := by
    rw [restoreLink?, if_neg hnew, hentered, Option.map_some, hdisplaced]
    rfl
  have hfit := hload.wellFormed.fitting_dropLinks link horigin'
    (horiginId'.trans horiginId) hleaves htarget' (htargetId'.trans htargetId) hinput'
  rw [hdisplaced] at hfit
  have hresult : loadLink h (linkDocument link) = (h.attach link).raiseCounters 0 link.id := by
    have hobject : (linkDocument link).isObject = true := rfl
    rw [loadLink, if_pos hobject, linkOfDocument_of_mem hg hlinks, hrestore, Option.getD_some]
  rw [hresult]
  exact
    { wellFormed := hload.wellFormed.restoreLink hrestore
      inOrder := hload.inOrder.attach hload.wellFormed.inputs_agree hfit.room hbefore
      nodes := (bare_attach h link).trans hload.nodes
      links := by
        show insertLink link h.links = done ++ [link]
        rw [insertLink_of_gt hbefore, hload.links]
      lastNode := Int.max_le.2 ⟨hload.lastNode, hg.wellFormed.counters_nonneg.1⟩
      lastLink := Int.max_le.2 ⟨hload.lastLink, hcounted⟩ }

end

theorem Loading.run {h : Graph} {done rest : List Link} (hg : g.Storable registry)
    (hlinks : g.links = done ++ rest) (hload : Loading g done h) :
    Loading g g.links ((rest.map linkDocument).foldl loadLink h) := by
  induction rest generalizing h done with
  | nil =>
      rw [hlinks, List.append_nil]
      exact hload
  | cons link rest ih =>
      exact ih (by simpa using hlinks) (hload.step hg hlinks)

/-! ## Loading a graph -/

theorem InOrder.of_bare (hnodes : g'.nodes = g.nodes.map Node.bare) : g'.InOrder := by
  intro row hrow ids hids
  obtain ⟨node, hnode, rfl⟩ := List.mem_map.1 hrow
  obtain ⟨input, hinput, rfl⟩ := List.mem_map.1 hids
  rw [hnodes] at hnode
  obtain ⟨old, -, rfl⟩ := List.mem_map.1 hnode
  obtain ⟨slot, -, rfl⟩ := List.mem_map.1 hinput
  simp

theorem Storable.int64At_document (hg : g.Storable registry) :
    g.document.int64At "last_node_id" = g.lastNode ∧
      g.document.int64At "last_link_id" = g.lastLink := by
  have hread : g.document.int64At "last_node_id" = ((Json.int g.lastNode).int64?).getD 0 ∧
      g.document.int64At "last_link_id" = ((Json.int g.lastLink).int64?).getD 0 := ⟨rfl, rfl⟩
  rw [hread.1, hread.2, int64?_of_mem hg.wellFormed.counters_nonneg.1 hg.held.1,
    int64?_of_mem hg.wellFormed.counters_nonneg.2 hg.held.2]
  exact ⟨rfl, rfl⟩

/--
A graph is read back from its document, into a graph whose counters have not counted
further, with all its nodes and links and without an issue.
-/
theorem Storable.load (hg : g.Storable registry) {base : Graph} (hbase : base.WellFormed)
    (hlastNode : base.lastNode ≤ g.lastNode) (hlastLink : base.lastLink ≤ g.lastLink) :
    ∃ g', load? registry base g.document = some (g', []) ∧ Reloads g g' := by
  have hclear := hbase.clear
  obtain ⟨withNodes, hload, hnodes, hlinks, hlink, hnode⟩ :=
    loadNodes_documents (g := base.clear) hg.findable hg.wellFormed.nodes_numbered hg.held.1
      (by simpa [Graph.clear] using hg.wellFormed.nodes_distinct) hlastNode
      hclear.counters_nonneg.2
  rw [show base.clear.nodes = [] from rfl, List.nil_append] at hnodes
  have hwf : withNodes.WellFormed := by
    have hloaded := hclear.loadNodes registry (g.nodes.map nodeDocument)
    rwa [hload] at hloaded
  have hstart : Loading g [] withNodes :=
    { wellFormed := hwf
      inOrder := InOrder.of_bare hnodes
      nodes := by
        rw [hnodes, List.map_map]
        exact List.map_congr_left fun node _ => Node.bare_bare node
      links := hlinks
      lastNode := hnode
      lastLink := by
        rw [hlink]
        exact hlastLink }
  have hdone := hstart.run hg rfl
  -- Neither a node nor a link has raised a counter past that of the graph.
  have hraise : ∀ {n last : Int}, n ≤ last → max n last = last := Int.max_eq_right
  refine ⟨_, ?_, hdone.wellFormed.raiseCounters g.lastNode g.lastLink, hdone.inOrder, hdone.nodes,
    hdone.links, hraise hdone.lastNode, hraise hdone.lastLink⟩
  have hcounters := hg.int64At_document
  have hlists : (g.document.get? "nodes").bind Json.items? = some (g.nodes.map nodeDocument) ∧
      (g.document.get? "links").bind Json.items? = some (g.links.map linkDocument) := ⟨rfl, rfl⟩
  rw [load?, hlists.1, hlists.2, hcounters.1, hcounters.2, Option.map_some]
  simp only [hload, Option.getD_some]

end Graph

end SlotGraph
