import SlotGraph.Graph.Evaluate
import SlotGraph.Proofs.Graph.Shape
import SlotGraph.Proofs.Graph.WellFormed

/-!
# Edits keep graphs well formed

One lemma for each edit of a graph.  Edits that leave the slot lists alone follow
from one congruence; those that make or drop links come down to listing one new
link and striking one old one.
-/

namespace SlotGraph

namespace Feed

@[simp] theorem links_detach (id : LinkId) (feed : Feed) :
    (feed.detach id).links = feed.links.filter fun other => other != id := by
  cases feed with
  | many keyed links =>
      rfl
  | single held native =>
      cases held with
      | none =>
          simp [detach, links]
      | some other =>
          by_cases heq : other = id <;> simp [detach, links, heq]

/-- A slot that holds no link yet, or takes many, lists the new one last. -/
theorem links_attach {id : LinkId} {feed : Feed} (hroom : feed.collects ∨ feed.links = []) :
    (feed.attach id).links = feed.links ++ [id] := by
  cases feed with
  | many keyed links =>
      rfl
  | single held native =>
      cases held with
      | none =>
          rfl
      | some other =>
          simp [collects, links] at hroom

@[simp] theorem links_setNative (value : Json) (feed : Feed) :
    (feed.setNative value).links = feed.links := by
  cases feed <;> rfl

@[simp] theorem links_unlinked (feed : Feed) : feed.unlinked.links = [] := by
  cases feed <;> rfl

@[simp] theorem links_ofIntake (intake : Intake) : (ofIntake intake).links = [] := by
  cases intake <;> rfl

end Feed

namespace Graph

/-! ## Rows of a changed graph -/

theorem map_modify {α β : Type} {change : α → α} {view : α → β} {change' : β → β}
    {xs : List α} {i : Nat}
    (hcomm : ∀ x, xs[i]? = some x → view (change x) = change' (view x)) :
    (xs.modify i change).map view = (xs.map view).modify i change' := by
  apply List.ext_getElem?
  intro j
  rw [List.getElem?_map, List.getElem?_modify, List.getElem?_modify, List.getElem?_map]
  by_cases hij : i = j
  · subst hij
    cases hx : xs[i]? with
    | none =>
        rfl
    | some x =>
        simp [hcomm x hx]
  · simp [hij]

theorem outRows_modifyOutput (g : Graph) (id : NodeId) (slot : Nat)
    (change : List LinkId → List LinkId) :
    (g.modifyNode id fun node => node.modifyOutput slot change).outRows =
      modifyRows id slot change g.outRows := by
  simp only [outRows, modifyNode, modifyRows, List.map_map]
  apply List.map_congr_left
  intro node _
  by_cases hid : node.id = id
  · simp only [Function.comp, hid, if_true, Node.modifyOutput]
    exact congrArg (Prod.mk id) (map_modify fun _ _ => rfl)
  · simp [hid]

theorem inRows_modifyOutput (g : Graph) (id : NodeId) (slot : Nat)
    (change : List LinkId → List LinkId) :
    (g.modifyNode id fun node => node.modifyOutput slot change).inRows = g.inRows := by
  simp only [inRows, modifyNode, List.map_map]
  apply List.map_congr_left
  intro node _
  simp only [Function.comp]
  split <;> rfl

theorem outRows_modifyFeed (g : Graph) (id : NodeId) (slot : Nat) (change : Feed → Feed) :
    (g.modifyNode id fun node => node.modifyFeed slot change).outRows = g.outRows := by
  simp only [outRows, modifyNode, List.map_map]
  apply List.map_congr_left
  intro node _
  simp only [Function.comp]
  split <;> rfl

theorem inRows_modifyFeed {g : Graph} {id : NodeId} {slot : Nat} {change : Feed → Feed}
    {change' : List LinkId → List LinkId}
    (hchange : ∀ node ∈ g.nodes, node.id = id → ∀ input, node.inputs[slot]? = some input →
      (change input.feed).links = change' input.feed.links) :
    (g.modifyNode id fun node => node.modifyFeed slot change).inRows =
      modifyRows id slot change' g.inRows := by
  simp only [inRows, modifyNode, modifyRows, List.map_map]
  apply List.map_congr_left
  intro node hnode
  by_cases hid : node.id = id
  · simp only [Function.comp, hid, if_true, Node.modifyFeed]
    exact congrArg (Prod.mk id) (map_modify fun input hinput => hchange node hnode hid input hinput)
  · simp [hid]

theorem ids_of_outRows (g : Graph) : g.nodes.map Node.id = g.outRows.map Prod.fst := by
  simp [outRows, Function.comp_def]

theorem fst_modifyRows (node : NodeId) (slot : Nat) (change : List LinkId → List LinkId)
    (rows : Rows) : (modifyRows node slot change rows).map Prod.fst = rows.map Prod.fst := by
  simp only [modifyRows, List.map_map]
  apply List.map_congr_left
  intro row _
  simp only [Function.comp]
  split <;> rfl

/-- What holds of the numbers of all nodes is read off the list of numbers. -/
theorem forall_node_id_iff {nodes : List Node} {P : NodeId → Prop} :
    (∀ node ∈ nodes, P node.id) ↔ ∀ id ∈ nodes.map Node.id, P id := by
  simp

/-! ## Edits that leave the slot lists alone -/

/-- Well-formedness is a matter of the slot lists, the link ends and the counters. -/
theorem WellFormed.congr {g g' : Graph} (h : g.WellFormed)
    (houtRows : g'.outRows = g.outRows) (hinRows : g'.inRows = g.inRows)
    (houtEnds : g'.outEnds = g.outEnds) (hinEnds : g'.inEnds = g.inEnds)
    (hlastNode : g'.lastNode = g.lastNode) (hlastLink : g'.lastLink = g.lastLink) :
    g'.WellFormed := by
  have hids : g'.nodes.map Node.id = g.nodes.map Node.id := by
    rw [ids_of_outRows, ids_of_outRows, houtRows]
  have hlinks : g'.links.map Link.id = g.links.map Link.id := by
    simpa [outEnds, Function.comp_def] using congrArg (List.map Prod.fst) houtEnds
  refine ⟨by rw [hids]; exact h.nodes_distinct, ?_, by rw [hlinks]; exact h.links_ascending,
    ?_, ?_, ?_, ?_⟩
  · rw [forall_node_id_iff (P := fun id => 0 < id ∧ id ≤ g'.lastNode), hids, hlastNode]
    exact forall_node_id_iff.1 h.nodes_numbered
  · intro link hlink
    obtain ⟨old, hold, hid⟩ := List.mem_map.1 (hlinks ▸ List.mem_map_of_mem hlink)
    rw [← hid, hlastLink]
    exact h.links_numbered old hold
  · rw [houtRows, houtEnds]
    exact h.outputs_agree
  · rw [hinRows, hinEnds]
    exact h.inputs_agree
  · rw [hlastNode, hlastLink]
    exact h.counters_nonneg

/-- A change of one node that keeps its number and its slot lists. -/
theorem WellFormed.modifyNode {g : Graph} (h : g.WellFormed) {id : NodeId}
    {change : Node → Node} (hid : ∀ node, (change node).id = node.id)
    (hout : ∀ node, (change node).outputs.map OutputSlot.links =
      node.outputs.map OutputSlot.links)
    (hin : ∀ node, ((change node).inputs.map fun slot => slot.feed.links) =
      node.inputs.map fun slot => slot.feed.links) :
    (g.modifyNode id change).WellFormed := by
  refine h.congr ?_ ?_ rfl rfl rfl rfl
  · simp only [outRows, Graph.modifyNode, List.map_map]
    apply List.map_congr_left
    intro node _
    simp only [Function.comp]
    split <;> simp [hid, hout]
  · simp only [inRows, Graph.modifyNode, List.map_map]
    apply List.map_congr_left
    intro node _
    simp only [Function.comp]
    split <;> simp [hid, hin]

theorem WellFormed.remember {g : Graph} (h : g.WellFormed) (id : NodeId) :
    (g.remember id).WellFormed := by
  unfold Graph.remember
  split
  · next value _ =>
      refine h.modifyNode (fun _ => rfl) (fun node => ?_) fun _ => rfl
      exact Node.modify_map_eq (fun output => { output with cached := some value })
        OutputSlot.links (fun _ => rfl) node.outputs 0
  · exact h

theorem WellFormed.setKey {g g' : Graph} (h : g.WellFormed) {id : LinkId} {key : String}
    (hset : g.setKey? id key = some g') : g'.WellFormed := by
  unfold setKey? at hset
  split at hset
  · simp at hset
  · cases hset
    have hends : ∀ view : Link → LinkId × NodeId × Nat,
        (∀ link key, view { link with key := key } = view link) →
        (g.links.map fun link => if link.id = id then { link with key := key } else link).map
          view = g.links.map view := by
      intro view hview
      rw [List.map_map]
      apply List.map_congr_left
      intro link _
      simp only [Function.comp]
      split <;> simp [hview]
    exact h.congr rfl rfl (hends _ fun _ _ => rfl) (hends _ fun _ _ => rfl) rfl rfl

theorem WellFormed.setNative {g g' : Graph} (h : g.WellFormed) {id : NodeId} {slot : Nat}
    {value : Json} (hset : g.setNative? id slot value = some g') : g'.WellFormed := by
  unfold setNative? at hset
  split at hset
  · simp at hset
  · cases hset
    refine h.modifyNode (fun _ => rfl) (fun _ => rfl) fun node => ?_
    exact Node.modify_map_eq _ _ (fun input => Feed.links_setNative value input.feed) node.inputs
      slot

theorem WellFormed.setProperty {g g' : Graph} (h : g.WellFormed) {id : NodeId}
    {value : Json} (hset : g.setProperty? id value = some g') : g'.WellFormed := by
  unfold setProperty? at hset
  split at hset
  · cases hset
    exact h.modifyNode (fun _ => rfl) (fun _ => rfl) fun _ => rfl
  · simp at hset

/-! ## Counters and nodes -/

theorem WellFormed.raiseCounters {g : Graph} (h : g.WellFormed) (node : NodeId)
    (link : LinkId) : (g.raiseCounters node link).WellFormed where
  nodes_distinct := h.nodes_distinct
  nodes_numbered n hn :=
    ⟨(h.nodes_numbered n hn).1, Int.le_trans (h.nodes_numbered n hn).2 (Int.le_max_left _ _)⟩
  links_ascending := h.links_ascending
  links_numbered l hl :=
    ⟨(h.links_numbered l hl).1, Int.le_trans (h.links_numbered l hl).2 (Int.le_max_left _ _)⟩
  outputs_agree := h.outputs_agree
  inputs_agree := h.inputs_agree
  counters_nonneg :=
    ⟨Int.le_trans h.counters_nonneg.1 (Int.le_max_left _ _),
      Int.le_trans h.counters_nonneg.2 (Int.le_max_left _ _)⟩

theorem WellFormed.empty : Graph.empty.WellFormed where
  nodes_distinct := List.nodup_nil
  nodes_numbered _ hnode := absurd hnode List.not_mem_nil
  links_ascending := List.Pairwise.nil
  links_numbered _ hlink := absurd hlink List.not_mem_nil
  outputs_agree := ⟨by simp [outRows, Graph.empty], by simp [outRows, Graph.empty],
    by simp [outEnds, Graph.empty]⟩
  inputs_agree := ⟨by simp [inRows, Graph.empty], by simp [inRows, Graph.empty],
    by simp [inEnds, Graph.empty]⟩
  counters_nonneg := ⟨Int.le_refl 0, Int.le_refl 0⟩

theorem WellFormed.clear {g : Graph} (h : g.WellFormed) : g.clear.WellFormed where
  nodes_distinct := WellFormed.empty.nodes_distinct
  nodes_numbered _ hnode := absurd hnode List.not_mem_nil
  links_ascending := List.Pairwise.nil
  links_numbered _ hlink := absurd hlink List.not_mem_nil
  outputs_agree := WellFormed.empty.outputs_agree
  inputs_agree := WellFormed.empty.inputs_agree
  counters_nonneg := h.counters_nonneg

/-- A node without links joins the graph under a new number that was counted. -/
theorem WellFormed.addBareNode {g : Graph} (h : g.WellFormed) (node : Node)
    (hpos : 0 < node.id) (hcounted : node.id ≤ g.lastNode)
    (hnew : ∀ other ∈ g.nodes, other.id ≠ node.id)
    (hout : ∀ output ∈ node.outputs, output.links = [])
    (hin : ∀ input ∈ node.inputs, input.feed.links = []) :
    { g with nodes := g.nodes ++ [node] }.WellFormed where
  nodes_distinct := by
    rw [List.map_append, List.nodup_append]
    refine ⟨h.nodes_distinct, by simp, ?_⟩
    intro a ha b hb
    obtain ⟨other, hother, rfl⟩ := List.mem_map.1 ha
    rw [List.map_singleton, List.mem_singleton] at hb
    rw [hb]
    exact hnew other hother
  nodes_numbered n hn := by
    rcases List.mem_append.1 hn with hold | hlast
    · exact h.nodes_numbered n hold
    · rw [List.mem_singleton.1 hlast]
      exact ⟨hpos, hcounted⟩
  links_ascending := h.links_ascending
  links_numbered := h.links_numbered
  outputs_agree := by
    have hrows := h.outputs_agree.addRow node.id
      (node.outputs.map OutputSlot.links) (by simpa using hout)
      (by simpa [outRows] using hnew)
    simpa [outRows, outEnds] using hrows
  inputs_agree := by
    have hrows := h.inputs_agree.addRow node.id
      (node.inputs.map fun slot => slot.feed.links) (by simpa using hin)
      (by simpa [inRows] using hnew)
    simpa [inRows, inEnds] using hrows
  counters_nonneg := h.counters_nonneg

/-- The greatest number that a counter reaches. -/
def lastId : Int :=
  2 ^ 63 - 1

theorem nextId_eq {last : Int} (hlow : 0 ≤ last) (hroom : last < lastId) :
    nextId last = last + 1 := by
  unfold nextId
  unfold lastId at hroom
  rw [Int.bmod_eq_of_le] <;> omega

theorem WellFormed.addNode {g : Graph} (h : g.WellFormed) (hroom : g.lastNode < lastId)
    (template : NodeTemplate) (x y : Float) :
    (g.addNode template x y).2.WellFormed := by
  have hid := nextId_eq h.counters_nonneg.1 hroom
  have hraised := h.raiseCounters (g.lastNode + 1) 0
  have hmax : max g.lastNode (g.lastNode + 1) = g.lastNode + 1 :=
    Int.max_eq_right (Int.le_of_lt (Int.lt_succ _))
  have hlink : max g.lastLink 0 = g.lastLink :=
    Int.max_eq_left h.counters_nonneg.2
  rw [Graph.raiseCounters, hmax, hlink] at hraised
  have hadded := hraised.addBareNode
    ({ Node.ofTemplate template (g.lastNode + 1) with x := x, y := y })
    (Int.lt_add_one_of_le h.counters_nonneg.1) (Int.le_refl _)
    (fun other hother => by
      have hle : other.id ≤ g.lastNode := (h.nodes_numbered other hother).2
      exact Int.ne_of_lt (Int.lt_add_one_of_le hle))
    (by simp [Node.ofTemplate]) (by simp [Node.ofTemplate, InputSlot.ofSpec])
  simpa [Graph.addNode, hid] using hadded

/-! ## Striking links -/

theorem outRows_detach (g : Graph) (link : Link) :
    (g.detach link).outRows =
      modifyRows link.origin link.originSlot (·.filter fun other => other != link.id)
        g.outRows :=
  (outRows_modifyFeed _ _ _ _).trans (outRows_modifyOutput _ _ _ _)

theorem inRows_detach (g : Graph) (link : Link) :
    (g.detach link).inRows =
      modifyRows link.target link.targetSlot (·.filter fun other => other != link.id)
        g.inRows :=
  (inRows_modifyFeed fun _ _ _ input _ => Feed.links_detach link.id input.feed).trans
    (congrArg _ (inRows_modifyOutput _ _ _ _))

theorem nodeIds_detach (g : Graph) (link : Link) :
    (g.detach link).nodes.map Node.id = g.nodes.map Node.id := by
  rw [ids_of_outRows, outRows_detach, fst_modifyRows, ← ids_of_outRows]

theorem links_detach (g : Graph) (link : Link) :
    (g.detach link).links = g.links.filter fun other => other.id != link.id :=
  rfl

theorem mem_ends_strike {links : List Link} {ends : Link → NodeId × Nat} {id : LinkId}
    {e : LinkId × NodeId × Nat} :
    e ∈ (links.filter fun other => other.id != id).map (fun link => (link.id, ends link)) ↔
      e ∈ links.map (fun link => (link.id, ends link)) ∧ e.1 ≠ id := by
  simp only [List.mem_map, List.mem_filter, bne_iff_ne]
  constructor
  · rintro ⟨link, ⟨hlink, hne⟩, rfl⟩
    exact ⟨⟨link, hlink, rfl⟩, hne⟩
  · rintro ⟨⟨link, hlink, rfl⟩, hne⟩
    exact ⟨link, ⟨hlink, hne⟩, rfl⟩

theorem WellFormed.end_unique {g : Graph} (h : g.WellFormed) {link : Link}
    (hlink : link ∈ g.links) (ends : Link → NodeId × Nat) :
    ∀ e ∈ g.links.map (fun link => (link.id, ends link)), e.1 = link.id →
      e.2 = ends link := by
  intro e he hid
  obtain ⟨other, hother, rfl⟩ := List.mem_map.1 he
  rw [h.link_unique hother hlink hid]

theorem WellFormed.detach {g : Graph} (h : g.WellFormed) {link : Link}
    (hlink : link ∈ g.links) : (g.detach link).WellFormed where
  nodes_distinct := by
    rw [nodeIds_detach]
    exact h.nodes_distinct
  nodes_numbered := by
    refine (forall_node_id_iff (P := fun id => 0 < id ∧ id ≤ g.lastNode)).2 ?_
    rw [nodeIds_detach]
    exact forall_node_id_iff.1 h.nodes_numbered
  links_ascending := h.links_ascending.sublist (List.filter_sublist.map _)
  links_numbered other hother := h.links_numbered other (List.mem_filter.1 hother).1
  outputs_agree := by
    rw [outRows_detach]
    exact h.outputs_agree.strike (h.end_unique hlink _) fun _ => mem_ends_strike
  inputs_agree := by
    rw [inRows_detach]
    exact h.inputs_agree.strike (h.end_unique hlink _) fun _ => mem_ends_strike
  counters_nonneg := h.counters_nonneg

theorem WellFormed.dropLink {g : Graph} (h : g.WellFormed) (id : LinkId) :
    (g.dropLink id).WellFormed := by
  unfold Graph.dropLink
  split
  · next link hfind =>
      exact h.detach (findLink?_mem hfind).1
  · exact h

theorem WellFormed.dropLinks {g : Graph} (h : g.WellFormed) (ids : List LinkId) :
    (g.dropLinks ids).WellFormed := by
  induction ids generalizing g with
  | nil =>
      exact h
  | cons id rest ih =>
      exact ih (h.dropLink id)

theorem mem_links_dropLink {g : Graph} {id : LinkId} {link : Link} :
    link ∈ (g.dropLink id).links ↔ link ∈ g.links ∧ link.id ≠ id := by
  unfold Graph.dropLink
  split
  · next found hfind =>
      rw [links_detach, List.mem_filter, (findLink?_mem hfind).2]
      simp
  · next hfind =>
      have hnone : ∀ other ∈ g.links, other.id ≠ id := by
        simpa [findLink?] using hfind
      exact ⟨fun hmem => ⟨hmem, hnone link hmem⟩, And.left⟩

theorem mem_links_dropLinks {g : Graph} {ids : List LinkId} {link : Link} :
    link ∈ (g.dropLinks ids).links ↔ link ∈ g.links ∧ link.id ∉ ids := by
  induction ids generalizing g with
  | nil =>
      simp [dropLinks]
  | cons id rest ih =>
      rw [dropLinks, List.foldl_cons, ← dropLinks, ih, mem_links_dropLink]
      simp [and_assoc]

@[simp] theorem counters_dropLink (g : Graph) (id : LinkId) :
    (g.dropLink id).lastNode = g.lastNode ∧ (g.dropLink id).lastLink = g.lastLink := by
  unfold Graph.dropLink
  split <;> exact ⟨rfl, rfl⟩

@[simp] theorem counters_dropLinks (g : Graph) (ids : List LinkId) :
    (g.dropLinks ids).lastNode = g.lastNode ∧ (g.dropLinks ids).lastLink = g.lastLink := by
  induction ids generalizing g with
  | nil =>
      exact ⟨rfl, rfl⟩
  | cons id rest ih =>
      have hrest := ih (g.dropLink id)
      have hfirst := g.counters_dropLink id
      exact ⟨hrest.1.trans hfirst.1, hrest.2.trans hfirst.2⟩

theorem WellFormed.removeLink {g g' : Graph} (h : g.WellFormed) {id : LinkId}
    (hremove : g.removeLink? id = some g') : g'.WellFormed := by
  simp only [removeLink?, disconnect?, Option.map_map, Option.map_eq_some_iff,
    Function.comp] at hremove
  obtain ⟨link, hfind, rfl⟩ := hremove
  exact h.detach (findLink?_mem hfind).1

/-- What dropping one link preserves, dropping several does. -/
theorem clearLinks_induction {motive : Graph → Prop} {g : Graph} (h : motive g)
    (hstep : ∀ {g rest : Graph} {id : LinkId},
      motive g → g.removeLink? id = some rest → motive rest) (ids : List LinkId) :
    motive (g.clearLinks ids).2 := by
  refine List.foldlRecOn ids _ (motive := fun pair : Nat × Graph => motive pair.2) h ?_
  intro pair hpair id _
  cases hremove : pair.2.removeLink? id with
  | none =>
      simpa [hremove] using hpair
  | some rest =>
      simpa [hremove] using hstep hpair hremove

theorem WellFormed.clearLinks {g : Graph} (h : g.WellFormed) (ids : List LinkId) :
    (g.clearLinks ids).2.WellFormed :=
  clearLinks_induction h (fun hwf hremove => hwf.removeLink hremove) ids

theorem WellFormed.clearInput {g : Graph} (h : g.WellFormed) (id : NodeId) (slot : Nat) :
    (g.clearInput id slot).2.WellFormed := by
  unfold Graph.clearInput
  split
  · exact h.clearLinks _
  · exact h

theorem WellFormed.clearCollected {g : Graph} (h : g.WellFormed) (id : NodeId) :
    (g.clearCollected id).2.WellFormed := by
  unfold Graph.clearCollected
  split
  · exact h.clearLinks _
  · exact h

theorem mem_linksOf {g : Graph} {id : NodeId} {link : LinkId} :
    link ∈ g.linksOf id ↔ ∃ l ∈ g.links, l.id = link ∧ (l.origin = id ∨ l.target = id) := by
  simp [linksOf, and_assoc, and_comm]

theorem WellFormed.removeNode {g g' : Graph} (h : g.WellFormed) {id : NodeId}
    (hremove : g.removeNode? id = some g') : g'.WellFormed := by
  unfold removeNode? at hremove
  split at hremove
  · simp at hremove
  · cases hremove
    have hbare := h.dropLinks (g.linksOf id)
    rw [eraseP_eq_filter hbare.nodes_distinct]
    -- No link touches the node any more, so its rows may go.
    have hfree : ∀ link ∈ (g.dropLinks (g.linksOf id)).links,
        link.origin ≠ id ∧ link.target ≠ id := by
      intro link hlink
      obtain ⟨hmem, hnot⟩ := mem_links_dropLinks.1 hlink
      constructor <;> intro hend
      · exact hnot (mem_linksOf.2 ⟨link, hmem, rfl, Or.inl hend⟩)
      · exact hnot (mem_linksOf.2 ⟨link, hmem, rfl, Or.inr hend⟩)
    have hout := hbare.outputs_agree.dropRow id (by
      simpa [outEnds] using fun link hlink => (hfree link hlink).1)
    have hin := hbare.inputs_agree.dropRow id (by
      simpa [inEnds] using fun link hlink => (hfree link hlink).2)
    rw [outRows, List.filter_map] at hout
    rw [inRows, List.filter_map] at hin
    exact
      { nodes_distinct := hbare.nodes_distinct.sublist (List.filter_sublist.map _)
        nodes_numbered := fun node hnode => hbare.nodes_numbered node (List.mem_filter.1 hnode).1
        links_ascending := hbare.links_ascending
        links_numbered := hbare.links_numbered
        outputs_agree := hout
        inputs_agree := hin
        counters_nonneg := hbare.counters_nonneg }

/-! ## Listing links -/

theorem mem_insertLink {link other : Link} {links : List Link}
    (hnew : ∀ l ∈ links, l.id ≠ link.id) :
    other ∈ insertLink link links ↔ other = link ∨ other ∈ links := by
  induction links with
  | nil =>
      simp [insertLink]
  | cons first rest ih =>
      have hne : link.id ≠ first.id := (hnew first List.mem_cons_self).symm
      have hrest := ih fun l hl => hnew l (List.mem_cons_of_mem first hl)
      rw [insertLink, if_neg hne]
      split
      · simp
      · simp only [List.mem_cons, hrest]
        exact or_left_comm

theorem insertLink_ascending {link : Link} {links : List Link}
    (hnew : ∀ l ∈ links, l.id ≠ link.id)
    (hascending : (links.map Link.id).Pairwise (· < ·)) :
    ((insertLink link links).map Link.id).Pairwise (· < ·) := by
  rw [List.pairwise_map] at hascending ⊢
  induction links with
  | nil =>
      simp [insertLink]
  | cons first rest ih =>
      have hne : link.id ≠ first.id := (hnew first List.mem_cons_self).symm
      have hnewRest : ∀ l ∈ rest, l.id ≠ link.id :=
        fun l hl => hnew l (List.mem_cons_of_mem first hl)
      have hfirst := (List.pairwise_cons.1 hascending).1
      rw [insertLink, if_neg hne]
      split
      · next hlt =>
          refine List.pairwise_cons.2 ⟨?_, hascending⟩
          intro l hl
          rcases List.mem_cons.1 hl with rfl | hl
          · exact hlt
          · exact Int.lt_trans hlt (hfirst l hl)
      · next hnlt =>
          refine List.pairwise_cons.2 ⟨?_, ih hnewRest (List.pairwise_cons.1 hascending).2⟩
          intro l hl
          rcases (mem_insertLink hnewRest).1 hl with rfl | hl
          · exact Int.lt_iff_le_and_ne.2 ⟨Int.not_lt.1 hnlt, Ne.symm hne⟩
          · exact hfirst l hl

theorem findLink?_insertLink (link : Link) (links : List Link) (id : LinkId) :
    (insertLink link links).find? (fun other => other.id == id) =
      if link.id = id then some link else links.find? fun other => other.id == id := by
  induction links with
  | nil =>
      by_cases hid : link.id = id <;> simp [insertLink, hid]
  | cons other rest ih =>
      rw [insertLink]
      split
      · by_cases hid : link.id = id <;> simp [hid]
      · split
        · next hsame =>
            by_cases hid : link.id = id
            · simp [hid]
            · simp [hid, ← hsame]
        · next hother =>
            by_cases hfirst : other.id = id
            · have hid : link.id ≠ id := fun heq => hother (heq.trans hfirst.symm)
              simp [hfirst, hid]
            · simp [hfirst, ih]

theorem mem_ends_list {links : List Link} {link : Link} {ends : Link → NodeId × Nat}
    (hnew : ∀ l ∈ links, l.id ≠ link.id) {e : LinkId × NodeId × Nat} :
    e ∈ (insertLink link links).map (fun link => (link.id, ends link)) ↔
      e = (link.id, ends link) ∨ e ∈ links.map (fun link => (link.id, ends link)) := by
  simp only [List.mem_map, mem_insertLink hnew]
  constructor
  · rintro ⟨other, rfl | hother, rfl⟩
    · exact Or.inl rfl
    · exact Or.inr ⟨other, hother, rfl⟩
  · rintro (rfl | ⟨other, hother, rfl⟩)
    · exact ⟨link, Or.inl rfl, rfl⟩
    · exact ⟨other, Or.inr hother, rfl⟩

/-- Whether a link can be listed: its slots exist, and the one it enters has room. -/
structure Fitting (nodes : List Node) (link : Link) : Prop where
  leaves : ∃ node ∈ nodes, node.id = link.origin ∧ link.originSlot < node.outputs.length
  enters : ∃ node ∈ nodes, node.id = link.target ∧ link.targetSlot < node.inputs.length
  room : ∀ node ∈ nodes, node.id = link.target →
    ∀ input, node.inputs[link.targetSlot]? = some input →
      input.feed.collects ∨ input.feed.links = []

theorem outRows_attach (g : Graph) (link : Link) :
    (g.attach link).outRows =
      modifyRows link.origin link.originSlot (· ++ [link.id]) g.outRows :=
  (outRows_modifyFeed _ _ _ _).trans (outRows_modifyOutput _ _ _ _)

theorem modifyNode_modifyOutput_inputs {g : Graph} {id : NodeId} {slot : Nat}
    {change : List LinkId → List LinkId} {node : Node}
    (hnode : node ∈ (g.modifyNode id fun n => n.modifyOutput slot change).nodes) :
    ∃ old ∈ g.nodes, old.id = node.id ∧ old.inputs = node.inputs := by
  obtain ⟨old, hold, rfl⟩ := List.mem_map.1 hnode
  refine ⟨old, hold, ?_⟩
  split <;> exact ⟨rfl, rfl⟩

theorem inRows_attach {g : Graph} {link : Link}
    (hroom : ∀ node ∈ g.nodes, node.id = link.target →
      ∀ input, node.inputs[link.targetSlot]? = some input →
        input.feed.collects ∨ input.feed.links = []) :
    (g.attach link).inRows =
      modifyRows link.target link.targetSlot (· ++ [link.id]) g.inRows := by
  refine (inRows_modifyFeed ?_).trans (congrArg _ (inRows_modifyOutput _ _ _ _))
  intro node hnode hid input hinput
  obtain ⟨old, hold, hoid, hinputs⟩ := modifyNode_modifyOutput_inputs hnode
  exact Feed.links_attach (hroom old hold (hoid.trans hid) input (hinputs ▸ hinput))

theorem nodeIds_attach (g : Graph) (link : Link) :
    (g.attach link).nodes.map Node.id = g.nodes.map Node.id := by
  rw [ids_of_outRows, outRows_attach, fst_modifyRows, ← ids_of_outRows]

theorem WellFormed.attach {g : Graph} (h : g.WellFormed) (link : Link)
    (hfit : Fitting g.nodes link) (hnew : ∀ l ∈ g.links, l.id ≠ link.id) (hpos : 0 < link.id)
    (hcounted : link.id ≤ g.lastLink) : (g.attach link).WellFormed where
  nodes_distinct := by
    rw [nodeIds_attach]
    exact h.nodes_distinct
  nodes_numbered := by
    refine (forall_node_id_iff (P := fun id => 0 < id ∧ id ≤ g.lastNode)).2 ?_
    rw [nodeIds_attach]
    exact forall_node_id_iff.1 h.nodes_numbered
  links_ascending := insertLink_ascending hnew h.links_ascending
  links_numbered other hother := by
    rcases (mem_insertLink hnew).1 hother with rfl | hother
    · exact ⟨hpos, hcounted⟩
    · exact h.links_numbered other hother
  outputs_agree := by
    rw [outRows_attach]
    refine h.outputs_agree.list ?_ ?_ fun _ => mem_ends_list hnew
    · simpa [outEnds] using hnew
    · simpa [outRows] using hfit.leaves
  inputs_agree := by
    rw [inRows_attach hfit.room]
    refine h.inputs_agree.list ?_ ?_ fun _ => mem_ends_list hnew
    · simpa [inEnds] using hnew
    · simpa [inRows] using hfit.enters
  counters_nonneg := h.counters_nonneg

/-! ## Making links -/

theorem exists_slots_of_shapes {g g' : Graph} (h : g'.shapes = g.shapes) {node : Node}
    (hnode : node ∈ g.nodes) :
    ∃ kept ∈ g'.nodes, kept.id = node.id ∧ kept.outputs.length = node.outputs.length ∧
      kept.inputs.length = node.inputs.length := by
  obtain ⟨kept, hkept, hid, hshape⟩ := exists_of_shapes_eq h.symm hnode
  refine ⟨kept, hkept, hid, ?_, ?_⟩
  · simpa [Node.shape] using congrArg (fun t => t.outputs.length) hshape
  · simpa [Node.shape] using congrArg (fun t => t.inputs.length) hshape

/--
The links that a new one displaces leave the slot free for it, and every other
slot as it is there.
-/
theorem WellFormed.fitting_dropLinks {g : Graph} (h : g.WellFormed) (link : Link)
    {origin target : Node} {input : InputSlot} (horigin : origin ∈ g.nodes)
    (horiginId : origin.id = link.origin) (hslot : link.originSlot < origin.outputs.length)
    (htarget : target ∈ g.nodes) (htargetId : target.id = link.target)
    (hinput : target.inputs[link.targetSlot]? = some input) :
    Fitting (g.dropLinks (displaced input)).nodes link where
  leaves := by
    obtain ⟨kept, hkept, hid, hout, -⟩ :=
      exists_slots_of_shapes (g.shapes_dropLinks (displaced input)) horigin
    exact ⟨kept, hkept, hid.trans horiginId, hout ▸ hslot⟩
  enters := by
    obtain ⟨kept, hkept, hid, -, hin⟩ :=
      exists_slots_of_shapes (g.shapes_dropLinks (displaced input)) htarget
    exact ⟨kept, hkept, hid.trans htargetId,
      hin ▸ (List.getElem?_eq_some_iff.1 hinput).1⟩
  room := by
    intro node hnode hid slot hslotHere
    have hcleared := h.dropLinks (displaced input)
    by_cases hmany : slot.feed.collects
    · exact Or.inl hmany
    · right
      -- A single slot keeps no link, since the one it had was displaced.
      obtain ⟨old, hold, hoid, hshape⟩ :=
        exists_of_shapes_eq (g.shapes_dropLinks (displaced input)) hnode
      obtain rfl : old = target :=
        h.node_unique hold htarget (hoid.trans (hid.trans htargetId.symm))
      have hspec : input.spec = slot.spec := by
        have hspecs := congrArg (fun t => t.inputs[link.targetSlot]?) hshape
        simpa [Node.shape, hinput, hslotHere] using hspecs
      have hsingle : input.feed.collects = false := by
        rw [Feed.collects_eq_of_intake (congrArg InputSpec.intake hspec)]
        simpa using hmany
      apply List.eq_nil_iff_forall_not_mem.2
      intro id hmem
      obtain ⟨other, hother, rfl, hend⟩ := (hcleared.mem_input_iff hnode hslotHere).1 hmem
      obtain ⟨hother, hnot⟩ := mem_links_dropLinks.1 hother
      refine hnot ?_
      rw [displaced, hsingle]
      exact (h.mem_input_iff hold hinput).2 ⟨other, hother, rfl, hoid ▸ hend⟩

/-- Everything that a successful connection did. -/
theorem connect_eq_ok_iff {g g' : Graph} {o t : NodeId} {os ts : Nat} {id : LinkId} :
    g.connect o os t ts = .ok (id, g') ↔
      ∃ origin target output input, g.findNode? o = some origin ∧
        g.findNode? t = some target ∧ origin.outputs[os]? = some output ∧
        target.inputs[ts]? = some input ∧
        TypeExpr.textFits output.type input.linkType = true ∧ id = nextId g.lastLink ∧
        g' = { g.dropLinks (displaced input) with lastLink := id }.attach
          ⟨id, o, os, t, ts, output.type, ""⟩ := by
  constructor
  · intro hconnect
    unfold connect at hconnect
    split at hconnect
    · next origin target horigin htarget =>
        split at hconnect
        · next output input houtput hinput =>
            split at hconnect
            · next hfits =>
                simp only [Except.ok.injEq, Prod.mk.injEq] at hconnect
                have hid : nextId (g.dropLinks (displaced input)).lastLink =
                    nextId g.lastLink := by
                  rw [(g.counters_dropLinks _).2]
                obtain ⟨rfl, rfl⟩ := hconnect
                exact ⟨origin, target, output, input, horigin, htarget, houtput, hinput,
                  hfits, hid, rfl⟩
            · simp at hconnect
        · simp at hconnect
    · simp at hconnect
  · rintro ⟨origin, target, output, input, horigin, htarget, houtput, hinput, hfits, rfl, rfl⟩
    simp [connect, horigin, htarget, houtput, hinput, hfits]

theorem WellFormed.connect {g g' : Graph} (h : g.WellFormed) (hroom : g.lastLink < lastId)
    {o t : NodeId} {os ts : Nat} {id : LinkId}
    (hconnect : g.connect o os t ts = .ok (id, g')) : g'.WellFormed := by
  obtain ⟨origin, target, output, input, horigin, htarget, houtput, hinput, -, rfl, rfl⟩ :=
    connect_eq_ok_iff.1 hconnect
  rw [nextId_eq h.counters_nonneg.2 hroom]
  have horigin := findNode?_mem horigin
  have htarget := findNode?_mem htarget
  have hcleared := h.dropLinks (displaced input)
  have hraised := hcleared.raiseCounters 0 (g.lastLink + 1)
  have hlast := g.counters_dropLinks (displaced input)
  have hmax : max g.lastLink (g.lastLink + 1) = g.lastLink + 1 :=
    Int.max_eq_right (Int.le_of_lt (Int.lt_succ _))
  have hnode : max g.lastNode 0 = g.lastNode :=
    Int.max_eq_left h.counters_nonneg.1
  rw [Graph.raiseCounters, hlast.1, hlast.2, hmax, hnode, ← hlast.1] at hraised
  refine hraised.attach ⟨g.lastLink + 1, o, os, t, ts, output.type, ""⟩ ?_ ?_
    (Int.lt_add_one_of_le h.counters_nonneg.2) (Int.le_refl _)
  · exact h.fitting_dropLinks ⟨g.lastLink + 1, o, os, t, ts, output.type, ""⟩
      horigin.1 horigin.2 (List.getElem?_eq_some_iff.1 houtput).1 htarget.1 htarget.2 hinput
  · intro other hother
    have hle := (h.links_numbered other (mem_links_dropLinks.1 hother).1).2
    exact Int.ne_of_lt (Int.lt_add_one_of_le hle)

/-! ## What linking and filling leave alone -/

theorem length_nodes_of_shapes {g g' : Graph} (h : g'.shapes = g.shapes) :
    g'.nodes.length = g.nodes.length := by
  simpa [shapes] using congrArg List.length h

theorem shapes_connect {g g' : Graph} {o t : NodeId} {os ts : Nat} {id : LinkId}
    (hconnect : g.connect o os t ts = .ok (id, g')) : g'.shapes = g.shapes := by
  obtain ⟨_, _, output, input, -, -, -, -, -, -, rfl⟩ := connect_eq_ok_iff.1 hconnect
  exact (shapes_attach _ _).trans (g.shapes_dropLinks (displaced input))

theorem counters_connect {g g' : Graph} {o t : NodeId} {os ts : Nat} {id : LinkId}
    (hconnect : g.connect o os t ts = .ok (id, g')) :
    g'.lastNode = g.lastNode ∧ g'.lastLink = nextId g.lastLink := by
  obtain ⟨_, _, output, input, -, -, -, -, -, rfl, rfl⟩ := connect_eq_ok_iff.1 hconnect
  exact ⟨(g.counters_dropLinks (displaced input)).1, rfl⟩

theorem setKey?_getD (g : Graph) (id : LinkId) (key : String) :
    (g.setKey? id key).getD g =
      { g with links := g.links.map fun link =>
          if link.id = id then { link with key := key } else link } := by
  unfold setKey?
  split
  · next hnone =>
      have hno : ∀ link ∈ g.links, link.id ≠ id := by
        simpa [findLink?] using hnone
      have hsame : (g.links.map fun link =>
          if link.id = id then { link with key := key } else link) = g.links := by
        refine (List.map_congr_left fun link hlink => ?_).trans (List.map_id _)
        simp [hno link hlink]
      rw [hsame]
      rfl
  · rfl

/-- A link that is made with a key, or without one, leaves the nodes their shapes. -/
theorem shapes_connectKeyed {g g' : Graph} {o t : NodeId} {os ts : Nat} {id : LinkId}
    (hconnect : g.connect o os t ts = .ok (id, g')) (key : String) :
    (if key = "" then g' else (g'.setKey? id key).getD g').shapes = g.shapes := by
  rw [setKey?_getD, ← shapes_connect hconnect]
  split <;> rfl

theorem WellFormed.setKey_getD {g : Graph} (h : g.WellFormed) (id : LinkId) (key : String) :
    ((g.setKey? id key).getD g).WellFormed := by
  cases hset : g.setKey? id key with
  | none =>
      exact h
  | some g' =>
      exact h.setKey hset

theorem setNative?_eq_some {g g' : Graph} {id : NodeId} {slot : Nat} {value : Json}
    (hset : g.setNative? id slot value = some g') :
    g' = g.modifyNode id fun node => node.modifyFeed slot (Feed.setNative value) := by
  unfold setNative? at hset
  split at hset
  · simp at hset
  · exact (Option.some.inj hset).symm

theorem shapes_setNative {g g' : Graph} {id : NodeId} {slot : Nat} {value : Json}
    (hset : g.setNative? id slot value = some g') : g'.shapes = g.shapes := by
  rw [setNative?_eq_some hset]
  exact shapes_modifyFeed (Feed.intake_setNative value) g id slot

/-! ## Restoring -/

theorem WellFormed.restoreNode {g g' : Graph} (h : g.WellFormed) {node : Node}
    (hrestore : g.restoreNode? node = some g') : g'.WellFormed := by
  unfold restoreNode? at hrestore
  split at hrestore
  · simp at hrestore
  · next hfree =>
      cases hrestore
      rw [not_or, Int.not_le] at hfree
      refine (h.raiseCounters node.id 0).addBareNode node.unlinked hfree.1
        (Int.le_max_right _ _) ?_ (by simp [Node.unlinked]) (by simp [Node.unlinked])
      intro other hother hid
      exact hfree.2 (findNode?_isSome.2 ⟨other, hother, hid⟩)

theorem entered?_eq_some_iff {g : Graph} {link : Link} {input : InputSlot} :
    g.entered? link = some input ↔
      ∃ origin target, g.findNode? link.origin = some origin ∧
        g.findNode? link.target = some target ∧ link.originSlot < origin.outputs.length ∧
        target.inputs[link.targetSlot]? = some input := by
  unfold entered?
  cases horigin : g.findNode? link.origin <;> cases htarget : g.findNode? link.target <;>
    simp

theorem WellFormed.restoreLink {g g' : Graph} (h : g.WellFormed) {link : Link}
    (hrestore : g.restoreLink? link = some g') : g'.WellFormed := by
  unfold restoreLink? at hrestore
  split at hrestore
  · simp at hrestore
  · next hfree =>
      rw [not_or, Int.not_le] at hfree
      obtain ⟨input, hentered, rfl⟩ := Option.map_eq_some_iff.1 hrestore
      obtain ⟨origin, target, horigin, htarget, hslot, hinput⟩ :=
        entered?_eq_some_iff.1 hentered
      have horigin := findNode?_mem horigin
      have htarget := findNode?_mem htarget
      -- The counter may be raised before the link is listed: listing does not read it.
      refine ((h.dropLinks (displaced input)).raiseCounters 0 link.id).attach link ?_ ?_ hfree.1
        (Int.le_max_right _ _)
      · exact h.fitting_dropLinks link horigin.1 horigin.2 hslot htarget.1 htarget.2 hinput
      · intro other hother hid
        exact hfree.2 (findLink?_isSome.2 ⟨other, (mem_links_dropLinks.1 hother).1, hid⟩)

end Graph

end SlotGraph
