import SlotGraph.Proofs.Graph.Content

/-!
# What a removal leaves

What a removal leaves of a well-formed graph is described by the nodes that stay and the
links that hold: each slot lists those of its links that hold, in the order in which it
listed them, and nothing else changes.  Dropping links one after the other comes to the
restriction to the links that were not dropped, however the three records of a link are
mended on the way.
-/

namespace SlotGraph

/-! ## Slots that lose links -/

/-- Striking a link from a list that does not have it changes nothing. -/
theorem filter_bne_of_notMem {ids : List LinkId} {id : LinkId} (h : id ∉ ids) :
    ids.filter (fun other => other != id) = ids :=
  List.filter_eq_self.2 fun _ hother => bne_iff_ne.2 (ne_of_mem_of_not_mem hother h)

namespace Feed

def thin (stays : LinkId → Bool) : Feed → Feed
  | .single link native => .single (link.filter stays) native
  | .many keyed links => .many keyed (links.filter stays)

variable {feed : Feed} {stays stays' : LinkId → Bool}

theorem detach_eq_thin (id : LinkId) (feed : Feed) :
    feed.detach id = feed.thin fun other => other != id := by
  cases feed with
  | many keyed links =>
      rfl
  | single link native =>
      cases link with
      | none =>
          rfl
      | some held =>
          by_cases hheld : held = id <;> simp [detach, thin, hheld, Option.filter]

theorem thin_congr (h : ∀ id ∈ feed.links, stays id = stays' id) :
    feed.thin stays = feed.thin stays' := by
  cases feed with
  | many keyed links =>
      exact congrArg (many keyed) (List.filter_congr h)
  | single link native =>
      cases link with
      | none =>
          rfl
      | some held =>
          simp [thin, Option.filter, h held (by simp [links])]

theorem thin_true (feed : Feed) : (feed.thin fun _ => true) = feed := by
  cases feed with
  | many keyed links =>
      simp [thin]
  | single link native =>
      cases link <;> rfl

theorem thin_of_notMem {id : LinkId} (h : id ∉ feed.links) :
    (feed.thin fun other => other != id) = feed :=
  (thin_congr fun _ hother => bne_iff_ne.2 (ne_of_mem_of_not_mem hother h)).trans feed.thin_true

theorem thin_thin (feed : Feed) :
    (feed.thin stays).thin stays' = feed.thin fun id => stays id && stays' id := by
  cases feed with
  | many keyed links =>
      simp [thin, List.filter_filter, Bool.and_comm]
  | single link native =>
      cases link with
      | none =>
          rfl
      | some held =>
          by_cases hheld : stays held <;> simp [thin, Option.filter, hheld]

end Feed

namespace Node

def thin (stays : LinkId → Bool) (node : Node) : Node :=
  { node with
    inputs := node.inputs.map fun input => { input with feed := input.feed.thin stays }
    outputs := node.outputs.map fun output =>
      { output with links := output.links.filter stays } }

variable {node : Node} {stays stays' : LinkId → Bool}

def Lists (node : Node) (id : LinkId) : Prop :=
  (∃ input ∈ node.inputs, id ∈ input.feed.links) ∨ ∃ output ∈ node.outputs, id ∈ output.links

theorem thin_congr (h : ∀ id, node.Lists id → stays id = stays' id) :
    node.thin stays = node.thin stays' := by
  have hinputs : (node.inputs.map fun input => { input with feed := input.feed.thin stays }) =
      node.inputs.map fun input => { input with feed := input.feed.thin stays' } :=
    List.map_congr_left fun input hinput => by
      rw [Feed.thin_congr fun id hid => h id (.inl ⟨input, hinput, hid⟩)]
  have houtputs : (node.outputs.map fun output =>
        { output with links := output.links.filter stays }) =
      node.outputs.map fun output => { output with links := output.links.filter stays' } :=
    List.map_congr_left fun output houtput => by
      rw [List.filter_congr fun id hid => h id (.inr ⟨output, houtput, hid⟩)]
  rw [thin, thin, hinputs, houtputs]

theorem thin_true (node : Node) : (node.thin fun _ => true) = node := by
  simp [thin, Feed.thin_true]

theorem thin_eq_self (h : ∀ id, node.Lists id → stays id = true) : node.thin stays = node :=
  (thin_congr h).trans node.thin_true

theorem thin_thin (node : Node) :
    (node.thin stays).thin stays' = node.thin fun id => stays id && stays' id := by
  simp [thin, Function.comp_def, Feed.thin_thin, List.filter_filter, Bool.and_comm]

end Node

namespace Link

/-- Whether the link has one of its ends at a node. -/
def touches (id : NodeId) (link : Link) : Bool :=
  link.origin == id || link.target == id

theorem enters_iff {link : Link} {id : NodeId} {slot : Nat} :
    link.enters id slot = true ↔ id = link.target ∧ link.targetSlot = slot := by
  rw [enters, Bool.and_eq_true, beq_iff_eq, beq_iff_eq, eq_comm]

end Link

namespace Graph

def inputAt? (g : Graph) (id : NodeId) (slot : Nat) : Option InputSlot :=
  (g.findNode? id).bind fun node => node.inputs[slot]?

/-- Whether a link enters a slot of a node that collects many. -/
def collects (g : Graph) (id : NodeId) (link : Link) : Bool :=
  link.target == id && (g.inputAt? id link.targetSlot).any fun input => input.feed.collects

def restrict (g : Graph) (stays : Node → Bool) (holds : Link → Bool) : Graph :=
  { g with
    nodes := (g.nodes.filter stays).map (Node.thin fun id => (g.findLink? id).any holds)
    links := g.links.filter holds }

variable {g : Graph} {stays stays' : Node → Bool} {holds holds' : Link → Bool}

/-! ## Restrictions -/

theorem restrict_congr (hstays : ∀ node ∈ g.nodes, stays node = stays' node)
    (hholds : ∀ link ∈ g.links, holds link = holds' link) :
    g.restrict stays holds = g.restrict stays' holds' := by
  have hsame : (fun id => (g.findLink? id).any holds) = fun id =>
      (g.findLink? id).any holds' := by
    funext id
    cases hfind : g.findLink? id with
    | none =>
        rfl
    | some link =>
        exact hholds link (findLink?_mem hfind).1
  rw [restrict, restrict, List.filter_congr hstays, List.filter_congr hholds, hsame]

theorem WellFormed.isSome_of_lists (h : g.WellFormed) {node : Node} (hnode : node ∈ g.nodes)
    {id : LinkId} (hid : node.Lists id) : ∃ link ∈ g.links, link.id = id := by
  rcases hid with ⟨input, hinput, hid⟩ | ⟨output, houtput, hid⟩
  · obtain ⟨slot, hslot⟩ := List.getElem?_of_mem hinput
    obtain ⟨link, hlink, hlinkId, -⟩ := (h.mem_input_iff hnode hslot).1 hid
    exact ⟨link, hlink, hlinkId⟩
  · obtain ⟨slot, hslot⟩ := List.getElem?_of_mem houtput
    obtain ⟨link, hlink, hlinkId, -⟩ := (h.mem_output_iff hnode hslot).1 hid
    exact ⟨link, hlink, hlinkId⟩

theorem WellFormed.restrict_all (h : g.WellFormed) (hstays : ∀ node ∈ g.nodes, stays node = true)
    (hholds : ∀ link ∈ g.links, holds link = true) : g.restrict stays holds = g := by
  have hnodes : g.nodes.map (Node.thin fun id => (g.findLink? id).any holds) = g.nodes := by
    refine (List.map_congr_left fun node hnode => ?_).trans (List.map_id _)
    refine Node.thin_eq_self fun id hid => ?_
    obtain ⟨link, hlink, rfl⟩ := h.isSome_of_lists hnode hid
    rw [h.findLink?_eq hlink]
    exact hholds link hlink
  rw [restrict, List.filter_eq_self.2 hstays, List.filter_eq_self.2 hholds, hnodes]

theorem WellFormed.findLink?_restrict (h : g.WellFormed) (id : LinkId) :
    (g.restrict stays holds).findLink? id = (g.findLink? id).filter holds := by
  rw [findLink?, restrict]
  cases hfind : g.findLink? id with
  | none =>
      rw [findLink?, List.find?_eq_none] at hfind
      exact List.find?_eq_none.2 fun link hlink => hfind link (List.mem_filter.1 hlink).1
  | some found =>
      obtain ⟨hfound, rfl⟩ := findLink?_mem hfind
      by_cases hholds : holds found = true
      · have hkept := find?_of_nodup_map
          (h.links_distinct.sublist ((List.filter_sublist (p := holds)).map Link.id))
          (List.mem_filter.2 ⟨hfound, hholds⟩)
        simpa [Option.filter, hholds] using hkept
      · have hnone : (g.links.filter holds).find? (fun link => link.id == found.id) = none := by
          refine List.find?_eq_none.2 fun link hlink hid => ?_
          obtain ⟨hmem, hheld⟩ := List.mem_filter.1 hlink
          rw [h.link_unique hmem hfound (by simpa using hid)] at hheld
          exact hholds hheld
        simpa [Option.filter, hholds] using hnone

/-- Restrictions one after the other come to one. -/
theorem WellFormed.restrict_restrict (h : g.WellFormed)
    (hthin : ∀ node keeps, stays' (Node.thin keeps node) = stays' node) :
    (g.restrict stays holds).restrict stays' holds' =
      g.restrict (fun node => stays node && stays' node) fun link => holds link && holds' link := by
  have hlists : (fun id => (g.findLink? id).any holds && ((g.restrict stays holds).findLink? id).any
      holds') = fun id => (g.findLink? id).any fun link => holds link && holds' link := by
    funext id
    rw [h.findLink?_restrict]
    cases g.findLink? id with
    | none =>
        rfl
    | some link =>
        by_cases hheld : holds link = true <;> simp [Option.filter, hheld]
  have hfilter : (stays' ∘ Node.thin fun id => (g.findLink? id).any holds) = stays' :=
    funext fun node => hthin node _
  have hthin : (Node.thin fun id => ((g.restrict stays holds).findLink? id).any holds') ∘
      (Node.thin fun id => (g.findLink? id).any holds) =
      Node.thin fun id => (g.findLink? id).any fun link => holds link && holds' link := by
    rw [← hlists]
    exact funext Node.thin_thin
  simp only [restrict] at hthin ⊢
  rw [List.filter_map, hfilter, List.filter_filter, List.map_map, hthin, List.filter_filter]
  simp only [Bool.and_comm]

theorem inputAt?_restrict (g : Graph) (holds : Link → Bool) (id : NodeId) (slot : Nat) :
    (g.restrict (fun _ => true) holds).inputAt? id slot =
      (g.inputAt? id slot).map fun input =>
        { input with feed := input.feed.thin fun id => (g.findLink? id).any holds } := by
  rw [inputAt?, inputAt?, findNode?, restrict, List.filter_true, List.find?_map, Option.bind_map,
    Option.map_bind]
  refine Option.bind_congr fun node _ => ?_
  rw [Function.comp, Node.thin, List.getElem?_map]
  rfl

/-! ## Where a link is listed -/

/-- A number of a link names this link alone. -/
theorem WellFormed.exists_link_iff (h : g.WellFormed) {link : Link} (hlink : link ∈ g.links)
    {P : Link → Prop} : (∃ other ∈ g.links, other.id = link.id ∧ P other) ↔ P link := by
  constructor
  · rintro ⟨other, hother, hid, hP⟩
    exact h.link_unique hother hlink hid ▸ hP
  · exact fun hP => ⟨link, hlink, rfl, hP⟩

theorem WellFormed.mem_inputAt?_iff (h : g.WellFormed) {id : NodeId} {slot : Nat}
    {input : InputSlot} (hinput : g.inputAt? id slot = some input) {link : Link}
    (hlink : link ∈ g.links) : link.id ∈ input.feed.links ↔ link.enters id slot = true := by
  obtain ⟨node, hfind, hslot⟩ := Option.bind_eq_some_iff.1 hinput
  obtain ⟨hnode, rfl⟩ := findNode?_mem hfind
  rw [h.mem_input_iff hnode hslot, h.exists_link_iff hlink, Link.enters_iff, eq_comm]

theorem WellFormed.notMem_input (h : g.WellFormed) {link : Link} (hlink : link ∈ g.links)
    {node : Node} (hnode : node ∈ g.nodes) {slot : Nat} {input : InputSlot}
    (hslot : node.inputs[slot]? = some input)
    (helse : ¬(node.id = link.target ∧ link.targetSlot = slot)) : link.id ∉ input.feed.links := by
  rw [h.mem_input_iff hnode hslot, h.exists_link_iff hlink, eq_comm]
  exact helse

theorem WellFormed.notMem_output (h : g.WellFormed) {link : Link} (hlink : link ∈ g.links)
    {node : Node} (hnode : node ∈ g.nodes) {slot : Nat} {output : OutputSlot}
    (hslot : node.outputs[slot]? = some output)
    (helse : ¬(node.id = link.origin ∧ link.originSlot = slot)) : link.id ∉ output.links := by
  rw [h.mem_output_iff hnode hslot, h.exists_link_iff hlink, eq_comm]
  exact helse

/-! ## Links that are dropped -/

/-- Changing one place is changing every place, where no other place is changed by it. -/
theorem modify_eq_map {α : Type} {here : Prop} [Decidable here] {change : α → α} {xs : List α}
    {i : Nat} (helse : ∀ j x, xs[j]? = some x → ¬(here ∧ i = j) → change x = x) :
    (if here then xs.modify i change else xs) = xs.map change := by
  apply List.ext_getElem?
  intro j
  rw [List.getElem?_map]
  cases hx : xs[j]? with
  | none =>
      split
      · rw [List.getElem?_modify, hx]
        rfl
      · exact hx
  | some x =>
      by_cases hplace : here ∧ i = j
      · simp [hplace.1, hplace.2, hx]
      · have hsame := helse j x hx hplace
        split
        · next hhere =>
            have hne : i ≠ j := fun heq => hplace ⟨hhere, heq⟩
            simp [hne, hx, hsame]
        · simp [hx, hsame]

theorem nodes_modifyEnds (g : Graph) (o t : NodeId) (os ts : Nat)
    (leave : List LinkId → List LinkId) (enter : Feed → Feed) :
    ((g.modifyNode o fun node => node.modifyOutput os leave).modifyNode t fun node =>
        node.modifyFeed ts enter).nodes =
      g.nodes.map fun node =>
        { node with
          inputs := if node.id = t then
              node.inputs.modify ts fun input => { input with feed := enter input.feed }
            else node.inputs
          outputs := if node.id = o then
              node.outputs.modify os fun output => { output with links := leave output.links }
            else node.outputs } := by
  simp only [modifyNode, List.map_map]
  refine List.map_congr_left fun node _ => ?_
  have hid : (if node.id = o then node.modifyOutput os leave else node).id = node.id := by
    split <;> rfl
  simp only [Function.comp, hid]
  split <;> split <;> rfl

/-- What stays in the slots of a well-formed graph is told by the numbers of the links. -/
theorem WellFormed.thin_eq (h : g.WellFormed) {node : Node} (hnode : node ∈ g.nodes)
    (keeps : LinkId → Bool) :
    (node.thin fun id => (g.findLink? id).any fun link => keeps link.id) = node.thin keeps := by
  refine Node.thin_congr fun id hid => ?_
  obtain ⟨link, hlink, rfl⟩ := h.isSome_of_lists hnode hid
  rw [h.findLink?_eq hlink]
  rfl

/-- Striking a link from its two slots strikes it wherever it is listed. -/
theorem WellFormed.detach_eq (h : g.WellFormed) {link : Link} (hlink : link ∈ g.links) :
    g.detach link = g.restrict (fun _ => true) fun other => other.id != link.id := by
  have hinputs : ∀ node ∈ g.nodes,
      (if node.id = link.target then node.inputs.modify link.targetSlot fun input =>
          { input with feed := input.feed.detach link.id } else node.inputs) =
        node.inputs.map fun input =>
          { input with feed := input.feed.thin fun id => id != link.id } := by
    intro node hnode
    simp only [Feed.detach_eq_thin]
    refine modify_eq_map fun slot input hslot helse => ?_
    rw [Feed.thin_of_notMem (h.notMem_input hlink hnode hslot helse)]
  have houtputs : ∀ node ∈ g.nodes,
      (if node.id = link.origin then node.outputs.modify link.originSlot fun output =>
          { output with links := output.links.filter fun id => id != link.id } else
          node.outputs) =
        node.outputs.map fun output =>
          { output with links := output.links.filter fun id => id != link.id } := by
    intro node hnode
    refine modify_eq_map fun slot output hslot helse => ?_
    rw [filter_bne_of_notMem (h.notMem_output hlink hnode hslot helse)]
  have hnodes : (g.detach link).nodes = (g.restrict (fun _ => true) fun other =>
      other.id != link.id).nodes := by
    rw [restrict, List.filter_true]
    refine (nodes_modifyEnds _ _ _ _ _ _ _).trans (List.map_congr_left fun node hnode => ?_)
    rw [h.thin_eq hnode fun id => id != link.id, hinputs node hnode, houtputs node hnode]
    rfl
  exact congrArg (fun nodes => { g with
    nodes := nodes
    links := g.links.filter fun other => other.id != link.id }) hnodes

theorem WellFormed.dropLink_eq (h : g.WellFormed) (id : LinkId) :
    g.dropLink id = g.restrict (fun _ => true) fun link => link.id != id := by
  unfold Graph.dropLink
  split
  · next link hfind =>
      obtain ⟨hlink, rfl⟩ := findLink?_mem hfind
      exact h.detach_eq hlink
  · next hfind =>
      have habsent : ∀ link ∈ g.links, (link.id != id) = true := by
        simpa [findLink?] using hfind
      exact (h.restrict_all (fun _ _ => rfl) habsent).symm

theorem WellFormed.dropLinks_eq (h : g.WellFormed) (ids : List LinkId) :
    g.dropLinks ids = g.restrict (fun _ => true) fun link => !ids.contains link.id := by
  induction ids generalizing g with
  | nil =>
      exact (h.restrict_all (fun _ _ => rfl) fun _ _ => rfl).symm
  | cons id rest ih =>
      have hrest := ih (h.dropLink id)
      rw [h.dropLink_eq, h.restrict_restrict fun _ _ => rfl] at hrest
      refine (h.dropLink_eq id ▸ hrest).trans (restrict_congr (fun _ _ => rfl) fun link _ => ?_)
      rw [List.contains_cons, Bool.not_or]
      rfl

theorem WellFormed.removeLink?_eq (h : g.WellFormed) (id : LinkId) :
    g.removeLink? id =
      (g.findLink? id).map fun _ => g.restrict (fun _ => true) fun link => link.id != id := by
  rw [removeLink?, disconnect?, Option.map_map]
  cases hfind : g.findLink? id with
  | none =>
      rfl
  | some link =>
      obtain ⟨hlink, rfl⟩ := findLink?_mem hfind
      exact congrArg some (h.detach_eq hlink)

/-! ## Links that are counted as they go -/

theorem WellFormed.length_removeLink {rest : Graph} (h : g.WellFormed) {id : LinkId}
    (hremove : g.removeLink? id = some rest) : rest.links.length + 1 = g.links.length := by
  rw [h.removeLink?_eq] at hremove
  obtain ⟨link, hfind, rfl⟩ := Option.map_eq_some_iff.1 hremove
  obtain ⟨hlink, rfl⟩ := findLink?_mem hfind
  have hgone : (g.links.filter fun other => !(other.id != link.id)).length = 1 := by
    have hcount := List.count_eq_one_of_mem h.links_distinct (List.mem_map_of_mem hlink)
    rw [List.count, List.countP_map, List.countP_eq_length_filter] at hcount
    simpa [Function.comp_def, bne] using hcount
  rw [List.length_eq_length_filter_add (l := g.links) fun other => other.id != link.id, hgone]
  rfl

theorem snd_clearLinks (g : Graph) (ids : List LinkId) :
    (g.clearLinks ids).2 = g.dropLinks ids := by
  rw [clearLinks, dropLinks]
  refine (List.foldl_hom Prod.snd fun pair id => ?_ : List.foldl _ (Prod.snd (0, g)) ids = _).symm
  obtain ⟨count, h⟩ := pair
  simp only [removeLink?, disconnect?, dropLink, Option.map_map]
  cases h.findLink? id <;> rfl

theorem WellFormed.clearLinks_eq (h : g.WellFormed) (ids : List LinkId) :
    g.clearLinks ids =
      ((g.links.filter fun link => ids.contains link.id).length,
        g.restrict (fun _ => true) fun link => !ids.contains link.id) := by
  have hrest := (g.snd_clearLinks ids).trans (h.dropLinks_eq ids)
  -- Links that were counted and links that are left are always all there were.
  have hcount : (g.clearLinks ids).2.WellFormed ∧
      (g.clearLinks ids).1 + (g.clearLinks ids).2.links.length = g.links.length := by
    refine List.foldlRecOn ids _ (motive := fun pair : Nat × Graph => pair.2.WellFormed ∧
      pair.1 + pair.2.links.length = g.links.length) ⟨h, Nat.zero_add _⟩ ?_
    rintro ⟨count, left⟩ ⟨hleft, hsum⟩ id -
    cases hremove : left.removeLink? id with
    | none =>
        simpa only [hremove] using ⟨hleft, hsum⟩
    | some rest =>
        have hless := hleft.length_removeLink hremove
        simp only [hremove]
        refine ⟨hleft.removeLink hremove, ?_⟩
        rw [← hsum, ← hless, Nat.add_right_comm, Nat.add_assoc]
  rw [hrest] at hcount
  have hall := List.length_eq_length_filter_add (l := g.links) fun link => ids.contains link.id
  refine Prod.ext ?_ hrest
  exact Nat.add_right_cancel (hcount.2.trans hall)

theorem WellFormed.clearLinks_of_mem (h : g.WellFormed) {ids : List LinkId} {goes : Link → Bool}
    (hgoes : ∀ link ∈ g.links, link.id ∈ ids ↔ goes link = true) :
    g.clearLinks ids =
      ((g.links.filter goes).length, g.restrict (fun _ => true) fun link => !goes link) := by
  have hsame : ∀ link ∈ g.links, ids.contains link.id = goes link := fun link hlink => by
    rw [Bool.eq_iff_iff, List.contains_iff_mem, hgoes link hlink]
  rw [h.clearLinks_eq, List.filter_congr hsame,
    restrict_congr (fun _ _ => rfl) fun link hlink => congrArg not (hsame link hlink)]

theorem WellFormed.clearLinks_nil (h : g.WellFormed) {goes : Link → Bool}
    (hgoes : ∀ link ∈ g.links, goes link ≠ true) :
    (0, g) = ((g.links.filter goes).length, g.restrict (fun _ => true) fun link => !goes link) :=
  h.clearLinks_of_mem fun link hlink =>
    (iff_of_false List.not_mem_nil (hgoes link hlink) : link.id ∈ [] ↔ goes link = true)

theorem WellFormed.clearInput_eq (h : g.WellFormed) (id : NodeId) (slot : Nat) :
    g.clearInput id slot =
      ((g.links.filter (Link.enters id slot)).length,
        g.restrict (fun _ => true) fun link => !link.enters id slot) := by
  rw [Graph.clearInput]
  split
  · next input hinput =>
      exact h.clearLinks_of_mem fun link hlink => h.mem_inputAt?_iff hinput hlink
  · next hnone =>
      refine h.clearLinks_nil fun link hlink henters => ?_
      obtain ⟨rfl, rfl⟩ := Link.enters_iff.1 henters
      obtain ⟨node, hnode, hid, input, hslot, -⟩ := h.count_input hlink
      rw [← hid, h.findNode?_eq hnode, Option.bind_some, hslot] at hnone
      exact Option.some_ne_none input hnone

theorem mem_links_clearInput {id : NodeId} {slot : Nat} {link : Link} (h : g.WellFormed)
    (hlink : link ∈ (g.clearInput id slot).2.links) : link ∈ g.links := by
  rw [h.clearInput_eq] at hlink
  exact List.mem_of_mem_filter hlink

theorem dropLinks_displaced {id : NodeId} {slot : Nat} {input : InputSlot}
    (hinput : g.inputAt? id slot = some input)
    (hone : input.feed.collects = false) :
    g.dropLinks (displaced input) = (g.clearInput id slot).2 := by
  have hslot : (g.findNode? id).bind (fun node => node.inputs[slot]?) = some input := hinput
  rw [clearInput, hslot, displaced, hone, if_neg Bool.false_ne_true, snd_clearLinks]

/-- Clearing the slots of a node that collect many drops the links that enter one of them. -/
theorem WellFormed.clearCollected_eq (h : g.WellFormed) (id : NodeId) :
    g.clearCollected id =
      ((g.links.filter (g.collects id)).length,
        g.restrict (fun _ => true) fun link => !g.collects id link) := by
  rw [Graph.clearCollected]
  split
  · next node hfind =>
      have hslots : ∀ slot, g.inputAt? id slot = node.inputs[slot]? := fun slot => by
        rw [inputAt?, hfind, Option.bind_some]
      refine h.clearLinks_of_mem fun link hlink => ?_
      rw [List.mem_flatMap, Graph.collects, Bool.and_eq_true, Option.any_eq_true, hslots]
      constructor
      · rintro ⟨input, hinput, hmem⟩
        split at hmem
        · next hmany =>
            obtain ⟨slot, hslot⟩ := List.getElem?_of_mem hinput
            have henters := (h.mem_inputAt?_iff ((hslots slot).trans hslot) hlink).1 hmem
            obtain ⟨rfl, rfl⟩ := Link.enters_iff.1 henters
            exact ⟨beq_self_eq_true link.target, input, hslot, hmany⟩
        · simp at hmem
      · rintro ⟨htarget, input, hslot, hmany⟩
        refine ⟨input, List.mem_of_getElem? hslot, ?_⟩
        rw [if_pos hmany, h.mem_inputAt?_iff ((hslots _).trans hslot) hlink, Link.enters_iff]
        exact ⟨(beq_iff_eq.1 htarget).symm, rfl⟩
  · next hnone =>
      refine h.clearLinks_nil fun link hlink hcollects => ?_
      simp [Graph.collects, inputAt?, hnone] at hcollects

/-! ## Nodes that are removed -/

theorem WellFormed.contains_linksOf (h : g.WellFormed) {link : Link} (hlink : link ∈ g.links)
    (id : NodeId) : (g.linksOf id).contains link.id = link.touches id := by
  rw [Bool.eq_iff_iff, List.contains_iff_mem, mem_linksOf, h.exists_link_iff hlink, Link.touches,
    Bool.or_eq_true, beq_iff_eq, beq_iff_eq]

theorem WellFormed.removeNode?_eq (h : g.WellFormed) (id : NodeId) :
    g.removeNode? id =
      (g.findNode? id).map fun _ =>
        g.restrict (fun node => node.id != id) fun link => !link.touches id := by
  have hbare : g.dropLinks (g.linksOf id) = g.restrict (fun _ => true) fun link =>
      !link.touches id := by
    rw [h.dropLinks_eq]
    exact restrict_congr (fun _ _ => rfl)
      fun link hlink => congrArg not (h.contains_linksOf hlink id)
  rw [removeNode?]
  cases hfind : g.findNode? id with
  | none =>
      rfl
  | some node =>
      have hdistinct := (h.dropLinks (g.linksOf id)).nodes_distinct
      simp only [Option.isNone_some, Bool.false_eq_true, if_false, Option.map_some]
      rw [eraseP_eq_filter hdistinct, hbare]
      simp only [restrict, List.filter_true, List.filter_map]
      rfl

end Graph

end SlotGraph
