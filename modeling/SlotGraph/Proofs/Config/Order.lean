import Mathlib.Data.List.Sort
import SlotGraph.Proofs.Config.Rows
import SlotGraph.Proofs.Graph.Reload

/-!
# The order of links and the document

What is written of a graph depends on the order in which its slots list the links that
enter them, and not on what its output slots list or keep.  A graph that was read back
from its document lists links by number, so it is written like the graph whose slots were
sorted.
-/

namespace SlotGraph

def Feed.byNumber : Feed → Feed
  | .single link native => .single link native
  | .many keyed links => .many keyed (links.insertionSort (· ≤ ·))

@[simp] theorem Feed.links_byNumber (feed : Feed) :
    feed.byNumber.links = feed.links.insertionSort (· ≤ ·) := by
  cases feed with
  | single link native =>
      cases link <;> simp [byNumber, links]
  | many keyed links =>
      rfl

@[simp] theorem Feed.unlinked_byNumber (feed : Feed) : feed.byNumber.unlinked = feed.unlinked := by
  cases feed <;> rfl

theorem Feed.eq_of_unlinked {a b : Feed} (hbare : a.unlinked = b.unlinked)
    (hlinks : a.links = b.links) : a = b := by
  cases a with
  | single link native =>
      cases b with
      | single link' native' =>
          obtain rfl : native = native' := (Feed.single.inj hbare).2
          obtain rfl : link = link' := by
            cases link <;> cases link' <;> simp_all [Feed.links]
          rfl
      | many keyed' links' =>
          exact Feed.noConfusion hbare
  | many keyed links =>
      cases b with
      | single link' native' =>
          exact Feed.noConfusion hbare
      | many keyed' links' =>
          obtain rfl : keyed = keyed' := (Feed.many.inj hbare).1
          exact congrArg (Feed.many keyed) hlinks

theorem InputSlot.eq_of_unlinked {a b : InputSlot}
    (hbare : ({ a with feed := a.feed.unlinked } : InputSlot) =
      { b with feed := b.feed.unlinked })
    (hlinks : a.feed.links = b.feed.links) : a = b := by
  cases a
  cases b
  simp only [InputSlot.mk.injEq] at hbare ⊢
  exact ⟨hbare.1, hbare.2.1, hbare.2.2.1, hbare.2.2.2.1,
    Feed.eq_of_unlinked hbare.2.2.2.2 hlinks⟩

def Node.byNumber (node : Node) : Node :=
  { node with
    inputs := node.inputs.map fun input => { input with feed := input.feed.byNumber } }

/-- The node without its output slots. -/
def Node.inward (node : Node) : Node :=
  { node with outputs := [] }

namespace Node

@[simp] theorem bare_byNumber (node : Node) : node.byNumber.bare = node.bare := by
  simp [byNumber, bare, Function.comp_def]

/-- Apart from its output slots a node is what it is without links, and its links in. -/
theorem inward_eq_of_bare {a b : Node} (hbare : a.bare = b.bare)
    (hlinks : a.inputs.map (fun input => input.feed.links) =
      b.inputs.map fun input => input.feed.links) : a.inward = b.inward := by
  have hslots := congrArg Node.inputs hbare
  have hinputs : a.inputs = b.inputs := by
    have hlength : a.inputs.length = b.inputs.length := by
      simpa using congrArg List.length hlinks
    refine List.ext_getElem hlength fun i hi hi' => InputSlot.eq_of_unlinked ?_ ?_
    · have hslot := congrArg (fun slots : List InputSlot => slots[i]?) hslots
      simpa [bare, hi, hi'] using hslot
    · have hslot := congrArg (fun lists : List (List LinkId) => lists[i]?) hlinks
      simpa [hi, hi'] using hslot
  calc a.inward = { a.bare with inputs := a.inputs, outputs := [] } := rfl
    _ = { b.bare with inputs := b.inputs, outputs := [] } := by rw [hbare, hinputs]
    _ = b.inward := rfl

end Node

namespace Graph

/-- The graph whose input slots list links by number. -/
def byNumber (g : Graph) : Graph :=
  { g with nodes := g.nodes.map Node.byNumber }

/-- The graph without output slots. -/
def inward (g : Graph) : Graph :=
  { g with nodes := g.nodes.map Node.inward }

instance (g : Graph) : Decidable g.InOrder :=
  inferInstanceAs (Decidable (∀ row ∈ g.inRows, ∀ ids ∈ row.2, ids.Pairwise (· < ·)))

variable {g g' : Graph}

theorem inRows_inward (g : Graph) : g.inward.inRows = g.inRows := by
  simp [inRows, inward, Node.inward, Function.comp_def]

/-- Each slot of the sorted graph lists the links that it did, by number. -/
theorem inRows_byNumber (g : Graph) :
    g.byNumber.inRows =
      g.inRows.map fun row => (row.1, row.2.map fun ids => ids.insertionSort (· ≤ ·)) := by
  simp [inRows, byNumber, Node.byNumber, Function.comp_def]

/-- In a well-formed graph sorting a slot gives the order of the graph's own list. -/
theorem WellFormed.insertionSort_links (h : g.WellFormed) {node : Node} {slot : Nat}
    {input : InputSlot} (hnode : node ∈ g.nodes) (hslot : node.inputs[slot]? = some input) :
    input.feed.links.insertionSort (· ≤ ·) =
      (g.links.filter (Link.enters node.id slot)).map Link.id := by
  have hperm := (List.perm_insertionSort (· ≤ ·) input.feed.links).trans
    (h.links_perm hnode hslot)
  exact hperm.eq_of_pairwise' (List.pairwise_insertionSort (· ≤ ·) _)
    ((h.entering_ascending node.id slot).imp Int.le_of_lt)

/-- A slot lists its links by number exactly when sorting it changes nothing. -/
theorem pairwise_iff_insertionSort {ids : List LinkId} (honce : ids.Nodup) :
    ids.Pairwise (· < ·) ↔ ids.insertionSort (· ≤ ·) = ids := by
  constructor
  · intro hascending
    exact (hascending.imp Int.le_of_lt).insertionSort_eq
  · intro hsorted
    have hle : ids.Pairwise (· ≤ ·) := hsorted ▸ List.pairwise_insertionSort (· ≤ ·) ids
    exact (List.pairwise_and_iff.2 ⟨hle, honce⟩).imp fun h => lt_of_le_of_ne h.1 h.2

/-- A graph is in order exactly when sorting its slots changes nothing. -/
theorem WellFormed.inRows_byNumber_iff (h : g.WellFormed) :
    g.byNumber.inRows = g.inRows ↔ g.InOrder := by
  have hself : ∀ (lists : List (List LinkId)),
      lists.map (fun ids => ids.insertionSort (· ≤ ·)) = lists ↔
        ∀ ids ∈ lists, ids.insertionSort (· ≤ ·) = ids := by
    intro lists
    conv_lhs => rw [← List.map_id lists, List.map_map]
    exact List.map_inj_left
  calc g.byNumber.inRows = g.inRows
      ↔ ∀ row ∈ g.inRows, (row.1, row.2.map fun ids => ids.insertionSort (· ≤ ·)) = row := by
        rw [inRows_byNumber]
        conv_lhs => rw [← List.map_id g.inRows, List.map_map]
        exact List.map_inj_left
    _ ↔ g.InOrder := by
        refine forall₂_congr fun row hrow => ?_
        rw [Prod.ext_iff, and_iff_right rfl, hself]
        exact forall₂_congr fun ids hids =>
          (pairwise_iff_insertionSort (h.inputs_agree.once row hrow ids hids)).symm

theorem byNumber_of_inOrder (h : g.InOrder) : g.byNumber = g := by
  have hnodes : ∀ node ∈ g.nodes, node.byNumber = node := by
    intro node hnode
    have hinputs : ∀ input ∈ node.inputs, { input with feed := input.feed.byNumber } = input := by
      intro input hinput
      have hascending := h _ (List.mem_map_of_mem hnode) _ (List.mem_map_of_mem hinput)
      have hfeed : input.feed.byNumber = input.feed :=
        Feed.eq_of_unlinked input.feed.unlinked_byNumber
          (input.feed.links_byNumber.trans
            (hascending.imp Int.le_of_lt).insertionSort_eq)
      rw [hfeed]
    rw [Node.byNumber, List.map_congr_left hinputs, List.map_id']
  rw [byNumber, List.map_congr_left hnodes, List.map_id']

/-- A graph that was read back lists links by number, and is the same otherwise. -/
theorem Reloads.inward_eq (h : g.Reloads g') (hwf : g.WellFormed) :
    g'.inward = g.byNumber.inward := by
  have hlength : g'.nodes.length = g.nodes.length := by
    simpa using congrArg List.length h.nodes
  have hnodes : g'.nodes.map Node.inward = (g.nodes.map Node.byNumber).map Node.inward := by
    rw [List.map_map]
    refine List.ext_getElem (by simpa using hlength) fun i hi hi' => ?_
    rw [List.length_map] at hi hi'
    have hbare : g'.nodes[i].bare = g.nodes[i].bare := by
      have hnode := congrArg (fun nodes : List Node => nodes[i]?) h.nodes
      simpa [hi, hi'] using hnode
    have hid : g'.nodes[i].id = g.nodes[i].id := by
      simpa [Node.bare] using congrArg Node.id hbare
    have hslots : g'.nodes[i].inputs.length = g.nodes[i].inputs.length := by
      simpa [Node.bare] using congrArg (fun node : Node => node.inputs.length) hbare
    rw [List.getElem_map, List.getElem_map]
    -- The lists of a slot are one list: that of the graph's links into it, which are by number.
    refine Node.inward_eq_of_bare (hbare.trans (Node.bare_byNumber _).symm) ?_
    refine List.ext_getElem (by simpa [Node.byNumber] using hslots) fun slot hslot hslot' => ?_
    simp only [List.length_map, Node.byNumber] at hslot hslot'
    simp only [List.getElem_map, Node.byNumber, Feed.links_byNumber]
    rw [h.wellFormed.links_eq h.inOrder (List.getElem_mem hi) (List.getElem?_eq_getElem hslot),
      hwf.insertionSort_links (List.getElem_mem hi') (List.getElem?_eq_getElem hslot'), hid,
      h.links]
  have hgraph : ∀ {a b : Graph}, a.nodes = b.nodes → a.links = b.links →
      a.lastNode = b.lastNode → a.lastLink = b.lastLink → a = b := by
    rintro ⟨_, _, _, _⟩ ⟨_, _, _, _⟩ rfl rfl rfl rfl
    rfl
  exact hgraph hnodes h.links h.lastNode h.lastLink

end Graph

namespace Build

open SlotGraph.Graph

/-! ## Output slots are not written -/

variable (g : Graph) (schema : Schema)

theorem rootNodes_inward :
    g.inward.rootNodes schema = (g.rootNodes schema).map Node.inward := by
  rw [rootNodes, rootNodes, inward, List.filter_map]
  rfl

theorem groupedNodes_inward :
    g.inward.groupedNodes schema = (g.groupedNodes schema).map Node.inward := by
  rw [groupedNodes, groupedNodes, inward, List.filter_map]
  rfl

theorem group_inward (className : String) :
    g.inward.group schema className = (g.group schema className).map Node.inward := by
  rw [group, group, groupedNodes_inward, List.filter_map]
  rfl

theorem faces_inward : g.inward.nodes.map Node.face = g.nodes.map Node.face := by
  rw [inward, List.map_map]
  rfl

theorem groupOrder_inward : g.inward.groupOrder schema = g.groupOrder schema :=
  groupOrder_congr schema (faces_inward g)

theorem findNode?_inward (id : NodeId) :
    g.inward.findNode? id = (g.findNode? id).map Node.inward := by
  rw [findNode?, findNode?, inward, List.find?_map]
  rfl

theorem groupIndex?_inward (id : NodeId) :
    g.inward.groupIndex? schema id = g.groupIndex? schema id :=
  groupIndex?_congr schema (faces_inward g) id

theorem issueOf?_inward : issueOf? g.inward schema = issueOf? g schema := by
  funext id
  rw [issueOf?, issueOf?, groupIndex?_inward, findNode?_inward, Option.any_map, Option.map_map]
  rfl

theorem nodeValue_inward (node : Node) : g.inward.nodeValue node.inward = g.nodeValue node :=
  rfl

theorem writeMembers_inward (members : List (String × NodeValue)) :
    writeMembers g.inward schema members = writeMembers g schema members := by
  rw [writeMembers, writeMember_congr schema (faces_inward g), writeMembers]

theorem entry_inward (node : Node) : entry g.inward schema node.inward = entry g schema node := by
  rw [entry, entry, nodeValue_inward, writeMembers_inward]

theorem groupMembers_inward : groupMembers g.inward schema = groupMembers g schema := by
  rw [groupMembers, groupMembers, groupOrder_inward]
  refine List.map_congr_left fun className _ => ?_
  rw [group_inward, List.map_map]
  simp only [Function.comp_def, entry_inward]

theorem rootValues_inward : rootValues g.inward schema = rootValues g schema := by
  rw [rootValues, rootValues, rootNodes_inward, List.head?_map]
  cases (g.rootNodes schema).head? <;> rfl

theorem writtenRefs_inward : writtenRefs g.inward schema = writtenRefs g schema := by
  rw [writtenRefs, writtenRefs, groupOrder_inward, rootValues_inward]
  congr 1
  refine List.flatMap_congr fun className _ => ?_
  rw [group_inward, List.flatMap_map]
  rfl

theorem evaluatedNodes_inward : evaluatedNodes g.inward schema = evaluatedNodes g schema := by
  rw [evaluatedNodes, evaluatedNodes, groupedNodes_inward, rootNodes_inward, writtenRefs_inward,
    List.map_map, List.head?_map, Option.map_map]
  congr 1
  refine List.filter_congr fun id _ => ?_
  rw [groupIndex?_inward, findNode?_inward, Option.any_map]
  rfl

/-- A build is the same whatever the output slots list and keep. -/
theorem ofGraph_inward : ofGraph g.inward schema = ofGraph g schema := by
  rw [ofGraph, ofGraph, groupMembers_inward, rootValues_inward, writeMembers_inward,
    writtenRefs_inward, issueOf?_inward, evaluatedNodes_inward]

end Build

end SlotGraph
