import Mathlib.Data.List.Nodup
import SlotGraph.Graph.Edit
import SlotGraph.Proofs.Json.Members

/-!
# Well-formed graphs

A link is recorded three times: in the list of links, in the output slot that it
leaves and in the input slot that it enters.  A graph is well formed when the
three records agree and every number in it was counted.  The two sides of a graph
obey the same law, so it is stated once, for the rows of slot lists and the link
ends of one side; listing a link and striking it keep that law.
-/

namespace SlotGraph

namespace Graph

/-- The nodes of a graph with the link lists of their slots at one side. -/
abbrev Rows :=
  List (NodeId × List (List LinkId))

/-- The links of a graph, each with the node and the slot where it ends at one side. -/
abbrev Ends :=
  List (LinkId × NodeId × Nat)

def outRows (g : Graph) : Rows :=
  g.nodes.map fun node => (node.id, node.outputs.map OutputSlot.links)

def inRows (g : Graph) : Rows :=
  g.nodes.map fun node => (node.id, node.inputs.map fun slot => slot.feed.links)

def outEnds (g : Graph) : Ends :=
  g.links.map fun link => (link.id, link.origin, link.originSlot)

def inEnds (g : Graph) : Ends :=
  g.links.map fun link => (link.id, link.target, link.targetSlot)

/-- The slot lists of one side name the links that end there, each of them once. -/
structure Agree (rows : Rows) (ends : Ends) : Prop where
  /-- No slot lists a link twice. -/
  once : ∀ row ∈ rows, ∀ ids ∈ row.2, ids.Nodup
  /-- A slot lists a link exactly when the link ends there. -/
  listed : ∀ row ∈ rows, ∀ slot ids, row.2[slot]? = some ids →
    ∀ id, id ∈ ids ↔ (id, row.1, slot) ∈ ends
  /-- A link ends at a slot that there is. -/
  inRange : ∀ e ∈ ends, ∃ row ∈ rows, row.1 = e.2.1 ∧ e.2.2 < row.2.length

/--
A graph whose three records of each link agree and whose numbers were counted.
That a slot for one link holds no list, and a slot for many no single link, is
part of the type of slots.
-/
structure WellFormed (g : Graph) : Prop where
  nodes_distinct : (g.nodes.map Node.id).Nodup
  nodes_numbered : ∀ node ∈ g.nodes, 0 < node.id ∧ node.id ≤ g.lastNode
  /-- Links are stored by number, so no number is stored twice. -/
  links_ascending : (g.links.map Link.id).Pairwise (· < ·)
  links_numbered : ∀ link ∈ g.links, 0 < link.id ∧ link.id ≤ g.lastLink
  outputs_agree : Agree g.outRows g.outEnds
  inputs_agree : Agree g.inRows g.inEnds
  /-- The counters count from zero. -/
  counters_nonneg : 0 ≤ g.lastNode ∧ 0 ≤ g.lastLink

/-! ## One side of a graph -/

def modifyRows (node : NodeId) (slot : Nat) (change : List LinkId → List LinkId)
    (rows : Rows) : Rows :=
  rows.map fun row => if row.1 = node then (row.1, row.2.modify slot change) else row

theorem mem_modifyRows {node : NodeId} {slot : Nat} {change : List LinkId → List LinkId}
    {rows : Rows} {row : NodeId × List (List LinkId)} :
    row ∈ modifyRows node slot change rows ↔
      ∃ old ∈ rows, row.1 = old.1 ∧
        row.2 = if old.1 = node then old.2.modify slot change else old.2 := by
  simp only [modifyRows, List.mem_map]
  constructor
  · rintro ⟨old, hold, rfl⟩
    refine ⟨old, hold, ?_⟩
    split <;> simp
  · rintro ⟨old, hold, hid, hlists⟩
    refine ⟨old, hold, ?_⟩
    split at hlists <;> simp_all [Prod.ext_iff]

theorem getElem?_modified {node : NodeId} {slot : Nat}
    {change : List LinkId → List LinkId} {old : NodeId × List (List LinkId)}
    {position : Nat} {ids : List LinkId}
    (hids : (if old.1 = node then old.2.modify slot change else old.2)[position]? = some ids) :
    ∃ before, old.2[position]? = some before ∧
      ids = if old.1 = node ∧ slot = position then change before else before := by
  by_cases hnode : old.1 = node
  · rw [if_pos hnode, List.getElem?_modify] at hids
    obtain ⟨before, hbefore, hids⟩ := Option.map_eq_some_iff.1 hids
    exact ⟨before, hbefore, by simp [hnode, ← hids]⟩
  · rw [if_neg hnode] at hids
    exact ⟨ids, hids, by simp [hnode]⟩

/-- Listing a new link in the slot where it ends keeps the agreement. -/
theorem Agree.list {rows : Rows} {ends ends' : Ends} {id : LinkId} {node : NodeId}
    {slot : Nat} (h : Agree rows ends) (hnew : ∀ e ∈ ends, e.1 ≠ id)
    (hslot : ∃ row ∈ rows, row.1 = node ∧ slot < row.2.length)
    (hends : ∀ e, e ∈ ends' ↔ e = (id, node, slot) ∨ e ∈ ends) :
    Agree (modifyRows node slot (· ++ [id]) rows) ends' where
  once := by
    intro row hrow ids hids
    obtain ⟨old, hold, -, hlists⟩ := mem_modifyRows.1 hrow
    obtain ⟨position, hposition⟩ := List.getElem?_of_mem hids
    rw [hlists] at hposition
    obtain ⟨before, hbefore, rfl⟩ := getElem?_modified hposition
    have honce := h.once old hold before (List.mem_of_getElem? hbefore)
    split
    · refine List.nodup_append.2 ⟨honce, by simp, ?_⟩
      intro a ha b hb
      rw [List.mem_singleton.1 hb]
      exact hnew _ ((h.listed old hold position before hbefore a).1 ha)
    · exact honce
  listed := by
    intro row hrow position ids hids other
    obtain ⟨old, hold, hid, hlists⟩ := mem_modifyRows.1 hrow
    rw [hlists] at hids
    obtain ⟨before, hbefore, rfl⟩ := getElem?_modified hids
    have hlisted := h.listed old hold position before hbefore other
    rw [hends, hid, Prod.ext_iff, Prod.ext_iff, ← hlisted]
    split
    · next hhere => simp [hhere.1, hhere.2, or_comm]
    · next hhere =>
        constructor
        · exact Or.inr
        · rintro (⟨-, hnode, hposition⟩ | hmem)
          · exact absurd ⟨hnode, hposition.symm⟩ hhere
          · exact hmem
  inRange := by
    intro e he
    have hold : ∃ row ∈ rows, row.1 = e.2.1 ∧ e.2.2 < row.2.length := by
      rcases (hends e).1 he with rfl | he
      · exact hslot
      · exact h.inRange e he
    obtain ⟨row, hrow, hid, hlt⟩ := hold
    refine ⟨_, List.mem_map_of_mem hrow, ?_⟩
    split <;> simp [hid, hlt]

/-- Striking a link from the slot where it ends keeps the agreement. -/
theorem Agree.strike {rows : Rows} {ends ends' : Ends} {id : LinkId} {node : NodeId}
    {slot : Nat} (h : Agree rows ends)
    (honly : ∀ e ∈ ends, e.1 = id → e.2 = (node, slot))
    (hends : ∀ e, e ∈ ends' ↔ e ∈ ends ∧ e.1 ≠ id) :
    Agree (modifyRows node slot (·.filter fun other => other != id) rows) ends' where
  once := by
    intro row hrow ids hids
    obtain ⟨old, hold, -, hlists⟩ := mem_modifyRows.1 hrow
    obtain ⟨position, hposition⟩ := List.getElem?_of_mem hids
    rw [hlists] at hposition
    obtain ⟨before, hbefore, rfl⟩ := getElem?_modified hposition
    have honce := h.once old hold before (List.mem_of_getElem? hbefore)
    split
    · exact honce.filter _
    · exact honce
  listed := by
    intro row hrow position ids hids other
    obtain ⟨old, hold, hid, hlists⟩ := mem_modifyRows.1 hrow
    rw [hlists] at hids
    obtain ⟨before, hbefore, rfl⟩ := getElem?_modified hids
    have hlisted := h.listed old hold position before hbefore other
    rw [hends, hid, ← hlisted]
    split
    · simp
    · next hhere =>
        -- The struck link ends elsewhere, so this list does not name it.
        constructor
        · intro hmem
          refine ⟨hmem, ?_⟩
          rintro rfl
          have hend := honly _ (hlisted.1 hmem) rfl
          exact hhere ⟨congrArg Prod.fst hend, (congrArg Prod.snd hend).symm⟩
        · exact And.left
  inRange := by
    intro e he
    obtain ⟨row, hrow, hid, hlt⟩ := h.inRange e ((hends e).1 he).1
    refine ⟨_, List.mem_map_of_mem hrow, ?_⟩
    split <;> simp [hid, hlt]

theorem Agree.addRow {rows : Rows} {ends : Ends} (h : Agree rows ends) (node : NodeId)
    (lists : List (List LinkId)) (hempty : ∀ ids ∈ lists, ids = [])
    (hnew : ∀ row ∈ rows, row.1 ≠ node) : Agree (rows ++ [(node, lists)]) ends where
  once := by
    intro row hrow ids hids
    rcases List.mem_append.1 hrow with hold | hlast
    · exact h.once row hold ids hids
    · rw [List.mem_singleton.1 hlast] at hids
      simp [hempty ids hids]
  listed := by
    intro row hrow slot ids hids id
    rcases List.mem_append.1 hrow with hold | hlast
    · exact h.listed row hold slot ids hids id
    · rw [List.mem_singleton.1 hlast] at hids ⊢
      rw [hempty ids (List.mem_of_getElem? hids)]
      simp only [List.not_mem_nil, false_iff]
      intro hmem
      obtain ⟨old, hold, hid, -⟩ := h.inRange _ hmem
      exact hnew old hold hid
  inRange := by
    intro e he
    obtain ⟨row, hrow, hend⟩ := h.inRange e he
    exact ⟨row, List.mem_append_left _ hrow, hend⟩

theorem Agree.dropRow {rows : Rows} {ends : Ends} (h : Agree rows ends) (node : NodeId)
    (hfree : ∀ e ∈ ends, e.2.1 ≠ node) :
    Agree (rows.filter fun row => row.1 != node) ends where
  once row hrow := h.once row (List.mem_filter.1 hrow).1
  listed row hrow := h.listed row (List.mem_filter.1 hrow).1
  inRange := by
    intro e he
    obtain ⟨row, hrow, hid, hlt⟩ := h.inRange e he
    refine ⟨row, List.mem_filter.2 ⟨hrow, ?_⟩, hid, hlt⟩
    simpa [hid] using hfree e he

/-! ## Looking up nodes and links -/

theorem findNode?_mem {g : Graph} {id : NodeId} {node : Node}
    (hfind : g.findNode? id = some node) : node ∈ g.nodes ∧ node.id = id :=
  ⟨List.mem_of_find?_eq_some hfind, by simpa using List.find?_some hfind⟩

theorem findLink?_mem {g : Graph} {id : LinkId} {link : Link}
    (hfind : g.findLink? id = some link) : link ∈ g.links ∧ link.id = id :=
  ⟨List.mem_of_find?_eq_some hfind, by simpa using List.find?_some hfind⟩

theorem findNode?_isSome {g : Graph} {id : NodeId} :
    (g.findNode? id).isSome ↔ ∃ node ∈ g.nodes, node.id = id := by
  simp [findNode?, List.find?_isSome]

theorem findLink?_isSome {g : Graph} {id : LinkId} :
    (g.findLink? id).isSome ↔ ∃ link ∈ g.links, link.id = id := by
  simp [findLink?, List.find?_isSome]

theorem WellFormed.node_unique {g : Graph} (h : g.WellFormed) {a b : Node}
    (ha : a ∈ g.nodes) (hb : b ∈ g.nodes) (hid : a.id = b.id) : a = b :=
  List.inj_on_of_nodup_map h.nodes_distinct ha hb hid

theorem WellFormed.links_distinct {g : Graph} (h : g.WellFormed) :
    (g.links.map Link.id).Nodup :=
  h.links_ascending.imp fun hlt => Int.ne_of_lt hlt

theorem WellFormed.link_unique {g : Graph} (h : g.WellFormed) {a b : Link}
    (ha : a ∈ g.links) (hb : b ∈ g.links) (hid : a.id = b.id) : a = b :=
  List.inj_on_of_nodup_map h.links_distinct ha hb hid

theorem WellFormed.findNode?_eq {g : Graph} (h : g.WellFormed) {node : Node}
    (hmem : node ∈ g.nodes) : g.findNode? node.id = some node :=
  find?_of_nodup_map h.nodes_distinct hmem

theorem WellFormed.findLink?_eq {g : Graph} (h : g.WellFormed) {link : Link}
    (hmem : link ∈ g.links) : g.findLink? link.id = some link :=
  find?_of_nodup_map h.links_distinct hmem

theorem WellFormed.findNode?_eq_some_iff {g : Graph} (h : g.WellFormed) {id : NodeId}
    {node : Node} : g.findNode? id = some node ↔ node ∈ g.nodes ∧ node.id = id := by
  constructor
  · exact findNode?_mem
  · rintro ⟨hmem, rfl⟩
    exact h.findNode?_eq hmem

/-! ## What the slots list -/

theorem WellFormed.mem_output_iff {g : Graph} (h : g.WellFormed) {node : Node} {slot : Nat}
    {output : OutputSlot} {id : LinkId} (hnode : node ∈ g.nodes)
    (hslot : node.outputs[slot]? = some output) :
    id ∈ output.links ↔
      ∃ link ∈ g.links, link.id = id ∧ link.origin = node.id ∧ link.originSlot = slot := by
  rw [h.outputs_agree.listed _ (List.mem_map_of_mem hnode) slot output.links
    (by simp [List.getElem?_map, hslot])]
  simp [outEnds]

theorem WellFormed.mem_input_iff {g : Graph} (h : g.WellFormed) {node : Node} {slot : Nat}
    {input : InputSlot} {id : LinkId} (hnode : node ∈ g.nodes)
    (hslot : node.inputs[slot]? = some input) :
    id ∈ input.feed.links ↔
      ∃ link ∈ g.links, link.id = id ∧ link.target = node.id ∧ link.targetSlot = slot := by
  rw [h.inputs_agree.listed _ (List.mem_map_of_mem hnode) slot input.feed.links
    (by simp [List.getElem?_map, hslot])]
  simp [inEnds]

theorem WellFormed.input_nodup {g : Graph} (h : g.WellFormed) {node : Node}
    {input : InputSlot} (hnode : node ∈ g.nodes) (hinput : input ∈ node.inputs) :
    input.feed.links.Nodup :=
  h.inputs_agree.once _ (List.mem_map_of_mem hnode) _ (List.mem_map_of_mem hinput)

/-- The output slot that a link leaves lists it exactly once. -/
theorem WellFormed.count_output {g : Graph} (h : g.WellFormed) {link : Link}
    (hlink : link ∈ g.links) :
    ∃ node ∈ g.nodes, node.id = link.origin ∧
      ∃ output, node.outputs[link.originSlot]? = some output ∧
        output.links.count link.id = 1 := by
  obtain ⟨row, hrow, hid, hlt⟩ := h.outputs_agree.inRange _ (List.mem_map_of_mem hlink)
  obtain ⟨node, hnode, rfl⟩ := List.mem_map.1 hrow
  simp only [List.length_map] at hid hlt
  refine ⟨node, hnode, hid, _, List.getElem?_eq_getElem hlt, ?_⟩
  refine List.count_eq_one_of_mem ?_ ?_
  · exact h.outputs_agree.once _ hrow _ (List.mem_map_of_mem (List.getElem_mem hlt))
  · exact (h.mem_output_iff hnode (List.getElem?_eq_getElem hlt)).2
      ⟨link, hlink, rfl, hid.symm, rfl⟩

/-- The input slot that a link enters lists it exactly once. -/
theorem WellFormed.count_input {g : Graph} (h : g.WellFormed) {link : Link}
    (hlink : link ∈ g.links) :
    ∃ node ∈ g.nodes, node.id = link.target ∧
      ∃ input, node.inputs[link.targetSlot]? = some input ∧
        input.feed.links.count link.id = 1 := by
  obtain ⟨row, hrow, hid, hlt⟩ := h.inputs_agree.inRange _ (List.mem_map_of_mem hlink)
  obtain ⟨node, hnode, rfl⟩ := List.mem_map.1 hrow
  simp only [List.length_map] at hid hlt
  refine ⟨node, hnode, hid, _, List.getElem?_eq_getElem hlt, ?_⟩
  refine List.count_eq_one_of_mem ?_ ?_
  · exact h.input_nodup hnode (List.getElem_mem hlt)
  · exact (h.mem_input_iff hnode (List.getElem?_eq_getElem hlt)).2
      ⟨link, hlink, rfl, hid.symm, rfl⟩

end Graph

end SlotGraph
