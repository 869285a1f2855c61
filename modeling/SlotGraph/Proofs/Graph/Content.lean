import Mathlib.Data.List.Perm.Basic
import SlotGraph.Proofs.Graph.Edits

/-!
# What a slot holds

An input slot holds the links that enter it, each known by where it comes from and
by its key, and a native value.  Where every slot lists its links in the order of
their numbers, the value of a node follows from the contents of its slots; and
linking into a slot or filling it changes what this slot holds and nothing else.
-/

namespace SlotGraph

/-- A link into a slot, by the node that it comes from and by its key. -/
structure Source where
  origin : NodeId
  key : String
deriving DecidableEq

/-- What an input slot holds: its links, oldest first, and its native value. -/
structure SlotContent where
  sources : List Source
  held : Option Json

namespace Intake

def native? : Intake → Option NativeKind
  | .single native => native
  | .many _ => none

def freshContent (intake : Intake) : SlotContent :=
  ⟨[], intake.native?.map NativeKind.initialValue⟩

end Intake

namespace Link

def source (link : Link) : Source :=
  ⟨link.origin, link.key⟩

def enters (id : NodeId) (slot : Nat) (link : Link) : Bool :=
  link.target == id && link.targetSlot == slot

end Link

namespace Feed

@[simp] theorem native?_attach (id : LinkId) (feed : Feed) :
    (feed.attach id).native? = feed.native? := by
  cases feed <;> rfl

theorem native?_setNative (value : Json) (feed : Feed) :
    (feed.setNative value).native? =
      feed.native?.map fun cell => { cell with value := value } := by
  cases feed <;> rfl

theorem native?_ofIntake (intake : Intake) :
    (ofIntake intake).native?.map NativeCell.value = intake.freshContent.held := by
  cases intake with
  | single native =>
      cases native <;> rfl
  | many keyed =>
      rfl

theorem native?_kind (feed : Feed) :
    feed.native?.map NativeCell.kind = feed.intake.native? := by
  cases feed <;> rfl

end Feed

namespace Node

theorem nativeAt?_modifyFeed {change : Feed → Feed}
    (hkeep : ∀ feed, (change feed).native? = feed.native?) (node : Node) (slot other : Nat) :
    (node.modifyFeed slot change).nativeAt? other = node.nativeAt? other := by
  rw [nativeAt?, nativeAt?, modifyFeed, List.getElem?_modify]
  cases node.inputs[other]? with
  | none =>
      rfl
  | some input =>
      by_cases hslot : slot = other <;> simp [hslot, hkeep]

theorem nativeAt?_setNative (node : Node) (slot other : Nat) (value : Json) :
    (node.modifyFeed slot (Feed.setNative value)).nativeAt? other =
      if slot = other then
        (node.nativeAt? other).map fun cell => { cell with value := value }
      else
        node.nativeAt? other := by
  rw [nativeAt?, nativeAt?, modifyFeed, List.getElem?_modify]
  cases node.inputs[other]? with
  | none =>
      simp
  | some input =>
      by_cases hslot : slot = other <;> simp [hslot, Feed.native?_setNative]

end Node

namespace Graph

/-- The links into a slot, oldest first. -/
def sources (g : Graph) (id : NodeId) (slot : Nat) : List Source :=
  (g.links.filter (Link.enters id slot)).map Link.source

def held? (g : Graph) (id : NodeId) (slot : Nat) : Option Json :=
  ((g.findNode? id).bind fun node => node.nativeAt? slot).map NativeCell.value

def content (g : Graph) (id : NodeId) (slot : Nat) : SlotContent :=
  ⟨g.sources id slot, g.held? id slot⟩

/-- Every input slot lists its links in the order of their numbers. -/
def InOrder (g : Graph) : Prop :=
  ∀ row ∈ g.inRows, ∀ ids ∈ row.2, ids.Pairwise (· < ·)

/-! ## Native values of a changed graph -/

theorem findNode?_modifyNode (g : Graph) (id : NodeId) {change : Node → Node}
    (hid : ∀ node, (change node).id = node.id) (other : NodeId) :
    (g.modifyNode id change).findNode? other =
      (g.findNode? other).map fun node => if node.id = id then change node else node := by
  rw [findNode?, findNode?, modifyNode, List.find?_map]
  congr 2
  funext node
  simp only [Function.comp]
  split <;> simp [hid]

theorem held?_modifyNode {g : Graph} {id : NodeId} {change : Node → Node}
    (hid : ∀ node, (change node).id = node.id)
    (hkeep : ∀ node slot, (change node).nativeAt? slot = node.nativeAt? slot)
    (other : NodeId) (slot : Nat) :
    (g.modifyNode id change).held? other slot = g.held? other slot := by
  rw [held?, held?, findNode?_modifyNode g id hid]
  cases g.findNode? other with
  | none =>
      rfl
  | some node =>
      by_cases hnode : node.id = id <;> simp [hnode, hkeep]

theorem held?_attach (g : Graph) (link : Link) (id : NodeId) (slot : Nat) :
    (g.attach link).held? id slot = g.held? id slot := by
  rw [attach, held?_modifyNode, held?_modifyNode]
  · rfl
  · exact fun _ => rfl
  · exact fun _ _ => rfl
  · exact fun _ => rfl
  · exact fun node => node.nativeAt?_modifyFeed (Feed.native?_attach link.id) link.targetSlot

theorem isSome_setNative? (g : Graph) (id : NodeId) (slot : Nat) (value : Json) :
    (g.setNative? id slot value).isSome = (g.held? id slot).isSome := by
  rw [setNative?, held?, Option.isSome_map]
  cases (g.findNode? id).bind fun node => node.nativeAt? slot <;> rfl

theorem held?_setNative {g g' : Graph} {id : NodeId} {slot : Nat} {value : Json}
    (hset : g.setNative? id slot value = some g') (other : NodeId) (position : Nat) :
    g'.held? other position =
      if other = id ∧ position = slot then some value else g.held? other position := by
  have hcell : ((g.findNode? id).bind fun node => node.nativeAt? slot).isSome := by
    rw [← Option.isSome_map, ← held?, ← isSome_setNative? g id slot value, hset]
    rfl
  have hnodes := g.findNode?_modifyNode id
    (fun node => rfl : ∀ node : Node, (node.modifyFeed slot (Feed.setNative value)).id = node.id)
    other
  rw [setNative?_eq_some hset, held?, held?, hnodes]
  cases hfind : g.findNode? other with
  | none =>
      by_cases hother : other = id
      · rw [← hother, hfind] at hcell
        simp at hcell
      · simp [hother]
  | some node =>
      have hnode := (findNode?_mem hfind).2
      by_cases hother : other = id
      · by_cases hposition : position = slot
        · subst hposition
          rw [← hother, hfind] at hcell
          obtain ⟨cell, hcell⟩ := Option.isSome_iff_exists.1 hcell
          rw [Option.bind_some] at hcell
          simp [hnode, hother, Node.nativeAt?_setNative, hcell]
        · simp [hnode, hother, hposition, Node.nativeAt?_setNative, Ne.symm hposition]
      · simp [hnode, hother]

/-! ## Links of a changed graph -/

theorem sources_of_links {g g' : Graph} (hlinks : g'.links = g.links) (id : NodeId)
    (slot : Nat) : g'.sources id slot = g.sources id slot := by
  rw [sources, sources, hlinks]

theorem sources_of_append {g g' : Graph} {link : Link} (hlinks : g'.links = g.links ++ [link])
    (id : NodeId) (slot : Nat) :
    g'.sources id slot =
      g.sources id slot ++ if link.enters id slot then [link.source] else [] := by
  rw [sources, sources, hlinks, List.filter_append, List.map_append]
  by_cases henters : link.enters id slot <;> simp [henters]

/-- A link numbered higher than all others goes last. -/
theorem insertLink_of_gt {link : Link} {links : List Link}
    (h : ∀ other ∈ links, other.id < link.id) : insertLink link links = links ++ [link] := by
  induction links with
  | nil =>
      rfl
  | cons first rest ih =>
      have hlt := h first List.mem_cons_self
      rw [insertLink, if_neg (Int.not_lt.2 (Int.le_of_lt hlt)), if_neg (Int.ne_of_gt hlt),
        ih fun other hother => h other (List.mem_cons_of_mem _ hother)]
      rfl

theorem mem_sources {g : Graph} {id : NodeId} {slot : Nat} {source : Source} :
    source ∈ g.sources id slot ↔
      ∃ link ∈ g.links, link.target = id ∧ link.targetSlot = slot ∧ link.source = source := by
  simp [sources, Link.enters, and_assoc]

theorem WellFormed.entering_ascending {g : Graph} (h : g.WellFormed) (id : NodeId) (slot : Nat) :
    ((g.links.filter (Link.enters id slot)).map Link.id).Pairwise (· < ·) :=
  h.links_ascending.sublist (List.filter_sublist.map _)

theorem WellFormed.links_perm {g : Graph} (h : g.WellFormed) {node : Node} {slot : Nat}
    {input : InputSlot} (hnode : node ∈ g.nodes) (hslot : node.inputs[slot]? = some input) :
    input.feed.links.Perm ((g.links.filter (Link.enters node.id slot)).map Link.id) := by
  have honce : input.feed.links.Nodup :=
    h.inputs_agree.once _ (List.mem_map_of_mem hnode) _
      (List.mem_map_of_mem (List.mem_of_getElem? hslot))
  refine (List.perm_ext_iff_of_nodup honce
    ((h.entering_ascending node.id slot).imp fun hlt => Int.ne_of_lt hlt)).2 fun id => ?_
  rw [h.mem_input_iff hnode hslot]
  simp [Link.enters, and_assoc, and_comm]

/-- In order, the list of a slot is what the graph lists for it. -/
theorem WellFormed.links_eq {g : Graph} (h : g.WellFormed) (horder : g.InOrder)
    {node : Node} {slot : Nat} {input : InputSlot} (hnode : node ∈ g.nodes)
    (hslot : node.inputs[slot]? = some input) :
    input.feed.links = (g.links.filter (Link.enters node.id slot)).map Link.id := by
  have hlist := horder _ (List.mem_map_of_mem hnode) _
    (List.mem_map_of_mem (List.mem_of_getElem? hslot))
  exact (h.links_perm hnode hslot).eq_of_pairwise
    (fun a b _ _ hab hba => absurd hba (Int.lt_asymm hab)) hlist
    (h.entering_ascending node.id slot)

/-! ## Order of a changed graph -/

theorem InOrder.empty : Graph.empty.InOrder := by
  simp [InOrder, inRows, Graph.empty]

theorem InOrder.modifyRows {rows : Rows} {id : NodeId} {slot : Nat}
    {change : List LinkId → List LinkId}
    (h : ∀ row ∈ rows, ∀ ids ∈ row.2, ids.Pairwise (· < ·))
    (hchange : ∀ row ∈ rows, ∀ ids ∈ row.2, (change ids).Pairwise (· < ·)) :
    ∀ row ∈ modifyRows id slot change rows, ∀ ids ∈ row.2, ids.Pairwise (· < ·) := by
  intro row hrow ids hids
  obtain ⟨old, hold, -, hlists⟩ := mem_modifyRows.1 hrow
  obtain ⟨position, hposition⟩ := List.getElem?_of_mem hids
  rw [hlists] at hposition
  obtain ⟨before, hbefore, rfl⟩ := getElem?_modified hposition
  have hmem := List.mem_of_getElem? hbefore
  split
  · exact hchange old hold before hmem
  · exact h old hold before hmem

theorem InOrder.detach {g : Graph} (h : g.InOrder) (link : Link) : (g.detach link).InOrder := by
  rw [InOrder, inRows_detach]
  exact InOrder.modifyRows h fun row hrow ids hids => (h row hrow ids hids).filter _

theorem InOrder.dropLinks {g : Graph} (h : g.InOrder) (ids : List LinkId) :
    (g.dropLinks ids).InOrder := by
  induction ids generalizing g with
  | nil =>
      exact h
  | cons id rest ih =>
      refine ih ?_
      unfold Graph.dropLink
      split
      · exact h.detach _
      · exact h

theorem InOrder.addNode {g : Graph} (h : g.InOrder) (template : NodeTemplate) (x y : Float) :
    (g.addNode template x y).2.InOrder := by
  intro row hrow ids hids
  rw [inRows, Graph.addNode, List.map_append, List.mem_append] at hrow
  rcases hrow with hold | hnew
  · exact h row hold ids hids
  · rw [List.map_singleton, List.mem_singleton] at hnew
    subst hnew
    have hempty : ids = [] := by
      simp only [Node.ofTemplate, List.map_map, List.mem_map, Function.comp] at hids
      obtain ⟨spec, -, rfl⟩ := hids
      exact Feed.links_ofIntake spec.intake
    rw [hempty]
    exact List.Pairwise.nil

/-- A link that is numbered higher than all others keeps the slots in order. -/
theorem InOrder.attach {g : Graph} (h : g.InOrder) (hagree : Agree g.inRows g.inEnds) {link : Link}
    (hroom : ∀ node ∈ g.nodes, node.id = link.target →
      ∀ input, node.inputs[link.targetSlot]? = some input →
        input.feed.collects ∨ input.feed.links = [])
    (hafter : ∀ other ∈ g.links, other.id < link.id) : (g.attach link).InOrder := by
  rw [InOrder, inRows_attach hroom]
  refine InOrder.modifyRows h fun row hrow ids hids => ?_
  refine List.pairwise_append.2 ⟨h row hrow ids hids, List.pairwise_singleton _ _, ?_⟩
  intro a ha b hb
  obtain ⟨slot, hslot⟩ := List.getElem?_of_mem hids
  have hend := (hagree.listed row hrow slot ids hslot a).1 ha
  obtain ⟨other, hother, heq⟩ := List.mem_map.1 hend
  have hid : other.id = a := congrArg Prod.fst heq
  rw [List.mem_singleton.1 hb, ← hid]
  exact hafter other hother

theorem InOrder.connect {g g' : Graph} (hwf : g.WellFormed) (h : g.InOrder)
    (hroom : g.lastLink < lastId) {o t : NodeId} {os ts : Nat} {id : LinkId}
    (hconnect : g.connect o os t ts = .ok (id, g')) : g'.InOrder := by
  obtain ⟨origin, target, output, input, horigin, htarget, houtput, hinput, -, rfl, rfl⟩ :=
    connect_eq_ok_iff.1 hconnect
  rw [nextId_eq hwf.counters_nonneg.2 hroom]
  have horigin := findNode?_mem horigin
  have htarget := findNode?_mem htarget
  have hcleared := hwf.dropLinks (displaced input)
  have hfit := hwf.fitting_dropLinks ⟨g.lastLink + 1, o, os, t, ts, output.type, ""⟩
    horigin.1 horigin.2 (List.getElem?_eq_some_iff.1 houtput).1 htarget.1 htarget.2 hinput
  -- What the slots list was numbered before the new link was.
  have hafter : ∀ other ∈ (g.dropLinks (displaced input)).links, other.id < g.lastLink + 1 := by
    intro other hother
    have hle := (hcleared.links_numbered other hother).2
    rw [(g.counters_dropLinks _).2] at hle
    exact Int.lt_add_one_of_le hle
  have hordered :
      InOrder { g.dropLinks (displaced input) with lastLink := g.lastLink + 1 } :=
    h.dropLinks (displaced input)
  exact hordered.attach hcleared.inputs_agree hfit.room hafter

theorem InOrder.setKey_getD {g : Graph} (h : g.InOrder) (id : LinkId) (key : String) :
    ((g.setKey? id key).getD g).InOrder := by
  rw [setKey?_getD]
  exact h

theorem InOrder.setNative {g g' : Graph} (h : g.InOrder) {id : NodeId} {slot : Nat}
    {value : Json} (hset : g.setNative? id slot value = some g') : g'.InOrder := by
  have hrows : (g.modifyNode id fun node => node.modifyFeed slot (Feed.setNative value)).inRows =
      Graph.modifyRows id slot (fun ids => ids) g.inRows :=
    inRows_modifyFeed fun _ _ _ input _ => Feed.links_setNative value input.feed
  rw [setNative?_eq_some hset, InOrder, hrows]
  exact InOrder.modifyRows h h

end Graph

end SlotGraph
