import SlotGraph.Config.Build
import SlotGraph.Proofs.Graph.SetMembers
import SlotGraph.Proofs.Graph.Shift

/-!
# Builds of shifted graphs

A config document says nothing of the numbers of nodes and links: a node is referred to by
its place in its group.  So a shifted graph is built into the same document.
-/

namespace SlotGraph

namespace NodeValue

variable (d : Int)

mutual

theorem shift_ofJson : ∀ value : Json, (ofJson value).shift d = ofJson value
  | .arr xs => by rw [ofJson, shift, shiftItems_ofItems xs]
  | .obj ms => by rw [ofJson, shift, shiftMembers_ofMembers ms]
  | .null | .bool _ | .int _ | .minusZero | .float _ | .str _ => rfl

theorem shiftItems_ofItems : ∀ xs : List Json, shiftItems d (ofItems xs) = ofItems xs
  | [] => rfl
  | x :: xs => by rw [ofItems, shiftItems, shift_ofJson x, shiftItems_ofItems xs]

theorem shiftMembers_ofMembers :
    ∀ ms : List (String × Json), shiftMembers d (ofMembers ms) = ofMembers ms
  | [] => rfl
  | (key, x) :: ms => by
      rw [ofMembers, shiftMembers, shift_ofJson x, shiftMembers_ofMembers ms]

end

section

variable {d} {resolve' resolve : NodeId → Json}

mutual

theorem toJson_shift (hresolve : ∀ id, resolve' (id + d) = resolve id) :
    ∀ value : NodeValue, (value.shift d).toJson resolve' = value.toJson resolve
  | .scalar _ => rfl
  | .array xs => by rw [shift, toJson, toJson, toItems_shift hresolve xs]
  | .object ms => by rw [shift, toJson, toJson, toMembers_shift hresolve ms]
  | .ref node => hresolve node

theorem toItems_shift (hresolve : ∀ id, resolve' (id + d) = resolve id) :
    ∀ xs : List NodeValue, toItems resolve' (shiftItems d xs) = toItems resolve xs
  | [] => rfl
  | x :: xs => by
      rw [shiftItems, toItems, toItems, toJson_shift hresolve x, toItems_shift hresolve xs]

theorem toMembers_shift (hresolve : ∀ id, resolve' (id + d) = resolve id) :
    ∀ ms : List (String × NodeValue),
      toMembers resolve' (shiftMembers d ms) = toMembers resolve ms
  | [] => rfl
  | (key, x) :: ms => by
      rw [shiftMembers, toMembers, toMembers, toJson_shift hresolve x,
        toMembers_shift hresolve ms]

end

end

theorem putAll_shift (entries : List (String × NodeValue)) :
    putAll (entries.map (shiftMember d)) = (putAll entries).map (shiftMember d) := by
  have hentries : (entries.map (shiftMember d)).map (fun entry => (entry.1, id entry.2)) =
      entries.map fun entry => (entry.1, entry.2.shift d) :=
    List.map_id _
  exact (List.map_id _).symm.trans (putAll_congr hentries)

theorem members_shift (value : NodeValue) :
    (value.shift d).members = value.members.map (shiftMember d) := by
  cases value with
  | object ms =>
      exact shiftMembers_eq d ms
  | _ =>
      rfl

end NodeValue

namespace Graph

open NodeValue

variable (d : Offset) (g : Graph)

/-! ## Values of nodes -/

theorem linkedRefs_shift (links : List LinkId) :
    (g.shift d).linkedRefs (links.map (· + d.link)) =
      (g.linkedRefs links).map (NodeValue.shift d.node) := by
  rw [linkedRefs, linkedRefs, List.filterMap_map, List.map_filterMap]
  refine List.filterMap_congr fun id _ => ?_
  rw [Function.comp, findLink?_shift, Option.map_map, Option.map_map]
  rfl

theorem keyedRefs_shift (links : List LinkId) :
    (g.shift d).keyedRefs (links.map (· + d.link)) =
      (g.keyedRefs links).map (shiftMember d.node) := by
  rw [keyedRefs, keyedRefs, ← putAll_shift, List.zipIdx_map, List.filterMap_map,
    List.map_filterMap]
  refine congrArg putAll (List.filterMap_congr fun entry _ => ?_)
  rw [Function.comp, Prod.map_fst, findLink?_shift, Option.map_map, Option.map_map]
  rfl

theorem slotValue?_shift (slot : InputSlot) :
    (g.shift d).slotValue? (slot.shift d.link) =
      (g.slotValue? slot).map (NodeValue.shift d.node) := by
  obtain ⟨name, type, linkType, optional, feed⟩ := slot
  cases feed with
  | many keyed links =>
      cases keyed with
      | true =>
          simp only [slotValue?, InputSlot.shift, Feed.shift, keyedRefs_shift, List.isEmpty_map]
          split
          · rfl
          · rw [Option.map_some, NodeValue.shift, shiftMembers_eq]
      | false =>
          simp only [slotValue?, InputSlot.shift, Feed.shift, linkedRefs_shift, List.isEmpty_map]
          split
          · rfl
          · rw [Option.map_some, NodeValue.shift, shiftItems_eq]
  | single held native =>
      have hlink : (held.map (· + d.link)).bind (g.shift d).findLink? =
          (held.bind g.findLink?).map (Link.shift d) := by
        rw [Option.bind_map, Option.map_bind]
        exact Option.bind_congr fun id _ => g.findLink?_shift d id
      simp only [slotValue?, InputSlot.shift, Feed.shift, hlink]
      cases held.bind g.findLink? with
      | some link =>
          rfl
      | none =>
          rw [Option.map_none, Option.map_map]
          exact Option.map_congr fun value _ => (shift_ofJson d.node value).symm

theorem slotMembers_shift (slots : List InputSlot) :
    (g.shift d).slotMembers (slots.map (InputSlot.shift d.link)) =
      (g.slotMembers slots).map (shiftMember d.node) := by
  rw [slotMembers, slotMembers, ← putAll_shift, List.filterMap_map, List.map_filterMap]
  refine congrArg putAll (List.filterMap_congr fun slot _ => ?_)
  rw [Function.comp, slotValue?_shift, Option.map_map, Option.map_map]
  rfl

theorem nodeValue_shift (node : Node) :
    (g.shift d).nodeValue (node.shift d) = (g.nodeValue node).shift d.node := by
  rw [nodeValue, nodeValue, Node.shift]
  cases node.cell with
  | some cell =>
      exact (shift_ofJson d.node cell.output).symm
  | none =>
      rw [NodeValue.shift, shiftMembers_eq, ← slotMembers_shift]

/-! ## Groups -/

theorem rootNodes_shift (schema : Schema) :
    (g.shift d).rootNodes schema = (g.rootNodes schema).map (Node.shift d) := by
  rw [rootNodes, rootNodes, shift, List.filter_map]
  rfl

theorem groupedNodes_shift (schema : Schema) :
    (g.shift d).groupedNodes schema = (g.groupedNodes schema).map (Node.shift d) := by
  rw [groupedNodes, groupedNodes, shift, List.filter_map]
  rfl

theorem group_shift (schema : Schema) (className : String) :
    (g.shift d).group schema className = (g.group schema className).map (Node.shift d) := by
  rw [group, group, groupedNodes_shift, List.filter_map]
  rfl

theorem groupOrder_shift (schema : Schema) :
    (g.shift d).groupOrder schema = g.groupOrder schema := by
  rw [groupOrder, groupOrder, groupedNodes_shift, List.map_map]
  rfl

theorem groupIndex?_shift (schema : Schema) (id : NodeId) :
    (g.shift d).groupIndex? schema (id + d.node) = g.groupIndex? schema id := by
  have hid : ((fun node : Node => node.id == id + d.node) ∘ Node.shift d) =
      fun node => node.id == id :=
    funext fun node => add_beq_add node.id id d.node
  rw [groupIndex?, groupIndex?, groupedNodes_shift, List.find?_map, Option.bind_map, hid]
  refine Option.bind_congr fun node _ => ?_
  rw [Function.comp, group_shift, List.findIdx?_map, hid]
  rfl

end Graph

namespace Build

open SlotGraph.Graph

/-! ## The document -/

variable (d : Offset) (g : Graph) (schema : Schema)

theorem resolve_shift (id : NodeId) :
    resolve (g.shift d) schema (id + d.node) = resolve g schema id := by
  rw [resolve, resolve, groupIndex?_shift, findNode?_shift, Option.bind_map]
  rfl

theorem writeMember_shift (value : NodeValue) :
    writeMember (g.shift d) schema (value.shift d.node) = writeMember g schema value := by
  have hwritten := NodeValue.toJson_shift (resolve_shift d g schema) value
  cases value with
  | scalar value =>
      cases value <;> rfl
  | _ =>
      exact hwritten

theorem writeMembers_shift (members : List (String × NodeValue)) :
    writeMembers (g.shift d) schema (members.map (NodeValue.shiftMember d.node)) =
      writeMembers g schema members := by
  rw [writeMembers, writeMembers, List.map_map]
  exact List.map_congr_left fun member _ =>
    congrArg (Prod.mk member.1) (writeMember_shift d g schema member.2)

theorem entry_shift (node : Node) :
    entry (g.shift d) schema (node.shift d) = entry g schema node := by
  rw [entry, entry, nodeValue_shift, NodeValue.members_shift, writeMembers_shift]

theorem groupMembers_shift : groupMembers (g.shift d) schema = groupMembers g schema := by
  rw [groupMembers, groupMembers, groupOrder_shift]
  refine List.map_congr_left fun className _ => ?_
  rw [group_shift, List.map_map]
  simp only [Function.comp_def, entry_shift]

theorem rootValues_shift :
    rootValues (g.shift d) schema =
      (rootValues g schema).map (NodeValue.shiftMember d.node) := by
  rw [rootValues, rootValues, rootNodes_shift, List.head?_map]
  cases (g.rootNodes schema).head? with
  | none =>
      rfl
  | some root =>
      rw [Option.map_some]
      simp only [nodeValue_shift, NodeValue.members_shift, List.filter_map]
      rfl

theorem config_shift : (ofGraph (g.shift d) schema).config = (ofGraph g schema).config := by
  rw [ofGraph, ofGraph, groupMembers_shift, rootValues_shift, writeMembers_shift]

end Build

end SlotGraph
