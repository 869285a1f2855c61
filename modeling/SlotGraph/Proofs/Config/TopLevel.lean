import SlotGraph.Config.Build
import SlotGraph.Graph.Edit
import SlotGraph.Proofs.Graph.SetMembers
import SlotGraph.Template.Registry

/-!
# The top level of a built document

The keys of the document come from the classes and from the fields of the root, and
nothing compares them.  A build loses nothing exactly when no two of them meet: a
group is overwritten by whatever is written later under its key, and a member of the
root that is named like a group key is not written at all.
-/

namespace SlotGraph

namespace Graph

theorem nodup_slotMembers (g : Graph) (slots : List InputSlot) :
    ((g.slotMembers slots).map Prod.fst).Nodup := by
  exact NodeValue.nodup_putAll _

theorem mem_rootNodes {g : Graph} {schema : Schema} {node : Node} :
    node ∈ g.rootNodes schema ↔
      node ∈ g.nodes ∧ node.cell = none ∧ node.schemaName = schema.name ∧
        node.isRoot = true := by
  simp [rootNodes, belongsTo, Node.isValueNode, and_assoc]

theorem nodup_members_rootNode {g : Graph} {schema : Schema} {root : Node}
    (hroot : root ∈ g.rootNodes schema) :
    ((g.nodeValue root).members.map Prod.fst).Nodup := by
  have hcell : root.cell = none :=
    (mem_rootNodes.1 hroot).2.1
  rw [nodeValue, hcell]
  exact g.nodup_slotMembers root.inputs

end Graph

namespace Build

variable (g : Graph) (schema : Schema)

def groupOf (className : String) : Json :=
  groupValue schema (schema.keyOfClass className)
    ((g.group schema className).map (entry g schema))

/-- Whether a member of a node's value comes from a native slot. -/
def FromNative (node : Node) (member : String × NodeValue) : Prop :=
  member ∈ (g.nodeValue node).members ∧
    ∃ slot ∈ node.inputs, slot.name = member.1 ∧ slot.feed.native?.isSome ∧
      g.slotValue? slot = some member.2

/--
Nothing is lost at the top level: every class with tracked nodes has its group under
its key, and every native member of the first root stands under its name.
-/
structure Lossless : Prop where
  groups : ∀ className, g.group schema className ≠ [] →
    (ofGraph g schema).config.get? (schema.keyOfClass className) =
      some (groupOf g schema className)
  natives : ∀ root ∈ (g.rootNodes schema).head?, ∀ member, FromNative g root member →
    (ofGraph g schema).config.get? member.1 = some (writeMember g schema member.2)

/--
The keys do not meet: no two groups under one key, no member of the root over a
group, and no native member of the root passed over for a group; or the values
under one key are the same.
-/
structure Clashless : Prop where
  groups : ∀ c d, g.group schema c ≠ [] → g.group schema d ≠ [] →
    schema.keyOfClass c = schema.keyOfClass d → groupOf g schema c = groupOf g schema d
  root : ∀ member ∈ rootValues g schema, ∀ c, g.group schema c ≠ [] →
    schema.keyOfClass c = member.1 →
    writeMember g schema member.2 = groupOf g schema c
  natives : ∀ root ∈ (g.rootNodes schema).head?, ∀ member, FromNative g root member →
    schema.isGroupKey member.1 →
    ∃ c, g.group schema c ≠ [] ∧ schema.keyOfClass c = member.1 ∧
      groupOf g schema c = writeMember g schema member.2

variable {g schema}

theorem mem_groupOrder {className : String} :
    className ∈ g.groupOrder schema ↔ g.group schema className ≠ [] := by
  simp [Graph.groupOrder, Graph.group, List.mem_eraseDups, List.filter_eq_nil_iff]

theorem mem_groupMembers {member : String × Json} :
    member ∈ groupMembers g schema ↔
      ∃ c, g.group schema c ≠ [] ∧
        (schema.keyOfClass c, groupOf g schema c) = member := by
  simp only [groupMembers, List.mem_map, mem_groupOrder]
  rfl

theorem nodup_rootValues : ((rootValues g schema).map Prod.fst).Nodup := by
  unfold rootValues
  split
  · next root hroot =>
      have hnodup := Graph.nodup_members_rootNode (List.mem_of_head? hroot)
      exact hnodup.sublist (List.filter_sublist.map _)
  · exact List.nodup_nil

theorem mem_rootValues {member : String × NodeValue} :
    member ∈ rootValues g schema ↔
      ∃ root ∈ (g.rootNodes schema).head?, member ∈ (g.nodeValue root).members ∧
        schema.isGroupKey member.1 = false := by
  unfold rootValues
  cases (g.rootNodes schema).head? <;> simp

theorem mem_writeMembers {members : List (String × NodeValue)} {written : String × Json} :
    written ∈ writeMembers g schema members ↔
      ∃ member ∈ members, (member.1, writeMember g schema member.2) = written := by
  simp [writeMembers]

theorem get?_config_of_mem_rootValues {member : String × NodeValue}
    (hmember : member ∈ rootValues g schema) :
    (ofGraph g schema).config.get? member.1 = some (writeMember g schema member.2) := by
  have hnodup : ((writeMembers g schema (rootValues g schema)).reverse.map Prod.fst).Nodup := by
    rw [List.map_reverse, List.nodup_reverse, writeMembers, List.map_map]
    exact nodup_rootValues
  have hwritten : (member.1, writeMember g schema member.2) ∈
      (writeMembers g schema (rootValues g schema)).reverse :=
    List.mem_reverse.2 (mem_writeMembers.2 ⟨member, hmember, rfl⟩)
  rw [ofGraph, Json.get?_ofMembers, List.reverse_append, List.lookup_append,
    (Json.lookup_eq_some_iff hnodup).2 hwritten]
  rfl

theorem of_get?_config {key : String} {value : Json}
    (hget : (ofGraph g schema).config.get? key = some value) :
    (∃ c, g.group schema c ≠ [] ∧ schema.keyOfClass c = key ∧ groupOf g schema c = value) ∨
      ∃ member ∈ rootValues g schema, member.1 = key ∧
        writeMember g schema member.2 = value := by
  rw [ofGraph, Json.get?_ofMembers] at hget
  have hmem := Json.mem_of_lookup hget
  rw [List.mem_reverse, List.mem_append, mem_groupMembers, mem_writeMembers] at hmem
  rcases hmem with ⟨c, hc, hwritten⟩ | ⟨member, hmember, hwritten⟩
  · exact Or.inl ⟨c, hc, Prod.mk.inj hwritten⟩
  · exact Or.inr ⟨member, hmember, Prod.mk.inj hwritten⟩

/-- Under the key of a class with tracked nodes something is written. -/
theorem get?_config_isSome {c : String} (hc : g.group schema c ≠ []) :
    ((ofGraph g schema).config.get? (schema.keyOfClass c)).isSome := by
  rw [ofGraph, Json.get?_ofMembers]
  have hmem : (schema.keyOfClass c, groupOf g schema c) ∈ groupMembers g schema :=
    mem_groupMembers.2 ⟨c, hc, rfl⟩
  exact Json.lookup_isSome_of_mem (List.mem_reverse.2 (List.mem_append_left _ hmem))

/-- A build loses nothing at the top level exactly when its keys do not meet. -/
theorem lossless_iff_clashless (g : Graph) (schema : Schema) :
    Lossless g schema ↔ Clashless g schema := by
  constructor
  · intro h
    refine ⟨?_, ?_, ?_⟩
    · intro c d hc hd hkey
      have hfound := h.groups c hc
      rw [hkey, h.groups d hd] at hfound
      exact (Option.some.inj hfound).symm
    · intro member hmember c hc hkey
      have hfound := h.groups c hc
      rw [hkey, get?_config_of_mem_rootValues hmember] at hfound
      exact Option.some.inj hfound
    · intro root hroot member hnative hgroup
      rcases of_get?_config (h.natives root hroot member hnative) with hmet | hwritten
      · exact hmet
      · -- The root writes nothing under a group key.
        obtain ⟨other, hother, hname, -⟩ := hwritten
        obtain ⟨-, -, -, hnot⟩ := mem_rootValues.1 hother
        rw [hname, hgroup] at hnot
        exact absurd hnot (by decide)
  · intro h
    have hgroups : ∀ c, g.group schema c ≠ [] →
        (ofGraph g schema).config.get? (schema.keyOfClass c) =
          some (groupOf g schema c) := by
      intro c hc
      obtain ⟨value, hget⟩ := Option.isSome_iff_exists.1 (get?_config_isSome hc)
      rw [hget]
      rcases of_get?_config hget with ⟨d, hd, hkey, rfl⟩ | ⟨member, hmember, hkey, rfl⟩
      · rw [h.groups d c hd hc hkey]
      · rw [h.root member hmember c hc hkey.symm]
    refine ⟨hgroups, ?_⟩
    intro root hroot member hnative
    cases hgroup : schema.isGroupKey member.1 with
    | true =>
        obtain ⟨c, hc, hkey, hsame⟩ := h.natives root hroot member hnative hgroup
        rw [← hkey, hgroups c hc, hsame]
    | false =>
        exact get?_config_of_mem_rootValues
          (mem_rootValues.2 ⟨root, hroot, hnative.1, hgroup⟩)

/-- A root that holds a number of its own under the key of a class. -/
def shadowedSchema : Schema :=
  Schema.ofClasses "s" "Index" "App"
    [ ⟨"Tool", [⟨"a", .named "int", "int", ""⟩]⟩
    , ⟨"App", [⟨"tools", .named "int", "int", ""⟩]⟩ ]

/-- One root node, whose number is lost. -/
def shadowedGraph : Graph :=
  let root := NodeTemplate.ofClass shadowedSchema 1 2
    ⟨"App", [⟨"tools", .named "int", "int", ""⟩]⟩
  (Graph.empty.addNode root 0.0 0.0).2

theorem not_lossless_shadowedGraph : ¬ Lossless shadowedGraph shadowedSchema := by
  intro h
  have hlost : (ofGraph shadowedGraph shadowedSchema).config.get? "tools" = none := by
    rfl
  have hkept := h.natives _ rfl ("tools", .scalar (.int 0))
    ⟨List.mem_singleton_self _, _, List.mem_singleton_self _, rfl, rfl, rfl⟩
  rw [hlost] at hkept
  exact absurd hkept (by simp)

end Build

end SlotGraph
