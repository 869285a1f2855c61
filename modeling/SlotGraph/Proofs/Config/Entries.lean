import SlotGraph.Proofs.Config.Census
import SlotGraph.Proofs.Config.Places
import SlotGraph.Proofs.Graph.Runs

/-!
# Entries and what they refer to

The groups part the nodes of a schema that are no roots, and number them in graph
order.  As long as no two document keys meet, the entry of a node stands under the key
of its class at the number of the node, and has at the place of each reference in the
value of the node what the reference denotes: the number of the node referred to, the
value of a value node, or `null` with one issue.
-/

namespace SlotGraph

namespace Json

/-- The entry of a group at a position: an item of an array, or a value that stands alone. -/
def entryAt? (document : Json) (key : String) (position : Nat) : Option Json :=
  match document.get? key with
  | some (.arr items) => items[position]?
  | some value => if position = 0 then some value else none
  | none => none

end Json

namespace Graph

/-- The groups part the nodes that they are made for, and number them in graph order. -/
structure Parted (g : Graph) (schema : Schema) : Prop where
  /-- Each node of the schema that is no root has one class to be grouped under. -/
  once : ∀ node ∈ g.nodes, node.cell = none → node.schemaName = schema.name →
    node.isRoot = false → ∃! className, node ∈ g.group schema className
  /-- Nothing else is grouped. -/
  only : ∀ className, ∀ node ∈ g.group schema className,
    node.cell = none ∧ node.schemaName = schema.name ∧ node.isRoot = false
  inGraphOrder : ∀ className, (g.group schema className).Sublist g.nodes
  /-- From zero up, with no number left out or given twice. -/
  numbered : ∀ className, ((g.group schema className).map fun node =>
    g.groupIndex? schema node.id) = (List.range (g.group schema className).length).map some

variable {g : Graph} {schema : Schema}

theorem mem_group_iff {className : String} {node : Node} :
    node ∈ g.group schema className ↔
      node ∈ g.nodes ∧ node.cell = none ∧ node.schemaName = schema.name ∧
        node.isRoot = false ∧ node.className = className := by
  rw [mem_group]
  simp [NodeTemplate.joins, Node.shape, and_assoc]

theorem WellFormed.parted (h : g.WellFormed) (schema : Schema) : g.Parted schema where
  once node hnode hcell hschema hroot := by
    refine ⟨node.className, mem_group_iff.2 ⟨hnode, hcell, hschema, hroot, rfl⟩, ?_⟩
    intro className hgroup
    exact (mem_group_iff.1 hgroup).2.2.2.2.symm
  only className node hnode := by
    obtain ⟨-, hcell, hschema, hroot, -⟩ := mem_group_iff.1 hnode
    exact ⟨hcell, hschema, hroot⟩
  inGraphOrder className := by
    rw [group_eq]
    exact List.filter_sublist
  numbered className := by
    refine List.ext_getElem (by simp) fun index hindex hrange => ?_
    have hlt : index < (g.group schema className).length := by
      simpa using hindex
    simpa using h.groupIndex?_eq (List.getElem?_eq_getElem hlt)

end Graph

namespace Build

/-- Whether a node has no number to be referred to by: a root, or a node of another schema. -/
def unnumbered (schema : Schema) (node : Node) : Bool :=
  !node.isValueNode && (node.schemaName != schema.name || node.isRoot)

/-- What a reference to a node denotes in a document. -/
inductive Denotes (g : Graph) (schema : Schema) : NodeId → Json → Prop where
  | number {className : String} {position : Nat} {node : Node} :
      (g.group schema className)[position]? = some node →
      Denotes g schema node.id (.int position)
  | value {node : Node} {cell : NativeCell} : node ∈ g.nodes → node.cell = some cell →
      Denotes g schema node.id (cell.kind.coerceProperty cell.value)
  | nothing {node : Node} : node ∈ g.nodes → unnumbered schema node = true →
      Denotes g schema node.id .null

/-- The issues for the references to nodes without a number, one for each, in order. -/
def unresolved (g : Graph) (schema : Schema) (ids : List NodeId) : List Issue :=
  ((ids.filterMap g.findNode?).filter (unnumbered schema)).map fun node =>
    .linkWithoutIndex node.id (some node.title)

/-- An entry says what the value of a node says, each reference by what it denotes. -/
structure Renders (g : Graph) (schema : Schema) (node : Node) (entry : Json) : Prop where
  /-- An object with the members of the value and no others. -/
  names : ∃ members, entry = .obj members ∧
    (members.map Prod.fst).Perm ((g.nodeValue node).members.map Prod.fst)
  /-- What a reference denotes stands at its place. -/
  references : ∀ path id, (g.nodeValue node).at? path = some (.ref id) →
    ∃ written, entry.at? path = some written ∧ Denotes g schema id written
  /-- A slot that collects links without keys keeps the order in which it lists them. -/
  inOrder : ∀ name value, (name, value) ∈ (g.nodeValue node).members →
    ∃ slot ∈ node.inputs, slot.name = name ∧ g.slotValue? slot = some value ∧
      ∀ ids, slot.feed = .many false ids →
        ∃ items, entry.get? name = some (.arr items) ∧
          List.Forall₂ (fun id item => ∃ link ∈ g.links, link.id = id ∧
            Denotes g schema link.origin item) ids items

variable {g : Graph} {schema : Schema}

/-! ## References -/

theorem groupIndex?_eq_none {node : Node} (h : g.WellFormed) (hnode : node ∈ g.nodes)
    (hout : node ∉ g.groupedNodes schema) : g.groupIndex? schema node.id = none := by
  have hnone : (g.groupedNodes schema).find? (fun other => other.id == node.id) = none := by
    rw [List.find?_eq_none]
    intro other hother hid
    have hsame := h.node_unique (List.mem_of_mem_filter hother) hnode (by simpa using hid)
    exact hout (hsame ▸ hother)
  rw [Graph.groupIndex?, hnone, Option.bind_none]

theorem mem_groupedNodes_iff {node : Node} (hnode : node ∈ g.nodes) :
    node ∈ g.groupedNodes schema ↔ node.cell = none ∧ unnumbered schema node = false := by
  cases hcell : node.cell <;>
    simp [Graph.groupedNodes, Graph.belongsTo, unnumbered, Node.isValueNode, hnode, hcell]

theorem unnumbered_of_not_grouped {node : Node} (hnode : node ∈ g.nodes)
    (hgrouped : node ∉ g.groupedNodes schema) (hcell : node.cell = none) :
    unnumbered schema node = true := by
  by_contra hnot
  exact hgrouped ((mem_groupedNodes_iff hnode).2 ⟨hcell, by simpa using hnot⟩)

theorem denotes_resolve (h : g.WellFormed) {node : Node} (hnode : node ∈ g.nodes) :
    Denotes g schema node.id (resolve g schema node.id) := by
  by_cases hgrouped : node ∈ g.groupedNodes schema
  · obtain ⟨position, hposition⟩ := List.getElem?_of_mem (Graph.mem_groupedNodes.1 hgrouped)
    rw [resolve_eq h hposition]
    exact .number hposition
  · rw [resolve, groupIndex?_eq_none h hnode hgrouped, h.findNode?_eq hnode, Option.bind_some]
    cases hcell : node.cell with
    | some cell =>
        exact .value hnode hcell
    | none =>
        exact .nothing hnode (unnumbered_of_not_grouped hnode hgrouped hcell)

/-- A reference is reported exactly when it is to a node without a number. -/
theorem issueOf?_eq (h : g.WellFormed) {node : Node} (hnode : node ∈ g.nodes) :
    issueOf? g schema node.id =
      if unnumbered schema node then some (.linkWithoutIndex node.id (some node.title))
      else none := by
  have hfind := h.findNode?_eq hnode
  by_cases hgrouped : node ∈ g.groupedNodes schema
  · obtain ⟨position, hposition⟩ := List.getElem?_of_mem (Graph.mem_groupedNodes.1 hgrouped)
    rw [issueOf?, h.groupIndex?_eq hposition, ((mem_groupedNodes_iff hnode).1 hgrouped).2]
    rfl
  · rw [issueOf?, groupIndex?_eq_none h hnode hgrouped, hfind]
    cases hcell : node.cell with
    | some cell =>
        simp [Node.isValueNode, unnumbered, hcell]
    | none =>
        have hunnumbered := unnumbered_of_not_grouped hnode hgrouped hcell
        simp [Node.isValueNode, hcell, hunnumbered]

theorem filterMap_issueOf? (h : g.WellFormed) {ids : List NodeId}
    (hids : ∀ id ∈ ids, ∃ node ∈ g.nodes, node.id = id) :
    ids.filterMap (issueOf? g schema) = unresolved g schema ids := by
  induction ids with
  | nil =>
      rfl
  | cons id rest ih =>
      obtain ⟨node, hnode, rfl⟩ := hids id List.mem_cons_self
      have hrest := ih fun other hother => hids other (List.mem_cons_of_mem _ hother)
      rw [unresolved] at hrest ⊢
      rw [List.filterMap_cons, issueOf?_eq h hnode, List.filterMap_cons, h.findNode?_eq hnode,
        List.filter_cons, hrest]
      by_cases hunnumbered : unnumbered schema node <;> simp [hunnumbered]

/-! ## Entries -/

theorem get?_entry_eq {node : Node} (hcell : node.cell = none) (name : String) :
    (entry g schema node).get? name =
      ((g.nodeValue node).members.lookup name).map (writeMember g schema) := by
  have hdistinct : ((writeMembers g schema (g.nodeValue node).members).map Prod.fst).Nodup := by
    rw [writeMembers, List.map_map]
    exact Graph.nodup_members hcell
  rw [entry, Json.get?_ofMembers_of_nodup hdistinct, writeMembers, Json.lookup_map]

theorem writeMember_of_ref {value : NodeValue} {path : List Spot} {id : NodeId}
    (hat : value.at? path = some (.ref id)) :
    writeMember g schema value = value.toJson (resolve g schema) := by
  cases value with
  | scalar data =>
      cases path with
      | nil =>
          simp [NodeValue.at?] at hat
      | cons place rest =>
          cases place <;> simp [NodeValue.at?] at hat
  | _ =>
      rfl

theorem linkedRefs_of_listed (h : g.WellFormed) {node : Node} {slot : InputSlot}
    (hnode : node ∈ g.nodes) (hslot : slot ∈ node.inputs) {ids : List LinkId}
    (hids : ∀ id ∈ ids, id ∈ slot.feed.links) :
    List.Forall₂ (fun id value => ∃ link ∈ g.links, link.id = id ∧ value = .ref link.origin)
      ids (g.linkedRefs ids) := by
  obtain ⟨position, hposition⟩ := List.getElem?_of_mem hslot
  induction ids with
  | nil =>
      exact .nil
  | cons id rest ih =>
      obtain ⟨link, hlink, hid, -⟩ :=
        (h.mem_input_iff hnode hposition).1 (hids id List.mem_cons_self)
      have hrest := ih fun other hother => hids other (List.mem_cons_of_mem _ hother)
      have hfind : g.findLink? id = some link := hid ▸ h.findLink?_eq hlink
      rw [Graph.linkedRefs, List.filterMap_cons, hfind, Option.map_some]
      exact .cons ⟨link, hlink, hid, rfl⟩ hrest

/-- A slot that collects links without keys contributes them in the order of its list. -/
theorem slotValue?_of_many {slot : InputSlot} {ids : List LinkId} {value : NodeValue}
    (hfeed : slot.feed = .many false ids) (hvalue : g.slotValue? slot = some value) :
    value = .array (g.linkedRefs ids) := by
  rw [Graph.slotValue?, hfeed] at hvalue
  dsimp only at hvalue
  split at hvalue
  · simp at hvalue
  · exact (Option.some.inj hvalue).symm

theorem denotes_origin (h : g.WellFormed) {link : Link} (hlink : link ∈ g.links) :
    Denotes g schema link.origin (resolve g schema link.origin) := by
  obtain ⟨node, hnode, hid, -⟩ := h.count_output hlink
  rw [← hid]
  exact denotes_resolve h hnode

/-- A member of a node says at the place of each reference what it denotes. -/
theorem at?_writeMember (h : g.WellFormed) {node : Node} (hcell : node.cell = none)
    {member : String × NodeValue} (hmember : member ∈ (g.nodeValue node).members)
    {path : List Spot} {id : NodeId} (hat : member.2.at? path = some (.ref id)) :
    ∃ written, (writeMember g schema member.2).at? path = some written ∧
      Denotes g schema id written := by
  obtain ⟨slot, -, -, hslot⟩ := Graph.slot_of_member hcell hmember
  obtain ⟨⟨link, hlink, rfl⟩, hwritten⟩ :=
    (Graph.fromSlot_of_slotValue? hslot).at?_toJson hat (resolve g schema)
  refine ⟨_, ?_, denotes_origin h hlink⟩
  rw [writeMember_of_ref hat, hwritten]

/-- The entry of a node of a class says what the value of the node says. -/
theorem renders_entry (h : g.WellFormed) {node : Node} (hnode : node ∈ g.nodes)
    (hcell : node.cell = none) : Renders g schema node (entry g schema node) where
  names := by
    have hdistinct : ((writeMembers g schema (g.nodeValue node).members).map
        Prod.fst).Nodup := by
      rw [writeMembers, List.map_map]
      exact Graph.nodup_members hcell
    have hascending := Json.ascending_ofMembers (writeMembers g schema (g.nodeValue node).members)
    refine ⟨_, rfl, (List.perm_ext_iff_of_nodup hascending.nodup
      (Graph.nodup_members hcell)).2 fun name => ?_⟩
    simp only [List.mem_map]
    constructor
    · rintro ⟨written, hwritten, rfl⟩
      obtain ⟨member, hmember, rfl⟩ :=
        mem_writeMembers.1 ((Json.mem_ofMembers_of_nodup hdistinct).1 hwritten)
      exact ⟨member, hmember, rfl⟩
    · rintro ⟨member, hmember, rfl⟩
      exact ⟨_, (Json.mem_ofMembers_of_nodup hdistinct).2
        (mem_writeMembers.2 ⟨member, hmember, rfl⟩), rfl⟩
  references := by
    intro path id hat
    have hobject : g.nodeValue node = .object (g.nodeValue node).members := by
      rw [Graph.nodeValue, hcell]
      rfl
    rw [hobject] at hat
    -- The first step of the path names the slot, the others lead through what it contributes.
    cases path with
    | nil =>
        simp [NodeValue.at?] at hat
    | cons place rest =>
        cases place with
        | item position =>
            simp [NodeValue.at?] at hat
        | member name =>
            rw [NodeValue.at?] at hat
            obtain ⟨value, hvalue, hat⟩ := Option.bind_eq_some_iff.1 hat
            obtain ⟨written, hwritten, hdenotes⟩ :=
              at?_writeMember h hcell (Json.mem_of_lookup hvalue) hat
            refine ⟨written, ?_, hdenotes⟩
            rw [Json.at?_member, get?_entry_eq hcell, hvalue, Option.map_some,
              Option.bind_some, hwritten]
  inOrder := by
    intro name value hmember
    obtain ⟨slot, hslot, hname, hvalue⟩ := Graph.slot_of_member hcell hmember
    refine ⟨slot, hslot, hname, hvalue, fun ids hfeed => ?_⟩
    have hlookup := (Json.lookup_eq_some_iff (Graph.nodup_members hcell)).2 hmember
    obtain rfl := slotValue?_of_many hfeed hvalue
    have hlinks : ∀ id ∈ ids, id ∈ slot.feed.links := by
      simp [hfeed, Feed.links]
    have hlisted := linkedRefs_of_listed h hnode hslot hlinks
    refine ⟨(g.linkedRefs ids).map (NodeValue.toJson (resolve g schema)), ?_, ?_⟩
    · rw [get?_entry_eq hcell, hlookup, Option.map_some]
      exact congrArg (fun items => some (Json.arr items)) (NodeValue.toItems_eq _ _)
    · rw [List.forall₂_map_right_iff]
      refine hlisted.imp ?_
      rintro id value ⟨link, hlink, hid, rfl⟩
      exact ⟨link, hlink, hid, denotes_origin h hlink⟩

/-! ## The document -/

theorem mem_nodes_of_memberRefs (h : g.WellFormed) {node : Node} (hcell : node.cell = none)
    {members : List (String × NodeValue)}
    (hmembers : ∀ member ∈ members, member ∈ (g.nodeValue node).members) :
    ∀ id ∈ memberRefs members, ∃ other ∈ g.nodes, other.id = id := by
  intro id hid
  obtain ⟨member, hmember, hid⟩ := List.mem_flatMap.1 hid
  obtain ⟨slot, -, -, hslot⟩ := Graph.slot_of_member hcell (hmembers member hmember)
  obtain ⟨link, hlink, rfl⟩ := (Graph.fromSlot_of_slotValue? hslot).known_of_mem_refs hid
  obtain ⟨other, hother, hid, -⟩ := h.count_output hlink
  exact ⟨other, hother, hid⟩

theorem refs_nodeValue {node : Node} (hcell : node.cell = none) :
    (g.nodeValue node).refs = memberRefs (g.nodeValue node).members := by
  rw [Graph.nodeValue, hcell]
  exact NodeValue.refsOfMembers_eq _

/-- Under the key of a class whose key nothing else is written under stands its group. -/
theorem get?_config_of_alone {className : String}
    (hkey : ∀ c, g.group schema c ≠ [] → schema.keyOfClass c = schema.keyOfClass className →
      c = className)
    (hroot : schema.keyOfClass className ∉ (rootValues g schema).map Prod.fst)
    (hsome : g.group schema className ≠ []) :
    (ofGraph g schema).config.get? (schema.keyOfClass className) =
      some (groupOf g schema className) := by
  obtain ⟨value, hvalue⟩ := Option.isSome_iff_exists.1 (get?_config_isSome hsome)
  rw [hvalue]
  rcases of_get?_config hvalue with ⟨c, hc, hsame, hgroup⟩ | ⟨member, hmember, hname, -⟩
  · rw [← hkey c hc hsame, hgroup]
  · exact absurd (List.mem_map.2 ⟨member, hmember, hname⟩) hroot

/-- An entry of a group is found at its position, written in an array or alone. -/
theorem entryAt?_groupValue {document : Json} {key : String} {entries : List Json}
    (hobjects : ∀ entry ∈ entries, entry.isObject = true)
    (hget : document.get? key = some (groupValue schema key entries)) (position : Nat) :
    document.entryAt? key position = entries[position]? := by
  rw [Json.entryAt?, hget]
  rcases entries with _ | ⟨single, _ | ⟨second, rest⟩⟩
  · rfl
  · have hobject := hobjects single List.mem_cons_self
    rw [groupValue]
    cases schema.groupIsList key with
    | true =>
        rfl
    | false =>
        cases single with
        | obj members =>
            cases position <;> simp
        | _ =>
            simp [Json.isObject] at hobject
  · rfl

theorem entryAt?_config_of_alone {className : String}
    (hkey : ∀ c, g.group schema c ≠ [] → schema.keyOfClass c = schema.keyOfClass className →
      c = className)
    (hroot : schema.keyOfClass className ∉ (rootValues g schema).map Prod.fst)
    {position : Nat} {node : Node} (hnode : (g.group schema className)[position]? = some node) :
    (ofGraph g schema).config.entryAt? (schema.keyOfClass className) position =
      some (entry g schema node) := by
  have hget := get?_config_of_alone hkey hroot (List.ne_nil_of_mem (List.mem_of_getElem? hnode))
  rw [groupOf] at hget
  rw [entryAt?_groupValue _ hget, List.getElem?_map, hnode, Option.map_some]
  intro other hother
  obtain ⟨made, -, rfl⟩ := List.mem_map.1 hother
  rfl

/--
In the document of a well-formed graph whose document keys do not meet, the groups part
the nodes and number them; the entry of each stands under the key of its class at its
number and says what the node evaluates to, each reference by what it denotes; the
members that the root adds do the same; and the references to nodes without a number,
and no others, are reported.
-/
theorem entries_of_distinct_keys (h : g.WellFormed) (schema : Schema)
    (hkeys : ∀ c d, g.group schema c ≠ [] → g.group schema d ≠ [] →
      schema.keyOfClass c = schema.keyOfClass d → c = d)
    (hroot : ∀ c, g.group schema c ≠ [] →
      schema.keyOfClass c ∉ (rootValues g schema).map Prod.fst) :
    g.Parted schema ∧
    (∀ className position node, (g.group schema className)[position]? = some node →
      ∃ entry, (ofGraph g schema).config.entryAt? (schema.keyOfClass className) position =
        some entry ∧ Renders g schema node entry) ∧
    (∀ member ∈ rootValues g schema, ∀ path id, member.2.at? path = some (.ref id) →
      ∃ written, (ofGraph g schema).config.at? (.member member.1 :: path) = some written ∧
        Denotes g schema id written) ∧
    (ofGraph g schema).issues =
      (((g.groupOrder schema).flatMap (g.group schema)).flatMap fun node =>
        unresolved g schema (g.nodeValue node).refs) ++
      unresolved g schema (memberRefs (rootValues g schema)) := by
  refine ⟨h.parted schema, ?_, ?_, ?_⟩
  · intro className position node hnode
    have hmem := List.mem_of_getElem? hnode
    obtain ⟨hin, hcell, -⟩ := Graph.mem_group_iff.1 hmem
    refine ⟨entry g schema node, ?_, renders_entry h hin hcell⟩
    have hsome := List.ne_nil_of_mem hmem
    exact entryAt?_config_of_alone (fun c hc => hkeys c className hc hsome)
      (hroot className hsome) hnode
  · intro member hmember path id hat
    obtain ⟨root, hroot, hroots, -⟩ := mem_rootValues.1 hmember
    have hcell := (Graph.mem_rootNodes.1 (List.mem_of_head? hroot)).2.1
    obtain ⟨written, hwritten, hdenotes⟩ := at?_writeMember h hcell hroots hat
    refine ⟨written, ?_, hdenotes⟩
    rw [Json.at?_member, get?_config_of_mem_rootValues hmember, Option.bind_some, hwritten]
  · show (writtenRefs g schema).filterMap (issueOf? g schema) = _
    rw [writtenRefs, List.filterMap_append, List.filterMap_flatMap, List.flatMap_assoc]
    congr 1
    · refine List.flatMap_congr fun className hclass => ?_
      rw [List.filterMap_flatMap]
      refine List.flatMap_congr fun node hnode => ?_
      have hcell := (Graph.mem_group_iff.1 hnode).2.1
      rw [refs_nodeValue hcell]
      exact filterMap_issueOf? h (mem_nodes_of_memberRefs h hcell fun _ => id)
    · refine filterMap_issueOf? h fun id hid => ?_
      obtain ⟨member, hmember, hid⟩ := List.mem_flatMap.1 hid
      obtain ⟨root, hroot, hmember, -⟩ := mem_rootValues.1 hmember
      have hcell := (Graph.mem_rootNodes.1 (List.mem_of_head? hroot)).2.1
      have hmembers : ∀ other ∈ [member], other ∈ (g.nodeValue root).members := by
        simpa using hmember
      exact mem_nodes_of_memberRefs h hcell hmembers id
        (List.mem_flatMap.2 ⟨member, List.mem_singleton_self _, hid⟩)

def namedTool : SchemaClass :=
  ⟨"Tool", [⟨"name", .named "str", "str", ""⟩]⟩

def toolTask : SchemaClass :=
  ⟨"Task",
    [ ⟨"tools", .wrapped .list (.union [.named "Tool", .named "Index"]),
        "List[Union[Tool, Index]]", ""⟩
    , ⟨"main", .union [.named "Tool", .named "Index"], "Union[Tool, Index]", ""⟩ ]⟩

def planRoot : SchemaClass :=
  ⟨"Plan", [⟨"tasks", .wrapped .list (.named "Task"), "List[Task]", ""⟩]⟩

def workshop : Schema :=
  Schema.ofClasses "s" "Index" "Plan" [namedTool, toolTask, planRoot]

/--
A task takes the second tool, the first tool and a text, in this order, and its main
tool is the plan itself, which a restored link leads in without a comparison of types.
-/
def workshopRun : List Edit :=
  [ .addNode (.ofClass workshop 1 1 namedTool) 0.0 0.0
  , .addNode (.ofClass workshop 1 1 namedTool) 0.0 0.0
  , .addNode (.ofValue 1 "String" "str" .string) 0.0 0.0
  , .addNode (.ofClass workshop 1 2 toolTask) 0.0 0.0
  , .addNode (.ofClass workshop 1 3 planRoot) 0.0 0.0
  , .connect 2 0 4 0
  , .connect 1 0 4 0
  , .restoreLink ⟨3, 3, 0, 4, 0, "str", ""⟩
  , .restoreLink ⟨4, 5, 0, 4, 1, "Plan", ""⟩ ]

/-- The entry of the task says what the value of the task says. -/
theorem entries_of_distinct_keys_workshop :
    (Edit.run Graph.empty workshopRun).WellFormed ∧
    (Edit.run Graph.empty workshopRun).groupOrder workshop = ["Tool", "Task"] ∧
    (rootValues (Edit.run Graph.empty workshopRun) workshop).map Prod.fst = [] ∧
    ∃ task ∈ (Edit.run Graph.empty workshopRun).nodes, task.id = 4 ∧
      ∃ entry, (ofGraph (Edit.run Graph.empty workshopRun) workshop).config.entryAt? "tasks" 0 =
        some entry ∧ Renders (Edit.run Graph.empty workshopRun) workshop task entry := by
  have hwf : (Edit.run Graph.empty workshopRun).WellFormed := by
    refine Graph.WellFormed.empty.run ?_
    refine ⟨⟨?_, ?_⟩, ⟨?_, ?_⟩, ⟨?_, ?_⟩, ⟨?_, ?_⟩, ⟨?_, ?_⟩, ⟨?_, ?_⟩, ⟨?_, ?_⟩, ⟨?_, ?_⟩,
      ⟨?_, ?_⟩, trivial⟩ <;> decide +kernel
  have horder : (Edit.run Graph.empty workshopRun).groupOrder workshop = ["Tool", "Task"] := by
    decide +kernel
  have hnone : (rootValues (Edit.run Graph.empty workshopRun) workshop).map Prod.fst = [] := by
    decide +kernel
  have hclasses : ∀ c, (Edit.run Graph.empty workshopRun).group workshop c ≠ [] →
      c = "Tool" ∨ c = "Task" := by
    intro c hc
    simpa [horder] using mem_groupOrder.2 hc
  have hkeys : workshop.keyOfClass "Tool" = "tools" ∧ workshop.keyOfClass "Task" = "tasks" := by
    decide +kernel
  have hposition : ((Edit.run Graph.empty workshopRun).group workshop "Task").map Node.id =
      [4] := by
    decide +kernel
  have hdistinct : ∀ c d, (Edit.run Graph.empty workshopRun).group workshop c ≠ [] →
      (Edit.run Graph.empty workshopRun).group workshop d ≠ [] →
      workshop.keyOfClass c = workshop.keyOfClass d → c = d := by
    intro c d hc hd hkey
    rcases hclasses c hc with rfl | rfl <;> rcases hclasses d hd with rfl | rfl
    · rfl
    · rw [hkeys.1, hkeys.2] at hkey
      exact absurd hkey (by decide)
    · rw [hkeys.1, hkeys.2] at hkey
      exact absurd hkey (by decide)
    · rfl
  obtain ⟨task, hgroup, hid⟩ := List.map_eq_singleton_iff.1 hposition
  have hentry := (entries_of_distinct_keys hwf workshop hdistinct
    fun c _ => by simp [hnone]).2.1 "Task" 0 task (by rw [hgroup]; rfl)
  rw [hkeys.2] at hentry
  have htask : task ∈ (Edit.run Graph.empty workshopRun).nodes := by
    have hmem : task ∈ (Edit.run Graph.empty workshopRun).group workshop "Task" := by
      rw [hgroup]
      exact List.mem_singleton_self _
    exact (Graph.mem_group_iff.1 hmem).1
  exact ⟨hwf, horder, hnone, task, htask, hid, hentry⟩

example : ((ofGraph (Edit.run Graph.empty workshopRun) workshop).config.entryAt? "tasks" 0) =
    some (.obj [("main", .null), ("tools", .arr [.int 1, .int 0, .str ""])]) := by
  with_unfolding_all rfl

end Build

end SlotGraph
