import SlotGraph.Proofs.Config.Entries
import SlotGraph.Proofs.Import.Classes

/-!
# Indices of elements

An import adds nodes behind those that are there: one for each element of the groups,
and only then embedded ones.  So in the group of its class the node of an element stands
at the position of the element, which is the index that an integer of the document finds
it by and the index that a link from it is written as.
-/

namespace SlotGraph

namespace Import

variable {setting : Setting} {p p' : Progress} {g : Graph} {document : List (String × Json)}
  {groups : List Group}

/-! ## Nodes that are added -/

/-- A step adds at most a node, behind those that are there and with a template. -/
theorem Step.shapes_append (h : Step setting p p') :
    ∃ added, p'.graph.shapes = p.graph.shapes ++ added ∧ ∀ entry ∈ added, ∃ className,
      setting.registry.find? setting.schema.name className = some entry.2 := by
  cases h with
  | report | embed =>
      exact ⟨[], by simp⟩
  | create className template x y hfind =>
      refine ⟨_, p.graph.shapes_addNode template x y, fun entry hentry => ?_⟩
      rw [List.mem_singleton.1 hentry]
      exact ⟨className, hfind⟩
  | link origin target slot key id graph hconnect =>
      refine ⟨[], ?_, by simp⟩
      rw [List.append_nil]
      exact Graph.shapes_connectKeyed hconnect key
  | setNative id slot value graph hset =>
      exact ⟨[], by rw [List.append_nil]; exact Graph.shapes_setNative hset, by simp⟩

theorem Steps.shapes_append (h : Steps setting p p') :
    ∃ added, p'.graph.shapes = p.graph.shapes ++ added ∧ ∀ entry ∈ added, ∃ className,
      setting.registry.find? setting.schema.name className = some entry.2 := by
  induction h with
  | refl =>
      exact ⟨[], by simp⟩
  | tail _ hstep ih =>
      obtain ⟨added, hshapes, hadded⟩ := ih
      obtain ⟨more, hmore, hlast⟩ := hstep.shapes_append
      refine ⟨added ++ more, by rw [hmore, hshapes, List.append_assoc], fun entry hentry => ?_⟩
      rcases List.mem_append.1 hentry with hfirst | hnew
      · exact hadded entry hfirst
      · exact hlast entry hnew

def elementsMade (schema : Schema) (document : List (String × Json)) (key : String) :
    List Json :=
  ((document.lookup key).bind fun value =>
    (groupElements? schema key value).map Prod.snd).getD []

def madeGroups (setting : Setting) (g : Graph) (document : List (String × Json)) :
    List Group :=
  (createGroups setting setting.layout.columnStartX document (Progress.start g)).1

theorem elements_of_plan {schema : Schema} (hkeys : (document.map Prod.fst).Nodup)
    (hplan : groups.map Group.plan = planned schema document) (key : String) :
    (nodesUnder groups key).map Prod.snd = elementsMade schema document key := by
  rw [nodesUnder, elementsMade]
  cases hfind : findGroup? groups key with
  | some group =>
      obtain ⟨hgroup, rfl⟩ := (findGroup?_of_plan hkeys hplan).1 hfind
      obtain ⟨value, hvalue, hplanned⟩ :=
        mem_planned.1 (hplan ▸ List.mem_map_of_mem hgroup : group.plan ∈ planned schema document)
      have hlookup : document.lookup group.key = some value :=
        (Json.lookup_eq_some_iff hkeys).2 hvalue
      have helements : groupElements? schema group.key value =
          some (group.className, group.nodes.map Prod.snd) := hplanned
      rw [hlookup, Option.bind_some, helements]
      rfl
  | none =>
      cases hvalue : document.lookup key with
      | none =>
          rfl
      | some value =>
          rw [Option.bind_some, groupElements?_of_findGroup? hplan hfind hvalue]
          rfl

theorem nodesUnder_of_plan {schema : Schema} (hkeys : (document.map Prod.fst).Nodup)
    (hplan : groups.map Group.plan = planned schema document) {group : Group}
    (hgroup : group ∈ groups) : nodesUnder groups group.key = group.nodes := by
  rw [nodesUnder, (findGroup?_of_plan hkeys hplan).2 ⟨hgroup, rfl⟩]
  rfl

section

variable (haccepted : setting.schema.Accepted)
  (hserves : setting.registry.Serves setting.schema)

include haccepted hserves

theorem class_of_plan (hplan : groups.map Group.plan = planned setting.schema document)
    {group : Group} (hgroup : group ∈ groups) :
    ∃ cls template, cls ∈ setting.schema.classes ∧ cls.name = group.className ∧
      setting.schema.isRoot cls = false ∧
      setting.registry.find? setting.schema.name group.className = some template ∧
      setting.schema.IsTemplate cls template := by
  obtain ⟨value, -, hplanned⟩ := mem_planned.1
    (hplan ▸ List.mem_map_of_mem hgroup : group.plan ∈ planned setting.schema document)
  obtain ⟨hclass, hroot, -⟩ := of_groupElements? hplanned
  obtain ⟨cls, hcls, hname⟩ := haccepted.class_of_classOfKey? hclass
  obtain ⟨template, hfind, htemplate⟩ := hserves cls hcls
  refine ⟨cls, template, hcls, hname, ?_, hname ▸ hfind, htemplate⟩
  rw [Schema.isRoot, hname, Bool.and_eq_false_iff, beq_eq_false_iff_ne]
  exact .inr (Ne.symm hroot)

theorem served_of_planned {entry : String × String × List Json}
    (hentry : entry ∈ planned setting.schema document) :
    (setting.registry.find? setting.schema.name entry.2.1).isSome := by
  obtain ⟨value, -, hplanned⟩ := mem_planned.1 hentry
  obtain ⟨cls, hcls, hname⟩ := haccepted.class_of_classOfKey? (of_groupElements? hplanned).1
  obtain ⟨template, hfind, -⟩ := hserves cls hcls
  rw [← hname, hfind]
  rfl

theorem plan_madeGroups (g : Graph) (document : List (String × Json)) :
    (madeGroups setting g document).map Group.plan = planned setting.schema document ∧
      (createGroups setting setting.layout.columnStartX document
        (Progress.start g)).2.2.graph.shapes =
        g.shapes ++ (madeGroups setting g document).flatMap (Group.shapes setting) := by
  obtain ⟨hplan, -, hshapes, -⟩ :=
    createGroups_spec setting.layout.columnStartX document (Progress.start g)
      fun entry => served_of_planned haccepted hserves
  exact ⟨hplan, hshapes⟩

theorem ids_joining (hkeys : (document.map Prod.fst).Nodup)
    (hplan : groups.map Group.plan = planned setting.schema document) {group : Group}
    (hgroup : group ∈ groups) :
    ((groups.flatMap (Group.shapes setting)).filter fun entry =>
        entry.2.joins setting.schema group.className).map Prod.fst =
      group.nodes.map Prod.fst := by
  have hdistinct := distinct_of_plan hkeys hplan
  -- A class has one key, so all of its nodes are those of the group under this key.
  have hjoined : ∀ other ∈ groups,
      ((other.shapes setting).filter fun entry =>
          entry.2.joins setting.schema group.className).map Prod.fst =
        if other.key = group.key then other.nodes.map Prod.fst else [] := by
    intro other hother
    obtain ⟨cls, template, -, hname, hroot, hfind, htemplate⟩ :=
      class_of_plan haccepted hserves hplan hother
    have hjoins := htemplate.joins_eq group.className
    rw [hroot, Bool.not_false, Bool.true_and, hname] at hjoins
    have hsame : other.key = group.key ↔ other.className = group.className := by
      constructor
      · intro hkey
        rw [List.inj_on_of_nodup_map hdistinct hother hgroup hkey]
      · intro hclass
        rw [key_of_plan hplan hother, key_of_plan hplan hgroup, hclass]
    rw [Group.shapes, hfind]
    simp only [hsame]
    by_cases hclass : other.className = group.className
    · simp [List.filter_map, Function.comp_def, hjoins, hclass]
    · simp [List.filter_map, Function.comp_def, hjoins, beq_false_of_ne hclass, hclass]
  rw [List.filter_flatMap, List.map_flatMap, List.flatMap_congr hjoined,
    flatMap_under hdistinct, nodesUnder_of_plan hkeys hplan hgroup]

/-- An import adds the nodes of the elements first. -/
theorem shapes_run (g : Graph) (document : List (String × Json)) :
    ∃ later, (run setting g document).2.graph.shapes =
      g.shapes ++ ((madeGroups setting g document).flatMap (Group.shapes setting) ++ later) := by
  have hsteps : Steps setting
      (createGroups setting setting.layout.columnStartX document (Progress.start g)).2.2
      (run setting g document).2 :=
    (steps_populateGroups (takesSteps_embedAt _) _).trans
      (steps_createRoot (takesSteps_embedAt _) _ document _)
  obtain ⟨later, hshapes, -⟩ := Steps.shapes_append hsteps
  refine ⟨later, ?_⟩
  rw [hshapes, (plan_madeGroups haccepted hserves g document).2, List.append_assoc]

theorem length_nodes_le (hkeys : (document.map Prod.fst).Nodup) {group : Group}
    (hgroup : group ∈ madeGroups setting g document) :
    g.nodes.length + group.nodes.length ≤ (run setting g document).2.graph.nodes.length := by
  have hplan := (plan_madeGroups haccepted hserves g document).1
  obtain ⟨later, hshapes⟩ := shapes_run haccepted hserves g document
  have hids := congrArg List.length (ids_joining haccepted hserves hkeys hplan hgroup)
  rw [List.length_map, List.length_map] at hids
  have hlength := congrArg List.length hshapes
  have hfilter := List.length_filter_le
    (fun entry => entry.2.joins setting.schema group.className)
    ((madeGroups setting g document).flatMap (Group.shapes setting))
  simp only [Graph.shapes, List.length_append, List.length_map] at hlength
  omega

/--
After an import into a graph without nodes of the schema, the group of a class begins with
the nodes of the elements; the nodes that come later are embedded ones.
-/
theorem ids_group_run (hforeign : ∀ node ∈ g.nodes, Graph.belongsTo setting.schema node = false)
    (hkeys : (document.map Prod.fst).Nodup) {group : Group}
    (hgroup : group ∈ madeGroups setting g document) :
    ∃ later, ((run setting g document).2.graph.group setting.schema group.className).map
      Node.id = group.nodes.map Prod.fst ++ later := by
  have hplan := (plan_madeGroups haccepted hserves g document).1
  obtain ⟨later, hshapes⟩ := shapes_run haccepted hserves g document
  -- None of the nodes that were there is of a class of the schema.
  have hold : g.shapes.filter (fun entry =>
      entry.2.joins setting.schema group.className) = [] := by
    rw [List.filter_eq_nil_iff]
    intro entry hentry hjoins
    obtain ⟨node, hnode, rfl⟩ := List.mem_map.1 hentry
    have hmember := Graph.mem_group.2 ⟨hnode, hjoins⟩
    rw [Graph.group, List.mem_filter, Graph.groupedNodes, List.mem_filter,
      hforeign node hnode] at hmember
    exact absurd hmember.1.2 Bool.false_ne_true
  rw [Graph.ids_group, hshapes, List.filter_append, hold, List.nil_append, List.filter_append,
    List.map_append, ids_joining haccepted hserves hkeys hplan hgroup]
  exact ⟨_, rfl⟩

end

/-! ## Integers -/

theorem linkElement_integer {element : Json} {n : Int} (h : element.integer? = some n)
    (embed : Embed) (id : NodeId) (slot : Nat) (field : Field) (key : String) (p : Progress) :
    linkElement setting groups embed id slot field key element p =
      linkIndex setting groups id slot field (n.bmod (2 ^ 64)) key p := by
  unfold linkElement
  rw [Json.int64?, h, Option.map_some]

/-- Where a field refers to no class there is nothing that an index could count. -/
theorem resolve?_of_unclassed {field : Field} (hmodel : setting.schema.modelOf? field = none)
    (index : Int) : resolve? setting.schema groups field index = none := by
  rw [resolve?, hmodel]

theorem fillLinked_integer {value : Json} {n : Int} (h : value.integer? = some n)
    (embed : Embed) (id : NodeId) (slot : Nat) (field : Field) (p : Progress) :
    fillLinked setting groups embed id slot field value p =
      linkElement setting groups embed id slot field "" value p := by
  rw [linkElement_integer h]
  cases value with
  | int | minusZero =>
      rw [fillLinked, Json.int64?, h, Option.map_some]
      all_goals simp
  | _ =>
      simp [Json.integer?] at h

section

variable (hkeys : (document.map Prod.fst).Nodup)
  (hplan : groups.map Group.plan = planned setting.schema document) {field : Field}
  {className : String} (hmodel : setting.schema.modelOf? field = some className)

include hkeys hplan hmodel

/-- A number that counts an element is read as it is, and is the position of a node. -/
theorem exists_nodesUnder
    (hcount : ((elementsMade setting.schema document
      (setting.schema.keyOfClass className)).length : Int) ≤ Graph.lastId)
    {element : Json} {n : Int} (hn : element.integer? = some n) (hlow : 0 ≤ n)
    (hhigh : n < (elementsMade setting.schema document
      (setting.schema.keyOfClass className)).length) :
    ∃ (index : Nat) (made : NodeId × Json), n = index ∧
      (nodesUnder groups (setting.schema.keyOfClass className))[index]? = some made ∧
      element.int64? = some n ∧ resolve? setting.schema groups field n = some made.1 := by
  have hlength := congrArg List.length
    (elements_of_plan hkeys hplan (setting.schema.keyOfClass className))
  rw [List.length_map] at hlength
  obtain ⟨index, rfl⟩ := Int.eq_ofNat_of_zero_le hlow
  have hindex : index < (nodesUnder groups (setting.schema.keyOfClass className)).length := by
    omega
  -- There are fewer nodes than signed numbers, so the number is read as it is.
  have hread : (index : Int).bmod (2 ^ 64) = index := by
    unfold Graph.lastId at hcount
    rw [Int.bmod_eq_of_le] <;> omega
  refine ⟨index, _, rfl, List.getElem?_eq_getElem hindex, ?_, ?_⟩
  · rw [Json.int64?, hn, Option.map_some, hread]
  · rw [resolve?_of_plan hkeys hplan hmodel, List.getElem?_eq_getElem hindex]
    rfl

/-- A number that counts no element leads to no node. -/
theorem resolve?_of_uncounted {n : Int} (hlow : -2 ^ 63 ≤ n) (hhigh : n < 2 ^ 64)
    (hout : ¬ (0 ≤ n ∧ n < (elementsMade setting.schema document
      (setting.schema.keyOfClass className)).length)) :
    resolve? setting.schema groups field (n.bmod (2 ^ 64)) = none := by
  -- From `2 ^ 63` on a number is read as a negative one.
  have hread : n.bmod (2 ^ 64) < 0 ∨ 0 ≤ n ∧ n.bmod (2 ^ 64) = n := by
    rw [Int.bmod_def]
    split <;> omega
  rcases hread with hnegative | ⟨hnonneg, hsame⟩
  · rw [resolve?, hmodel]
    simp [hnegative]
  · obtain ⟨index, rfl⟩ := Int.eq_ofNat_of_zero_le hnonneg
    have hlength := congrArg List.length
      (elements_of_plan hkeys hplan (setting.schema.keyOfClass className))
    rw [List.length_map] at hlength
    rw [hsame, resolve?_of_plan hkeys hplan hmodel, Option.map_eq_none_iff,
      List.getElem?_eq_none_iff]
    omega

end

end Import

namespace Build

/-! ## Live links -/

section

variable {g : Graph} {schema : Schema} {node : Node} {link : Link} {input : InputSlot}
  (h : g.WellFormed) (hnode : node ∈ g.nodes) (hcell : node.cell = none)
  (hnames : (node.inputs.map InputSlot.name).Nodup) (hlink : link ∈ g.links)
  (htarget : link.target = node.id) (hslot : node.inputs[link.targetSlot]? = some input)

include hcell hnames hslot

/-- Where slots have distinct names, what a slot contributes is written under its name. -/
theorem get?_entry_of_slot {value : NodeValue} (hvalue : g.slotValue? input = some value) :
    (entry g schema node).get? input.name = some (writeMember g schema value) := by
  have hmembers : (g.nodeValue node).members = g.slotMembers node.inputs := by
    rw [Graph.nodeValue, hcell]
    rfl
  rw [get?_entry_eq hcell, hmembers, Graph.slotMembers_eq g hnames,
    Json.lookup_named hnames (List.mem_of_getElem? hslot), hvalue, Option.map_some]

include h hnode hlink

theorem get?_entry_of_many {ids : List LinkId} (hfeed : input.feed = .many false ids)
    {position : Nat} (hposition : ids[position]? = some link.id) :
    ∃ items, (entry g schema node).get? input.name = some (.arr items) ∧
      items[position]? = some (resolve g schema link.origin) := by
  have hlinks : ∀ id ∈ ids, id ∈ input.feed.links := by
    simp [hfeed, Feed.links]
  have hlisted := linkedRefs_of_listed h hnode (List.mem_of_getElem? hslot) hlinks
  have hlength := hlisted.length_eq
  obtain ⟨hlt, hid⟩ := List.getElem?_eq_some_iff.1 hposition
  have hlt' : position < (g.linkedRefs ids).length := hlength ▸ hlt
  have href : (g.linkedRefs ids)[position] = .ref link.origin := by
    obtain ⟨other, hother, hsame, hvalue⟩ := hlisted.get hlt hlt'
    rw [List.get_eq_getElem, hid] at hsame
    rw [List.get_eq_getElem] at hvalue
    rw [hvalue, h.link_unique hother hlink hsame]
  have hvalue : g.slotValue? input = some (.array (g.linkedRefs ids)) := by
    have hsome : (g.linkedRefs ids).isEmpty = false :=
      List.isEmpty_eq_false_iff.2 (List.ne_nil_of_length_pos (Nat.zero_lt_of_lt hlt'))
    rw [Graph.slotValue?, hfeed]
    simp [hsome]
  refine ⟨(g.linkedRefs ids).map (NodeValue.toJson (resolve g schema)), ?_, ?_⟩
  · rw [get?_entry_of_slot hcell hnames hslot hvalue]
    exact congrArg (fun items => some (Json.arr items)) (NodeValue.toItems_eq _ _)
  · rw [List.getElem?_map, List.getElem?_eq_getElem hlt', href]
    rfl

include htarget

omit hcell hnames in
theorem mem_feed_links : link.id ∈ input.feed.links :=
  (h.mem_input_iff hnode hslot).2 ⟨link, hlink, rfl, htarget, rfl⟩

theorem get?_entry_of_single {held : Option LinkId} {native : Option NativeCell}
    (hfeed : input.feed = .single held native) :
    (entry g schema node).get? input.name = some (resolve g schema link.origin) := by
  have hheld : held = some link.id := by
    have hmem := mem_feed_links h hnode hlink htarget hslot
    rw [hfeed, Feed.links, Option.mem_toList] at hmem
    exact hmem
  have hvalue : g.slotValue? input = some (.ref link.origin) := by
    rw [Graph.slotValue?, hfeed]
    simp [hheld, h.findLink?_eq hlink]
  exact get?_entry_of_slot hcell hnames hslot hvalue

end

end Build

namespace Import

variable {setting : Setting} {g : Graph} {document : List (String × Json)}

theorem of_nodesUnder {groups : List Group} {key : String} {index : Nat}
    {made : NodeId × Json} (h : (nodesUnder groups key)[index]? = some made) :
    ∃ group ∈ groups, group.nodes = nodesUnder groups key := by
  rw [nodesUnder] at h ⊢
  cases hfind : findGroup? groups key with
  | none =>
      simp [hfind] at h
  | some group =>
      exact ⟨group, List.mem_of_find?_eq_some hfind, rfl⟩

theorem template_of_run (hserves : setting.registry.Serves setting.schema)
    (hforeign : ∀ node ∈ g.nodes, Graph.belongsTo setting.schema node = false)
    {node : Node} (hnode : node ∈ (run setting g document).2.graph.nodes)
    (hbelongs : Graph.belongsTo setting.schema node = true) {cls : SchemaClass}
    (hcls : cls ∈ setting.schema.classes) (hname : node.className = cls.name) :
    setting.schema.IsTemplate cls node.shape := by
  obtain ⟨added, hshapes, hadded⟩ := (steps_run setting g document).shapes_append
  have hshape : (node.id, node.shape) ∈ g.shapes ++ added :=
    hshapes ▸ List.mem_map_of_mem hnode
  rcases List.mem_append.1 hshape with hold | hnew
  · obtain ⟨old, holdNode, heq⟩ := List.mem_map.1 hold
    have hsame : Graph.belongsTo setting.schema old = Graph.belongsTo setting.schema node := by
      have hview := congrArg (fun shape : NodeTemplate =>
        shape.valueKind.isNone && shape.schemaName == setting.schema.name) (Prod.mk.inj heq).2
      simpa [Node.shape, Graph.belongsTo, Node.isValueNode] using hview
    rw [hforeign old holdNode, hbelongs] at hsame
    exact absurd hsame Bool.false_ne_true
  · obtain ⟨className, hfind⟩ := hadded _ hnew
    obtain ⟨template, hserved, htemplate⟩ := hserves cls hcls
    have hclass : className = cls.name := by
      have hfound := List.find?_some hfind
      rw [Bool.and_eq_true, beq_iff_eq, beq_iff_eq] at hfound
      exact hfound.2.symm.trans hname
    rw [hclass, hserved] at hfind
    have hsame : template = node.shape := Option.some.inj hfind
    exact hsame ▸ htemplate

section

variable (haccepted : setting.schema.Accepted)
  (hserves : setting.registry.Serves setting.schema)
  (hkeys : (document.map Prod.fst).Nodup)

include haccepted hserves hkeys

theorem length_elementsMade_le_added (g : Graph) (key : String) :
    (elementsMade setting.schema document key).length ≤
      (run setting g document).2.graph.nodes.length - g.nodes.length := by
  have hplan := (plan_madeGroups haccepted hserves g document).1
  rw [← elements_of_plan hkeys hplan, List.length_map, nodesUnder]
  cases hfind : findGroup? (madeGroups setting g document) key with
  | none =>
      exact Nat.zero_le _
  | some group =>
      have hlength := length_nodes_le haccepted hserves hkeys
        ((findGroup?_of_plan hkeys hplan).1 hfind).1
      exact Nat.le_sub_of_add_le' hlength

/-- The number of elements under a key is one that signed 64-bit numbers count to. -/
theorem length_elementsMade_le (hwf : g.WellFormed)
    (hfits : (Edit.importConfig setting (.obj document)).Fits g) (key : String) :
    ((elementsMade setting.schema document key).length : Int) ≤ Graph.lastId := by
  have hadded := length_elementsMade_le_added haccepted hserves hkeys g key
  have hnodes := hfits.1
  have hlast := hwf.counters_nonneg.1
  simp only [Edit.draws] at hnodes
  lia

variable (hforeign : ∀ node ∈ g.nodes, Graph.belongsTo setting.schema node = false)

include hforeign

theorem leading_run {key className : String} {value : Json} {elements : List Json}
    (hvalue : document.lookup key = some value)
    (hgroup : groupElements? setting.schema key value = some (className, elements)) :
    ∃ later, ((run setting g document).2.graph.group setting.schema className).map Node.id =
      (nodesUnder (madeGroups setting g document) key).map Prod.fst ++ later := by
  have hplan := (plan_madeGroups haccepted hserves g document).1
  obtain ⟨group, hmember, hentry⟩ : ∃ group ∈ madeGroups setting g document,
      group.plan = (key, className, elements) := by
    rw [← List.mem_map, hplan, mem_planned]
    exact ⟨value, Json.mem_of_lookup hvalue, hgroup⟩
  obtain ⟨rfl, hclass⟩ := Prod.mk.inj hentry
  obtain ⟨rfl, -⟩ := Prod.mk.inj hclass
  rw [nodesUnder_of_plan hkeys hplan hmember]
  exact ids_group_run haccepted hserves hforeign hkeys hmember

/-- The node of an element stands at the position of the element in its group. -/
theorem placed_run {key : String} {index : Nat} {made : NodeId × Json}
    (hmade : (nodesUnder (madeGroups setting g document) key)[index]? = some made) :
    ∃ className node,
      ((run setting g document).2.graph.group setting.schema className)[index]? = some node ∧
        node.id = made.1 := by
  obtain ⟨group, hgroup, hnodes⟩ := of_nodesUnder hmade
  obtain ⟨later, hids⟩ := ids_group_run haccepted hserves hforeign hkeys hgroup
  have hindex : index < (group.nodes.map Prod.fst).length := by
    rw [List.length_map, hnodes]
    exact (List.getElem?_eq_some_iff.1 hmade).1
  have hid : (((run setting g document).2.graph.group setting.schema group.className).map
      Node.id)[index]? = some made.1 := by
    rw [hids, List.getElem?_append_left hindex, List.getElem?_map, hnodes, hmade]
    rfl
  rw [List.getElem?_map] at hid
  obtain ⟨node, hnode, hsame⟩ := Option.map_eq_some_iff.1 hid
  exact ⟨group.className, node, hnode, hsame⟩

end

def parentField : Field :=
  ⟨"parent", .named "App", "App", ""⟩

def successorField : Field :=
  ⟨"next", .wrapped .optional (.union [.named "Tool", .named "Index"]),
    "Optional[Union[Tool, Index]]", ""⟩

/-- The schema of members and the root that collects them. -/
def household : Schema :=
  Schema.ofClasses "s" "Index" "App"
    [ ⟨"Tool", [parentField, successorField]⟩
    , ⟨"App", [⟨"tools", .wrapped .list (.named "Tool"), "List[Tool]", ""⟩]⟩ ]

def householdSource : String :=
  "class Tool:\n  parent: App\n  next: Optional[Union[Tool, Index]]\n" ++
  "class App:\n  tools: List[Tool]\n"

theorem accepted_household : household.Accepted := by
  have hread : (Schema.parseClasses householdSource).1 = household.classes := by
    with_unfolding_all rfl
  exact Schema.accepted_ofClasses hread (by decide) (by decide) (by decide) (by decide)
    fun _ => by decide

/-- An import where nothing but this schema is registered. -/
def householdSetting : Setting :=
  ⟨household, Registry.initial.add household 1, ImportLayout.standard⟩

theorem serves_household : householdSetting.registry.Serves household :=
  Registry.serves_add (by decide) (by decide)

/-- Two members, the first of which refers to the second; that one holds a third. -/
def householdDocument : List (String × Json) :=
  [("tools", .arr [.obj [("next", .int 1)], .obj [("next", .obj [])]])]

end Import

end SlotGraph
