import SlotGraph.Proofs.Import.Root
import SlotGraph.Proofs.Schema.Keys

/-!
# Importing a flat document

A document is flat when it gives no slot an inline object.  An import of such a
document into the empty graph makes one node for each element of its groups, and
the root; in the end every slot holds what the document gives for its field.
-/

namespace SlotGraph

namespace Import

variable {setting : Setting} {document : List (String × Json)} {groups : List Group}
  {embed : Embed} {p : Progress}

/-- Whether a document gives inline objects to no slot. -/
structure FlatDocument (schema : Schema) (document : List (String × Json)) : Prop where
  keys : (document.map Prod.fst).Nodup
  elements : ∀ entry ∈ planned schema document, ∀ cls,
    schema.findClass? entry.2.1 = some cls → ∀ element ∈ entry.2.2,
      element.isObject = true ∧ FlatObject schema cls element.members
  root : ∀ cls, schema.rootClass? = some cls → ∀ field ∈ cls.fields, ∀ value,
    document.lookup field.name = some value → groupElements? schema field.name value = none →
      Flat (schema.inputOf cls field) field value

/-! ## Groups of a document -/

theorem mem_planned {schema : Schema} {entry : String × String × List Json} :
    entry ∈ planned schema document ↔
      ∃ value, (entry.1, value) ∈ document ∧
        groupElements? schema entry.1 value = some entry.2 := by
  rw [planned, List.mem_filterMap]
  constructor
  · rintro ⟨⟨key, value⟩, hmember, hgroup⟩
    obtain ⟨found, hfound, rfl⟩ := Option.map_eq_some_iff.1 hgroup
    exact ⟨value, hmember, hfound⟩
  · rintro ⟨value, hmember, hgroup⟩
    exact ⟨(entry.1, value), hmember, by rw [hgroup]; rfl⟩

theorem class_of_planned {schema : Schema} (h : schema.Regular)
    {entry : String × String × List Json} (hentry : entry ∈ planned schema document) :
    ∃ cls ∈ schema.classes, schema.findClass? entry.2.1 = some cls ∧
      schema.isRoot cls = false := by
  obtain ⟨value, -, hgroup⟩ := mem_planned.1 hentry
  obtain ⟨⟨cls, hmem, hname, hroot⟩, -⟩ := (groupElements?_eq_some_iff h).1 hgroup
  exact ⟨cls, hmem, h.findClass?_eq_some_iff.2 ⟨hmem, hname⟩, hroot⟩

theorem groupElements?_of_findGroup? {schema : Schema}
    (hplan : groups.map Group.plan = planned schema document) {key : String} {value : Json}
    (hnone : findGroup? groups key = none) (hvalue : document.lookup key = some value) :
    groupElements? schema key value = none := by
  cases hgroup : groupElements? schema key value with
  | none =>
      rfl
  | some found =>
      have hplanned : (key, found) ∈ groups.map Group.plan := by
        rw [hplan, mem_planned]
        exact ⟨value, Json.mem_of_lookup hvalue, hgroup⟩
      obtain ⟨group, hmem, hkey⟩ := List.mem_map.1 hplanned
      have hnot := List.find?_eq_none.1 hnone group hmem
      simp [(Prod.mk.inj hkey).1] at hnot

theorem group_of_resolve? {schema : Schema} {field : Field} {index : Int} {id : NodeId}
    (h : resolve? schema groups field index = some id) :
    ∃ className group, schema.modelOf? field = some className ∧ group ∈ groups ∧
      id ∈ group.nodes.map Prod.fst ∧
      (group.key = schema.keyOfClass className ∨ group.className = className) := by
  have hnode : ∀ {group : Group} {position : Nat}, group.node? position = some id →
      id ∈ group.nodes.map Prod.fst := by
    intro group position hnode
    obtain ⟨node, hget, rfl⟩ := Option.map_eq_some_iff.1 hnode
    exact List.mem_map_of_mem (List.mem_of_getElem? hget)
  unfold resolve? at h
  split at h
  · next className hmodel =>
      split at h
      · simp at h
      · rw [Option.orElse_eq_orElse, Option.orElse_eq_or, Option.or_eq_some_iff] at h
        rcases h with hfound | ⟨-, hfound⟩
        · obtain ⟨group, hgroup, hget⟩ := Option.bind_eq_some_iff.1 hfound
          have hkey : group.key = schema.keyOfClass className := by
            simpa using List.find?_some hgroup
          exact ⟨className, group, hmodel, List.mem_of_find?_eq_some hgroup, hnode hget, .inl hkey⟩
        · obtain ⟨group, hgroup, hget⟩ := List.exists_of_findSome?_eq_some hfound
          split at hget
          · next hclass =>
              exact ⟨className, group, hmodel, hgroup, hnode hget, .inr (by simpa using hclass)⟩
          · simp at hget
  · simp at h

theorem resolve?_mem {schema : Schema} {field : Field} {index : Int} {id : NodeId}
    (h : resolve? schema groups field index = some id) :
    ∃ group ∈ groups, id ∈ group.nodes.map Prod.fst := by
  obtain ⟨_, group, -, hgroup, hid, -⟩ := group_of_resolve? h
  exact ⟨group, hgroup, hid⟩

/-! ## The first two passes -/

theorem ids_shapes {group : Group}
    (hfind : (setting.registry.find? setting.schema.name group.className).isSome) :
    (group.shapes setting).map Prod.fst = group.nodes.map Prod.fst := by
  obtain ⟨template, hfind⟩ := Option.isSome_iff_exists.1 hfind
  rw [Group.shapes, hfind]
  simp

theorem mem_shapes {group : Group} {template : NodeTemplate}
    (hfind : setting.registry.find? setting.schema.name group.className = some template)
    {node : NodeId × Json} (hnode : node ∈ group.nodes) :
    (node.1, template) ∈ group.shapes setting := by
  rw [Group.shapes, List.mem_filterMap]
  exact ⟨node, hnode, by rw [hfind]; rfl⟩

/-- The groups and their nodes after the first two passes. -/
structure GroupsFilled (setting : Setting) (document : List (String × Json))
    (groups : List Group) (g : Graph) : Prop where
  plan : groups.map Group.plan = planned setting.schema document
  filled : ∀ group ∈ groups, ∀ node ∈ group.nodes, ∀ cls,
    setting.schema.findClass? group.className = some cls →
      Filled setting groups g node.1 cls fun field => node.2.members.lookup field.name

theorem template_of_plan (hregular : setting.schema.Regular)
    (hserves : setting.registry.Serves setting.schema)
    (hplan : groups.map Group.plan = planned setting.schema document) {group : Group}
    (hgroup : group ∈ groups) :
    ∃ cls template, setting.schema.findClass? group.className = some cls ∧
      setting.schema.isRoot cls = false ∧
      setting.registry.find? setting.schema.name group.className = some template ∧
      setting.schema.IsTemplate cls template := by
  have hentry : group.plan ∈ planned setting.schema document :=
    hplan ▸ List.mem_map_of_mem hgroup
  obtain ⟨cls, hmem, hfind, hroot⟩ := class_of_planned hregular hentry
  obtain ⟨template, htemplate⟩ := hserves cls hmem
  rw [(hregular.findClass?_eq_some_iff.1 hfind).2] at htemplate
  exact ⟨cls, template, hfind, hroot, htemplate⟩

/-- What the first pass leaves: the groups, all of fresh nodes. -/
structure Made (setting : Setting) (document : List (String × Json)) (groups : List Group)
    (p : Progress) : Prop where
  steps : Steps setting (Progress.start Graph.empty) p
  plan : groups.map Group.plan = planned setting.schema document
  shapes : p.graph.shapes = groups.flatMap (Group.shapes setting)
  pristine : p.graph.Pristine

theorem createGroups_made (hregular : setting.schema.Regular)
    (hserves : setting.registry.Serves setting.schema) {x : Float} {loose : List String}
    (hmade : createGroups setting x document (Progress.start Graph.empty) = (groups, loose, p)) :
    Made setting document groups p := by
  have hsteps : Steps setting (Progress.start Graph.empty)
      (createGroups setting x document (Progress.start Graph.empty)).2.2 :=
    steps_createGroups x document (Progress.start Graph.empty)
  have hserved : ∀ entry ∈ planned setting.schema document,
      (setting.registry.find? setting.schema.name entry.2.1).isSome := by
    intro entry hentry
    obtain ⟨cls, hmem, hfind, -⟩ := class_of_planned hregular hentry
    obtain ⟨template, htemplate, -⟩ := hserves cls hmem
    rw [(hregular.findClass?_eq_some_iff.1 hfind).2] at htemplate
    rw [htemplate]
    rfl
  obtain ⟨hplan, -, hshapes, hpristine⟩ :=
    createGroups_spec x document (Progress.start Graph.empty) hserved
  rw [hmade] at hsteps hplan hshapes hpristine
  exact ⟨hsteps, hplan, hshapes, hpristine Graph.Pristine.empty⟩

theorem Made.sound (h : Made setting document groups p) (hfits : p.Fits) : Sound p :=
  Sound.start.steps h.steps hfits

theorem Made.objects (h : Made setting document groups p)
    (hflat : FlatDocument setting.schema document) {group : Group} (hgroup : group ∈ groups)
    {cls : SchemaClass} (hcls : setting.schema.findClass? group.className = some cls)
    {node : NodeId × Json} (hnode : node ∈ group.nodes) :
    node.2.isObject = true ∧ FlatObject setting.schema cls node.2.members :=
  hflat.elements group.plan (h.plan ▸ List.mem_map_of_mem hgroup) cls hcls node.2
    (List.mem_map_of_mem hnode)

section

variable (h : Made setting document groups p) (hregular : setting.schema.Regular)
  (hserves : setting.registry.Serves setting.schema)

include h hregular hserves

theorem Made.ids_entries :
    (groups.flatMap Group.entries).map Entry.id = p.graph.nodes.map Node.id := by
  have hnodes : p.graph.nodes.map Node.id = p.graph.shapes.map Prod.fst := by
    simp [Graph.shapes]
  have hhere : ∀ group ∈ groups,
      group.entries.map Entry.id = (group.shapes setting).map Prod.fst := by
    intro group hgroup
    obtain ⟨-, template, -, -, hfind, -⟩ := template_of_plan hregular hserves h.plan hgroup
    rw [ids_shapes (by rw [hfind]; rfl), Group.entries]
    simp
  rw [hnodes, h.shapes]
  simp only [List.map_flatMap]
  exact List.flatMap_congr hhere

variable (hflat : FlatDocument setting.schema document)

include hflat

theorem Made.ready (hp : Sound p) {entry : Entry}
    (hentry : entry ∈ groups.flatMap Group.entries) :
    ∃ cls, setting.schema.findClass? entry.className = some cls ∧
      Ready setting p.graph entry.id cls ∧ FlatObject setting.schema cls entry.source := by
  obtain ⟨group, hgroup, hmember⟩ := List.mem_flatMap.1 hentry
  obtain ⟨node, hnode, rfl⟩ := List.mem_map.1 hmember
  obtain ⟨cls, template, hcls, -, hfind, htemplate⟩ :=
    template_of_plan hregular hserves h.plan hgroup
  have hshape : p.graph.shape? node.1 = some template := by
    rw [hp.wellFormed.shape?_eq_some_iff, h.shapes]
    exact List.mem_flatMap.2 ⟨group, hgroup, mem_shapes hfind hnode⟩
  exact ⟨cls, hcls, ⟨⟨template, hshape, htemplate⟩, fun _ _ => h.pristine.content_eq⟩,
    (h.objects hflat hgroup hcls hnode).2⟩

theorem Made.populateGroups_eq (embed : Embed) (p' : Progress) :
    populateGroups setting groups embed p' =
      populateAll setting groups embed (groups.flatMap Group.entries) p' := by
  rw [populateGroups, Import.populateGroups_eq]
  intro group hgroup node hnode
  obtain ⟨cls, -, hcls, -⟩ := template_of_plan hregular hserves h.plan hgroup
  exact (h.objects hflat hgroup hcls hnode).1

theorem Made.contents (hembed : embed.TakesSteps setting)
    (hfits : (populateGroups setting groups embed p).Fits) :
    Sound (populateGroups setting groups embed p) ∧
    (populateGroups setting groups embed p).graph.shapes =
      groups.flatMap (Group.shapes setting) ∧
    GroupsFilled setting document groups (populateGroups setting groups embed p).graph := by
  have hpopulate : Steps setting p (populateGroups setting groups embed p) :=
    steps_populateGroups hembed p
  have hsound := h.sound (hfits.of_steps hpopulate)
  have hsoundAfter := hsound.steps hpopulate hfits
  rw [h.populateGroups_eq hregular hserves hflat embed p] at hfits hsoundAfter ⊢
  obtain ⟨hkept, -, hfilled⟩ := populateAll_contents hembed
    (by rw [h.ids_entries hregular hserves]; exact hsound.wellFormed.nodes_distinct) hsound
    (fun entry hentry => h.ready hregular hserves hflat hsound hentry) hfits
  refine ⟨hsoundAfter, hkept.trans h.shapes, h.plan, ?_⟩
  intro group hgroup node hnode cls hcls
  have hentry : (⟨node.1, group.className, node.2.members⟩ : Entry) ∈
      groups.flatMap Group.entries :=
    List.mem_flatMap.2 ⟨group, hgroup, List.mem_map_of_mem hnode⟩
  exact hfilled _ hentry cls hcls

end

/-! ## The third pass -/

theorem Filled.addNode {g : Graph} {template : NodeTemplate} {x y : Float} {id : NodeId}
    {cls : SchemaClass} {values : Field → Option Json}
    (h : Filled setting groups g id cls values) (hid : id ≠ (g.addNode template x y).1)
    (hgroups : ∀ group ∈ groups, ∀ origin ∈ group.nodes.map Prod.fst,
      origin ≠ (g.addNode template x y).1) :
    Filled setting groups (g.addNode template x y).2 id cls values := by
  intro position field hfield
  rw [Graph.content_addNode_of_ne hid, h position field hfield]
  have hsource : source? setting groups (g.addNode template x y).2 id position field =
      source? setting groups g id position field := by
    funext entry
    refine Option.bind_congr fun origin horigin => ?_
    obtain ⟨group, hgroup, hmem⟩ := resolve?_mem horigin
    rw [Graph.admits_addNode_of_ne (hgroups group hgroup origin hmem) hid]
  cases values field with
  | none =>
      rfl
  | some value =>
      rw [filledContent, filledContent, hsource]

theorem GroupsFilled.congr {g g' : Graph} (h : GroupsFilled setting document groups g)
    (hshapes : g'.shapes = g.shapes)
    (hcontent : ∀ group ∈ groups, ∀ id ∈ group.nodes.map Prod.fst, ∀ position,
      g'.content id position = g.content id position) :
    GroupsFilled setting document groups g' where
  plan := h.plan
  filled group hgroup node hnode cls hcls :=
    (h.filled group hgroup node hnode cls hcls).congr hshapes
      (hcontent group hgroup node.1 (List.mem_map_of_mem hnode))

theorem GroupsFilled.addNode {g : Graph} {template : NodeTemplate} {x y : Float}
    (h : GroupsFilled setting document groups g)
    (hnew : ∀ group ∈ groups, ∀ id ∈ group.nodes.map Prod.fst,
      id ≠ (g.addNode template x y).1) :
    GroupsFilled setting document groups (g.addNode template x y).2 where
  plan := h.plan
  filled group hgroup node hnode cls hcls :=
    (h.filled group hgroup node hnode cls hcls).addNode
      (hnew group hgroup node.1 (List.mem_map_of_mem hnode)) hnew

/-- What an import leaves of a flat document. -/
structure Imported (setting : Setting) (document : List (String × Json)) (groups : List Group)
    (g : Graph) : Prop where
  wellFormed : g.WellFormed
  inOrder : g.InOrder
  grouped : GroupsFilled setting document groups g
  rootless : setting.schema.rootClass? = none →
    g.shapes = groups.flatMap (Group.shapes setting)
  rooted : ∀ cls, setting.schema.rootClass? = some cls → ∃ root template,
    setting.schema.IsTemplate cls template ∧
      g.shapes = groups.flatMap (Group.shapes setting) ++ [(root, template)] ∧
      RootFilled setting groups g root cls document

theorem foldl_report_graph {α : Type} (issue : α → Issue) (xs : List α) (p : Progress) :
    (xs.foldl (fun p x => p.report (issue x)) p).graph = p.graph := by
  induction xs generalizing p with
  | nil =>
      rfl
  | cons x rest ih =>
      exact ih (p.report (issue x))

theorem foldl_report_links {α : Type} (issue : α → Issue) (xs : List α) (p : Progress) :
    (xs.foldl (fun p x => p.report (issue x)) p).links = p.links := by
  induction xs generalizing p with
  | nil =>
      rfl
  | cons x rest ih =>
      exact ih (p.report (issue x))

theorem fillNewRoot_contents (hregular : setting.schema.Regular)
    (hserves : setting.registry.Serves setting.schema)
    (hflat : FlatDocument setting.schema document)
    (hembed : embed.TakesSteps setting) (hp : Sound p)
    (hshapes : p.graph.shapes = groups.flatMap (Group.shapes setting))
    (hgroups : GroupsFilled setting document groups p.graph) {cls : SchemaClass}
    (hroot : setting.schema.rootClass? = some cls) {template : NodeTemplate}
    (hfind : setting.registry.find? setting.schema.name cls.name = some template)
    (hclass : setting.schema.IsTemplate cls template) {x y : Float}
    (hfits : (fillRoot setting groups embed (p.graph.addNode template x y).1 document 0
      cls.fields { p with graph := (p.graph.addNode template x y).2 }).Fits) :
    Imported setting document groups
      (fillRoot setting groups embed (p.graph.addNode template x y).1 document 0 cls.fields
        { p with graph := (p.graph.addNode template x y).2 }).graph := by
  have hfill : Steps setting { p with graph := (p.graph.addNode template x y).2 }
      (fillRoot setting groups embed (p.graph.addNode template x y).1 document 0 cls.fields
        { p with graph := (p.graph.addNode template x y).2 }) :=
    steps_fillRoot hembed _ document 0 cls.fields _
  have hfitsMade := hfits.of_steps hfill
  have hmade : Sound { p with graph := (p.graph.addNode template x y).2 } :=
    hp.step (Step.create p cls.name template x y hfind) hfitsMade
  have hfilled := hmade.steps hfill hfits
  have hroom : p.graph.lastNode < Graph.lastId := by
    have hnodes := hfitsMade.1
    rw [Graph.addNode, List.length_append] at hnodes
    refine hp.nodes_room (Int.lt_of_lt_of_le ?_ hnodes)
    exact Int.ofNat_lt.2 (Nat.lt_succ_self _)
  have hnew : ∀ group ∈ groups, ∀ id ∈ group.nodes.map Prod.fst,
      id ≠ (p.graph.addNode template x y).1 := by
    intro group hgroup id hid
    refine hp.wellFormed.ne_addNode hroom ?_
    obtain ⟨-, template, -, -, htemplate, -⟩ :=
      template_of_plan hregular hserves hgroups.plan hgroup
    obtain ⟨node, hnode, rfl⟩ := List.mem_map.1 hid
    have hshape : (node.1, template) ∈ p.graph.shapes := by
      rw [hshapes]
      exact List.mem_flatMap.2 ⟨group, hgroup, mem_shapes htemplate hnode⟩
    obtain ⟨made, hmem, hpair⟩ := List.mem_map.1 hshape
    exact List.mem_map.2 ⟨made, hmem, congrArg Prod.fst hpair⟩
  have hready : Ready setting (p.graph.addNode template x y).2
      (p.graph.addNode template x y).1 cls := by
    have hshape : (p.graph.addNode template x y).2.shape? (p.graph.addNode template x y).1 =
        some template := by
      rw [hmade.wellFormed.shape?_eq_some_iff, Graph.shapes_addNode]
      exact List.mem_append_right _ (List.mem_singleton_self _)
    refine ⟨⟨template, hshape, hclass⟩, fun position input hinput => ?_⟩
    rw [hshape] at hinput
    exact hp.wellFormed.content_addNode hroom hinput
  obtain ⟨hkept, helsewhere, hrootFilled⟩ := fillRoot_contents hembed hmade hready
    (fun field hfield hnone value hvalue =>
      hflat.root cls hroot field hfield value hvalue
        (groupElements?_of_findGroup? hgroups.plan hnone hvalue))
    hfits
  refine ⟨hfilled.wellFormed, hfilled.inOrder, ?_, fun hnone => ?_, fun other hother => ?_⟩
  · refine (hgroups.addNode hnew).congr hkept fun group hgroup id hid position => ?_
    exact helsewhere id (hnew group hgroup id hid) position
  · simp [hroot] at hnone
  · obtain rfl := Option.some.inj (hroot.symm.trans hother)
    refine ⟨_, template, hclass, ?_, hrootFilled⟩
    rw [hkept, Graph.shapes_addNode, hshapes]

theorem createRoot_contents (hregular : setting.schema.Regular)
    (hserves : setting.registry.Serves setting.schema)
    (hflat : FlatDocument setting.schema document) (hembed : embed.TakesSteps setting)
    {loose : List String} (hp : Sound p)
    (hshapes : p.graph.shapes = groups.flatMap (Group.shapes setting))
    (hgroups : GroupsFilled setting document groups p.graph)
    (hfits : (createRoot setting groups embed loose document p).2.Fits) :
    Imported setting document groups
      (createRoot setting groups embed loose document p).2.graph := by
  cases hroot : setting.schema.rootClass? with
  | none =>
      have hgraph : (createRoot setting groups embed loose document p).2.graph = p.graph := by
        rw [createRoot, hroot]
        exact foldl_report_graph _ loose p
      rw [hgraph]
      refine ⟨hp.wellFormed, hp.inOrder, hgroups, fun _ => hshapes, fun cls hcls => ?_⟩
      simp [hroot] at hcls
  | some cls =>
      obtain ⟨template, hfind, hclass⟩ := hserves cls (hregular.mem_of_rootClass? hroot)
      have hcreate : p.createNode setting cls.name setting.layout.rootX
          setting.layout.rowStartY =
            (some (p.graph.addNode template setting.layout.rootX setting.layout.rowStartY).1,
              { p with graph :=
                (p.graph.addNode template setting.layout.rootX
                  setting.layout.rowStartY).2 }) := by
        rw [Progress.createNode, hfind]
      rw [createRoot, hroot] at hfits ⊢
      simp only [hcreate] at hfits ⊢
      rw [foldl_report_graph]
      exact fillNewRoot_contents hregular hserves hflat hembed hp hshapes hgroups hroot hfind hclass
        (hfits.of_steps (steps_reports setting Issue.strayRootKey _ _))

/-- An import of a flat document into the empty graph fills every slot from its field. -/
theorem run_contents (hregular : setting.schema.Regular)
    (hserves : setting.registry.Serves setting.schema)
    (hflat : FlatDocument setting.schema document)
    (hfits : (run setting Graph.empty document).2.Fits) :
    ∃ groups, Imported setting document groups (run setting Graph.empty document).2.graph := by
  rcases hmade : createGroups setting setting.layout.columnStartX document
    (Progress.start Graph.empty) with ⟨groups, loose, p⟩
  have hrun : (run setting Graph.empty document).2 =
      (createRoot setting groups (embedAt setting groups (Json.obj document).depth) loose document
        (populateGroups setting groups (embedAt setting groups (Json.obj document).depth)
          p)).2 := by
    rw [run, hmade]
  have hembed : (embedAt setting groups (Json.obj document).depth).TakesSteps setting :=
    takesSteps_embedAt _
  rw [hrun] at hfits ⊢
  obtain ⟨hsound, hshapes, hgroups⟩ := (createGroups_made hregular hserves hmade).contents
    hregular hserves hflat hembed (hfits.of_steps (steps_createRoot hembed loose document _))
  exact ⟨groups, createRoot_contents hregular hserves hflat hembed hsound hshapes hgroups hfits⟩

end Import

end SlotGraph
