import SlotGraph.Proofs.Import.Roster

/-!
# The first root

A build takes the fields of the top level from the first root node.  After an import this is
the first node of the root class that was made: one for an inline object inside an element
under a group key, or, if there is none, the root of the document.
-/

namespace SlotGraph

namespace Import

def Making.isRoot (schema : Schema) (making : Making) : Bool :=
  schema.rootType != "" && schema.rootType == making.className

variable {setting : Setting} {document : List (String × Json)} {groups : List Group}
  {root : Option NodeId} {g : Graph} {before after : List (NodeId × Making)}

theorem leads_blueprint (hserves : setting.registry.Serves setting.schema)
    {entry : NodeId × Making} {cls : SchemaClass}
    (hcls : setting.schema.findClass? entry.2.className = some cls) :
    (blueprint setting entry).2.any (NodeTemplate.leads setting.schema) =
      entry.2.isRoot setting.schema := by
  have hname : cls.name = entry.2.className := by
    simpa using List.find?_some hcls
  obtain ⟨template, hfind, htemplate⟩ := hserves cls (List.mem_of_find?_eq_some hcls)
  rw [blueprint, ← hname, hfind, Option.any_some, htemplate.leads_eq, Schema.isRoot, hname]
  rfl

namespace Roster

variable (h : Roster setting document groups root g before after)

include h

theorem ids : g.nodes.map Node.id = (before ++ after).map Prod.fst := by
  have hids := congrArg (List.map Prod.fst) h.shapes
  rw [List.map_map, List.map_map] at hids
  rw [← Graph.map_fst_shapes]
  exact hids

/-- The root of the document is the first node of the third pass. -/
theorem after_eq_cons {id : NodeId} (hroot : root = some id) :
    ∃ cls tail, setting.schema.rootClass? = some cls ∧
      after = (id, ⟨cls.name, .obj document⟩) :: tail := by
  have hmakings := h.after_eq
  rw [rootMakings] at hmakings
  cases after with
  | nil =>
      simp [h.root_eq] at hroot
  | cons entry tail =>
      have hid : entry.1 = id := by
        simpa [h.root_eq] using hroot
      cases hcls : setting.schema.rootClass? with
      | none =>
          simp [hcls] at hmakings
      | some cls =>
          simp only [hcls] at hmakings
          refine ⟨cls, tail, rfl, ?_⟩
          rw [← hid, ← (List.cons_eq_cons.1 hmakings).1]

theorem exists_class {entry : NodeId × Making} (hentry : entry ∈ before ++ after) :
    ∃ cls, setting.schema.findClass? entry.2.className = some cls := by
  have hsettled : ∀ made ∈ before ++ after.tail,
      ∃ cls, setting.schema.findClass? made.2.className = some cls := by
    intro made hmade
    obtain ⟨cls, hcls, -⟩ := h.settled made hmade
    exact ⟨cls, hcls⟩
  rcases List.mem_append.1 hentry with hfirst | hlater
  · exact hsettled entry (List.mem_append_left _ hfirst)
  · obtain ⟨first, tail, rfl⟩ := List.exists_cons_of_ne_nil (List.ne_nil_of_mem hlater)
    rcases List.mem_cons.1 hlater with rfl | htail
    · obtain ⟨cls, _, hroot, hcons⟩ := h.after_eq_cons h.root_eq
      rw [(List.cons_eq_cons.1 hcons).1]
      exact ⟨cls, (Schema.of_rootClass? hroot).2.1⟩
    · exact hsettled entry (List.mem_append_right _ htail)

/-- The first root is the first node that was made for the root class. -/
theorem head_rootNodes (hserves : setting.registry.Serves setting.schema) :
    (g.rootNodes setting.schema).head?.map Node.id =
      ((before ++ after).find? fun entry => entry.2.isRoot setting.schema).map Prod.fst := by
  have hmarked : (before ++ after).filter (fun entry => entry.2.isRoot setting.schema) =
      (before ++ after).filter fun entry =>
        (blueprint setting entry).2.any (NodeTemplate.leads setting.schema) := by
    refine List.filter_congr fun entry hentry => ?_
    obtain ⟨cls, hcls⟩ := h.exists_class hentry
    exact (leads_blueprint hserves hcls).symm
  have hmade := congrArg (fun made : List (NodeId × Option NodeTemplate) =>
    (made.filter fun entry => entry.2.any (NodeTemplate.leads setting.schema)).map Prod.fst)
    h.shapes
  simp only [List.filter_map, List.map_map] at hmade
  have hroots := congrArg (List.map Prod.fst) (Graph.shapes_rootNodes g setting.schema)
  rw [List.map_map] at hroots
  rw [← List.head?_filter, hmarked, ← List.head?_map, ← List.head?_map]
  exact congrArg List.head? (hroots.trans hmade)

omit h in
theorem ne_rootType_of_group {schema : Schema} {making : Making}
    (hmaking : making ∈ groupMakings schema document) : making.className ≠ schema.rootType := by
  obtain ⟨entry, hentry, helement⟩ := List.mem_flatMap.1 hmaking
  obtain ⟨value, -, hplanned⟩ := mem_planned.1 hentry
  obtain ⟨element, -, rfl⟩ := List.mem_map.1 helement
  exact (of_groupElements? hplanned).2.1

/-- Before the root of the document only inline objects become nodes of the root class. -/
theorem find?_before_eq_none_iff (hnamed : setting.schema.rootType ≠ "") :
    before.find? (fun entry => entry.2.isRoot setting.schema) = none ↔
      ∀ making ∈ embeddedMakings setting.schema document,
        making.className ≠ setting.schema.rootType := by
  have hmarked : ∀ making : Making, making.isRoot setting.schema = true ↔
      making.className = setting.schema.rootType := by
    intro making
    rw [Making.isRoot, bne_iff_ne.2 hnamed, Bool.true_and, beq_iff_eq, eq_comm]
  have hmakings : (∀ entry ∈ before, entry.2.className ≠ setting.schema.rootType) ↔
      ∀ making ∈ before.map Prod.snd, making.className ≠ setting.schema.rootType := by
    rw [List.forall_mem_map]
  simp only [List.find?_eq_none, hmarked]
  rw [hmakings, h.before_eq, List.forall_mem_append]
  exact and_iff_right fun making => ne_rootType_of_group

/--
The root of the document is the first root exactly when no inline object inside an element
under a group key became a node of the root class.
-/
theorem head_rootNodes_eq_iff (hserves : setting.registry.Serves setting.schema) {id : NodeId}
    (hroot : root = some id) :
    (g.rootNodes setting.schema).head?.map Node.id = some id ↔
      ∀ making ∈ embeddedMakings setting.schema document,
        making.className ≠ setting.schema.rootType := by
  obtain ⟨cls, tail, hcls, hafter⟩ := h.after_eq_cons hroot
  obtain ⟨-, -, hname, hnamed⟩ := Schema.of_rootClass? hcls
  have hlast : after.find? (fun entry => entry.2.isRoot setting.schema) =
      some (id, ⟨cls.name, .obj document⟩) := by
    rw [hafter]
    exact List.find?_cons_of_pos (by simp [Making.isRoot, hname, hnamed])
  rw [h.head_rootNodes hserves, List.find?_append, hlast, ← h.find?_before_eq_none_iff hnamed]
  cases hfind : before.find? fun entry => entry.2.isRoot setting.schema with
  | none =>
      exact iff_of_true rfl rfl
  | some entry =>
      refine iff_of_false (fun hsame => ?_) (by simp)
      -- Two nodes of one number cannot both have been made.
      have hdistinct := h.wellFormed.nodes_distinct
      rw [h.ids, List.map_append] at hdistinct
      have hid : id ∈ after.map Prod.fst := by
        rw [hafter]
        exact List.mem_cons_self
      exact (List.nodup_append.1 hdistinct).2.2 _
        (List.mem_map_of_mem (List.mem_of_find?_eq_some hfind)) _ hid (Option.some.inj hsame)

end Roster

/--
Whether the root of a document is the root that is built: the first root node is the one
that the import made for the document, so the fields of the top level are written from it,
and its slots hold what the groups and the top level of the document give for them.
-/
structure BuildsOwnRoot (setting : Setting) (document : List (String × Json)) (g : Graph)
    (root : NodeId) : Prop where
  first : (g.rootNodes setting.schema).head?.map Node.id = some root
  written : ∃ node, g.findNode? root = some node ∧
    Build.rootValues g setting.schema =
      (g.nodeValue node).members.filter fun member => !setting.schema.isGroupKey member.1
  filled : ∀ cls, setting.schema.rootClass? = some cls → ∀ position field,
    cls.fields[position]? = some field →
      RootSlotFilled setting (madeGroups setting Graph.empty document) g root position
        (setting.schema.inputOf cls field) field (document.lookup field.name)

theorem written_of_first (hwf : g.WellFormed) {schema : Schema} {id : NodeId}
    (hfirst : (g.rootNodes schema).head?.map Node.id = some id) :
    ∃ node, g.findNode? id = some node ∧
      Build.rootValues g schema =
        (g.nodeValue node).members.filter fun member => !schema.isGroupKey member.1 := by
  obtain ⟨node, hhead, rfl⟩ := Option.map_eq_some_iff.1 hfirst
  have hnode : node ∈ g.nodes := List.mem_of_mem_filter (List.mem_of_head? hhead)
  exact ⟨node, hwf.findNode?_eq hnode, by rw [Build.rootValues, hhead]⟩

/--
The root of a document imported into the empty graph is the root that is built, exactly when
no inline object inside an element under a group key becomes a node of the root class.
-/
theorem buildsOwnRoot_run_iff (haccepted : setting.schema.Accepted)
    (hserves : setting.registry.Serves setting.schema)
    (hfits : (run setting Graph.empty document).2.Fits) {id : NodeId}
    (hroot : (run setting Graph.empty document).1.root = some id) :
    BuildsOwnRoot setting document (run setting Graph.empty document).2.graph id ↔
      ∀ making ∈ embeddedMakings setting.schema document,
        making.className ≠ setting.schema.rootType := by
  obtain ⟨before, after, hroster⟩ := roster_run haccepted hserves hfits
  rw [← hroster.head_rootNodes_eq_iff hserves hroot]
  refine ⟨fun hown => hown.first, fun hfirst => ⟨hfirst, ?_, fun cls hcls => ?_⟩⟩
  · exact written_of_first hroster.wellFormed hfirst
  · exact hroster.rootFilled cls hcls id hroot

def annexDocument : List (String × Json) :=
  [("tools", .arr [.obj [("parent", .obj [])]])]

/--
The root of a household with an embedded member is built; but a household inside a member
comes before the one that has it, and is built in its place.
-/
theorem buildsOwnRoot_run_household :
    household.Accepted ∧ householdSetting.registry.Serves household ∧
    (run householdSetting Graph.empty householdDocument).2.Fits ∧
    (run householdSetting Graph.empty householdDocument).1.root = some 4 ∧
    BuildsOwnRoot householdSetting householdDocument
      (run householdSetting Graph.empty householdDocument).2.graph 4 ∧
    (run householdSetting Graph.empty annexDocument).2.Fits ∧
    (run householdSetting Graph.empty annexDocument).1.root = some 3 ∧
    ¬ BuildsOwnRoot householdSetting annexDocument
      (run householdSetting Graph.empty annexDocument).2.graph 3 := by
  have hfits : (run householdSetting Graph.empty householdDocument).2.Fits :=
    ⟨by decide +kernel, by decide +kernel⟩
  have hroot : (run householdSetting Graph.empty householdDocument).1.root = some 4 := by
    decide +kernel
  have hinside : ∀ making ∈ embeddedMakings household householdDocument,
      making.className ≠ household.rootType := by
    decide +kernel
  have hannexFits : (run householdSetting Graph.empty annexDocument).2.Fits :=
    ⟨by decide +kernel, by decide +kernel⟩
  have hannexRoot : (run householdSetting Graph.empty annexDocument).1.root = some 3 := by
    decide +kernel
  have hannex : ¬ ∀ making ∈ embeddedMakings household annexDocument,
      making.className ≠ household.rootType := by
    decide +kernel
  exact ⟨accepted_household, serves_household, hfits, hroot,
    (buildsOwnRoot_run_iff accepted_household serves_household hfits hroot).2 hinside,
    hannexFits, hannexRoot, fun hown => hannex
      ((buildsOwnRoot_run_iff accepted_household serves_household hannexFits hannexRoot).1 hown)⟩

end Import

end SlotGraph
