import SlotGraph.Proofs.Import.Additions
import SlotGraph.Proofs.Import.Losses

/-!
# Links that an import displaces

Of the links that a document makes into a slot for one only the last is there in the end,
while the summary counts all of them.  What is lost in each slot adds up over the slots of a
node, over the nodes of a pass and over the passes, so the links that are displaced make up
for the difference, and they can be told from the document.
-/

namespace SlotGraph

namespace Import

variable {setting : Setting} {groups : List Group} {document : List (String × Json)}
  {p q : Progress} {id : NodeId} {slot : Nat} {cls : SchemaClass} {field : Field}
  {depth : Nat}

/-! ## One node -/

/--
What is done for some things in turn loses what it loses for each, if what is done for one of
them leaves the others fresh that come later.
-/
theorem loses_foldl {α : Type} {f : Progress → α → Progress} {offers : α → List Nat}
    {xs : List α} (fresh : α → Progress → Prop) (hsteps : ∀ x q, Steps setting q (f q x))
    (hone : ∀ x ∈ xs, ∀ q, Going setting groups q → fresh x q → (f q x).Fits →
      Loses (excess (offers x)) q (f q x))
    (hapart : xs.Pairwise fun x y => ∀ q, Going setting groups q → fresh x q → fresh y q →
      (f q x).Fits → fresh y (f q x))
    (hp : Going setting groups p) (hfresh : ∀ x ∈ xs, fresh x p) (hfits : (xs.foldl f p).Fits) :
    Loses (excess (xs.flatMap offers)) p (xs.foldl f p) := by
  induction xs generalizing p with
  | nil =>
      exact .of_same rfl rfl
  | cons x rest ih =>
      rw [List.foldl_cons] at hfits ⊢
      have hfitsFirst := hfits.of_steps (steps_foldl (fun y _ q => hsteps y q) (f p x))
      obtain ⟨hapartFirst, hapartRest⟩ := List.pairwise_cons.1 hapart
      have hfreshFirst := hfresh x List.mem_cons_self
      have hfirst := hone x List.mem_cons_self p hp hfreshFirst hfitsFirst
      have hrest := ih (fun y hy => hone y (List.mem_cons_of_mem x hy)) hapartRest
        (hp.steps (hsteps x p) hfitsFirst)
        (fun y hy => hapartFirst y hy p hp hfreshFirst (hfresh y (List.mem_cons_of_mem x hy))
          hfitsFirst) hfits
      rw [List.flatMap_cons, excess_append]
      exact hfirst.trans hrest

/-- The slots of a fresh node are filled one by one, each while it is fresh. -/
theorem loses_fillEach {fill : Nat → Field → Progress → Progress} {offers : Field → List Nat}
    (hsteps : ∀ slot field p, Steps setting p (fill slot field p))
    (hfill : ∀ slot field q, Going setting groups q →
      Unlinked setting.schema q.graph id slot cls field → (fill slot field q).Fits →
      (∃ makings, Makes setting groups (spotAt id slot) q (fill slot field q) makings) ∧
        Loses (excess (offers field)) q (fill slot field q))
    (hp : Going setting groups p) (hready : Ready setting p.graph id cls)
    (hfits : (fillEach fill 0 cls.fields p).Fits) :
    Loses (excess (cls.fields.flatMap offers)) p (fillEach fill 0 cls.fields p) := by
  have hfields : cls.fields.flatMap offers =
      cls.fields.zipIdx.flatMap fun entry => offers entry.1 := by
    conv_lhs => rw [← List.zipIdx_map_fst 0 cls.fields, List.flatMap_map]
  have hdistinct : cls.fields.zipIdx.Pairwise fun entry other => entry.2 ≠ other.2 := by
    rw [← List.pairwise_map, List.zipIdx_map_snd]
    exact List.nodup_range'
  rw [fillEach_eq_foldl] at hfits ⊢
  rw [hfields]
  refine loses_foldl (fun entry q => Unlinked setting.schema q.graph id entry.2 cls entry.1)
    (fun entry q => hsteps entry.2 entry.1 q)
    (fun entry _ q hq hfresh hqFits => (hfill entry.2 entry.1 q hq hfresh hqFits).2)
    (hdistinct.imp fun hne q hq hfresh hother hqFits => ?_) hp (fun entry hentry => ?_) hfits
  · obtain ⟨⟨makings, hmade⟩, -⟩ := hfill _ _ q hq hfresh hqFits
    exact
      { node := hother.node.steps (hsteps _ _ q)
        field := hother.field
        sources := (hmade.sources_eq hother.node.knows fun hspot => hne hspot.2.symm).trans
          hother.sources }
  · exact .of_ready hready (List.mk_mem_zipIdx_iff_getElem?.1 hentry)

section

variable {embed : Embed} {inline : Inline}
  (hplan : groups.map Group.plan = planned setting.schema document)
  (hembed : Places setting groups document embed inline depth)

include hplan hembed

/-- A fresh node that is filled from an object loses what its slots and those inside lose. -/
theorem loses_populate (hp : Going setting groups p) (hready : Ready setting p.graph id cls)
    (hcls : setting.schema.findClass? cls.name = some cls) {source : List (String × Json)}
    (hdeep : (Json.obj source).depth ≤ depth + 1)
    (hfits : (populate setting groups embed id source p).Fits) :
    Loses (excess ((⟨cls.name, .obj source⟩ ::
        objectMakings setting.schema inline cls source).flatMap
          (Making.offers setting.schema document))) p
      (populate setting groups embed id source p) := by
  have hoffers : excess ((⟨cls.name, .obj source⟩ ::
      objectMakings setting.schema inline cls source).flatMap
        (Making.offers setting.schema document)) =
      excess (cls.fields.flatMap fun field =>
        slotOffers setting.schema document cls field (source.lookup field.name) ++
          (slotMakings inline (setting.schema.inputOf cls field) field
            (source.lookup field.name)).flatMap (Making.offers setting.schema document)) := by
    rw [List.flatMap_cons, excess_append, objectMakings, List.flatMap_assoc,
      excess_flatMap_append, Making.offers, hcls]
  rw [populate_eq hready.shape hcls, fillFields_eq] at hfits ⊢
  rw [hoffers]
  refine loses_fillEach
    (fun slot field q => steps_fillValue hembed.steps id slot field (source.lookup field.name) q)
    (fun slot field q hq hfresh hqFits => ?_) hp hready hfits
  have hmade := makes_fillValue hembed.steps hembed.makes hq.sound hq.stocked
    (hfresh.node.input_eq hfresh.field) hqFits
  refine ⟨⟨_, hmade⟩, loses_fillValue hplan hembed hq hfresh (fun value hvalue => ?_) hqFits⟩
  have hlt := Json.depth_lt_of_lookup hvalue
  omega

/-! ## Inline objects -/

/-- An inline object loses what the slots of its node and those inside lose. -/
theorem places_embedWith (hserves : setting.registry.Serves setting.schema) :
    Places setting groups document (embedWith setting groups embed)
      (inlineWith setting.schema inline) (depth + 1) where
  steps := takesSteps_embedWith hembed.steps
  makes := embeds_embedWith hserves hembed.steps hembed.makes
  places := by
    intro field object p hp hdeep hfits
    obtain ⟨issues, hclass⟩ := embeddedClass?_eq setting.schema field object p
    rw [embedWith, hclass] at hfits ⊢
    rw [inlineWith, inlineClass?]
    cases hname : (setting.schema.modelOf? field).or
        (classesCovering setting.schema object).head? with
    | none =>
        exact ⟨.none, .of_same rfl rfl⟩
    | some className =>
        obtain ⟨cls, hcls, hmem, rfl⟩ := findClass?_of_inline hname
        obtain ⟨template, hfind, htemplate, hcreate⟩ :=
          createNode_eq hserves { p with issues := p.issues ++ issues } hmem
            (setting.layout.embeddedX p.embedded) (setting.layout.embeddedY p.embedded)
        rw [Option.bind_some, hcls]
        simp only [hname, hcreate] at hfits ⊢
        have hnodeFits := hfits.of_steps (steps_populate hembed.steps _ object _)
        have hreported : Sound { p with issues := p.issues ++ issues } := hp.sound.congr rfl rfl
        obtain ⟨-, hready⟩ := grown_addNode hreported hfind htemplate hnodeFits (.obj object)
        have hmade := hp.steps (((Relation.ReflTransGen.single (.report p issues)).tail
          (.create _ cls.name template _ _ hfind)).tail (.embed _)) hnodeFits
        have hloses := loses_populate hplan hembed hmade hready hcls hdeep hfits
        have hnode : IsOf setting.schema _ _ cls := hready.shape
        exact ⟨.some (hnode.steps (steps_populate hembed.steps _ object _)), hloses⟩

end

/-- By induction on how deep objects nest, inline objects lose what their nodes lose. -/
theorem places_embedAt (hplan : groups.map Group.plan = planned setting.schema document)
    (hserves : setting.registry.Serves setting.schema) (depth : Nat) :
    Places setting groups document (embedAt setting groups depth)
      (inlineMakings setting.schema depth) depth := by
  induction depth with
  | zero =>
      exact
        { steps := takesSteps_embedAt 0
          makes := embeds_embedAt hserves 0
          places := fun _ _ _ _ hdeep => absurd hdeep (Nat.not_succ_le_zero _) }
  | succ depth ih =>
      exact places_embedWith hplan ih hserves

/-! ## The first two passes -/

theorem loses_createNode (p : Progress) (className : String) (x y : Float) :
    Loses 0 p (p.createNode setting className x y).2 := by
  unfold Progress.createNode
  split <;> exact .of_same rfl rfl

theorem loses_createElements (className : String) (x : Float) (row : Nat)
    (elements : List Json) (p : Progress) :
    Loses 0 p (createElements setting className x row elements p).2 := by
  induction elements generalizing row p with
  | nil =>
      exact .of_same rfl rfl
  | cons element rest ih =>
      have hcreate : Loses 0 p (p.createNode setting className x (setting.layout.rowY row)).2 :=
        loses_createNode p className x _
      rw [createElements]
      split
      · next id next hnode =>
          rw [hnode] at hcreate
          exact hcreate.trans (ih (row + 1) next)
      · next next hnode =>
          rw [hnode] at hcreate
          exact hcreate

/-- The nodes of the groups are made without links. -/
theorem loses_createGroups (x : Float) (document : List (String × Json)) (p : Progress) :
    Loses 0 p (createGroups setting x document p).2.2 := by
  induction document generalizing x p with
  | nil =>
      exact .of_same rfl rfl
  | cons entry rest ih =>
      obtain ⟨key, value⟩ := entry
      rw [createGroups]
      split
      · next className elements _ =>
          exact (loses_createElements className x 0 elements p).trans (ih _ _)
      · exact ih x p

section

variable {embed : Embed} {inline : Inline}
  (hplan : groups.map Group.plan = planned setting.schema document)
  (hembed : Places setting groups document embed inline depth)

include hplan hembed

theorem loses_task (hp : Going setting groups p) {task : Task}
    (hcls : setting.schema.findClass? task.entry.2.className = some cls)
    (hready : Ready setting p.graph task.entry.1 cls)
    (hdeep : task.entry.2.element.depth ≤ depth + 1)
    (hfits : (task.fill setting groups embed p).Fits) :
    Loses (excess ((task.entry.2 :: insideMakings setting.schema inline task.entry.2).flatMap
      (Making.offers setting.schema document))) p (task.fill setting groups embed p) := by
  obtain ⟨key, position, id, className, element⟩ := task
  obtain rfl : cls.name = className := by
    simpa using List.find?_some hcls
  cases element with
  | obj source =>
      simp only [insideMakings, hcls]
      exact loses_populate hplan hembed hp hready hcls hdeep hfits
  | _ =>
      simp only [insideMakings, hcls, List.flatMap_cons, Making.offers]
      exact .of_same rfl rfl

/-- Fresh nodes of groups that are filled one after the other lose what each of them loses. -/
theorem loses_tasks {tasks : List Task} (hp : Going setting groups p)
    (hdistinct : (tasks.map fun task => task.entry.1).Nodup)
    (hready : ∀ task ∈ tasks, ∃ cls,
      setting.schema.findClass? task.entry.2.className = some cls ∧
        Ready setting p.graph task.entry.1 cls)
    (hdeep : ∀ task ∈ tasks, task.entry.2.element.depth ≤ depth + 1)
    (hfits : (Task.fillAll setting groups embed tasks p).Fits) :
    Loses (excess (tasks.flatMap fun task =>
      (task.entry.2 :: insideMakings setting.schema inline task.entry.2).flatMap
        (Making.offers setting.schema document))) p
      (Task.fillAll setting groups embed tasks p) := by
  refine loses_foldl
    (fun task q => ∃ cls, setting.schema.findClass? task.entry.2.className = some cls ∧
      Ready setting q.graph task.entry.1 cls)
    (fun task q => task.steps_fill hembed.steps q)
    (fun task htask q hq hfresh hqFits => ?_)
    ((List.pairwise_map.1 hdistinct).imp fun hne q hq hfresh hother hqFits => ?_)
    hp hready hfits
  · obtain ⟨cls, hcls, hqReady⟩ := hfresh
    exact loses_task hplan hembed hq hcls hqReady (hdeep task htask) hqFits
  · obtain ⟨cls, hcls, hqReady⟩ := hfresh
    obtain ⟨otherClass, hotherClass, hotherReady⟩ := hother
    obtain ⟨hmade, -⟩ :=
      makes_task hembed.steps hembed.makes hq.sound hq.stocked hcls hqReady hqFits
    exact ⟨otherClass, hotherClass,
      hotherReady.of_makes hmade fun slot hspot => hne hspot.1.symm⟩

end

section

variable {embed : Embed} {inline : Inline} (haccepted : setting.schema.Accepted)
  (hserves : setting.registry.Serves setting.schema)

include haccepted hserves

theorem going_firstPass (hfits : (firstPass setting document).Fits) :
    Going setting (madeGroups setting Graph.empty document) (firstPass setting document) where
  sound := Sound.start.steps (steps_createGroups _ document _) hfits
  underway := underway_afterGroups haccepted hserves .empty (reaches_empty hfits)

/-- The second pass loses what the nodes of the groups and those inside their elements lose. -/
theorem loses_secondPass
    (hembed : Places setting (madeGroups setting Graph.empty document) document embed inline
      (Json.obj document).depth)
    (hfits : (populateGroups setting (madeGroups setting Graph.empty document) embed
      (firstPass setting document)).Fits) :
    Loses (excess ((groupMakings setting.schema document ++
        (groupMakings setting.schema document).flatMap
          (insideMakings setting.schema inline)).flatMap (Making.offers setting.schema document)))
      (Progress.start Graph.empty)
      (populateGroups setting (madeGroups setting Graph.empty document) embed
        (firstPass setting document)) := by
  have hplan := (plan_madeGroups haccepted hserves Graph.empty document).1
  have hfitsFirst := hfits.of_steps (steps_populateGroups hembed.steps _)
  have hmakings : ((madeGroups setting Graph.empty document).flatMap Group.tasks).map
      (fun task => task.entry.2) = groupMakings setting.schema document := by
    rw [← groupMakings_eq hplan, ← entries_tasks, List.map_map]
    rfl
  rw [excess_inside, ← hmakings, List.flatMap_map]
  rw [populateGroups, ← Task.fillAll_groups] at hfits ⊢
  have hfilled := loses_tasks hplan hembed (going_firstPass haccepted hserves hfitsFirst)
    (nodup_tasks_firstPass haccepted hserves hfitsFirst)
    (fun task htask => ready_firstPass haccepted hserves hfitsFirst htask)
    (fun task htask => ?_) hfits
  · have hall := (loses_createGroups setting.layout.columnStartX document
      (Progress.start Graph.empty)).trans hfilled
    rwa [Nat.zero_add] at hall
  · obtain ⟨group, hgroup, hmember⟩ := List.mem_flatMap.1 htask
    obtain ⟨node, hnode, rfl⟩ := List.mem_map.1 hmember
    have hdepth := depth_of_plan hplan hgroup (List.fst_mem_of_mem_zipIdx hnode)
    exact Nat.le_succ_of_le hdepth

end

/-! ## The root -/

/-- A slot keeps each of its links to a group: one for a single link gets the first member alone. -/
theorem Group.keeps_countP_members (group : Group) (input : InputSpec)
    (fits : NodeId × Json → Bool) :
    keeps input.intake ((group.members input).countP fits) =
      (group.members input).countP fits := by
  rw [keeps, Group.members]
  split
  · rfl
  · exact Nat.min_eq_left (Nat.le_trans List.countP_le_length (List.length_take_le 1 group.nodes))

section

variable {embed : Embed} {inline : Inline}
  (hplan : groups.map Group.plan = planned setting.schema document)
  (hembed : Places setting groups document embed inline depth)

/-- A group makes no more links into a slot of the root than the slot takes. -/
theorem loses_linkGroup (hp : Going setting groups p)
    (hfresh : Unlinked setting.schema p.graph id slot cls field) {group : Group}
    (hgroup : group ∈ groups) (hfits : (linkGroup id slot group p).Fits) :
    Loses 0 p (linkGroup id slot group p) := by
  rw [linkGroup_eq (hfresh.node.input_eq hfresh.field)] at hfits ⊢
  have hone : ∀ member ∈ group.members (setting.schema.inputOf cls field), ∀ q count lost,
      Tally id slot (setting.schema.inputOf cls field).intake p count lost q →
      Going setting groups q → IsOf setting.schema q.graph id cls →
      (q.link member.1 id slot "").Fits →
      Tally id slot (setting.schema.inputOf cls field).intake p
        (count + if TypeExpr.textFits group.className (setting.schema.inputOf cls field).linkType
          then 1 else 0)
        (lost + excess []) (q.link member.1 id slot "") := by
    intro member hmember q count lost hq hgoing hqNode hqFits
    obtain ⟨made, -, hname, hnodes⟩ := hgoing.underway.stocked group hgroup
    rw [← hname]
    exact hq.link hgoing.sound (hnodes _ (List.mem_map_of_mem (Group.nodes_of_members hmember)))
      hqNode hfresh.field hqFits
  have htally : Tally id slot (setting.schema.inputOf cls field).intake p
      (0 + (group.members (setting.schema.inputOf cls field)).countP fun _ =>
        TypeExpr.textFits group.className (setting.schema.inputOf cls field).linkType)
      (0 + excess ((group.members (setting.schema.inputOf cls field)).flatMap fun _ => []))
      ((group.members (setting.schema.inputOf cls field)).foldl
        (fun p member => p.link member.1 id slot "") p) :=
    (Tally.start hfresh.sources).foldl (fun member q => steps_link q member.1 id slot "") hone hp
      hfresh.node hfits
  have hnothing : (group.members (setting.schema.inputOf cls field)).flatMap
      (fun _ => ([] : List Nat)) = [] :=
    List.flatMap_eq_nil_iff.2 fun _ _ => rfl
  have hloses := htally.loses
  rw [hnothing, Nat.zero_add, Nat.zero_add, Group.keeps_countP_members, Nat.sub_self] at hloses
  exact hloses

include hplan hembed

/-- A slot of the root loses nothing to a group, and else what it was offered too much. -/
theorem loses_fillRootSlot (hp : Going setting groups p)
    (hfresh : Unlinked setting.schema p.graph id slot cls field)
    (hdeep : (Json.obj document).depth ≤ depth)
    (hfits : (fillRootSlot setting groups embed id slot field (document.lookup field.name)
      p).Fits) :
    Loses (excess (rootSlotOffers setting.schema document cls field ++
        (rootSlotMakings setting.schema inline document cls field).flatMap
          (Making.offers setting.schema document))) p
      (fillRootSlot setting groups embed id slot field (document.lookup field.name) p) := by
  unfold fillRootSlot at hfits ⊢
  rw [rootSlotOffers, rootSlotMakings, ← isSome_findGroup?_of_plan hplan]
  cases hfind : findGroup? groups field.name with
  | some group =>
      rw [hfind] at hfits
      rw [if_pos (Option.isSome_some), if_pos (Option.isSome_some)]
      exact loses_linkGroup hp hfresh (List.mem_of_find?_eq_some hfind) hfits
  | none =>
      rw [hfind] at hfits
      rw [if_neg (by simp), if_neg (by simp)]
      refine loses_fillValue hplan hembed hp hfresh (fun value hvalue => ?_) hfits
      have hlt := Json.depth_lt_of_lookup hvalue
      omega

/-- A fresh root loses what its slots and those inside its own fields lose. -/
theorem loses_fillRoot (hp : Going setting groups p) (hready : Ready setting p.graph id cls)
    (hdeep : (Json.obj document).depth ≤ depth)
    (hfits : (fillRoot setting groups embed id document 0 cls.fields p).Fits) :
    Loses (excess ((cls.fields.flatMap
        (rootSlotMakings setting.schema inline document cls)).flatMap
          (Making.offers setting.schema document) ++
        cls.fields.flatMap (rootSlotOffers setting.schema document cls))) p
      (fillRoot setting groups embed id document 0 cls.fields p) := by
  rw [excess_append, Nat.add_comm, List.flatMap_assoc, ← excess_flatMap_append]
  rw [fillRoot_eq] at hfits ⊢
  refine loses_fillEach
    (fun slot field q =>
      steps_fillRootSlot hembed.steps id slot field (document.lookup field.name) q)
    (fun slot field q hq hfresh hqFits => ?_) hp hready hfits
  have hmade := makes_fillRootSlot hplan hembed.steps hembed.makes hq.sound hq.stocked
    (hfresh.node.input_eq hfresh.field) hqFits
  exact ⟨⟨_, hmade⟩, loses_fillRootSlot hplan hembed hq hfresh hdeep hqFits⟩

/-- The third pass loses what the slots of the root and those inside its own fields lose. -/
theorem loses_thirdPass (hserves : setting.registry.Serves setting.schema)
    (hp : Going setting groups p) (hdeep : (Json.obj document).depth ≤ depth)
    {loose : List String}
    (hfits : (createRoot setting groups embed loose document p).2.Fits) :
    Loses (excess ((rootMakings setting.schema inline document).tail.flatMap
        (Making.offers setting.schema document) ++ rootOffers setting.schema document)) p
      (createRoot setting groups embed loose document p).2 := by
  rw [rootMakings, rootOffers, createRoot] at *
  cases hroot : setting.schema.rootClass? with
  | none =>
      exact loses_reports Issue.strayKey loose p
  | some cls =>
      obtain ⟨template, hfind, htemplate, hcreate⟩ :=
        createNode_eq hserves p (Schema.of_rootClass? hroot).1 setting.layout.rootX
          setting.layout.rowStartY
      rw [hroot] at hfits
      simp only [hcreate] at hfits ⊢
      have hfitsFilled := hfits.of_steps (steps_reports setting Issue.strayRootKey _ _)
      have hnodeFits := hfitsFilled.of_steps
        (steps_fillRoot hembed.steps _ document 0 cls.fields _)
      have hnode := hp.steps (.single (.create p cls.name template _ _ hfind)) hnodeFits
      obtain ⟨-, hready⟩ := grown_addNode hp.sound hfind htemplate hnodeFits (.obj document)
      have hfilled := loses_fillRoot hplan hembed hnode hready hdeep hfitsFilled
      exact hfilled.trans (loses_reports Issue.strayRootKey _ _)

end

/-! ## A whole import -/

section

variable {g : Graph} (haccepted : setting.schema.Accepted)
  (hserves : setting.registry.Serves setting.schema)

include haccepted hserves

/-- An import into the empty graph loses what its slots for one link are offered too much. -/
theorem loses_run (hfits : (run setting Graph.empty document).2.Fits) :
    Loses (excess (offers setting.schema document)) (Progress.start Graph.empty)
      (run setting Graph.empty document).2 := by
  have hplan := (plan_madeGroups haccepted hserves Graph.empty document).1
  have hembed := places_embedAt hplan hserves (Json.obj document).depth
  have hpopulate : Steps setting (firstPass setting document)
      (populateGroups setting (madeGroups setting Graph.empty document)
        (embedAt setting (madeGroups setting Graph.empty document) (Json.obj document).depth)
        (firstPass setting document)) :=
    steps_populateGroups hembed.steps _
  have hfitsSecond := hfits.of_steps (steps_createRoot hembed.steps _ document _)
  have hsecond := (going_firstPass haccepted hserves (hfitsSecond.of_steps hpopulate)).steps
    hpopulate hfitsSecond
  have hbefore := loses_secondPass haccepted hserves hembed hfitsSecond
  have hafter := loses_thirdPass hplan hembed hserves hsecond (Nat.le_refl _) hfits
  rw [offers, List.flatMap_append, List.append_assoc, excess_append]
  exact hbefore.trans hafter

/--
The links that a graph has after an import, together with those that were displaced, are those
that it had before and those that the summary of the import counts.  So the summary counts the
links that exist exactly when the document makes no two links into a slot for one.
-/
theorem length_links_run (hg : g.WellFormed)
    (hfits : (Edit.importConfig setting (.obj document)).Fits g) :
    (run setting g document).2.graph.links.length + excess (offers setting.schema document) =
      g.links.length + (run setting g document).1.links ∧
    ((run setting g document).2.graph.links.length =
        g.links.length + (run setting g document).1.links ↔
      ∀ n ∈ offers setting.schema document, n ≤ 1) := by
  have hreach := reaches_of_fits hfits
  obtain ⟨hrun, -⟩ := run_beside hg setting document hreach
  rw [hrun] at hreach ⊢
  have hempty : (run setting Graph.empty document).2.Fits := by
    obtain ⟨hnodes, hlinks⟩ := hreach.beside
    obtain ⟨hlastNode, hlastLink⟩ := hg.counters_nonneg
    exact ⟨by lia, by lia⟩
  have hloses : (run setting Graph.empty document).2.graph.links.length +
      excess (offers setting.schema document) + 0 =
      0 + ((run setting Graph.empty document).1.shift g.lastNode).links :=
    loses_run haccepted hserves hempty
  have hlinks : ((run setting Graph.empty document).2.beside g).graph.links.length =
      g.links.length + (run setting Graph.empty document).2.graph.links.length := by
    rw [Progress.beside, Graph.beside, List.length_append, List.length_map]
  rw [← excess_eq_zero_iff]
  dsimp only
  constructor <;> omega

end

/-- Two members, the first of which is to have two successors, the second of them a new one. -/
def crowdedDocument : List (String × Json) :=
  [("tools", .arr [.obj [("next", .arr [.int 1, .obj [("next", .int 0)]])], .obj []])]

/-- Of the two links that are made for the successor of the first member only one is there. -/
theorem length_links_run_crowded :
    household.Accepted ∧ householdSetting.registry.Serves household ∧ memberGraph.WellFormed ∧
    (Edit.importConfig householdSetting (.obj crowdedDocument)).Fits memberGraph ∧
    offers household crowdedDocument = [2, 1] ∧
    memberGraph.links.length = 1 ∧
    (run householdSetting memberGraph crowdedDocument).1.links = 5 ∧
    (run householdSetting memberGraph crowdedDocument).2.graph.links.length = 5 := by
  have hwf : memberGraph.WellFormed :=
    Graph.WellFormed.empty.run (by decide +kernel)
  have hfits : (Edit.importConfig householdSetting (.obj crowdedDocument)).Fits memberGraph := by
    decide +kernel
  have hoffers : offers household crowdedDocument = [2, 1] := by
    decide +kernel
  have hlinks : (run householdSetting memberGraph crowdedDocument).1.links = 5 := by
    decide +kernel
  have hbefore : memberGraph.links.length = 1 := by
    decide +kernel
  obtain ⟨htotal, -⟩ := length_links_run accepted_household serves_household hwf hfits
  refine ⟨accepted_household, serves_household, hwf, hfits, hoffers, hbefore, hlinks, ?_⟩
  have hexcess : excess (offers householdSetting.schema crowdedDocument) = 1 :=
    congrArg excess hoffers
  omega

end Import

end SlotGraph
