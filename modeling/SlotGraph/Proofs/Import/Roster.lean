import SlotGraph.Proofs.Import.Indices
import SlotGraph.Proofs.Import.Inline

/-!
# The roster of an import

The nodes that an import into the empty graph makes are, in this order: one for each
element under a group key, those for the inline objects inside these elements, the root,
and those for the inline objects inside the root's own fields.  In the end each is filled
from its element, the root from the document and the groups.
-/

namespace SlotGraph

namespace Import

/-! ## What a document asks for -/

def groupMakings (schema : Schema) (document : List (String × Json)) : List Making :=
  (planned schema document).flatMap fun entry =>
    entry.2.2.map fun element => ⟨entry.2.1, element⟩

def insideMakings (schema : Schema) (inline : Inline) (making : Making) : List Making :=
  match schema.findClass? making.className, making.element with
  | some cls, .obj source => objectMakings schema inline cls source
  | _, _ => []

def rootSlotMakings (schema : Schema) (inline : Inline) (document : List (String × Json))
    (cls : SchemaClass) (field : Field) : List Making :=
  if (planned schema document).any fun entry => entry.1 == field.name then []
  else slotMakings inline (schema.inputOf cls field) field (document.lookup field.name)

def rootMakings (schema : Schema) (inline : Inline) (document : List (String × Json)) :
    List Making :=
  match schema.rootClass? with
  | some cls =>
      ⟨cls.name, .obj document⟩ :: cls.fields.flatMap (rootSlotMakings schema inline document cls)
  | none => []

def inlineOf (schema : Schema) (document : List (String × Json)) : Inline :=
  inlineMakings schema (Json.obj document).depth

/-- What the inline objects inside the elements under group keys become. -/
def embeddedMakings (schema : Schema) (document : List (String × Json)) : List Making :=
  (groupMakings schema document).flatMap (insideMakings schema (inlineOf schema document))

/-- The nodes that a document asks for, in the order in which they are made. -/
def makings (schema : Schema) (document : List (String × Json)) : List Making :=
  groupMakings schema document ++ embeddedMakings schema document ++
    rootMakings schema (inlineOf schema document) document

variable {setting : Setting} {groups : List Group} {embed : Embed} {inline : Inline}
  {p p' : Progress} {document : List (String × Json)}

/-! ## The nodes of the groups -/

def Group.makings (group : Group) : List (NodeId × Making) :=
  group.nodes.map fun node => (node.1, ⟨group.className, node.2⟩)

theorem groupMakings_eq {schema : Schema}
    (hplan : groups.map Group.plan = planned schema document) :
    (groups.flatMap Group.makings).map Prod.snd = groupMakings schema document := by
  rw [groupMakings, ← hplan, List.flatMap_map, List.map_flatMap]
  refine List.flatMap_congr fun group _ => ?_
  simp [Group.makings, Group.plan, Function.comp_def]

theorem Ready.knows {g : Graph} {id : NodeId} {cls : SchemaClass} (h : Ready setting g id cls) :
    g.Knows id := by
  obtain ⟨template, hshape, -⟩ := h.shape
  exact Graph.knows_of_shape? hshape

theorem Ready.of_makes {id : NodeId} {cls : SchemaClass} {spot : NodeId → Nat → Prop}
    {made : List Making} (h : Ready setting p.graph id cls)
    (hmakes : Makes setting groups spot p p' made) (houtside : ∀ slot, ¬ spot id slot) :
    Ready setting p'.graph id cls := by
  have hknown := h.knows
  refine ⟨?_, fun position input hinput => ?_⟩
  · rw [hmakes.shape?_eq hknown]
    exact h.shape
  · rw [hmakes.shape?_eq hknown] at hinput
    rw [hmakes.kept hknown (houtside position)]
    exact h.fresh position input hinput

/-- A node of a group that is to be filled, and where its element stands. -/
structure Task where
  key : String
  position : Nat
  entry : NodeId × Making

def Task.fill (setting : Setting) (groups : List Group) (embed : Embed) (task : Task)
    (p : Progress) : Progress :=
  match task.entry.2.element with
  | .obj source => populate setting groups embed task.entry.1 source p
  | _ => p.report (.elementNotObject task.key task.position)

def Task.fillAll (setting : Setting) (groups : List Group) (embed : Embed) (tasks : List Task)
    (p : Progress) : Progress :=
  tasks.foldl (fun p task => task.fill setting groups embed p) p

def Group.tasks (group : Group) : List Task :=
  group.nodes.zipIdx.map fun node => ⟨group.key, node.2, node.1.1, group.className, node.1.2⟩

theorem Group.entries_tasks (group : Group) : group.tasks.map Task.entry = group.makings := by
  have hnodes : group.nodes.zipIdx.map Prod.fst = group.nodes := List.zipIdx_map_fst 0 group.nodes
  rw [Group.tasks, Group.makings, List.map_map]
  conv_rhs => rw [← hnodes, List.map_map]
  rfl

theorem entries_tasks (groups : List Group) :
    (groups.flatMap Group.tasks).map Task.entry = groups.flatMap Group.makings := by
  rw [List.map_flatMap]
  exact List.flatMap_congr fun group _ => group.entries_tasks

theorem Task.fillAll_nodes (key className : String) (nodes : List (NodeId × Json))
    (position : Nat) (p : Progress) :
    Task.fillAll setting groups embed
      ((nodes.zipIdx position).map fun node => ⟨key, node.2, node.1.1, className, node.1.2⟩) p =
      populateNodes setting groups embed key position nodes p := by
  induction nodes generalizing position p with
  | nil =>
      rfl
  | cons node rest ih =>
      obtain ⟨id, element⟩ := node
      cases element with
      | obj source =>
          exact ih (position + 1) (populate setting groups embed id source p)
      | _ =>
          exact ih (position + 1) (p.report (.elementNotObject key position))

theorem Task.fillAll_groups (made : List Group) (p : Progress) :
    Task.fillAll setting groups embed (made.flatMap Group.tasks) p =
      made.foldl
        (fun p group => populateNodes setting groups embed group.key 0 group.nodes p) p := by
  rw [Task.fillAll, List.foldl_flatMap]
  congr 1
  funext p group
  exact Task.fillAll_nodes group.key group.className group.nodes 0 p

section

variable (hembed : embed.TakesSteps setting)

include hembed

theorem Task.steps_fill (task : Task) (p : Progress) :
    Steps setting p (task.fill setting groups embed p) := by
  unfold Task.fill
  split
  · exact steps_populate hembed _ _ p
  · exact steps_report p _

variable (hmakes : Embeds setting groups embed inline)

include hmakes

theorem makes_task (hp : Sound p) (hstocked : Stocked groups p.graph) {task : Task}
    {cls : SchemaClass}
    (hcls : setting.schema.findClass? task.entry.2.className = some cls)
    (hready : Ready setting p.graph task.entry.1 cls)
    (hfits : (task.fill setting groups embed p).Fits) :
    Makes setting groups (spotsFrom task.entry.1 0) p (task.fill setting groups embed p)
      (insideMakings setting.schema inline task.entry.2) ∧
    Settled setting groups (task.fill setting groups embed p).graph task.entry := by
  obtain ⟨key, position, id, className, element⟩ := task
  obtain rfl : cls.name = className := by
    simpa using List.find?_some hcls
  cases element with
  | obj source =>
      obtain ⟨hmade, hfilled⟩ := makes_populate hembed hmakes hp hstocked hready hcls hfits
      refine ⟨?_, cls, hcls, fun other hother => ?_⟩
      · simp only [insideMakings, hcls]
        exact hmade
      · obtain rfl := Json.obj.inj hother
        exact hfilled
  | _ =>
      refine ⟨?_, cls, hcls, fun other hother => Json.noConfusion hother⟩
      simp only [insideMakings, hcls]
      exact .of_shapes rfl fun _ _ _ => rfl

/--
Fresh nodes are filled one after the other, each its own: by induction on them, those that
were filled stay so, and those that follow stay fresh.
-/
theorem makes_tasks {tasks : List Task} (hp : Sound p) (hstocked : Stocked groups p.graph)
    (hdistinct : (tasks.map fun task => task.entry.1).Nodup)
    (hready : ∀ task ∈ tasks, ∃ cls,
      setting.schema.findClass? task.entry.2.className = some cls ∧
        Ready setting p.graph task.entry.1 cls)
    (hfits : (Task.fillAll setting groups embed tasks p).Fits) :
    Makes setting groups (fun id _ => id ∈ tasks.map fun task => task.entry.1) p
      (Task.fillAll setting groups embed tasks p)
      (tasks.flatMap fun task => insideMakings setting.schema inline task.entry.2) ∧
    ∀ task ∈ tasks,
      Settled setting groups (Task.fillAll setting groups embed tasks p).graph task.entry := by
  induction tasks generalizing p with
  | nil =>
      exact ⟨.refl p, fun task htask => absurd htask List.not_mem_nil⟩
  | cons task rest ih =>
      rw [Task.fillAll, List.foldl_cons, ← Task.fillAll] at hfits ⊢
      obtain ⟨hnew, hdistinctRest⟩ := List.nodup_cons.1 hdistinct
      have hfitsFirst := hfits.of_steps
        (steps_foldl (fun other _ q => Task.steps_fill hembed other q) _)
      have hsound := hp.steps (task.steps_fill hembed p) hfitsFirst
      obtain ⟨cls, hcls, hreadyHere⟩ := hready task List.mem_cons_self
      obtain ⟨hmade, hsettled⟩ := makes_task hembed hmakes hp hstocked hcls hreadyHere hfitsFirst
      -- Nodes have numbers of their own, so filling one leaves those that follow fresh.
      have hreadyRest : ∀ other ∈ rest, ∃ cls,
          setting.schema.findClass? other.entry.2.className = some cls ∧
            Ready setting (task.fill setting groups embed p).graph other.entry.1 cls := by
        intro other hother
        obtain ⟨otherClass, hotherClass, hotherReady⟩ :=
          hready other (List.mem_cons_of_mem _ hother)
        refine ⟨otherClass, hotherClass, hotherReady.of_makes hmade fun slot hspot => hnew ?_⟩
        exact List.mem_map.2 ⟨other, hother, hspot.1⟩
      obtain ⟨hrest, hsettledRest⟩ :=
        ih hsound (hmade.stocked hstocked) hdistinctRest hreadyRest hfits
      refine ⟨?_, fun other hother => ?_⟩
      · refine (hmade.widen fun id _ slot hspot => ?_).trans hrest hsound hstocked ?_ ?_
        · exact hspot.1 ▸ List.mem_cons_self
        · intro id slot hspot
          obtain ⟨other, hother, rfl⟩ := List.mem_map.1 hspot
          obtain ⟨_, -, hotherReady⟩ := hready other (List.mem_cons_of_mem _ hother)
          exact hotherReady.knows
        · exact fun id slot hspot => List.mem_cons_of_mem _ hspot
      · rcases List.mem_cons.1 hother with rfl | hlater
        · obtain ⟨made, -, hgrown, -⟩ := hrest
          exact hsettled.of_grown hgrown (hmade.stocked hstocked) (hmade.knows hreadyHere.knows)
            fun _ => hnew
        · exact hsettledRest other hlater

end

/-! ## The first two passes -/

def firstPass (setting : Setting) (document : List (String × Json)) : Progress :=
  (createGroups setting setting.layout.columnStartX document (Progress.start Graph.empty)).2.2

section

variable (haccepted : setting.schema.Accepted)
  (hserves : setting.registry.Serves setting.schema)

include haccepted hserves

theorem grown_firstPass (document : List (String × Json)) :
    Grown setting nowhere (Progress.start Graph.empty) (firstPass setting document)
      ((madeGroups setting Graph.empty document).flatMap Group.makings) where
  shapes := by
    obtain ⟨hplan, hshapes⟩ := plan_madeGroups haccepted hserves Graph.empty document
    refine ⟨_, hshapes, ?_⟩
    rw [List.map_flatMap, List.map_flatMap]
    refine List.flatMap_congr fun group hgroup => ?_
    obtain ⟨-, template, -, -, -, hfind, -⟩ := class_of_plan haccepted hserves hplan hgroup
    simp [Group.shapes, Group.makings, blueprint, hfind, Function.comp_def]
  kept id hid := absurd hid List.not_mem_nil

theorem stocked_firstPass (document : List (String × Json)) :
    Stocked (madeGroups setting Graph.empty document) (firstPass setting document).graph := by
  intro group hgroup id hid
  obtain ⟨node, hnode, rfl⟩ := List.mem_map.1 hid
  have hentry : (node.1, (⟨group.className, node.2⟩ : Making)) ∈
      (madeGroups setting Graph.empty document).flatMap Group.makings :=
    List.mem_flatMap.2 ⟨group, hgroup, List.mem_map_of_mem hnode⟩
  exact (grown_firstPass haccepted hserves document).knows_made hentry

omit haccepted hserves in
theorem Stocked.of_steps (h : Stocked groups p.graph) (hsteps : Steps setting p p') :
    Stocked groups p'.graph := by
  obtain ⟨added, hshapes, -⟩ := hsteps.shapes_append
  exact fun group hgroup id hid => (h group hgroup id hid).of_append hshapes

theorem ready_firstPass (hfits : (firstPass setting document).Fits) {task : Task}
    (htask : task ∈ (madeGroups setting Graph.empty document).flatMap Group.tasks) :
    ∃ cls, setting.schema.findClass? task.entry.2.className = some cls ∧
      Ready setting (firstPass setting document).graph task.entry.1 cls := by
  obtain ⟨hplan, hshapes⟩ := plan_madeGroups haccepted hserves Graph.empty document
  have hpristine : (firstPass setting document).graph.Pristine :=
    (createGroups_spec setting.layout.columnStartX document (Progress.start Graph.empty)
      fun entry => served_of_planned haccepted hserves).2.2.2 Graph.Pristine.empty
  have hsound : Sound (firstPass setting document) :=
    Sound.start.steps (steps_createGroups _ document _) hfits
  obtain ⟨group, hgroup, hmember⟩ := List.mem_flatMap.1 htask
  obtain ⟨node, hnode, rfl⟩ := List.mem_map.1 hmember
  obtain ⟨cls, template, hcls, hname, -, hfind, htemplate⟩ :=
    class_of_plan haccepted hserves hplan hgroup
  refine ⟨cls, haccepted.findClass?_eq_some_iff.2 ⟨hcls, hname⟩,
    ⟨template, ?_, htemplate⟩, fun position input => hpristine.content_eq⟩
  rw [hsound.wellFormed.shape?_eq_some_iff]
  refine hshapes ▸ List.mem_append_right _ (List.mem_flatMap.2 ⟨group, hgroup, ?_⟩)
  exact mem_shapes hfind (List.fst_mem_of_mem_zipIdx hnode)

theorem nodup_tasks_firstPass (hfits : (firstPass setting document).Fits) :
    (((madeGroups setting Graph.empty document).flatMap Group.tasks).map
      fun task => task.entry.1).Nodup := by
  have hsound : Sound (firstPass setting document) :=
    Sound.start.steps (steps_createGroups _ document _) hfits
  have hids := hsound.wellFormed.nodes_distinct
  rw [← Graph.map_fst_shapes, (grown_firstPass haccepted hserves document).ids, ← entries_tasks,
    List.map_map] at hids
  exact hids

/-- The second pass fills the nodes of the groups, and makes those inside their elements. -/
theorem makes_secondPass (hembed : embed.TakesSteps setting)
    (hmakes : Embeds setting (madeGroups setting Graph.empty document) embed inline)
    (hfits : (populateGroups setting (madeGroups setting Graph.empty document) embed
      (firstPass setting document)).Fits) :
    Makes setting (madeGroups setting Graph.empty document) nowhere
      (Progress.start Graph.empty)
      (populateGroups setting (madeGroups setting Graph.empty document) embed
        (firstPass setting document))
      (groupMakings setting.schema document ++
        (groupMakings setting.schema document).flatMap (insideMakings setting.schema inline)) := by
  have hplan := (plan_madeGroups haccepted hserves Graph.empty document).1
  have hgrown := grown_firstPass haccepted hserves document
  have hentries := entries_tasks (madeGroups setting Graph.empty document)
  have hfitsFirst := hfits.of_steps (steps_populateGroups hembed _)
  have hsound : Sound (firstPass setting document) :=
    Sound.start.steps (steps_createGroups _ document _) hfitsFirst
  rw [populateGroups, ← Task.fillAll_groups] at hfits ⊢
  obtain ⟨hmade, hsettled⟩ := makes_tasks hembed hmakes hsound
    (stocked_firstPass haccepted hserves document)
    (nodup_tasks_firstPass haccepted hserves hfitsFirst)
    (fun task htask => ready_firstPass haccepted hserves hfitsFirst htask) hfits
  have hinside : ((madeGroups setting Graph.empty document).flatMap Group.tasks).flatMap
      (fun task => insideMakings setting.schema inline task.entry.2) =
      (groupMakings setting.schema document).flatMap (insideMakings setting.schema inline) := by
    rw [← groupMakings_eq hplan, ← hentries, List.map_map, List.flatMap_map]
    rfl
  have hall := hmade.prepend hgrown
    (fun entry hentry => by
      rw [← hentries] at hentry
      obtain ⟨task, htask, rfl⟩ := List.mem_map.1 hentry
      exact hsettled task htask)
    fun id hid => absurd hid List.not_mem_nil
  rwa [groupMakings_eq hplan, hinside] at hall

end

/-! ## The root -/

theorem isSome_findGroup?_of_plan {schema : Schema}
    (hplan : groups.map Group.plan = planned schema document) (key : String) :
    (findGroup? groups key).isSome =
      (planned schema document).any fun entry => entry.1 == key := by
  rw [← hplan, List.any_map, findGroup?, List.isSome_find?]
  rfl

theorem makes_linkGroup (hp : Sound p) (hstocked : Stocked groups p.graph) {root : NodeId}
    (hid : p.graph.Knows root) {slot : Nat} {group : Group}
    (hfits : (linkGroup root slot group p).Fits) :
    Makes setting groups (spotAt root slot) p (linkGroup root slot group p) [] := by
  rw [linkGroup] at hfits ⊢
  have hsteps : ∀ (member : NodeId × Json) q, Steps setting q (q.link member.1 root slot "") :=
    fun member q => steps_link q member.1 root slot ""
  have hone : ∀ (member : NodeId × Json) q, Sound q → Stocked groups q.graph →
      q.graph.Knows root → (q.link member.1 root slot "").Fits →
      Makes setting groups (spotAt root slot) q (q.link member.1 root slot "") [] :=
    fun member q hq _ _ hqFits => makes_link hq hqFits
  have hmakes := makes_foldl hsteps hone hp hstocked hid hfits
  rwa [List.flatMap_eq_nil_iff.2 fun _ _ => rfl] at hmakes

/--
Whether a slot of the root holds what the groups or the document give for its field,
provided that no inline objects stand there.
-/
def RootSlotFilled (setting : Setting) (groups : List Group) (g : Graph) (root : NodeId)
    (slot : Nat) (input : InputSpec) (field : Field) (value : Option Json) : Prop :=
  (findGroup? groups field.name = none → ∀ v, value = some v → Flat input field v) →
    g.content root slot = rootContent setting groups g root slot input field value

/-- What the groups and the document give for a slot stays the same while nodes join. -/
theorem Grown.rootContent_eq {spot : NodeId → Nat → Prop} {made : List (NodeId × Making)}
    (h : Grown setting spot p p' made) (hstocked : Stocked groups p.graph) {root : NodeId}
    (hid : p.graph.Knows root) (slot : Nat) (input : InputSpec) (field : Field)
    (value : Option Json) :
    rootContent setting groups p'.graph root slot input field value =
      rootContent setting groups p.graph root slot input field value := by
  unfold rootContent
  cases hfind : findGroup? groups field.name with
  | none =>
      exact h.filledContent_eq hstocked hid slot input field value
  | some group =>
      obtain ⟨added, hshapes, -⟩ := h.shapes
      refine congrArg (SlotContent.mk · _) (List.filterMap_congr fun member hmember => ?_)
      have hmember : member.1 ∈ group.nodes.map Prod.fst :=
        List.mem_map_of_mem (Group.nodes_of_members hmember)
      have hknown := hstocked group (List.mem_of_find?_eq_some hfind) _ hmember
      rw [hknown.admits_append hshapes hid]

section

variable (hplan : groups.map Group.plan = planned setting.schema document)
  (hembed : embed.TakesSteps setting) (hmakes : Embeds setting groups embed inline)

include hplan hembed hmakes

theorem makes_fillRootSlot (hp : Sound p) (hstocked : Stocked groups p.graph) {root : NodeId}
    {cls : SchemaClass} {slot : Nat} {field : Field}
    (hinput : (p.graph.shape? root).bind (·.inputs[slot]?) =
      some (setting.schema.inputOf cls field))
    (hfits : (fillRootSlot setting groups embed root slot field (document.lookup field.name)
      p).Fits) :
    Makes setting groups (spotAt root slot) p
      (fillRootSlot setting groups embed root slot field (document.lookup field.name) p)
      (rootSlotMakings setting.schema inline document cls field) := by
  unfold fillRootSlot at hfits ⊢
  rw [rootSlotMakings, ← isSome_findGroup?_of_plan hplan]
  cases hfind : findGroup? groups field.name with
  | some group =>
      rw [hfind] at hfits
      rw [if_pos (Option.isSome_some)]
      obtain ⟨template, hshape, -⟩ := Option.bind_eq_some_iff.1 hinput
      exact makes_linkGroup hp hstocked (Graph.knows_of_shape? hshape) hfits
  | none =>
      rw [hfind] at hfits
      rw [if_neg (by simp)]
      exact makes_fillValue hembed hmakes hp hstocked hinput hfits

omit hplan hembed hmakes in
theorem rootSlotFilled_fillRootSlot (hp : Sound p) {root : NodeId} {slot : Nat} {field : Field}
    {input : InputSpec} (hinput : (p.graph.shape? root).bind (·.inputs[slot]?) = some input)
    (hfresh : p.graph.content root slot = input.intake.freshContent) {value : Option Json}
    (hfits : (fillRootSlot setting groups embed root slot field value p).Fits) :
    RootSlotFilled setting groups
      (fillRootSlot setting groups embed root slot field value p).graph root slot input field
      value := by
  intro hflat
  have hfills := fills_fillRootSlot hp hinput hfresh hflat hfits
  rw [hfills.here, rootContent_congr hfills.shapes]

/-- A fresh root is filled, and the inline objects in its own fields are made. -/
theorem makes_fillRoot (hp : Sound p) (hstocked : Stocked groups p.graph) {root : NodeId}
    {cls : SchemaClass} (hready : Ready setting p.graph root cls)
    (hfits : (fillRoot setting groups embed root document 0 cls.fields p).Fits) :
    Makes setting groups (spotsFrom root 0) p
      (fillRoot setting groups embed root document 0 cls.fields p)
      (cls.fields.flatMap (rootSlotMakings setting.schema inline document cls)) ∧
    ∀ position field, cls.fields[position]? = some field →
      RootSlotFilled setting groups
        (fillRoot setting groups embed root document 0 cls.fields p).graph root position
        (setting.schema.inputOf cls field) field (document.lookup field.name) := by
  rw [fillRoot_eq] at hfits ⊢
  obtain ⟨hmade, hfilled⟩ := makes_fillEach
    (rootSlotMakings setting.schema inline document cls)
    (fun g position field =>
      RootSlotFilled setting groups g root position (setting.schema.inputOf cls field) field
        (document.lookup field.name))
    (p.graph.content root)
    (fun slot field q => steps_fillRootSlot hembed root slot field (document.lookup field.name) q)
    (fun position field hgrown hqStocked hqId houtside hsettled hflat => by
      rw [hgrown.kept root hqId position houtside, hgrown.rootContent_eq hqStocked hqId]
      exact hsettled hflat)
    (fun i field q hfield hq hqStocked hqShape hqFresh hqFits => by
      rw [Nat.zero_add] at hqFresh hqFits ⊢
      have hinput := hready.input hfield
      rw [← hqShape] at hinput
      have hfresh := hready.fresh i _ (hready.input hfield)
      exact ⟨makes_fillRootSlot hplan hembed hmakes hq hqStocked hinput hqFits,
        rootSlotFilled_fillRootSlot hq hinput (hqFresh.trans hfresh) hqFits⟩)
    hp hstocked hready.knows rfl (fun _ _ => rfl) hfits
  refine ⟨hmade, fun position field hfield => ?_⟩
  have hhere := hfilled position field hfield
  rwa [Nat.zero_add] at hhere

end

/-- Where the schema has no root class, the third pass does no more than report. -/
theorem createRoot_of_none (groups : List Group) (hroot : setting.schema.rootClass? = none)
    (embed : Embed) (loose : List String) (document : List (String × Json)) (p : Progress) :
    (createRoot setting groups embed loose document p).1 = none ∧
      (createRoot setting groups embed loose document p).2.graph = p.graph := by
  rw [createRoot, hroot]
  exact ⟨rfl, foldl_report_graph _ loose p⟩

/-- What the third pass makes: the root, filled, and the nodes for what is inside it. -/
theorem makes_thirdPass (hserves : setting.registry.Serves setting.schema)
    (hplan : groups.map Group.plan = planned setting.schema document)
    (hembed : embed.TakesSteps setting) (hmakes : Embeds setting groups embed inline)
    (hp : Sound p) (hstocked : Stocked groups p.graph) {loose : List String}
    (hfits : (createRoot setting groups embed loose document p).2.Fits) :
    ∃ after, after.map Prod.snd = rootMakings setting.schema inline document ∧
      Grown setting nowhere p (createRoot setting groups embed loose document p).2 after ∧
      (createRoot setting groups embed loose document p).1 = after.head?.map Prod.fst ∧
      (∀ entry ∈ after.tail, Settled setting groups
        (createRoot setting groups embed loose document p).2.graph entry) ∧
      ∀ cls, setting.schema.rootClass? = some cls →
        ∀ root, (createRoot setting groups embed loose document p).1 = some root →
          ∀ position field, cls.fields[position]? = some field →
            RootSlotFilled setting groups
              (createRoot setting groups embed loose document p).2.graph root position
              (setting.schema.inputOf cls field) field (document.lookup field.name) := by
  rw [rootMakings]
  cases hroot : setting.schema.rootClass? with
  | none =>
      obtain ⟨hnone, hgraph⟩ := createRoot_of_none groups hroot embed loose document p
      refine ⟨[], rfl, .of_shapes (by rw [hgraph]) (fun _ _ _ => by rw [hgraph]), hnone, ?_, ?_⟩
      · exact fun entry hentry => absurd hentry List.not_mem_nil
      · exact fun cls hcls => nomatch hcls
  | some cls =>
      obtain ⟨template, hfind, htemplate, hcreate⟩ :=
        createNode_eq hserves p (Schema.of_rootClass? hroot).1 setting.layout.rootX
          setting.layout.rowStartY
      rw [createRoot, hroot] at hfits ⊢
      simp only [hcreate] at hfits ⊢
      have hfitsFilled := hfits.of_steps (steps_reports setting Issue.strayRootKey _ _)
      have hnodeFits := hfitsFilled.of_steps (steps_fillRoot hembed _ document 0 cls.fields _)
      have hnode := hp.step (Step.create p cls.name template _ _ hfind) hnodeFits
      obtain ⟨hgrown, hready⟩ := grown_addNode hp hfind htemplate hnodeFits (.obj document)
      obtain ⟨⟨made, hmakings, hinside, hsettled⟩, hfilled⟩ :=
        makes_fillRoot hplan hembed hmakes hnode (hgrown.stocked hstocked) hready hfitsFilled
      -- What is inside the root fills its slots, and no slot of a node that was there before it.
      have hnew := hgrown.not_knows hnode (List.mem_singleton_self _)
      have hall := hgrown.trans hinside fun other hother slot hspot => hnew (hspot.1 ▸ hother)
      simp only [foldl_report_graph]
      refine ⟨((p.graph.addNode template setting.layout.rootX setting.layout.rowStartY).1,
        ⟨cls.name, .obj document⟩) :: made, congrArg (List.cons _) hmakings, ⟨?_, ?_⟩, rfl,
        hsettled, ?_⟩
      · rw [foldl_report_graph]
        exact hall.shapes
      · rw [foldl_report_graph]
        exact hall.kept
      · intro other hother root hid position field hfield
        obtain rfl := Option.some.inj hother
        obtain rfl := Option.some.inj hid
        exact hfilled position field hfield

/-! ## The whole import -/

/-- What an import into the empty graph has made: before the root, and from the root on. -/
structure Roster (setting : Setting) (document : List (String × Json)) (groups : List Group)
    (root : Option NodeId) (g : Graph) (before after : List (NodeId × Making)) : Prop where
  plan : groups.map Group.plan = planned setting.schema document
  wellFormed : g.WellFormed
  inOrder : g.InOrder
  before_eq : before.map Prod.snd =
    groupMakings setting.schema document ++ embeddedMakings setting.schema document
  after_eq : after.map Prod.snd =
    rootMakings setting.schema (inlineOf setting.schema document) document
  shapes : g.shapes.map (fun shape => (shape.1, some shape.2)) =
    (before ++ after).map (blueprint setting)
  root_eq : root = after.head?.map Prod.fst
  settled : ∀ entry ∈ before ++ after.tail, Settled setting groups g entry
  rootFilled : ∀ cls, setting.schema.rootClass? = some cls → ∀ id, root = some id →
    ∀ position field, cls.fields[position]? = some field →
      RootSlotFilled setting groups g id position (setting.schema.inputOf cls field) field
        (document.lookup field.name)

/-- An import makes the nodes that its document asks for, in order, and fills each. -/
theorem roster_run (haccepted : setting.schema.Accepted)
    (hserves : setting.registry.Serves setting.schema)
    (hfits : (run setting Graph.empty document).2.Fits) :
    ∃ before after, Roster setting document (madeGroups setting Graph.empty document)
      (run setting Graph.empty document).1.root (run setting Graph.empty document).2.graph
      before after := by
  have hsteps := steps_run setting Graph.empty document
  have hsound : Sound (run setting Graph.empty document).2 := Sound.start.steps hsteps hfits
  have hplan := (plan_madeGroups haccepted hserves Graph.empty document).1
  have hembed : (embedAt setting (madeGroups setting Graph.empty document)
      (Json.obj document).depth).TakesSteps setting :=
    takesSteps_embedAt _
  have hmakes : Embeds setting (madeGroups setting Graph.empty document)
      (embedAt setting (madeGroups setting Graph.empty document) (Json.obj document).depth)
      (inlineOf setting.schema document) :=
    embeds_embedAt hserves (Json.obj document).depth
  have hpopulate : Steps setting (firstPass setting document)
      (populateGroups setting (madeGroups setting Graph.empty document)
        (embedAt setting (madeGroups setting Graph.empty document) (Json.obj document).depth)
        (firstPass setting document)) :=
    steps_populateGroups hembed _
  have hfitsSecond := hfits.of_steps (steps_createRoot hembed _ document _)
  have hsecond := Sound.start.steps ((steps_createGroups _ document _).trans hpopulate) hfitsSecond
  obtain ⟨before, hbefore, hgrown, hsettled⟩ :=
    makes_secondPass haccepted hserves hembed hmakes hfitsSecond
  have hstocked := (stocked_firstPass haccepted hserves document).of_steps hpopulate
  obtain ⟨after, hafter, hgrownRoot, hroot, hsettledAfter, hfilled⟩ :=
    makes_thirdPass hserves hplan hembed hmakes hsecond hstocked hfits
  have hall := hgrown.trans hgrownRoot fun _ _ _ => False.elim
  obtain ⟨added, hshapes, hadded⟩ := hall.shapes
  refine ⟨before, after,
    { plan := hplan
      wellFormed := hsound.wellFormed
      inOrder := hsound.inOrder
      before_eq := hbefore
      after_eq := hafter
      shapes := (congrArg _ hshapes).trans hadded
      root_eq := hroot
      settled := fun entry hentry => ?_
      rootFilled := hfilled }⟩
  rcases List.mem_append.1 hentry with hfirst | hlater
  · exact (hsettled entry hfirst).of_grown hgrownRoot hstocked (hgrown.knows_made hfirst)
      fun _ => False.elim
  · exact hsettledAfter entry hlater

end Import

end SlotGraph
