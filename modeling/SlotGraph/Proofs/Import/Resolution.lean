import SlotGraph.Proofs.Import.Flat

/-!
# Resolving indices

The first pass makes at most one group for a class, under the key of that class, whatever
the schema.  So an index is resolved by the group under the key of its class alone: where
that has no node at the position, no group of the class has one either.
-/

namespace SlotGraph

namespace Import

variable {schema : Schema} {setting : Setting} {document : List (String × Json)}
  {groups : List Group}

/-! ## The two searches -/

def nodeUnder? (schema : Schema) (groups : List Group) (className : String) (position : Nat) :
    Option NodeId :=
  (findGroup? groups (schema.keyOfClass className)).bind (·.node? position)

def nodeOfClass? (groups : List Group) (className : String) (position : Nat) : Option NodeId :=
  groups.findSome? fun group =>
    if group.className == className then group.node? position else none

theorem resolve?_eq_or (schema : Schema) (groups : List Group) (field : Field) (index : Int) :
    resolve? schema groups field index =
      (schema.modelOf? field).bind fun className =>
        if index < 0 then none
        else (nodeUnder? schema groups className index.toNat).or
          (nodeOfClass? groups className index.toNat) := by
  rw [resolve?]
  cases schema.modelOf? field with
  | none =>
      rfl
  | some className =>
      dsimp only
      rw [Option.orElse_eq_orElse, Option.orElse_eq_or]
      rfl

/-! ## Groups under the keys of their classes -/

/-- Whether some groups stand under keys of their own, each under that of its class. -/
structure Keyed (schema : Schema) (groups : List Group) : Prop where
  own : ∀ group ∈ groups, group.key = schema.keyOfClass group.className
  distinct : (groups.map Group.key).Nodup

namespace Keyed

variable (h : Keyed schema groups)

include h

theorem findGroup?_eq_some_iff {key : String} {group : Group} :
    findGroup? groups key = some group ↔ group ∈ groups ∧ group.key = key := by
  refine ⟨fun hfind => ⟨List.mem_of_find?_eq_some hfind, by simpa using List.find?_some hfind⟩,
    ?_⟩
  rintro ⟨hmem, rfl⟩
  exact find?_of_nodup_map h.distinct hmem

theorem classNames_nodup : (groups.map Group.className).Nodup := by
  have hkeys : groups.map Group.key = (groups.map Group.className).map schema.keyOfClass := by
    rw [List.map_map]
    exact List.map_congr_left h.own
  exact List.Nodup.of_map _ (hkeys ▸ h.distinct)

/-- The second search comes upon no group but that of the first. -/
theorem nodeOfClass?_eq_none {className : String} {position : Nat}
    (hnone : nodeUnder? schema groups className position = none) :
    nodeOfClass? groups className position = none := by
  rw [nodeOfClass?, List.findSome?_eq_none_iff]
  intro group hgroup
  split
  · next hname =>
      -- A group of the class stands under its key, so the first search has looked at it.
      rw [beq_iff_eq] at hname
      have hfind := h.findGroup?_eq_some_iff.2 ⟨hgroup, hname ▸ h.own group hgroup⟩
      rwa [nodeUnder?, hfind, Option.bind_some] at hnone
  · rfl

theorem resolve?_eq (field : Field) (index : Int) :
    resolve? schema groups field index =
      (schema.modelOf? field).bind fun className =>
        if index < 0 then none else nodeUnder? schema groups className index.toNat := by
  rw [resolve?_eq_or]
  refine congrArg _ (funext fun className => ?_)
  cases hnode : nodeUnder? schema groups className index.toNat with
  | some node =>
      rfl
  | none =>
      rw [Option.none_or, h.nodeOfClass?_eq_none hnode]

end Keyed

/-! ## The groups of a document -/

/-- The keys of the groups that a document asks for are among its own. -/
theorem nodup_planned (hkeys : (document.map Prod.fst).Nodup) :
    ((planned schema document).map Prod.fst).Nodup := by
  refine hkeys.sublist ?_
  clear hkeys
  induction document with
  | nil =>
      exact List.Sublist.slnil
  | cons member rest ih =>
      rw [planned, List.filterMap_cons]
      cases groupElements? schema member.1 member.2 with
      | none =>
          exact ih.cons _
      | some found =>
          exact ih.cons_cons _

section

variable (hkeys : (document.map Prod.fst).Nodup)
  (hheads : groups.map (fun group => (group.key, group.className)) =
    (planned schema document).map fun entry => (entry.1, entry.2.1))

include hheads

theorem own_of_planned {group : Group} (hgroup : group ∈ groups) :
    group.key = schema.keyOfClass group.className := by
  have hhead : (group.key, group.className) ∈
      (planned schema document).map fun entry => (entry.1, entry.2.1) :=
    hheads ▸ List.mem_map_of_mem hgroup
  obtain ⟨entry, hentry, hpair⟩ := List.mem_map.1 hhead
  obtain ⟨hkey, hname⟩ := Prod.mk.inj hpair
  obtain ⟨value, -, hplanned⟩ := mem_planned.1 hentry
  rw [← hkey, ← hname]
  exact (of_groupElements? hplanned).2.2.1

include hkeys

/-- Groups with the keys and the classes that a document asks for. -/
theorem keyed_of_planned : Keyed schema groups where
  own _ hgroup := own_of_planned hheads hgroup
  distinct := by
    have hnames := congrArg (List.map Prod.fst) hheads
    simp only [List.map_map, Function.comp_def] at hnames
    rw [hnames]
    exact nodup_planned hkeys

end

/-- The elements for which nodes are made: all of them, or none without a template. -/
def stocked (setting : Setting) (className : String) (elements : List Json) : List Json :=
  if (setting.registry.find? setting.schema.name className).isSome then elements else []

theorem elements_createElements (className : String) (x : Float) (elements : List Json)
    (p : Progress) :
    (createElements setting className x 0 elements p).1.map Prod.snd =
      stocked setting className elements := by
  rw [stocked]
  cases hfind : setting.registry.find? setting.schema.name className with
  | some template =>
      exact (createElements_spec hfind x 0 elements p).1
  | none =>
      cases elements with
      | nil =>
          rfl
      | cons element rest =>
          rw [createElements, Progress.createNode, hfind]
          rfl

/-- The first pass makes the groups that the document asks for, in its order. -/
theorem plan_createGroups (x : Float) (document : List (String × Json)) (p : Progress) :
    (createGroups setting x document p).1.map Group.plan =
      (planned setting.schema document).map fun entry =>
        (entry.1, entry.2.1, stocked setting entry.2.1 entry.2.2) := by
  induction document generalizing x p with
  | nil =>
      rfl
  | cons member rest ih =>
      obtain ⟨key, value⟩ := member
      rw [createGroups, planned, List.filterMap_cons]
      cases groupElements? setting.schema key value with
      | none =>
          exact ih x p
      | some found =>
          obtain ⟨className, elements⟩ := found
          dsimp only [Option.map_some]
          rw [List.map_cons, List.map_cons, ih, Group.plan, elements_createElements]
          rfl

theorem keyed_createGroups (hkeys : (document.map Prod.fst).Nodup) (x : Float) (p : Progress) :
    Keyed setting.schema (createGroups setting x document p).1 := by
  have hplan : (createGroups setting x document p).1.map Group.plan = _ :=
    plan_createGroups x document p
  have hheads := congrArg (List.map fun entry => (entry.1, entry.2.1)) hplan
  simp only [List.map_map, Function.comp_def] at hheads
  exact keyed_of_planned hkeys hheads

/--
Whatever the schema and the document, the first pass makes at most one group of a class, under
the key of that class and with a node for each element there, or with none if the class has
no template.  So an index is resolved to the node at its position of the group under the key
of the field's class, if there is one; the second search never finds a node that the first
did not.
-/
theorem resolve?_createGroups (hkeys : (document.map Prod.fst).Nodup) (x : Float) (p : Progress)
    (hgroups : (createGroups setting x document p).1 = groups) :
    (groups.map Group.className).Nodup ∧
      (∀ group ∈ groups, group.key = setting.schema.keyOfClass group.className ∧
        ∃ elements, (document.lookup group.key).bind elements? = some elements ∧
          group.nodes.map Prod.snd = stocked setting group.className elements) ∧
      (∀ field index, resolve? setting.schema groups field index =
        (setting.schema.modelOf? field).bind fun className =>
          if index < 0 then none
          else nodeUnder? setting.schema groups className index.toNat) ∧
      ∀ className position, nodeUnder? setting.schema groups className position = none →
        nodeOfClass? groups className position = none := by
  subst hgroups
  have hkeyed : Keyed setting.schema (createGroups setting x document p).1 :=
    keyed_createGroups hkeys x p
  refine ⟨hkeyed.classNames_nodup, fun group hgroup => ⟨hkeyed.own group hgroup, ?_⟩,
    hkeyed.resolve?_eq, fun _ _ => hkeyed.nodeOfClass?_eq_none⟩
  have hplan : group.plan ∈ (createGroups setting x document p).1.map Group.plan :=
    List.mem_map_of_mem hgroup
  rw [plan_createGroups] at hplan
  obtain ⟨⟨key, className, elements⟩, hentry, hpair⟩ := List.mem_map.1 hplan
  obtain ⟨rfl, hrest⟩ := Prod.mk.inj hpair
  obtain ⟨rfl, helements⟩ := Prod.mk.inj hrest
  obtain ⟨value, hvalue, hplanned⟩ := mem_planned.1 hentry
  refine ⟨elements, ?_, helements.symm⟩
  rw [(Json.lookup_eq_some_iff hkeys).2 hvalue, Option.bind_some]
  exact (of_groupElements? hplanned).2.2.2

/-- Two classes with one key, the second of which has it. -/
def collidingSetting : Setting :=
  let schema := Schema.ofClasses "s" "Index" ""
    [⟨"Tool", [⟨"next", .named "Tool", "Tool", ""⟩]⟩, ⟨"Tools", []⟩]
  ⟨schema, Registry.initial.add schema 1, ImportLayout.standard⟩

def collidingDocument : List (String × Json) :=
  [("label", .str "tools"), ("tools", .arr [.obj [], .obj []])]

def collidingGroups : List Group :=
  (createGroups collidingSetting 0.0 collidingDocument (Progress.start Graph.empty)).1

/-- An index of the first class counts the nodes of the second one, and leads to no others. -/
theorem resolve?_createGroups_collidingDocument :
    (collidingDocument.map Prod.fst).Nodup ∧
      collidingGroups.map Group.className = ["Tools"] ∧
      resolve? collidingSetting.schema collidingGroups
        ⟨"next", .named "Tool", "Tool", ""⟩ 1 = some 2 ∧
      resolve? collidingSetting.schema collidingGroups
        ⟨"next", .named "Tool", "Tool", ""⟩ 2 = none ∧
      nodeOfClass? collidingGroups "Tool" 2 = none := by
  have hkeys : (collidingDocument.map Prod.fst).Nodup := by
    decide
  obtain ⟨-, -, hresolve, hsecond⟩ : _ ∧ _ ∧ (∀ field index,
      resolve? collidingSetting.schema collidingGroups field index = _) ∧ _ :=
    resolve?_createGroups hkeys 0.0 (Progress.start Graph.empty) rfl
  refine ⟨hkeys, by decide +kernel, ?_, ?_, hsecond "Tool" 2 (by decide +kernel)⟩
  · rw [hresolve]
    decide +kernel
  · rw [hresolve]
    decide +kernel

end Import

end SlotGraph
