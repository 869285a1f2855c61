import SlotGraph.Proofs.Config.Written
import SlotGraph.Proofs.Import.Resolution

/-!
# Imported nodes by class

A regular schema gives each class a key of its own, so the nodes of a class are those
under its key, in the order of the elements there, and the index of an element finds
the node that was made for it.
-/

namespace SlotGraph

namespace Import

variable {setting : Setting} {schema : Schema} {document : List (String × Json)}
  {groups : List Group}

def elementsOf (schema : Schema) (document : List (String × Json)) (className : String) :
    List Json :=
  ((document.lookup (schema.keyOfClass className)).bind elements?).getD []

def nodesUnder (groups : List Group) (key : String) : List (NodeId × Json) :=
  ((findGroup? groups key).map Group.nodes).getD []

/-! ## Groups that a document asks for -/

section

variable (hkeys : (document.map Prod.fst).Nodup)
  (hplan : groups.map Group.plan = planned schema document)

include hplan

theorem heads_of_plan : groups.map (fun group => (group.key, group.className)) =
    (planned schema document).map fun entry => (entry.1, entry.2.1) := by
  rw [← hplan, List.map_map]
  rfl

theorem key_of_plan {group : Group} (hgroup : group ∈ groups) :
    group.key = schema.keyOfClass group.className :=
  own_of_planned (heads_of_plan hplan) hgroup

include hkeys

theorem keyed_of_plan : Keyed schema groups :=
  keyed_of_planned hkeys (heads_of_plan hplan)

theorem distinct_of_plan : (groups.map Group.key).Nodup :=
  (keyed_of_plan hkeys hplan).distinct

theorem findGroup?_of_plan {key : String} {group : Group} :
    findGroup? groups key = some group ↔ group ∈ groups ∧ group.key = key :=
  (keyed_of_plan hkeys hplan).findGroup?_eq_some_iff

theorem resolve?_of_plan {field : Field} {name : String}
    (hmodel : schema.modelOf? field = some name) (index : Nat) :
    resolve? schema groups field index =
      ((nodesUnder groups (schema.keyOfClass name))[index]?).map Prod.fst := by
  have hnonneg : ¬ (index : Int) < 0 := by
    omega
  rw [(keyed_of_plan hkeys hplan).resolve?_eq, hmodel, Option.bind_some, if_neg hnonneg,
    Int.toNat_natCast, nodeUnder?, nodesUnder]
  cases findGroup? groups (schema.keyOfClass name) <;> rfl

end

/-- Whether groups are those that a document asks for, each of its own class. -/
structure Planned (schema : Schema) (document : List (String × Json)) (groups : List Group) :
    Prop where
  regular : schema.Regular
  keys : (document.map Prod.fst).Nodup
  plan : groups.map Group.plan = planned schema document

namespace Planned

theorem distinct (h : Planned schema document groups) : (groups.map Group.key).Nodup :=
  distinct_of_plan h.keys h.plan

theorem findGroup?_eq_some_iff (h : Planned schema document groups) {key : String}
    {group : Group} : findGroup? groups key = some group ↔ group ∈ groups ∧ group.key = key :=
  findGroup?_of_plan h.keys h.plan

theorem group_spec (h : Planned schema document groups) {group : Group}
    (hgroup : group ∈ groups) :
    (∃ cls ∈ schema.classes, cls.name = group.className ∧ schema.isRoot cls = false) ∧
      group.key = schema.keyOfClass group.className ∧
      elementsOf schema document group.className = group.nodes.map Prod.snd := by
  have hentry : group.plan ∈ planned schema document :=
    h.plan ▸ List.mem_map_of_mem hgroup
  obtain ⟨value, hvalue, hplanned⟩ := mem_planned.1 hentry
  obtain ⟨hclass, hkey, helements⟩ := (groupElements?_eq_some_iff h.regular).1 hplanned
  have hlookup := (Json.lookup_eq_some_iff h.keys).2 hvalue
  refine ⟨hclass, hkey, ?_⟩
  rw [elementsOf, ← hkey]
  simp only [Group.plan] at hlookup helements ⊢
  rw [hlookup, Option.bind_some, helements]
  rfl

theorem className_eq (h : Planned schema document groups) {group : Group}
    (hgroup : group ∈ groups) {cls : SchemaClass} (hcls : cls ∈ schema.classes)
    (hroot : schema.isRoot cls = false) (hkey : group.key = schema.keyOfClass cls.name) :
    group.className = cls.name := by
  obtain ⟨⟨other, hother, hname, hotherRoot⟩, hgroupKey, -⟩ := h.group_spec hgroup
  rw [hgroupKey, ← hname] at hkey
  rw [← hname]
  exact h.regular.keyOfClass_inj hother hotherRoot hcls hroot hkey

theorem elements_nodesUnder (h : Planned schema document groups) {cls : SchemaClass}
    (hcls : cls ∈ schema.classes) (hroot : schema.isRoot cls = false) :
    (nodesUnder groups (schema.keyOfClass cls.name)).map Prod.snd =
      elementsOf schema document cls.name := by
  rw [nodesUnder]
  cases hfind : findGroup? groups (schema.keyOfClass cls.name) with
  | some group =>
      obtain ⟨hgroup, hkey⟩ := h.findGroup?_eq_some_iff.1 hfind
      rw [← h.className_eq hgroup hcls hroot hkey, (h.group_spec hgroup).2.2]
      rfl
  | none =>
      rw [elementsOf]
      cases hvalue : document.lookup (schema.keyOfClass cls.name) with
      | none =>
          rfl
      | some value =>
          have hnone := groupElements?_of_findGroup? h.plan hfind hvalue
          cases helements : elements? value with
          | none =>
              simp [helements]
          | some elements =>
              have hgroup := (groupElements?_eq_some_iff h.regular).2
                ⟨⟨cls, hcls, rfl, hroot⟩, rfl, helements⟩
              simp [hnone] at hgroup

theorem findGroup?_eq_none (h : Planned schema document groups) {key : String}
    (hkey : schema.isGroupKey key = false) : findGroup? groups key = none := by
  rw [Option.eq_none_iff_forall_ne_some]
  intro group hfind
  obtain ⟨hgroup, rfl⟩ := h.findGroup?_eq_some_iff.1 hfind
  obtain ⟨⟨cls, hcls, hname, hroot⟩, hgroupKey, -⟩ := h.group_spec hgroup
  rw [h.regular.isGroupKey_iff.2 ⟨cls, hcls, hroot, by rw [hgroupKey, hname]⟩] at hkey
  exact absurd hkey (by decide)

theorem mem_nodesUnder (h : Planned schema document groups) {cls : SchemaClass}
    (hcls : cls ∈ schema.classes) (hroot : schema.isRoot cls = false) {made : NodeId × Json}
    (hmade : made ∈ nodesUnder groups (schema.keyOfClass cls.name)) :
    ∃ group ∈ groups, group.className = cls.name ∧ made ∈ group.nodes := by
  rw [nodesUnder] at hmade
  cases hfind : findGroup? groups (schema.keyOfClass cls.name) with
  | none =>
      simp [hfind] at hmade
  | some group =>
      obtain ⟨hgroup, hkey⟩ := h.findGroup?_eq_some_iff.1 hfind
      rw [hfind] at hmade
      exact ⟨group, hgroup, h.className_eq hgroup hcls hroot hkey, hmade⟩

theorem resolve?_eq (h : Planned schema document groups) {field : Field} {name : String}
    (hmodel : schema.modelOf? field = some name) (index : Nat) :
    resolve? schema groups field index =
      ((nodesUnder groups (schema.keyOfClass name))[index]?).map Prod.fst :=
  resolve?_of_plan h.keys h.plan hmodel index

end Planned

/-! ## The imported graph -/

theorem flatMap_under {α : Type} (h : (groups.map Group.key).Nodup) (key : String)
    (view : NodeId × Json → α) :
    (groups.flatMap fun group =>
        if group.key = key then group.nodes.map view else []) =
      (nodesUnder groups key).map view := by
  induction groups with
  | nil =>
      rfl
  | cons group rest ih =>
      obtain ⟨hfresh, hrest⟩ := List.nodup_cons.1 h
      rw [List.flatMap_cons, ih hrest, nodesUnder, nodesUnder, findGroup?, findGroup?,
        List.find?_cons]
      by_cases hkey : group.key = key
      · have hnone : rest.find? (fun other => other.key == key) = none := by
          rw [List.find?_eq_none]
          intro other hother hsame
          rw [beq_iff_eq, ← hkey] at hsame
          exact hfresh (List.mem_map.2 ⟨other, hother, hsame⟩)
        simp [hkey, hnone]
      · simp [hkey, beq_false_of_ne hkey]

variable {g : Graph}

theorem Imported.planned (h : Imported setting document groups g)
    (hregular : setting.schema.Regular) (hkeys : (document.map Prod.fst).Nodup) :
    Planned setting.schema document groups :=
  ⟨hregular, hkeys, h.grouped.plan⟩

theorem Imported.madeFrom (h : Imported setting document groups g)
    (hregular : setting.schema.Regular) (hserves : setting.registry.Serves setting.schema) :
    g.MadeFrom setting.schema := by
  intro node hnode
  have hshape : (node.id, node.shape) ∈ g.shapes := List.mem_map_of_mem hnode
  have hgrouped : (node.id, node.shape) ∈ groups.flatMap (Group.shapes setting) →
      ∃ cls ∈ setting.schema.classes, setting.schema.IsTemplate cls node.shape := by
    intro hmem
    obtain ⟨group, hgroup, hmade⟩ := List.mem_flatMap.1 hmem
    obtain ⟨cls, template, hfind, -, htemplate, hclass⟩ :=
      template_of_plan hregular hserves h.grouped.plan hgroup
    rw [Group.shapes, htemplate] at hmade
    obtain ⟨made, -, hpair⟩ := List.mem_filterMap.1 hmade
    have hsame : template = node.shape := congrArg Prod.snd (Option.some.inj hpair)
    exact ⟨cls, (hregular.findClass?_eq_some_iff.1 hfind).1, hsame ▸ hclass⟩
  cases hroot : setting.schema.rootClass? with
  | none =>
      rw [h.rootless hroot] at hshape
      exact hgrouped hshape
  | some root =>
      obtain ⟨id, template, hclass, hshapes, -⟩ := h.rooted root hroot
      rw [hshapes, List.mem_append, List.mem_singleton] at hshape
      rcases hshape with hmem | hnew
      · exact hgrouped hmem
      · have hsame : node.shape = template := congrArg Prod.snd hnew
        exact ⟨root, hregular.mem_of_rootClass? hroot, hsame ▸ hclass⟩

theorem Imported.ids_group (h : Imported setting document groups g)
    (hregular : setting.schema.Regular) (hserves : setting.registry.Serves setting.schema)
    (hkeys : (document.map Prod.fst).Nodup) {cls : SchemaClass}
    (hcls : cls ∈ setting.schema.classes) (hroot : setting.schema.isRoot cls = false) :
    (g.group setting.schema cls.name).map Node.id =
      (nodesUnder groups (setting.schema.keyOfClass cls.name)).map Prod.fst := by
  have hplanned := h.planned hregular hkeys
  have hjoined : ∀ group ∈ groups,
      ((group.shapes setting).filter fun entry => entry.2.joins setting.schema cls.name).map
          Prod.fst =
        if group.key = setting.schema.keyOfClass cls.name then group.nodes.map Prod.fst
        else [] := by
    intro group hgroup
    obtain ⟨other, template, hfind, hother, htemplate, hclass⟩ :=
      template_of_plan hregular hserves hplanned.plan hgroup
    obtain ⟨hmem, hname⟩ := hregular.findClass?_eq_some_iff.1 hfind
    have hkey := (hplanned.group_spec hgroup).2.1
    have hjoins := hclass.joins_eq cls.name
    rw [hother, Bool.not_false, Bool.true_and, hname] at hjoins
    have hsame : group.key = setting.schema.keyOfClass cls.name ↔
        group.className = cls.name := by
      rw [hkey, ← hname]
      refine ⟨hregular.keyOfClass_inj hmem hother hcls hroot, fun heq => by rw [heq]⟩
    rw [Group.shapes, htemplate]
    simp only [hsame]
    by_cases hclassName : group.className = cls.name
    · simp [List.filter_map, Function.comp_def, hjoins, hclassName]
    · simp [List.filter_map, Function.comp_def, hjoins, beq_false_of_ne hclassName, hclassName]
  rw [Graph.ids_group, ← flatMap_under hplanned.distinct, ← List.flatMap_congr hjoined]
  have hshapes : g.shapes.filter (fun entry => entry.2.joins setting.schema cls.name) =
      (groups.flatMap (Group.shapes setting)).filter
        fun entry => entry.2.joins setting.schema cls.name := by
    cases hrootClass : setting.schema.rootClass? with
    | none =>
        rw [h.rootless hrootClass]
    | some root =>
        obtain ⟨id, template, hclass, hshapes, -⟩ := h.rooted root hrootClass
        have hisRoot : setting.schema.isRoot root = true :=
          (hregular.isRoot_iff (hregular.mem_of_rootClass? hrootClass)).2 hrootClass
        have hjoins := hclass.joins_eq cls.name
        rw [hisRoot, Bool.not_true, Bool.false_and] at hjoins
        rw [hshapes, List.filter_append, List.filter_cons_of_neg (by simp [hjoins]),
          List.filter_nil, List.append_nil]
  rw [hshapes, List.filter_flatMap, List.map_flatMap]

theorem Imported.rootNodes_of_rootless (h : Imported setting document groups g)
    (hregular : setting.schema.Regular) (hserves : setting.registry.Serves setting.schema)
    (hroot : setting.schema.rootClass? = none) : g.rootNodes setting.schema = [] := by
  refine Graph.rootNodes_eq_nil_of_leads fun node hnode => ?_
  obtain ⟨cls, hcls, hclass⟩ := h.madeFrom hregular hserves node hnode
  rw [hclass.leads_eq, Bool.eq_false_iff, ne_eq, hregular.isRoot_iff hcls, hroot]
  simp

theorem Imported.exists_rootNode (h : Imported setting document groups g)
    (hregular : setting.schema.Regular) (hserves : setting.registry.Serves setting.schema)
    {root : SchemaClass} (hroot : setting.schema.rootClass? = some root) :
    ∃ node, g.rootNodes setting.schema = [node] ∧
      setting.schema.IsTemplate root node.shape ∧
      RootFilled setting groups g node.id root document := by
  obtain ⟨id, template, hclass, hshapes, hfilled⟩ := h.rooted root hroot
  have hisRoot := (hregular.isRoot_iff (hregular.mem_of_rootClass? hroot)).2 hroot
  have hgrouped : (groups.flatMap (Group.shapes setting)).filter
      (fun entry => entry.2.leads setting.schema) = [] := by
    rw [List.filter_eq_nil_iff]
    intro entry hentry
    obtain ⟨group, hgroup, hmade⟩ := List.mem_flatMap.1 hentry
    obtain ⟨cls, found, -, hcls, htemplate, hfound⟩ :=
      template_of_plan hregular hserves h.grouped.plan hgroup
    rw [Group.shapes, htemplate] at hmade
    obtain ⟨made, -, hpair⟩ := List.mem_filterMap.1 hmade
    have hsame : found = entry.2 := congrArg Prod.snd (Option.some.inj hpair)
    rw [← hsame, hfound.leads_eq, hcls]
    exact Bool.false_ne_true
  have hnodes := Graph.shapes_rootNodes g setting.schema
  rw [hshapes, List.filter_append, hgrouped, List.nil_append,
    List.filter_cons_of_pos (by rw [hclass.leads_eq, hisRoot]), List.filter_nil] at hnodes
  obtain ⟨node, hsingle, hpair⟩ := List.map_eq_singleton_iff.1 hnodes
  obtain ⟨rfl, rfl⟩ := Prod.mk.inj hpair
  exact ⟨node, hsingle, hclass, hfilled⟩

end Import

end SlotGraph
