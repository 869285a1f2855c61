import SlotGraph.Proofs.Config.Census
import SlotGraph.Proofs.Config.TopLevel
import SlotGraph.Proofs.Graph.Evaluation
import SlotGraph.Proofs.Schema.Keys

/-!
# What a document says of a graph

In a graph of nodes that are made from the classes of a schema, an entry says of each
field what the slot of the field holds, and the document of a regular schema has under
the key of a class its group, and under any other key what the root says of its field.
-/

namespace SlotGraph

namespace Graph

def MadeFrom (schema : Schema) (g : Graph) : Prop :=
  ∀ node ∈ g.nodes, ∃ cls ∈ schema.classes, schema.IsTemplate cls node.shape

theorem cell_eq_none {schema : Schema} {cls : SchemaClass} {node : Node}
    (h : schema.IsTemplate cls node.shape) : node.cell = none := by
  obtain ⟨schemaId, classId, hshape⟩ := h
  exact Option.map_eq_none_iff.1 (congrArg NodeTemplate.valueKind hshape)

theorem MadeFrom.class_of_group {schema : Schema} {g : Graph} (h : g.MadeFrom schema)
    {className : String} {node : Node} (hnode : node ∈ g.group schema className) :
    ∃ cls ∈ schema.classes, cls.name = className ∧ schema.isRoot cls = false ∧
      schema.IsTemplate cls node.shape := by
  obtain ⟨hmem, hjoins⟩ := mem_group.1 hnode
  obtain ⟨cls, hcls, hclass⟩ := h node hmem
  rw [hclass.joins_eq, Bool.and_eq_true, Bool.not_eq_true', beq_iff_eq] at hjoins
  exact ⟨cls, hcls, hjoins.2, hjoins.1, hclass⟩

end Graph

namespace Build

variable {g : Graph} {schema : Schema}

def written? (g : Graph) (schema : Schema) (input : InputSpec) (content : SlotContent) :
    Option Json :=
  (input.value? content).map (writeMember g schema)

/-! ## Entries -/

section

variable (h : g.WellFormed) (horder : g.InOrder) {cls : SchemaClass} {node : Node}
  (hnode : node ∈ g.nodes) (hclass : schema.IsTemplate cls node.shape)
  (hnames : (cls.fields.map Field.name).Nodup)

include h horder hnode hclass hnames

theorem members_eq :
    (g.nodeValue node).members =
      cls.fields.zipIdx.filterMap fun entry =>
        ((schema.inputOf cls entry.1).value? (g.content node.id entry.2)).map
          (Prod.mk entry.1.name) := by
  rw [Graph.members_nodeValue h horder hnode (Graph.cell_eq_none hclass)
    (by rwa [hclass.names_inputs]), hclass.inputs, List.zipIdx_map, List.filterMap_map]
  rfl

theorem written_members_eq :
    writeMembers g schema (g.nodeValue node).members =
      cls.fields.zipIdx.filterMap fun entry =>
        (written? g schema (schema.inputOf cls entry.1) (g.content node.id entry.2)).map
          (Prod.mk entry.1.name) := by
  rw [members_eq h horder hnode hclass hnames, writeMembers, List.map_filterMap]
  refine List.filterMap_congr fun entry _ => ?_
  rw [written?, Option.map_map, Option.map_map]
  rfl

theorem get?_entry {position : Nat} {field : Field}
    (hfield : cls.fields[position]? = some field) :
    (entry g schema node).get? field.name =
      written? g schema (schema.inputOf cls field) (g.content node.id position) := by
  have hindexed : (cls.fields.zipIdx.map fun entry => entry.1.name).Nodup := by
    rwa [map_zipIdx_fst]
  have hmem : (field, position) ∈ cls.fields.zipIdx :=
    List.mk_mem_zipIdx_iff_getElem?.2 hfield
  rw [entry, written_members_eq h horder hnode hclass hnames,
    Json.get?_ofMembers_of_nodup (Json.nodup_named hindexed)]
  exact Json.lookup_named hindexed hmem

theorem field_of_get?_entry {key : String} {value : Json}
    (hvalue : (entry g schema node).get? key = some value) :
    ∃ (position : Nat) (field : Field),
      cls.fields[position]? = some field ∧ field.name = key := by
  rw [entry, Json.get?_ofMembers] at hvalue
  have hmem := Json.mem_of_lookup hvalue
  rw [List.mem_reverse, written_members_eq h horder hnode hclass hnames, Json.mem_named] at hmem
  obtain ⟨⟨field, position⟩, hfield, hname, -⟩ := hmem
  exact ⟨position, field, List.mk_mem_zipIdx_iff_getElem?.1 hfield, hname⟩

theorem entry_eq {source : List (String × Json)} (hsource : Json.Ascending source)
    (hkeys : ∀ member ∈ source, ∃ field ∈ cls.fields, field.name = member.1)
    (hvalues : ∀ position field, cls.fields[position]? = some field →
      written? g schema (schema.inputOf cls field) (g.content node.id position) =
        source.lookup field.name) :
    entry g schema node = .obj source := by
  refine Json.ofMembers_eq hsource fun key => ?_
  by_cases hkey : ∃ field ∈ cls.fields, field.name = key
  · obtain ⟨field, hfield, rfl⟩ := hkey
    obtain ⟨position, hposition⟩ := List.getElem?_of_mem hfield
    rw [← hvalues position field hposition]
    exact get?_entry h horder hnode hclass hnames hposition
  · have hlookup : source.lookup key = none := by
      rw [Option.eq_none_iff_forall_ne_some]
      intro value hvalue
      exact hkey (hkeys _ (Json.mem_of_lookup hvalue))
    rw [hlookup, Option.eq_none_iff_forall_ne_some]
    intro value hvalue
    obtain ⟨position, field, hfield, hname⟩ :=
      field_of_get?_entry h horder hnode hclass hnames hvalue
    exact hkey ⟨field, List.mem_of_getElem? hfield, hname⟩

end

/-! ## The document -/

theorem get?_config_of_group (hregular : schema.Regular) (hmade : g.MadeFrom schema)
    {cls : SchemaClass} (hcls : cls ∈ schema.classes) (hroot : schema.isRoot cls = false) :
    (ofGraph g schema).config.get? (schema.keyOfClass cls.name) =
      if g.group schema cls.name = [] then none else some (groupOf g schema cls.name) := by
  have hkey : schema.isGroupKey (schema.keyOfClass cls.name) = true :=
    hregular.isGroupKey_iff.2 ⟨cls, hcls, hroot, rfl⟩
  have hmet : ∀ value, (ofGraph g schema).config.get? (schema.keyOfClass cls.name) = some value →
      g.group schema cls.name ≠ [] ∧ groupOf g schema cls.name = value := by
    intro value hvalue
    rcases of_get?_config hvalue with ⟨c, hc, hsame, hgroup⟩ | ⟨member, hmember, hname, -⟩
    · obtain ⟨node, hnode⟩ := List.exists_mem_of_ne_nil _ hc
      obtain ⟨other, hother, rfl, hotherRoot, -⟩ := hmade.class_of_group hnode
      rw [← hregular.keyOfClass_inj hother hotherRoot hcls hroot hsame]
      exact ⟨hc, hgroup⟩
    · obtain ⟨-, -, -, hnot⟩ := mem_rootValues.1 hmember
      rw [hname, hkey] at hnot
      exact absurd hnot (by decide)
  split
  · next hempty =>
      rw [Option.eq_none_iff_forall_ne_some]
      exact fun value hvalue => (hmet value hvalue).1 hempty
  · next hsome =>
      obtain ⟨value, hvalue⟩ := Option.isSome_iff_exists.1 (get?_config_isSome hsome)
      rw [hvalue, (hmet value hvalue).2]

theorem get?_config_of_root (hregular : schema.Regular) (hmade : g.MadeFrom schema)
    {key : String} (hkey : schema.isGroupKey key = false) {value : Json} :
    (ofGraph g schema).config.get? key = some value ↔
      ∃ root ∈ (g.rootNodes schema).head?,
        (entry g schema root).get? key = some value := by
  have hentry : ∀ root ∈ (g.rootNodes schema).head?,
      (entry g schema root).get? key = some value ↔
        ∃ member ∈ (g.nodeValue root).members,
          (member.1, writeMember g schema member.2) = (key, value) := by
    intro root hroot
    have hnodup : ((writeMembers g schema (g.nodeValue root).members).map Prod.fst).Nodup := by
      rw [writeMembers, List.map_map]
      exact Graph.nodup_members_rootNode (List.mem_of_head? hroot)
    rw [entry, Json.get?_ofMembers_of_nodup hnodup, Json.lookup_eq_some_iff hnodup,
      mem_writeMembers]
  constructor
  · intro hvalue
    rcases of_get?_config hvalue with ⟨c, hc, hname, -⟩ | ⟨member, hmember, hname, hwritten⟩
    · -- The key of a class is a group key.
      obtain ⟨node, hnode⟩ := List.exists_mem_of_ne_nil _ hc
      obtain ⟨cls, hcls, rfl, hclsRoot, -⟩ := hmade.class_of_group hnode
      rw [hregular.isGroupKey_iff.2 ⟨cls, hcls, hclsRoot, hname⟩] at hkey
      exact absurd hkey (by decide)
    · obtain ⟨root, hroot, hmem, -⟩ := mem_rootValues.1 hmember
      exact ⟨root, hroot, (hentry root hroot).2 ⟨member, hmem, by rw [hname, hwritten]⟩⟩
  · rintro ⟨root, hroot, hvalue⟩
    obtain ⟨member, hmem, hpair⟩ := (hentry root hroot).1 hvalue
    obtain ⟨rfl, rfl⟩ := Prod.mk.inj hpair
    exact get?_config_of_mem_rootValues (mem_rootValues.2 ⟨root, hroot, hmem, hkey⟩)

end Build

end SlotGraph
