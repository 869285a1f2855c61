import SlotGraph.Proofs.Config.RoundTrip
import SlotGraph.Proofs.Graph.Wiring

/-!
# References that come back

A document writes a link as a bare index, and an import takes it for an index into the
group of the class that the field names.  So a link between nodes of classes comes
back exactly when the field of its slot names the class that it comes from.
-/

namespace SlotGraph

namespace Graph

theorem WellFormed.length_sources {g : Graph} (h : g.WellFormed) (horder : g.InOrder)
    {id : NodeId} {slot : Nat} {input : InputSpec}
    (hinput : (g.shape? id).bind (·.inputs[slot]?) = some input) :
    input.intake.collects = true ∨ (g.sources id slot).length ≤ 1 := by
  cases hfind : g.findNode? id with
  | none =>
      simp [shape?, hfind] at hinput
  | some node =>
      rw [shape?_inputs hfind] at hinput
      obtain ⟨slotHere, hslot, rfl⟩ := Option.map_eq_some_iff.1 hinput
      obtain ⟨hnode, rfl⟩ := findNode?_mem hfind
      have hlength := congrArg List.length (h.links_eq horder hnode hslot)
      rw [List.length_map] at hlength
      rw [sources, List.length_map, ← hlength, InputSlot.spec]
      cases hfeed : slotHere.feed with
      | many keyed links =>
          exact Or.inl rfl
      | single held native =>
          right
          cases held <;> simp [Feed.links]

end Graph

namespace Build

variable {g : Graph} {schema : Schema}

/-! ## Indices that are written -/

theorem mapM_int64? {α : Type} (value : α → Json) (key : α → String) {xs : List α}
    (h : ∀ x ∈ xs, ((value x).int64?).isSome) :
    ∃ entries, xs.mapM (fun x => (value x).int64?.map fun index => (index, key x)) =
        some entries ∧
      ∀ index, (∃ name, (index, name) ∈ entries) ↔ ∃ x ∈ xs, (value x).int64? = some index := by
  induction xs with
  | nil =>
      exact ⟨[], rfl, by simp⟩
  | cons x rest ih =>
      obtain ⟨entries, hentries, hmem⟩ := ih fun y hy => h y (List.mem_cons_of_mem _ hy)
      obtain ⟨first, hfirst⟩ := Option.isSome_iff_exists.1 (h x List.mem_cons_self)
      refine ⟨(first, key x) :: entries, ?_, fun index => ?_⟩
      · rw [List.mapM_cons, hentries, hfirst]
        rfl
      · constructor
        · rintro ⟨name, hname⟩
          rcases List.mem_cons.1 hname with hhere | hlater
          · exact ⟨x, List.mem_cons_self, by rw [hfirst, (Prod.mk.inj hhere).1]⟩
          · obtain ⟨y, hy, hvalue⟩ := (hmem index).1 ⟨name, hlater⟩
            exact ⟨y, List.mem_cons_of_mem _ hy, hvalue⟩
        · rintro ⟨y, hy, hvalue⟩
          rcases List.mem_cons.1 hy with rfl | hlater
          · rw [hfirst] at hvalue
            exact ⟨key y, by rw [Option.some.inj hvalue]; exact List.mem_cons_self⟩
          · obtain ⟨name, hname⟩ := (hmem index).2 ⟨y, hlater, hvalue⟩
            exact ⟨name, List.mem_cons_of_mem _ hname⟩

/-- Sources without keys are kept apart by their positions. -/
theorem nodup_entryKeys {sources : List Source} (h : ∀ source ∈ sources, source.key = "") :
    (sources.zipIdx.map fun entry => entry.1.entryKey entry.2).Nodup := by
  have hpositions : (sources.zipIdx.map fun entry => entry.1.entryKey entry.2) =
      (sources.zipIdx.map Prod.snd).map toString := by
    rw [List.map_map]
    refine List.map_congr_left fun entry hentry => ?_
    exact if_pos (h _ (List.fst_mem_of_mem_zipIdx hentry))
  have hdistinct : (sources.zipIdx.map Prod.snd).Nodup := by
    rw [List.zipIdx_map_snd]
    exact List.nodup_range'
  rw [hpositions]
  exact List.Nodup.map (fun _ _ => Text.toString_injective) hdistinct

theorem mem_keyed_written {sources : List Source} (h : ∀ source ∈ sources, source.key = "")
    {value : Json} :
    (∃ member ∈ (Json.ofMembers (NodeValue.toMembers (resolve g schema)
        (Source.keyedRefs sources))).members, member.2 = value) ↔
      ∃ source ∈ sources, resolve g schema source.origin = value := by
  have hdistinct := nodup_entryKeys h
  rw [Source.keyedRefs_of_distinct hdistinct,
    toMembers_refs (resolve g schema) (fun entry : Source × Nat => entry.1.entryKey entry.2)
      fun entry => entry.1.origin]
  have hnodup : ((sources.zipIdx.map fun entry =>
      (entry.1.entryKey entry.2, resolve g schema entry.1.origin)).map Prod.fst).Nodup := by
    rwa [List.map_map]
  constructor
  · rintro ⟨member, hmember, rfl⟩
    have hmem := (Json.mem_ofMembers_of_nodup hnodup).1 hmember
    obtain ⟨entry, hentry, rfl⟩ := List.mem_map.1 hmem
    exact ⟨entry.1, List.fst_mem_of_mem_zipIdx hentry, rfl⟩
  · rintro ⟨source, hsource, rfl⟩
    obtain ⟨position, hposition⟩ := List.getElem?_of_mem hsource
    have hentry : (source, position) ∈ sources.zipIdx :=
      List.mk_mem_zipIdx_iff_getElem?.2 hposition
    exact ⟨_, (Json.mem_ofMembers_of_nodup hnodup).2 (List.mem_map_of_mem hentry), rfl⟩

theorem isSome_written? {input : InputSpec} {sources : List Source} {held : Option Json}
    (hkeys : ∀ source ∈ sources, source.key = "") {source : Source} (hsource : source ∈ sources) :
    (written? g schema input ⟨sources, held⟩).isSome := by
  have hsome : sources ≠ [] := List.ne_nil_of_mem hsource
  have hrefs : Source.keyedRefs sources ≠ [] := by
    rw [Source.keyedRefs_of_distinct (nodup_entryKeys hkeys)]
    simpa using hsome
  rw [written?, InputSpec.value?, Option.isSome_map]
  cases input.intake with
  | many keyed =>
      cases keyed <;> simp [hsome, hrefs]
  | single native =>
      cases sources with
      | nil =>
          exact absurd rfl hsome
      | cons first rest =>
          rfl

theorem indices?_array (dict : Bool) {sources : List Source}
    (hread : ∀ source ∈ sources, ((resolve g schema source.origin).int64?).isSome) :
    ∃ entries, Import.indices? dict (.arr (NodeValue.toItems (resolve g schema)
        (sources.map fun source => .ref source.origin))) = some entries ∧
      ∀ index, (∃ key, (index, key) ∈ entries) ↔
        ∃ source ∈ sources, (resolve g schema source.origin).int64? = some index := by
  rw [toItems_refs]
  obtain ⟨entries, hentries, hmem⟩ := mapM_int64? (fun element : Json => element)
    (fun _ => "") (List.forall_mem_map.2 hread)
  refine ⟨entries, hentries, fun index => ?_⟩
  simp [hmem]

/-- An object of references without keys of their own reads back as their indices. -/
theorem indices?_object {sources : List Source}
    (hkeys : ∀ source ∈ sources, source.key = "")
    (hread : ∀ source ∈ sources, ((resolve g schema source.origin).int64?).isSome) :
    ∃ entries, Import.indices? true (Json.ofMembers (NodeValue.toMembers (resolve g schema)
        (Source.keyedRefs sources))) = some entries ∧
      ∀ index, (∃ key, (index, key) ∈ entries) ↔
        ∃ source ∈ sources, (resolve g schema source.origin).int64? = some index := by
  have hmembers : ∀ member ∈ (Json.ofMembers (NodeValue.toMembers (resolve g schema)
      (Source.keyedRefs sources))).members, (member.2.int64?).isSome := by
    intro member hmember
    obtain ⟨source, hsource, hsame⟩ := (mem_keyed_written hkeys).1 ⟨member, hmember, rfl⟩
    rw [← hsame]
    exact hread source hsource
  obtain ⟨entries, hentries, hmem⟩ := mapM_int64? Prod.snd Prod.fst hmembers
  refine ⟨entries, hentries, fun index => ?_⟩
  rw [hmem]
  constructor
  · intro hmember
    rcases hmember with ⟨member, hmember, hindex⟩
    obtain ⟨source, hsource, hsame⟩ := (mem_keyed_written hkeys).1 ⟨member, hmember, rfl⟩
    exact ⟨source, hsource, by rw [hsame, hindex]⟩
  · intro hsource
    rcases hsource with ⟨source, hsource, hindex⟩
    obtain ⟨member, hmember, hsame⟩ := (mem_keyed_written hkeys).2 ⟨source, hsource, rfl⟩
    exact ⟨member, hmember, by rw [hsame, hindex]⟩

/-- What a slot that only links feed is written as reads back as the indices of its sources. -/
theorem indices?_written {cls : SchemaClass} {field : Field} {sources : List Source}
    {held : Option Json} {value : Json}
    (hnative : (schema.inputOf cls field).intake.native? = none)
    (hsingle : (schema.inputOf cls field).intake.collects = true ∨ sources.length ≤ 1)
    (hkeys : ∀ source ∈ sources, source.key = "")
    (hindices : ∀ source ∈ sources, ∃ index : Nat,
      resolve g schema source.origin = .int index)
    (hvalue : written? g schema (schema.inputOf cls field) ⟨sources, held⟩ = some value) :
    ∃ entries, Import.indices? field.type.required.isDict value = some entries ∧
      ((schema.inputOf cls field).intake.collects = true ∨ entries.length ≤ 1) ∧
      ∀ index, (∃ key, (index, key) ∈ entries) ↔
        ∃ source ∈ sources, (resolve g schema source.origin).int64? = some index := by
  have hread : ∀ source ∈ sources, ((resolve g schema source.origin).int64?).isSome := by
    intro source hsource
    obtain ⟨index, hindex⟩ := hindices source hsource
    rw [hindex]
    rfl
  cases hintake : (schema.inputOf cls field).intake with
  | single native =>
      obtain rfl : native = none := by
        simpa [hintake, Intake.native?] using hnative
      cases sources with
      | nil =>
          rw [written?, InputSpec.value?, hintake] at hvalue
          simp at hvalue
      | cons source rest =>
          have hrest : rest = [] := by
            simpa [hintake, Intake.collects] using hsingle
          subst hrest
          obtain ⟨index, hindex⟩ := hindices source List.mem_cons_self
          rw [written_single hintake, hindex] at hvalue
          obtain rfl := Option.some.inj hvalue
          refine ⟨[((index : Int).bmod (2 ^ 64), "")], rfl, Or.inr (Nat.le_refl 1), ?_⟩
          intro other
          have hshown : (Json.int index).int64? = some ((index : Int).bmod (2 ^ 64)) := rfl
          simp [hindex, hshown, eq_comm]
  | many keyed =>
      have hdict := schema.isDict_of_intake hintake
      rw [written?, InputSpec.value?, hintake] at hvalue
      cases keyed with
      | false =>
          simp only at hvalue
          split at hvalue
          · simp at hvalue
          · obtain rfl := Option.some.inj hvalue
            obtain ⟨entries, hentries, hmem⟩ :=
              indices?_array field.type.required.isDict hread
            exact ⟨entries, hentries, Or.inl rfl, hmem⟩
      | true =>
          simp only at hvalue
          split at hvalue
          · simp at hvalue
          · obtain rfl := Option.some.inj hvalue
            obtain ⟨entries, hentries, hmem⟩ := indices?_object hkeys hread
            exact ⟨entries, hdict ▸ hentries, Or.inl rfl, hmem⟩

end Build

/-! ## Documents of wired graphs -/

namespace Graph

variable {g : Graph} {schema : Schema}

theorem class_of_group_eq {className other : String} {node : Node}
    (h : node ∈ g.group schema className) (hother : node ∈ g.group schema other) :
    className = other := by
  have hname := (mem_group.1 h).2
  have hotherName := (mem_group.1 hother).2
  simp only [NodeTemplate.joins, Bool.and_eq_true, beq_iff_eq] at hname hotherName
  exact hname.2.symm.trans hotherName.2

theorem MadeFrom.admits_group (h : g.MadeFrom schema) (hwf : g.WellFormed)
    (hregular : schema.Regular) {className : String} {a b : Node}
    (ha : a ∈ g.group schema className) {cls : SchemaClass} (hcls : cls ∈ schema.classes)
    (hb : b ∈ g.group schema cls.name) {slot : Nat} {field : Field}
    (hfield : cls.fields[slot]? = some field) :
    g.admits a.id b.id slot =
      TypeExpr.textFits className (schema.inputOf cls field).linkType := by
  obtain ⟨originClass, -, rfl, -, horigin⟩ := h.class_of_group ha
  obtain ⟨targetClass, hmem, hname, -, htarget⟩ := h.class_of_group hb
  obtain rfl := hregular.class_unique hmem hcls hname
  refine hwf.admits_eq (mem_group.1 ha).1 horigin ?_
  rw [hwf.shape?_eq (mem_group.1 hb).1, Option.bind_some, htarget.input_eq hfield]

namespace Wired

theorem madeFrom (h : Wired schema g) : g.MadeFrom schema := by
  intro node hnode
  obtain ⟨cls, hcls, -, hclass⟩ := h.made node hnode
  exact ⟨cls, hcls, hclass⟩

theorem rootNodes_eq_nil (h : Wired schema g) : g.rootNodes schema = [] := by
  refine rootNodes_eq_nil_of_leads fun node hnode => ?_
  obtain ⟨cls, -, hroot, hclass⟩ := h.made node hnode
  rw [hclass.leads_eq, hroot]

theorem exists_index (h : Wired schema g) {node : Node} (hnode : node ∈ g.nodes) :
    ∃ cls ∈ schema.classes, schema.isRoot cls = false ∧
      schema.IsTemplate cls node.shape ∧
      ∃ index : Nat, (g.group schema cls.name)[index]? = some node := by
  obtain ⟨cls, hcls, hroot, hclass⟩ := h.made node hnode
  refine ⟨cls, hcls, hroot, hclass, List.getElem?_of_mem (mem_group.2 ⟨hnode, ?_⟩)⟩
  rw [hclass.joins_eq, hroot]
  simp

theorem source_spec (h : Wired schema g) {id : NodeId} {slot : Nat} {source : Source}
    (hsource : source ∈ g.sources id slot) :
    source.key = "" ∧ ∃ cls ∈ schema.classes, schema.isRoot cls = false ∧
      ∃ (index : Nat) (node : Node), (g.group schema cls.name)[index]? = some node ∧
        node.id = source.origin := by
  obtain ⟨link, hlink, -, -, rfl⟩ := mem_sources.1 hsource
  obtain ⟨node, hnode, hid, -⟩ := h.wellFormed.count_output hlink
  obtain ⟨cls, hcls, hroot, -, index, hindex⟩ := h.exists_index hnode
  exact ⟨h.unkeyed link hlink, cls, hcls, hroot, index, node, hindex, hid⟩

theorem resolve_source (h : Wired schema g) {id : NodeId} {slot : Nat} {source : Source}
    (hsource : source ∈ g.sources id slot) :
    ∃ index : Nat, Build.resolve g schema source.origin = .int index := by
  obtain ⟨-, cls, -, -, index, node, hindex, hid⟩ := h.source_spec hsource
  exact ⟨index, hid ▸ Build.resolve_eq h.wellFormed hindex⟩

theorem field_of_source (h : Wired schema g) {cls : SchemaClass} {node : Node}
    (hnode : node ∈ g.nodes) (hclass : schema.IsTemplate cls node.shape) {slot : Nat}
    {source : Source} (hsource : source ∈ g.sources node.id slot) :
    ∃ field, cls.fields[slot]? = some field ∧
      g.admits source.origin node.id slot = true := by
  obtain ⟨link, hlink, hend, rfl, rfl⟩ := mem_sources.1 hsource
  obtain ⟨target, htarget, hid, input, hinput, -⟩ := h.wellFormed.count_input hlink
  obtain rfl := h.wellFormed.node_unique htarget hnode (hid.trans hend)
  have hshape : target.shape.inputs[link.targetSlot]? = some input.spec := by
    rw [Node.shape, List.getElem?_map, hinput]
    rfl
  rw [hclass.inputs, List.getElem?_map] at hshape
  obtain ⟨field, hfield, -⟩ := Option.map_eq_some_iff.1 hshape
  exact ⟨field, hfield, by rw [← hend]; exact h.admitted link hlink⟩

/-- What a slot without native values is written as reads back as its links. -/
theorem indices?_written (h : Wired schema g) {cls : SchemaClass} {node : Node}
    (hnode : node ∈ g.nodes) (hclass : schema.IsTemplate cls node.shape) {position : Nat}
    {field : Field} (hfield : cls.fields[position]? = some field)
    (hnative : (schema.inputOf cls field).intake.native? = none) {value : Json}
    (hvalue : Build.written? g schema (schema.inputOf cls field) (g.content node.id position) =
      some value) :
    ∃ entries, Import.indices? field.type.required.isDict value = some entries ∧
      ((schema.inputOf cls field).intake.collects = true ∨ entries.length ≤ 1) ∧
      ∀ index, (∃ key, (index, key) ∈ entries) ↔
        ∃ source ∈ g.sources node.id position,
          (Build.resolve g schema source.origin).int64? = some index := by
  have hinput : (g.shape? node.id).bind (·.inputs[position]?) =
      some (schema.inputOf cls field) := by
    rw [h.wellFormed.shape?_eq hnode, Option.bind_some, hclass.input_eq hfield]
  exact Build.indices?_written hnative (h.wellFormed.length_sources h.inOrder hinput)
    (fun source hsource => (h.source_spec hsource).1)
    (fun source hsource => h.resolve_source hsource) hvalue

theorem flat_entry (h : Wired schema g) (hregular : schema.Regular) {cls : SchemaClass}
    (hcls : cls ∈ schema.classes) {node : Node} (hnode : node ∈ g.nodes)
    (hclass : schema.IsTemplate cls node.shape) :
    Import.FlatObject schema cls (Build.entry g schema node).members := by
  intro field hmem value hvalue
  obtain ⟨position, hfield⟩ := List.getElem?_of_mem hmem
  have hwritten : Build.written? g schema (schema.inputOf cls field)
      (g.content node.id position) = some value := by
    rw [← Build.get?_entry h.wellFormed h.inOrder hnode hclass (hregular.fields cls hcls) hfield]
    exact hvalue
  cases hnative : (schema.inputOf cls field).intake.native? with
  | some kind =>
      exact Or.inl (by rw [hnative]; rfl)
  | none =>
      obtain ⟨entries, hentries, hcount, -⟩ :=
        h.indices?_written hnode hclass hfield hnative hwritten
      exact Or.inr (Or.inr ⟨entries, hentries, hcount⟩)

/-- The document of a wired graph has the groups of its classes and nothing else. -/
theorem lookup_config (h : Wired schema g) (hregular : schema.Regular) {key : String}
    {value : Json} (hvalue : (Build.ofGraph g schema).config.members.lookup key = some value) :
    ∃ cls ∈ schema.classes, schema.isRoot cls = false ∧ key = schema.keyOfClass cls.name ∧
      value = Build.groupOf g schema cls.name := by
  have hget : (Build.ofGraph g schema).config.get? key = some value := hvalue
  cases hkey : schema.isGroupKey key with
  | true =>
      obtain ⟨cls, hcls, hroot, rfl⟩ := hregular.isGroupKey_iff.1 hkey
      rw [Build.get?_config_of_group hregular h.madeFrom hcls hroot] at hget
      split at hget
      · simp at hget
      · exact ⟨cls, hcls, hroot, rfl, (Option.some.inj hget).symm⟩
  | false =>
      rw [Build.get?_config_of_root hregular h.madeFrom hkey, h.rootNodes_eq_nil] at hget
      simp at hget

theorem elements?_groupOf (g : Graph) (schema : Schema) (className : String) :
    Import.elements? (Build.groupOf g schema className) =
      some ((g.group schema className).map (Build.entry g schema)) :=
  Import.elements?_groupValue schema _ (List.forall_mem_map.2 fun _ _ => rfl)

theorem flat_config (h : Wired schema g) (hregular : schema.Regular) :
    Import.FlatDocument schema (Build.ofGraph g schema).config.members where
  keys := (Json.ascending_ofMembers _).nodup
  elements := by
    rintro ⟨key, name, elements⟩ hentry cls hfind element helement
    obtain ⟨value, hvalue, hgroup⟩ := Import.mem_planned.1 hentry
    have hlookup := (Json.lookup_eq_some_iff (Json.ascending_ofMembers _).nodup).2 hvalue
    obtain ⟨model, hmem, hroot, rfl, rfl⟩ := h.lookup_config hregular hlookup
    obtain ⟨⟨other, hother, hname, hotherRoot⟩, hkey, helements⟩ :=
      (Import.groupElements?_eq_some_iff hregular).1 hgroup
    obtain ⟨hcls, hclsName⟩ := hregular.findClass?_eq_some_iff.1 hfind
    have hsame : model.name = name := by
      rw [← hname] at hkey ⊢
      exact hregular.keyOfClass_inj hmem hroot hother hotherRoot hkey
    rw [elements?_groupOf] at helements
    obtain rfl := Option.some.inj helements
    obtain ⟨node, hnode, rfl⟩ := List.mem_map.1 helement
    obtain ⟨made, hmade, hmadeName, -, hclass⟩ := h.madeFrom.class_of_group hnode
    obtain rfl := hregular.class_unique hmade hcls (hmadeName.trans (hsame.trans hclsName.symm))
    exact ⟨rfl, h.flat_entry hregular hmade (mem_group.1 hnode).1 hclass⟩
  root := by
    intro root hroot field hfield value hvalue hnone
    obtain ⟨cls, hcls, hclsRoot, hkey, rfl⟩ := h.lookup_config hregular hvalue
    have hsome := (Import.groupElements?_eq_some_iff hregular).2
      ⟨⟨cls, hcls, rfl, hclsRoot⟩, hkey, elements?_groupOf g schema cls.name⟩
    simp [hnone] at hsome

theorem elementsOf_config (h : Wired schema g) (hregular : schema.Regular) {cls : SchemaClass}
    (hcls : cls ∈ schema.classes) (hroot : schema.isRoot cls = false) :
    Import.elementsOf schema (Build.ofGraph g schema).config.members cls.name =
      (g.group schema cls.name).map (Build.entry g schema) := by
  have hget := Build.get?_config_of_group hregular h.madeFrom hcls hroot
  rw [Import.elementsOf, show List.lookup _ _ = _ from hget]
  split
  · next hempty =>
      rw [hempty]
      rfl
  · rw [Option.bind_some, elements?_groupOf]
    rfl

end Wired

end Graph

/-! ## Links that come back -/

/-- The index of a node in the group of its class. -/
structure GroupIndex where
  className : String
  index : Nat

namespace Graph

def at? (g : Graph) (schema : Schema) (place : GroupIndex) : Option Node :=
  (g.group schema place.className)[place.index]?

/-- Whether a link leads from the node at one place into a slot of the node at another. -/
def Joined (schema : Schema) (g : Graph) (origin target : GroupIndex) (slot : Nat) : Prop :=
  ∃ link ∈ g.links, (g.at? schema origin).map Node.id = some link.origin ∧
    (g.at? schema target).map Node.id = some link.target ∧ link.targetSlot = slot

instance (schema : Schema) (g : Graph) (origin target : GroupIndex) (slot : Nat) :
    Decidable (g.Joined schema origin target slot) :=
  inferInstanceAs (Decidable (∃ link ∈ g.links, (g.at? schema origin).map Node.id =
    some link.origin ∧ (g.at? schema target).map Node.id = some link.target ∧
      link.targetSlot = slot))

theorem joined_iff {schema : Schema} {g : Graph} {origin target : GroupIndex} {slot : Nat} :
    g.Joined schema origin target slot ↔
      ∃ a b, g.at? schema origin = some a ∧ g.at? schema target = some b ∧
        ∃ source ∈ g.sources b.id slot, source.origin = a.id := by
  constructor
  · rintro ⟨link, hlink, horigin, htarget, rfl⟩
    obtain ⟨a, ha, hid⟩ := Option.map_eq_some_iff.1 horigin
    obtain ⟨b, hb, hend⟩ := Option.map_eq_some_iff.1 htarget
    exact ⟨a, b, ha, hb, link.source, mem_sources.2 ⟨link, hlink, hend.symm, rfl, rfl⟩, hid.symm⟩
  · rintro ⟨a, b, ha, hb, source, hsource, hid⟩
    obtain ⟨link, hlink, hend, hslot, rfl⟩ := mem_sources.1 hsource
    refine ⟨link, hlink, ?_, ?_, hslot⟩
    · rw [ha, Option.map_some, ← hid]
      rfl
    · rw [hb, Option.map_some, hend]

end Graph

/-- Whether a slot is fed by links, and its field names a class. -/
def Schema.Refers (schema : Schema) (owner : String) (slot : Nat) (className : String) : Prop :=
  ∃ cls ∈ schema.classes, cls.name = owner ∧ ∃ field, cls.fields[slot]? = some field ∧
    (schema.inputOf cls field).intake.native? = none ∧ schema.modelOf? field = some className

namespace Import

variable {setting : Setting} {groups : List Group} {g g' : Graph}

theorem mem_filledContent {id : NodeId} {slot : Nat} {input : InputSpec} {field : Field}
    {value : Option Json} {source : Source} :
    source ∈ (filledContent setting groups g id slot input field value).sources ↔
      input.intake.native? = none ∧
        ∃ v entries, value = some v ∧ indices? field.type.required.isDict v = some entries ∧
          ∃ entry ∈ entries, source? setting groups g id slot field entry = some source := by
  cases value with
  | none =>
      simp [filledContent]
  | some v =>
      rw [filledContent]
      cases hnative : input.intake.native? with
      | some kind =>
          simp
      | none =>
          cases hentries : indices? field.type.required.isDict v with
          | none =>
              simp [hentries]
          | some entries =>
              simp [hentries]

def rebuild (setting : Setting) (g : Graph) : Progress :=
  (run setting Graph.empty (Build.ofGraph g setting.schema).config.members).2

/-- The node that is made for a node stands where that one stood. -/
theorem Imported.exists_remade (hwired : Graph.Wired setting.schema g)
    (h : Imported setting (Build.ofGraph g setting.schema).config.members groups g')
    (hregular : setting.schema.Regular) (hserves : setting.registry.Serves setting.schema)
    {cls : SchemaClass} (hcls : cls ∈ setting.schema.classes)
    (hroot : setting.schema.isRoot cls = false) {index : Nat} {node : Node}
    (hnode : (g.group setting.schema cls.name)[index]? = some node) :
    ∃ remade, (g'.group setting.schema cls.name)[index]? = some remade ∧
      (nodesUnder groups (setting.schema.keyOfClass cls.name))[index]? =
        some (remade.id, Build.entry g setting.schema node) := by
  have hkeys := (hwired.flat_config hregular).keys
  have hids := h.ids_group hregular hserves hkeys hcls hroot
  have helements := (h.planned hregular hkeys).elements_nodesUnder hcls hroot
  rw [hwired.elementsOf_config hregular hcls hroot] at helements
  have hid := congrArg (·[index]?) hids
  have hentry := congrArg (·[index]?) helements
  simp only [List.getElem?_map, hnode, Option.map_some] at hid hentry
  obtain ⟨made, hmade, hsame⟩ := Option.map_eq_some_iff.1 hentry
  rw [hmade, Option.map_some] at hid
  obtain ⟨remade, hremade, hremadeId⟩ := Option.map_eq_some_iff.1 hid
  refine ⟨remade, hremade, ?_⟩
  rw [hmade, hremadeId, ← hsame]

section

variable (hwired : Graph.Wired setting.schema g)
  (h : Imported setting (Build.ofGraph g setting.schema).config.members groups g')
  (hregular : setting.schema.Regular) (hserves : setting.registry.Serves setting.schema)

include hwired h hregular hserves

/-- The indices that are written are no larger than the numbers of the nodes. -/
theorem Imported.int64?_resolve (hcount : (g'.nodes.length : Int) ≤ Graph.lastId)
    {cls : SchemaClass} (hcls : cls ∈ setting.schema.classes)
    (hroot : setting.schema.isRoot cls = false) {index : Nat} {node : Node}
    (hnode : (g.group setting.schema cls.name)[index]? = some node) :
    (Build.resolve g setting.schema node.id).int64? = some (index : Int) := by
  obtain ⟨remade, hremade, -⟩ :=
    h.exists_remade hwired hregular hserves hcls hroot hnode
  rw [Build.resolve_eq hwired.wellFormed hnode]
  exact Graph.int64?_index hcount hremade

theorem Imported.content_remade {cls : SchemaClass} (hcls : cls ∈ setting.schema.classes)
    (hroot : setting.schema.isRoot cls = false) {index : Nat} {node remade : Node}
    (hnode : (g.group setting.schema cls.name)[index]? = some node)
    (hremade : (g'.group setting.schema cls.name)[index]? = some remade) {position : Nat}
    {field : Field} (hfield : cls.fields[position]? = some field) :
    g'.content remade.id position =
      filledContent setting groups g' remade.id position (setting.schema.inputOf cls field) field
        (Build.written? g setting.schema (setting.schema.inputOf cls field)
          (g.content node.id position)) := by
  have hplanned := h.planned hregular (hwired.flat_config hregular).keys
  obtain ⟨same, hsame, hmade⟩ := h.exists_remade hwired hregular hserves hcls hroot hnode
  obtain rfl : same = remade := Option.some.inj (hsame.symm.trans hremade)
  obtain ⟨group, hgroup, hname, hmember⟩ :=
    hplanned.mem_nodesUnder hcls hroot (List.mem_of_getElem? hmade)
  have hfind : setting.schema.findClass? group.className = some cls :=
    hregular.findClass?_eq_some_iff.2 ⟨hcls, hname.symm⟩
  have hgrouped := List.mem_of_getElem? hnode
  obtain ⟨made, hmem, hmadeName, -, hclass⟩ := hwired.madeFrom.class_of_group hgrouped
  obtain rfl := hregular.class_unique hmem hcls hmadeName
  rw [h.grouped.filled group hgroup _ hmember made hfind position field hfield,
    ← Build.get?_entry hwired.wellFormed hwired.inOrder (Graph.mem_group.1 hgrouped).1 hclass
      (hregular.fields made hcls) hfield]
  rfl

theorem Imported.mem_sources_remade (hcount : (g'.nodes.length : Int) ≤ Graph.lastId)
    {cls : SchemaClass} (hcls : cls ∈ setting.schema.classes)
    (hroot : setting.schema.isRoot cls = false) {index : Nat} {node remade : Node}
    (hnode : (g.group setting.schema cls.name)[index]? = some node)
    (hremade : (g'.group setting.schema cls.name)[index]? = some remade) {position : Nat}
    {field : Field} (hfield : cls.fields[position]? = some field) {origin : NodeId} :
    (∃ source ∈ g'.sources remade.id position, source.origin = origin) ↔
      (setting.schema.inputOf cls field).intake.native? = none ∧
        ∃ (other : String) (place : Nat) (old : Node),
          (g.group setting.schema other)[place]? = some old ∧
          (∃ source ∈ g.sources node.id position, source.origin = old.id) ∧
          resolve? setting.schema groups field place = some origin ∧
          g'.admits origin remade.id position = true := by
  have hcontent := congrArg SlotContent.sources
    (h.content_remade hwired hregular hserves hcls hroot hnode hremade hfield)
  rw [show g'.sources remade.id position = _ from hcontent]
  have hgrouped := List.mem_of_getElem? hnode
  obtain ⟨made, hmem, hmadeName, -, hclass⟩ := hwired.madeFrom.class_of_group hgrouped
  obtain rfl := hregular.class_unique hmem hcls hmadeName
  simp only [mem_filledContent]
  constructor
  · rintro ⟨source, ⟨hnative, value, entries, hvalue, hentries, entry, hentry, hsource⟩, rfl⟩
    obtain ⟨read, hread, -, hindices⟩ :=
      hwired.indices?_written (Graph.mem_group.1 hgrouped).1 hclass hfield hnative hvalue
    rw [hentries] at hread
    obtain rfl := Option.some.inj hread
    obtain ⟨written, hwritten, hint⟩ := (hindices entry.1).1 ⟨entry.2, hentry⟩
    obtain ⟨-, other, hother, hotherRoot, place, old, hold, hid⟩ := hwired.source_spec hwritten
    rw [← hid, h.int64?_resolve hwired hregular hserves hcount hother hotherRoot hold] at hint
    obtain ⟨origin, hresolve, hadmits⟩ := Option.bind_eq_some_iff.1 hsource
    rw [← Option.some.inj hint] at hresolve
    split at hadmits
    · next hadmitted =>
        obtain rfl := Option.some.inj hadmits
        exact ⟨hnative, other.name, place, old, hold, ⟨written, hwritten, hid.symm⟩, hresolve,
          hadmitted⟩
    · simp at hadmits
  · rintro ⟨hnative, other, place, old, hold, ⟨source, hsource, hid⟩, hresolve, hadmitted⟩
    have hsome : (Build.written? g setting.schema (setting.schema.inputOf made field)
        (g.content node.id position)).isSome :=
      Build.isSome_written? (fun s hs => (hwired.source_spec hs).1) hsource
    obtain ⟨value, hvalue⟩ := Option.isSome_iff_exists.1 hsome
    obtain ⟨entries, hentries, -, hindices⟩ :=
      hwired.indices?_written (Graph.mem_group.1 hgrouped).1 hclass hfield hnative hvalue
    obtain ⟨cls, hcls, rfl, hclsRoot, -⟩ :=
      hwired.madeFrom.class_of_group (List.mem_of_getElem? hold)
    have hint := h.int64?_resolve hwired hregular hserves hcount hcls hclsRoot hold
    obtain ⟨key, hentry⟩ := (hindices place).2 ⟨source, hsource, by rw [hid, hint]⟩
    refine ⟨⟨origin, key⟩, ⟨hnative, value, entries, hvalue, hentries, _, hentry, ?_⟩, rfl⟩
    rw [source?, hresolve, Option.bind_some, if_pos hadmitted]

/-- A link between nodes of classes comes back exactly when its slot refers to its class. -/
theorem Imported.joined_iff (hcount : (g'.nodes.length : Int) ≤ Graph.lastId)
    {origin target : GroupIndex} {slot : Nat}
    (hjoined : g.Joined setting.schema origin target slot) :
    g'.Joined setting.schema origin target slot ↔
      setting.schema.Refers target.className slot origin.className := by
  have hplanned := h.planned hregular (hwired.flat_config hregular).keys
  obtain ⟨a, b, ha, hb, source, hsource, hid⟩ := Graph.joined_iff.1 hjoined
  obtain ⟨originClass, horigin, horiginName, horiginRoot, -⟩ :=
    hwired.madeFrom.class_of_group (List.mem_of_getElem? ha)
  obtain ⟨targetClass, htarget, htargetName, htargetRoot, htargetShape⟩ :=
    hwired.madeFrom.class_of_group (List.mem_of_getElem? hb)
  obtain ⟨field, hfield, hadmits⟩ :=
    hwired.field_of_source (Graph.mem_group.1 (List.mem_of_getElem? hb)).1 htargetShape hsource
  rw [hid] at hadmits
  rw [Graph.at?, ← horiginName] at ha
  rw [Graph.at?, ← htargetName] at hb
  obtain ⟨a', ha', hmadeA⟩ :=
    h.exists_remade hwired hregular hserves horigin horiginRoot ha
  obtain ⟨b', hb', -⟩ := h.exists_remade hwired hregular hserves htarget htargetRoot hb
  have hremade : g'.Joined setting.schema origin target slot ↔
      ∃ source ∈ g'.sources b'.id slot, source.origin = a'.id := by
    rw [Graph.joined_iff, Graph.at?, Graph.at?, ← horiginName, ← htargetName, ha', hb']
    simp
  have hrefers : setting.schema.Refers target.className slot origin.className ↔
      (setting.schema.inputOf targetClass field).intake.native? = none ∧
        setting.schema.modelOf? field = some origin.className := by
    constructor
    · rintro ⟨cls, hcls, hname, other, hother, hnamed⟩
      obtain rfl := hregular.class_unique hcls htarget (hname.trans htargetName.symm)
      rw [hfield] at hother
      obtain rfl := Option.some.inj hother
      exact hnamed
    · exact fun hnamed => ⟨targetClass, htarget, htargetName, field, hfield, hnamed⟩
  rw [hremade, hrefers,
    h.mem_sources_remade hwired hregular hserves hcount htarget htargetRoot hb hb' hfield]
  refine and_congr_right fun _ => ?_
  constructor
  · rintro ⟨-, place, -, -, -, hresolve, -⟩
    cases hmodel : setting.schema.modelOf? field with
    | none =>
        simp [resolve?, hmodel] at hresolve
    | some name =>
        obtain ⟨model, hmem, rfl, hroot⟩ :=
          hregular.class_of_modelOf? htarget (List.mem_of_getElem? hfield) hmodel
        rw [hplanned.resolve?_eq hmodel, ← List.getElem?_map,
          ← h.ids_group hregular hserves hplanned.keys hmem hroot] at hresolve
        obtain ⟨node, hnode, hsame⟩ := List.mem_map.1 (List.mem_of_getElem? hresolve)
        have hgrouped := List.mem_of_getElem? ha'
        obtain rfl := h.wellFormed.node_unique (Graph.mem_group.1 hnode).1
          (Graph.mem_group.1 hgrouped).1 hsame
        rw [Graph.class_of_group_eq hnode hgrouped, horiginName]
  · intro hmodel
    refine ⟨originClass.name, origin.index, a, ha, ⟨source, hsource, hid⟩, ?_, ?_⟩
    · rw [← horiginName] at hmodel
      rw [hplanned.resolve?_eq hmodel, hmadeA]
      rfl
    · have hremadeA := List.mem_of_getElem? ha'
      have hremadeB := List.mem_of_getElem? hb'
      rw [hwired.madeFrom.admits_group hwired.wellFormed hregular (List.mem_of_getElem? ha) htarget
        (List.mem_of_getElem? hb) hfield] at hadmits
      rw [(h.madeFrom hregular hserves).admits_group h.wellFormed hregular hremadeA htarget
        hremadeB hfield, hadmits]

end

/--
In a graph that is wired from a schema, a link comes back from its document exactly when
its slot is fed by links only and its field names the class that the link comes from.
-/
theorem joined_rebuild_iff (hregular : setting.schema.Regular)
    (hserves : setting.registry.Serves setting.schema) {edits : List Edit}
    (hedits : ∀ edit ∈ edits, edit.Wires setting.schema)
    (hnumbers : Edit.RunFits Graph.empty edits)
    (hfits : (rebuild setting (Edit.run Graph.empty edits)).Fits) {origin target : GroupIndex}
    {slot : Nat}
    (hjoined : (Edit.run Graph.empty edits).Joined setting.schema origin target slot) :
    (rebuild setting (Edit.run Graph.empty edits)).graph.Joined setting.schema
        origin target slot ↔
      setting.schema.Refers target.className slot origin.className := by
  have hwired := (Graph.Wired.empty setting.schema).run hedits hnumbers
  obtain ⟨groups, himported⟩ :=
    run_contents hregular hserves (hwired.flat_config hregular) hfits
  exact himported.joined_iff hwired hregular hserves hfits.1 hjoined

/-- Two classes, and one whose field takes nodes of either. -/
def chooserSource : String :=
  "class A:\n  n: int\nclass B:\n  n: int\nclass C:\n  x: Union[A, B, Index]\n"

def numberClass (name : String) : SchemaClass :=
  ⟨name, [⟨"n", .named "int", "int", ""⟩]⟩

def chooserClass : SchemaClass :=
  ⟨"C", [⟨"x", .union [.named "A", .named "B", .named "Index"], "Union[A, B, Index]", ""⟩]⟩

def chooser : Schema :=
  Schema.ofClasses "s" "Index" "" [numberClass "A", numberClass "B", chooserClass]

theorem parseClasses_chooserSource :
    (Schema.parseClasses chooserSource).1 = [numberClass "A", numberClass "B", chooserClass] := by
  with_unfolding_all rfl

theorem regular_chooser : chooser.Regular where
  accepted :=
    Schema.accepted_ofClasses parseClasses_chooserSource (by decide) (by decide) (by decide)
      (List.cons_ne_nil _ _) fun hroot => absurd rfl hroot
  fields := by
    decide
  unrooted := by
    intro cls _ field _ root hroot
    have hnone : chooser.rootClass? = none := rfl
    simp [hnone] at hroot
  keys := by
    decide +kernel

/-- An import of the three classes where nothing else is registered. -/
def chooserSetting : Setting :=
  ⟨chooser, Registry.initial.add chooser 1, ImportLayout.standard⟩

/-- One node takes a node of the first class, another takes one of the second. -/
def chooserRun : List Edit :=
  [ .addNode (.ofClass chooser 1 1 (numberClass "A")) 0.0 0.0
  , .addNode (.ofClass chooser 1 2 (numberClass "B")) 0.0 0.0
  , .addNode (.ofClass chooser 1 3 chooserClass) 0.0 0.0
  , .addNode (.ofClass chooser 1 3 chooserClass) 0.0 0.0
  , .connect 1 0 3 0
  , .connect 2 0 4 0 ]

theorem serves_chooserSetting : chooserSetting.registry.Serves chooser :=
  Registry.serves_add (by decide) (by decide)

theorem wires_chooserRun : ∀ edit ∈ chooserRun, edit.Wires chooser := by
  have hnode : ∀ (cls : SchemaClass) (classId : Nat), cls ∈ chooser.classes →
      (Edit.addNode (.ofClass chooser 1 classId cls) 0.0 0.0).Wires chooser :=
    fun cls classId hcls => .addNode 0.0 0.0 hcls rfl ⟨1, classId, rfl⟩
  simp only [chooserRun, List.forall_mem_cons]
  exact ⟨hnode _ 1 (by simp [chooser, Schema.ofClasses]),
    hnode _ 2 (by simp [chooser, Schema.ofClasses]),
    hnode _ 3 (by simp [chooser, Schema.ofClasses]),
    hnode _ 3 (by simp [chooser, Schema.ofClasses]),
    .connect 1 0 3 0, .connect 2 0 4 0, fun _ hnone => absurd hnone List.not_mem_nil⟩

theorem runFits_chooserRun : Edit.RunFits Graph.empty chooserRun := by
  refine ⟨⟨?_, ?_⟩, ⟨?_, ?_⟩, ⟨?_, ?_⟩, ⟨?_, ?_⟩, ⟨?_, ?_⟩, ⟨?_, ?_⟩, trivial⟩ <;>
    decide +kernel

theorem fits_rebuild_chooser :
    (rebuild chooserSetting (Edit.run Graph.empty chooserRun)).Fits :=
  ⟨by decide +kernel, by decide +kernel⟩

/-- The link from the first class comes back. -/
theorem joined_rebuild_chooser :
    (Edit.run Graph.empty chooserRun).Joined chooser ⟨"A", 0⟩ ⟨"C", 0⟩ 0 ∧
      (rebuild chooserSetting (Edit.run Graph.empty chooserRun)).graph.Joined chooser
        ⟨"A", 0⟩ ⟨"C", 0⟩ 0 := by
  have hjoined : (Edit.run Graph.empty chooserRun).Joined chooser ⟨"A", 0⟩ ⟨"C", 0⟩ 0 := by
    decide +kernel
  have hregular : chooserSetting.schema.Regular := regular_chooser
  refine ⟨hjoined, (joined_rebuild_iff hregular serves_chooserSetting wires_chooserRun
    runFits_chooserRun fits_rebuild_chooser hjoined).2 ?_⟩
  exact ⟨chooserClass, by simp [chooserSetting, chooser, Schema.ofClasses], rfl, _, rfl,
    by decide +kernel, by decide +kernel⟩

/-- The link from the second class does not come back. -/
theorem not_joined_rebuild_chooser :
    chooser.Regular ∧ chooser.rootClass? = none ∧ chooserSetting.registry.Serves chooser ∧
      (∀ edit ∈ chooserRun, edit.Wires chooser) ∧ Edit.RunFits Graph.empty chooserRun ∧
      (rebuild chooserSetting (Edit.run Graph.empty chooserRun)).Fits ∧
      (Edit.run Graph.empty chooserRun).Joined chooser ⟨"B", 0⟩ ⟨"C", 1⟩ 0 ∧
      ¬ (rebuild chooserSetting (Edit.run Graph.empty chooserRun)).graph.Joined chooser
        ⟨"B", 0⟩ ⟨"C", 1⟩ 0 := by
  refine ⟨regular_chooser, rfl, serves_chooserSetting, wires_chooserRun, runFits_chooserRun,
    fits_rebuild_chooser, ?_, ?_⟩ <;> decide +kernel

end Import

end SlotGraph
