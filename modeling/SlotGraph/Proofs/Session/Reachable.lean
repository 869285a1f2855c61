import SlotGraph.Proofs.Graph.Reload
import SlotGraph.Proofs.Schema.Declared
import SlotGraph.Proofs.Schema.Templates
import SlotGraph.Proofs.Session.Calls

/-!
# Sessions that a host can reach

Whatever a host does, the registry has the value templates and those of the registered
schemas, each under a schema and a class of its own, and every node of the graph goes back
to one of them.  So its graph can be read back from its document at any time.
-/

namespace SlotGraph

namespace Session

/--
The sessions that calls lead to, as long as the counters of the graph have the numbers drawn.
They are those of the program up to `2 ^ 32 - 1` registrations, where its schema numbers run
over; no rule bounds the registrations, as `nextSchemaId` has no bound.
-/
inductive Reachable : Session → Prop where
  | start (layout : ImportLayout) : Reachable (Session.start layout)
  | call {s : Session} {call : Call} : Reachable s → call.Permitted s →
      Edit.RunFits s.graph (call.edits s) → Reachable (call.apply s)

/-- What a registered schema brings along. -/
structure Sized (registered : RegisteredSchema) : Prop where
  accepted : registered.schema.Accepted
  named : registered.schema.name ≠ "" ∧ registered.schema.name ≠ NodeTemplate.nativeSchema
  fields : ∀ cls ∈ registered.schema.classes, cls.fields.length ≤ 2 ^ 64

/-- Whether the registry lists the schemas of a session, each under a number of its own. -/
structure Catalogued (s : Session) : Prop where
  templates : s.registry.templates = NodeTemplate.valueTemplates ++
    s.schemas.flatMap fun registered => NodeTemplate.ofSchema registered.schema registered.id
  names_distinct : (s.schemas.map fun registered => registered.schema.name).Nodup
  /-- Schemas stand in the order in which they were registered. -/
  ascending : (s.schemas.map RegisteredSchema.id).Pairwise (· < ·)
  numbered : ∀ registered ∈ s.schemas, 0 < registered.id ∧ registered.id < s.nextSchemaId
  counting : 0 < s.nextSchemaId
  sized : ∀ registered ∈ s.schemas, Sized registered

/-- What holds of every session that a host reaches. -/
structure Sound (s : Session) : Prop where
  catalogued : s.Catalogued
  wellFormed : s.graph.WellFormed
  held : s.graph.Held
  built : s.graph.BuiltFrom s.registry

variable {s s' : Session}

/-! ## The registry -/

namespace Catalogued

theorem congr (h : s.Catalogued) (hschemas : s'.schemas = s.schemas)
    (hnext : s'.nextSchemaId = s.nextSchemaId) (hregistry : s'.registry = s.registry) :
    s'.Catalogued where
  templates := by rw [hregistry, hschemas, h.templates]
  names_distinct := hschemas ▸ h.names_distinct
  ascending := hschemas ▸ h.ascending
  numbered := by rw [hschemas, hnext]; exact h.numbered
  counting := hnext ▸ h.counting
  sized := hschemas ▸ h.sized

theorem numbers_distinct (h : s.Catalogued) : (s.schemas.map RegisteredSchema.id).Nodup :=
  h.ascending.imp Nat.ne_of_lt

/-- A template carries the number zero, or that of the registered schema it is from. -/
theorem mem_templates (h : s.Catalogued) {template : NodeTemplate}
    (htemplate : template ∈ s.registry.templates) :
    template ∈ NodeTemplate.valueTemplates ∨ ∃ registered ∈ s.schemas,
      ∃ cls ∈ registered.schema.classes, ∃ position,
        template = NodeTemplate.ofClass registered.schema registered.id position cls := by
  rw [h.templates, List.mem_append, List.mem_flatMap] at htemplate
  exact htemplate.imp_right fun ⟨registered, hregistered, hmem⟩ =>
    ⟨registered, hregistered, NodeTemplate.mem_ofSchema hmem⟩

theorem templates_distinct (h : s.Catalogued) :
    (s.registry.templates.map Registry.nameOf).Nodup := by
  have hvalue : (NodeTemplate.valueTemplates.map Registry.nameOf).Nodup := by
    decide
  have hschema : ∀ registered ∈ s.schemas,
      ((NodeTemplate.ofSchema registered.schema registered.id).map Registry.nameOf).Nodup := by
    intro registered hregistered
    have hnames := (h.sized registered hregistered).accepted.declares.distinct
    rw [← NodeTemplate.classNames_ofClassesFrom registered.schema.classes 1] at hnames
    refine List.Nodup.of_map Prod.snd ?_
    rwa [List.map_map]
  have hofSchema : ∀ registered : RegisteredSchema, ∀ name ∈
      (NodeTemplate.ofSchema registered.schema registered.id).map Registry.nameOf,
      name.1 = registered.schema.name := by
    intro registered name hname
    obtain ⟨template, htemplate, rfl⟩ := List.mem_map.1 hname
    exact NodeTemplate.schemaName_of_mem_ofSchema htemplate
  rw [h.templates, List.map_append, List.map_flatMap, List.nodup_append]
  refine ⟨hvalue, List.nodup_flatMap.2 ⟨hschema, ?_⟩, ?_⟩
  · refine (List.pairwise_map.1 h.names_distinct).imp fun hne => ?_
    intro name hfirst hsecond
    exact hne ((hofSchema _ name hfirst).symm.trans (hofSchema _ name hsecond))
  · rintro name hname other hother rfl
    obtain ⟨registered, hregistered, hmem⟩ := List.mem_flatMap.1 hother
    have hnative : name.1 = NodeTemplate.nativeSchema := by
      obtain ⟨template, htemplate, rfl⟩ := List.mem_map.1 hname
      exact (NodeTemplate.of_mem_valueTemplates template htemplate).2.1
    exact (h.sized registered hregistered).named.2
      ((hofSchema registered name hmem).symm.trans hnative)

theorem find?_eq_some (h : s.Catalogued) {template : NodeTemplate}
    (htemplate : template ∈ s.registry.templates) :
    s.registry.find? template.schemaName template.className = some template :=
  Registry.find?_eq_some h.templates_distinct htemplate

theorem start (layout : ImportLayout) : (Session.start layout).Catalogued where
  templates := by simp [Session.start, Registry.initial]
  names_distinct := List.nodup_nil
  ascending := .nil
  numbered := by simp [Session.start]
  counting := Nat.one_pos
  sized := by simp [Session.start]

theorem schemaId_lt (h : s.Catalogued) {template : NodeTemplate}
    (htemplate : template ∈ s.registry.templates) : template.key.schemaId < s.nextSchemaId := by
  rcases h.mem_templates htemplate with hvalue | ⟨registered, hregistered, cls, -, position, rfl⟩
  · rw [(NodeTemplate.of_mem_valueTemplates template hvalue).1]
    exact h.counting
  · exact (h.numbered registered hregistered).2

theorem remove_next (h : s.Catalogued) : s.registry.remove s.nextSchemaId = s.registry := by
  rw [Registry.remove, if_neg (Nat.ne_of_gt h.counting)]
  congr 1
  rw [List.filter_eq_self]
  intro template htemplate
  simpa using Nat.ne_of_lt (h.schemaId_lt htemplate)

theorem register (h : s.Catalogued) {name source indexType rootType : String}
    (hsource : source.length < 2 ^ 64) :
    (s.register name source indexType rootType).2.Catalogued := by
  unfold Session.register
  split
  · exact h.congr rfl rfl rfl
  · next issues schema hread =>
      have haccepted : (s.readSchema name source indexType rootType).2 = .ok schema := by
        rw [hread]
      obtain ⟨hname, hreserved, hfree, -, index, hschema⟩ := Schema.readSchema_eq_ok haccepted
      have hnamed : schema.name = name := by
        rw [hschema]
        rfl
      have hfresh : ∀ registered ∈ s.schemas, registered.schema.name ≠ schema.name := by
        rw [findSchema?, Option.map_eq_none_iff, List.find?_eq_none] at hfree
        intro registered hregistered
        simpa [hnamed] using hfree registered hregistered
      have hsized : Sized ⟨s.nextSchemaId, schema⟩ :=
        { accepted := ⟨s, name, source, indexType, rootType, haccepted⟩
          named := by
            rw [hnamed]
            exact ⟨hname, hreserved⟩
          fields := by
            intro cls hcls
            rw [hschema] at hcls
            exact (Schema.length_fields_le hcls).trans hsource }
      exact
        { templates := by
            show (s.registry.add schema s.nextSchemaId).templates = _
            rw [Registry.add, h.remove_next, h.templates, List.flatMap_append, List.append_assoc]
            simp
          names_distinct := by
            rw [List.map_append, List.nodup_append]
            refine ⟨h.names_distinct, List.nodup_singleton _, ?_⟩
            rintro old hold new hnew rfl
            obtain ⟨registered, hregistered, rfl⟩ := List.mem_map.1 hold
            exact hfresh registered hregistered (List.mem_singleton.1 hnew)
          ascending := by
            rw [List.map_append, List.pairwise_append]
            refine ⟨h.ascending, List.pairwise_singleton _ _, ?_⟩
            intro old hold new hnew
            obtain ⟨registered, hregistered, rfl⟩ := List.mem_map.1 hold
            rw [List.mem_singleton.1 hnew]
            exact (h.numbered registered hregistered).2
          numbered := by
            intro registered hregistered
            rcases List.mem_append.1 hregistered with hold | hnew
            · obtain ⟨hpositive, hlt⟩ := h.numbered registered hold
              exact ⟨hpositive, Nat.lt_succ_of_lt hlt⟩
            · rw [List.mem_singleton.1 hnew]
              exact ⟨h.counting, Nat.lt_succ_self _⟩
          counting := Nat.succ_pos _
          sized := by
            intro registered hregistered
            rcases List.mem_append.1 hregistered with hold | hnew
            · exact h.sized registered hold
            · exact List.mem_singleton.1 hnew ▸ hsized }

/-- The templates of a schema are known by its number as well as by its name. -/
theorem schemaId_bne (h : s.Catalogued) {removed : RegisteredSchema}
    (hremoved : removed ∈ s.schemas) {template : NodeTemplate}
    (htemplate : template ∈ s.registry.templates) :
    (template.key.schemaId != removed.id) = (template.schemaName != removed.schema.name) := by
  -- Schemas have distinct numbers and distinct names, so the two tests single out the same one.
  rcases h.mem_templates htemplate with hvalue | ⟨registered, hregistered, cls, -, position, rfl⟩
  · obtain ⟨hzero, hnative, -⟩ := NodeTemplate.of_mem_valueTemplates template hvalue
    rw [hzero, hnative, bne_iff_ne.2 (Nat.ne_of_lt (h.numbered removed hremoved).1),
      bne_iff_ne.2 (h.sized removed hremoved).named.2.symm]
  · show (registered.id != removed.id) = (registered.schema.name != removed.schema.name)
    by_cases hsame : registered = removed
    · rw [hsame, bne_self_eq_false, bne_self_eq_false]
    · have hid : registered.id ≠ removed.id := fun heq =>
        hsame (List.inj_on_of_nodup_map h.numbers_distinct hregistered hremoved heq)
      have hname : registered.schema.name ≠ removed.schema.name := fun heq =>
        hsame (List.inj_on_of_nodup_map h.names_distinct hregistered hremoved heq)
      rw [bne_iff_ne.2 hid, bne_iff_ne.2 hname]

theorem templates_remove (h : s.Catalogued) {removed : RegisteredSchema}
    (hremoved : removed ∈ s.schemas) :
    (s.registry.remove removed.id).templates =
      s.registry.templates.filter fun template => template.schemaName != removed.schema.name := by
  rw [Registry.remove, if_neg (Nat.ne_of_gt (h.numbered removed hremoved).1)]
  exact List.filter_congr fun template htemplate => h.schemaId_bne hremoved htemplate

theorem filter_flatMap_ofSchema (schemas : List RegisteredSchema) (name : String) :
    (schemas.flatMap fun registered =>
        NodeTemplate.ofSchema registered.schema registered.id).filter
        (fun template => template.schemaName != name) =
      (schemas.filter fun registered => registered.schema.name != name).flatMap
        fun registered => NodeTemplate.ofSchema registered.schema registered.id := by
  induction schemas with
  | nil =>
      rfl
  | cons first rest ih =>
      rw [List.flatMap_cons, List.filter_append, ih, List.filter_cons]
      have hfirst : ∀ template ∈ NodeTemplate.ofSchema first.schema first.id,
          template.schemaName = first.schema.name :=
        fun _ => NodeTemplate.schemaName_of_mem_ofSchema
      by_cases hname : first.schema.name = name
      · rw [if_neg (by simp [hname]), List.filter_eq_nil_iff.2, List.nil_append]
        intro template htemplate
        simp [hfirst template htemplate, hname]
      · rw [if_pos (by simp [hname]), List.filter_eq_self.2, List.flatMap_cons]
        intro template htemplate
        simp [hfirst template htemplate, hname]

theorem removeSchema (h : s.Catalogued) (name : String) :
    (s.removeSchema name).2.Catalogued := by
  unfold Session.removeSchema
  split
  · next removed hfind =>
      have hremoved := List.mem_of_find?_eq_some hfind
      obtain rfl : removed.schema.name = name := by
        simpa using List.find?_some hfind
      have hvalue : NodeTemplate.valueTemplates.filter
          (fun template => template.schemaName != removed.schema.name) =
            NodeTemplate.valueTemplates := by
        rw [List.filter_eq_self]
        intro template htemplate
        rw [(NodeTemplate.of_mem_valueTemplates template htemplate).2.1]
        exact bne_iff_ne.2 (h.sized removed hremoved).named.2.symm
      have hkept : ∀ registered ∈ s.schemas.filter
          (fun other => other.schema.name != removed.schema.name), registered ∈ s.schemas :=
        fun _ hmem => (List.mem_filter.1 hmem).1
      exact
        { templates := by
            show (s.registry.remove removed.id).templates = _
            rw [h.templates_remove hremoved, h.templates, List.filter_append, hvalue,
              filter_flatMap_ofSchema]
          names_distinct := h.names_distinct.sublist (List.filter_sublist.map _)
          ascending := h.ascending.sublist (List.filter_sublist.map _)
          numbered := fun registered hmem => h.numbered registered (hkept registered hmem)
          counting := h.counting
          sized := fun registered hmem => h.sized registered (hkept registered hmem) }
  · exact h

theorem apply (h : s.Catalogued) {call : Call} (hpermitted : call.Permitted s) :
    (call.apply s).Catalogued := by
  have hsame := catalogue_apply s call
  cases call with
  | register name source indexType rootType =>
      exact h.register hpermitted
  | removeSchema name =>
      exact h.removeSchema name
  | _ =>
      obtain ⟨hschemas, hnext, hregistry⟩ := hsame rfl
      exact h.congr hschemas hnext hregistry

theorem template_bounds (h : s.Catalogued) {template : NodeTemplate}
    (htemplate : template ∈ s.registry.templates) :
    (template.schemaName ≠ "" ∧ template.className ≠ "") ∧
      template.inputs.length ≤ 2 ^ 64 ∧ template.outputs.length = 1 := by
  rcases h.mem_templates htemplate with
    hvalue | ⟨registered, hregistered, cls, hcls, position, rfl⟩
  · obtain ⟨-, hnative, hclass, hinputs, houtputs⟩ :=
      NodeTemplate.of_mem_valueTemplates template hvalue
    exact ⟨⟨hnative ▸ by decide, hclass⟩, hinputs ▸ Nat.zero_le _, houtputs⟩
  · have hsized := h.sized registered hregistered
    refine ⟨⟨hsized.named.1, hsized.accepted.declares.named cls hcls⟩, ?_, rfl⟩
    show (cls.fields.map _).length ≤ 2 ^ 64
    rw [List.length_map]
    exact hsized.fields cls hcls

end Catalogued

/-! ## The nodes -/

/--
The registry of a session keeps the templates that the nodes left go back to, provided
that a schema is removed from a graph without two nodes of one number.
-/
theorem Catalogued.built_apply (h : s.Catalogued) (hbuilt : s.graph.BuiltFrom s.registry)
    {call : Call} (hpermitted : call.Permitted s)
    (hdistinct : ∀ name, call = .removeSchema name → (s.graph.nodes.map Node.id).Nodup) :
    (call.apply s).graph.BuiltFrom (call.apply s).registry := by
  have hrun : (call.apply s).graph.BuiltFrom s.registry := by
    rw [graph_apply]
    exact hbuilt.run fun edit hedit => (uses_edits hpermitted edit hedit).1
  -- Only these two calls change the registry: one adds to it, the other takes away what no
  -- node that is left goes back to.
  have hsame := catalogue_apply s call
  cases call with
  | register name source indexType rootType =>
      rw [Call.apply, Session.register] at hrun ⊢
      split
      · exact hbuilt
      · show s.graph.BuiltFrom (s.registry.add _ s.nextSchemaId)
        refine hbuilt.mono fun template htemplate => ?_
        rw [Registry.add, h.remove_next]
        exact List.mem_append_left _ htemplate
  | removeSchema name =>
      rw [Call.apply, Session.removeSchema] at hrun ⊢
      split at hrun
      · next removed hfind =>
          obtain rfl : removed.schema.name = name := by
            simpa using List.find?_some hfind
          intro node hnode
          obtain ⟨template, htemplate, hmade⟩ := hrun node hnode
          refine ⟨template, ?_, hmade⟩
          show template ∈ (s.registry.remove removed.id).templates
          rw [h.templates_remove (List.mem_of_find?_eq_some hfind)]
          refine List.mem_filter.2 ⟨htemplate, bne_iff_ne.2 ?_⟩
          rw [← hmade.schemaName]
          exact mem_withoutNodes (hdistinct _ rfl) hnode
      · exact hrun
  | _ =>
      rw [(hsame rfl).2.2]
      exact hrun

theorem Sound.start (layout : ImportLayout) : (Session.start layout).Sound where
  catalogued := Catalogued.start layout
  wellFormed := Graph.WellFormed.empty
  held := Graph.Held.empty
  built := fun _ hnode => absurd hnode List.not_mem_nil

/-- Calls keep a session sound as long as the counters have the numbers drawn. -/
theorem Sound.apply (h : s.Sound) {call : Call} (hpermitted : call.Permitted s)
    (hfits : Edit.RunFits s.graph (call.edits s)) : (call.apply s).Sound where
  catalogued := h.catalogued.apply hpermitted
  wellFormed := by
    rw [graph_apply]
    exact h.wellFormed.run hfits
  held := by
    rw [graph_apply]
    exact h.held.run h.wellFormed hfits fun edit hedit => (uses_edits hpermitted edit hedit).2
  built := h.catalogued.built_apply h.built hpermitted fun _ _ => h.wellFormed.nodes_distinct

theorem Reachable.sound (h : s.Reachable) : s.Sound := by
  induction h with
  | start layout =>
      exact Sound.start layout
  | call _ hpermitted hfits ih =>
      exact ih.apply hpermitted hfits

def after (s : Session) (calls : List Call) : Session :=
  calls.foldl Call.apply s

def Allows (s : Session) : List Call → Prop
  | [] => True
  | call :: rest =>
      (call.Permitted s ∧ Edit.RunFits s.graph (call.edits s)) ∧ (call.apply s).Allows rest

theorem Reachable.after (h : s.Reachable) {calls : List Call} (hallows : s.Allows calls) :
    (s.after calls).Reachable := by
  induction calls generalizing s with
  | nil =>
      exact h
  | cons call rest ih =>
      exact ih (h.call hallows.1.1 hallows.1.2) hallows.2

/-- All that there is to say of the graph of a session is in its document. -/
theorem Sound.storable (h : s.Sound) : s.graph.Storable s.registry where
  wellFormed := h.wellFormed
  held := h.held
  findable := by
    intro node hnode
    obtain ⟨template, htemplate, hmade⟩ := h.built node hnode
    obtain ⟨hnamed, hinputs, houtputs⟩ := h.catalogued.template_bounds htemplate
    have hfound := h.catalogued.find?_eq_some htemplate
    rw [← hmade.schemaName, ← hmade.className] at hnamed hfound
    rw [← hmade.inputs, List.length_map] at hinputs
    rw [← hmade.outputs, List.length_map] at houtputs
    exact ⟨hnamed, ⟨template, hfound, hmade⟩, hinputs, houtputs ▸ by decide⟩

end Session

end SlotGraph
