import SlotGraph.Proofs.Session.Reachable

/-!
# Schemas, templates and nodes stay aligned

A session keeps its schemas, the templates of their classes and the nodes made from these
in three places, which different calls change.  Whatever the calls, the templates are those
of the schemas that are registered, and it does not matter whether one is looked up by
number, by name or by title.  A node shows what the template of its class says, slot by
slot, and goes with its schema: removing a schema takes its nodes along by their numbers,
which misses one only where two nodes share a number.
-/

namespace SlotGraph

/-! ## Titles and numbers of templates -/

namespace NodeTemplate

theorem takeWhile_of_dotless {name : String} (h : '.' ∉ name.toList) (rest : List Char) :
    (name.toList.reverse ++ '.' :: rest).takeWhile (fun c => c != '.') =
      name.toList.reverse := by
  rw [List.takeWhile_append_of_pos fun c hc => bne_iff_ne.2 ?_]
  · simp
  · rintro rfl
    exact h (List.mem_reverse.1 hc)

theorem titleOf_inj {schemaName schemaName' className className' : String}
    (hdotless : '.' ∉ className.toList) (hdotless' : '.' ∉ className'.toList)
    (h : titleOf schemaName className = titleOf schemaName' className') :
    schemaName = schemaName' ∧ className = className' := by
  have hback : className.toList.reverse ++ '.' :: schemaName.toList.reverse =
      className'.toList.reverse ++ '.' :: schemaName'.toList.reverse := by
    have hchars := congrArg (fun title => title.toList.reverse) h
    simpa [titleOf] using hchars
  have hclass : className.toList.reverse = className'.toList.reverse := by
    rw [← takeWhile_of_dotless hdotless, hback, takeWhile_of_dotless hdotless']
  rw [hclass] at hback
  have hschema := (List.cons.inj (List.append_cancel_left hback)).2
  exact ⟨String.toList_injective (List.reverse_injective hschema),
    String.toList_injective (List.reverse_injective hclass)⟩

theorem keys_ofClassesFrom (schema : Schema) (schemaId : Nat) (classes : List SchemaClass)
    (classId : Nat) :
    (ofClassesFrom schema schemaId classId classes).map key =
      (List.range' classId classes.length).map (TemplateKey.mk schemaId) := by
  induction classes generalizing classId with
  | nil =>
      rfl
  | cons first rest ih =>
      rw [ofClassesFrom, List.map_cons, ih, List.length_cons, List.range'_succ, List.map_cons]
      rfl

theorem keys_ofSchema_nodup (schema : Schema) (schemaId : Nat) :
    ((ofSchema schema schemaId).map key).Nodup := by
  rw [ofSchema, keys_ofClassesFrom]
  exact List.Nodup.map (fun _ _ h => (TemplateKey.mk.inj h).2) List.nodup_range'

theorem classNames_valueTemplates : ∀ template ∈ valueTemplates,
    '.' ∉ template.className.toList := by
  decide

end NodeTemplate

theorem Text.IsIdentifier.dotless {name : String} (h : IsIdentifier name) :
    '.' ∉ name.toList := fun hdot =>
  absurd (h.2 '.' hdot) (by decide)

namespace Session

variable {s : Session}

/-! ## The registry -/

/-- What the registry of a session lists, and that every template is found under any of its
names. -/
structure Listed (s : Session) : Prop where
  templates : s.registry.templates = NodeTemplate.valueTemplates ++
    s.schemas.flatMap fun registered => NodeTemplate.ofSchema registered.schema registered.id
  /-- Schemas stand in the order in which they were registered. -/
  ascending : (s.schemas.map RegisteredSchema.id).Pairwise (· < ·)
  numbered : ∀ registered ∈ s.schemas, 0 < registered.id ∧ registered.id < 2 ^ 32
  schemas_distinct : s.schemaNames.Nodup
  named : ∀ name ∈ s.schemaNames, name ≠ "" ∧ name ≠ NodeTemplate.nativeSchema
  keys_distinct : (s.registry.templates.map NodeTemplate.key).Nodup
  classes_distinct : (s.registry.templates.map Registry.nameOf).Nodup
  titles_distinct : s.registry.titles.Nodup
  found : ∀ template ∈ s.registry.templates,
    s.registry.findKey? template.key = some template ∧
      s.registry.find? template.schemaName template.className = some template ∧
      s.registry.findTitle? template.title = some template

namespace Catalogued

theorem dotless (h : s.Catalogued) {template : NodeTemplate}
    (htemplate : template ∈ s.registry.templates) : '.' ∉ template.className.toList := by
  rcases h.mem_templates htemplate with
    hvalue | ⟨registered, hregistered, cls, hcls, position, rfl⟩
  · exact NodeTemplate.classNames_valueTemplates template hvalue
  · exact ((h.sized registered hregistered).accepted.isIdentifier cls hcls).dotless

theorem titles_distinct (h : s.Catalogued) : s.registry.titles.Nodup := by
  refine List.Nodup.map_on ?_ (List.Nodup.of_map _ h.templates_distinct)
  intro template htemplate other hother htitle
  obtain ⟨hschema, hclass⟩ :=
    NodeTemplate.titleOf_inj (h.dotless htemplate) (h.dotless hother) htitle
  exact List.inj_on_of_nodup_map h.templates_distinct htemplate hother
    (Prod.ext hschema hclass)

theorem keys_distinct (h : s.Catalogued) :
    (s.registry.templates.map NodeTemplate.key).Nodup := by
  have hnumber : ∀ registered : RegisteredSchema, ∀ key ∈
      (NodeTemplate.ofSchema registered.schema registered.id).map NodeTemplate.key,
      key.schemaId = registered.id := by
    intro registered key hkey
    obtain ⟨template, htemplate, rfl⟩ := List.mem_map.1 hkey
    obtain ⟨cls, -, position, rfl⟩ := NodeTemplate.mem_ofSchema htemplate
    rfl
  rw [h.templates, List.map_append, List.map_flatMap, List.nodup_append]
  refine ⟨by decide, List.nodup_flatMap.2 ⟨?_, ?_⟩, ?_⟩
  · intro registered _
    exact NodeTemplate.keys_ofSchema_nodup registered.schema registered.id
  · refine (List.pairwise_map.1 h.ascending).imp fun hlt key hfirst hsecond => ?_
    exact Nat.ne_of_lt hlt ((hnumber _ key hfirst).symm.trans (hnumber _ key hsecond))
  · rintro key hvalue other hother rfl
    obtain ⟨template, htemplate, rfl⟩ := List.mem_map.1 hvalue
    obtain ⟨registered, hregistered, hmem⟩ := List.mem_flatMap.1 hother
    have hzero := (NodeTemplate.of_mem_valueTemplates template htemplate).1
    exact Nat.ne_of_gt (h.numbered registered hregistered).1
      ((hnumber registered _ hmem).symm.trans hzero)

/-- Numbers below the next one fit into 32 bits as long as this one does. -/
theorem listed (h : s.Catalogued) (hfew : s.nextSchemaId ≤ 2 ^ 32) : s.Listed where
  templates := h.templates
  ascending := h.ascending
  numbered := fun registered hregistered =>
    (h.numbered registered hregistered).imp_right fun hlt => Nat.lt_of_lt_of_le hlt hfew
  schemas_distinct := h.names_distinct
  named := by
    intro name hname
    obtain ⟨registered, hregistered, rfl⟩ := List.mem_map.1 hname
    exact (h.sized registered hregistered).named
  keys_distinct := h.keys_distinct
  classes_distinct := h.templates_distinct
  titles_distinct := h.titles_distinct
  found := fun _ htemplate =>
    ⟨find?_of_nodup_map h.keys_distinct htemplate, h.find?_eq_some htemplate,
      find?_of_nodup_map h.titles_distinct htemplate⟩

theorem findSchema?_eq_some (h : s.Catalogued) {registered : RegisteredSchema}
    (hregistered : registered ∈ s.schemas) :
    s.findSchema? registered.schema.name = some registered.schema := by
  have hfind := find?_of_nodup_map (f := fun other : RegisteredSchema => other.schema.name)
    h.names_distinct hregistered
  rw [findSchema?, hfind]
  rfl

end Catalogued

/-! ## The nodes -/

/-- Whether a node shows what the session says of its schema and its class. -/
structure Aligned (s : Session) (node : Node) : Prop where
  /-- The template of its names fixed all that the node shows. -/
  template : ∃ template, s.registry.find? node.schemaName node.className = some template ∧
    node.MadeFrom template
  /-- A node that is no value node belongs to a class of a registered schema, and has one
  slot for each field of this class, in order. -/
  fields : node.schemaName = NodeTemplate.nativeSchema ∧ node.inputs = [] ∨
    ∃ schema cls, s.findSchema? node.schemaName = some schema ∧
      SchemaClass.find? schema.classes node.className = some cls ∧
      node.inputs.map InputSlot.spec = cls.fields.map (schema.inputOf cls)

theorem Catalogued.aligned (h : s.Catalogued) {template : NodeTemplate} {node : Node}
    (htemplate : template ∈ s.registry.templates) (hmade : node.MadeFrom template) :
    s.Aligned node where
  template := by
    refine ⟨template, ?_, hmade⟩
    rw [hmade.schemaName, hmade.className]
    exact h.find?_eq_some htemplate
  fields := by
    rw [hmade.schemaName, hmade.className]
    rcases h.mem_templates htemplate with
      hvalue | ⟨registered, hregistered, cls, hcls, position, rfl⟩
    · obtain ⟨-, hnative, -, hinputs, -⟩ :=
        NodeTemplate.of_mem_valueTemplates template hvalue
      rw [← hmade.inputs, List.length_map] at hinputs
      exact .inl ⟨hnative, List.length_eq_zero_iff.1 hinputs⟩
    · have hdeclares := (h.sized registered hregistered).accepted.declares
      exact .inr ⟨registered.schema, cls, h.findSchema?_eq_some hregistered,
        (SchemaClass.find?_eq_some_iff hdeclares.distinct).2 ⟨hcls, rfl⟩, hmade.inputs⟩

/-! ## Runs of calls -/

def Permits (s : Session) : List Call → Prop
  | [] => True
  | call :: rest => call.Permitted s ∧ (call.apply s).Permits rest

/-- How many schemas a call registers: one or none. -/
def registered (s : Session) : Call → Nat
  | .register name source indexType rootType =>
      (s.register name source indexType rootType).1.toNat
  | _ => 0

def registrations (s : Session) : List Call → Nat
  | [] => 0
  | call :: rest => s.registered call + (call.apply s).registrations rest

/-- Whether no two nodes share a number whenever one of some calls removes a schema. -/
def RemovesApart (s : Session) : List Call → Prop
  | [] => True
  | call :: rest =>
      (∀ name, call = .removeSchema name → (s.graph.nodes.map Node.id).Nodup) ∧
        (call.apply s).RemovesApart rest

theorem Allows.permits {calls : List Call} (h : s.Allows calls) : s.Permits calls := by
  induction calls generalizing s with
  | nil =>
      trivial
  | cons call rest ih =>
      exact ⟨h.1.1, ih h.2⟩

/-- As long as the counters have the numbers drawn, no two nodes share a number at all. -/
theorem Sound.removesApart (hs : s.Sound) {calls : List Call} (h : s.Allows calls) :
    s.RemovesApart calls := by
  induction calls generalizing s with
  | nil =>
      trivial
  | cons call rest ih =>
      exact ⟨fun _ _ => hs.wellFormed.nodes_distinct, ih (hs.apply h.1.1 h.1.2) h.2⟩

theorem nextSchemaId_apply (s : Session) (call : Call) :
    (call.apply s).nextSchemaId = s.nextSchemaId + s.registered call := by
  have hsame := catalogue_apply s call
  cases call with
  | register name source indexType rootType =>
      rw [Call.apply, registered, Session.register]
      split <;> rfl
  | removeSchema name =>
      show (s.removeSchema name).2.nextSchemaId = s.nextSchemaId
      rw [Session.removeSchema]
      split <;> rfl
  | _ =>
      exact (hsame rfl).2.1

theorem nextSchemaId_after (s : Session) (calls : List Call) :
    (s.after calls).nextSchemaId = s.nextSchemaId + s.registrations calls := by
  induction calls generalizing s with
  | nil =>
      rfl
  | cons call rest ih =>
      have hrest := ih (call.apply s)
      rw [nextSchemaId_apply, Nat.add_assoc] at hrest
      exact hrest

theorem Catalogued.after (h : s.Catalogued) {calls : List Call} (hpermits : s.Permits calls) :
    (s.after calls).Catalogued := by
  induction calls generalizing s with
  | nil =>
      exact h
  | cons call rest ih =>
      exact ih (h.apply hpermits.1) hpermits.2

theorem Catalogued.built_after (h : s.Catalogued) (hbuilt : s.graph.BuiltFrom s.registry)
    {calls : List Call} (hpermits : s.Permits calls) (hapart : s.RemovesApart calls) :
    (s.after calls).graph.BuiltFrom (s.after calls).registry := by
  induction calls generalizing s with
  | nil =>
      exact hbuilt
  | cons call rest ih =>
      exact ih (h.apply hpermits.1) (h.built_apply hbuilt hpermits.1 hapart.1) hpermits.2
        hapart.2

/--
After any calls of a host with fewer than 2^32 - 1 registrations, the registry lists the
value templates and those of the registered schemas, in order, and its three look-ups
agree.  Every node is aligned with them, provided that no two nodes share a number
whenever a schema is removed; and this is so as long as the counters have the numbers drawn.
-/
theorem aligned_after (layout : ImportLayout) {calls : List Call}
    (hpermits : (Session.start layout).Permits calls)
    (hfew : (Session.start layout).registrations calls < 2 ^ 32 - 1) :
    ((Session.start layout).after calls).Listed ∧
      ((Session.start layout).RemovesApart calls →
        ∀ node ∈ ((Session.start layout).after calls).graph.nodes,
          ((Session.start layout).after calls).Aligned node) ∧
      ((Session.start layout).Allows calls → (Session.start layout).RemovesApart calls) := by
  have hstart := Sound.start layout
  have hcatalogued := hstart.catalogued.after hpermits
  refine ⟨hcatalogued.listed ?_, fun hapart node hnode => ?_, hstart.removesApart⟩
  · have hnext : ((Session.start layout).after calls).nextSchemaId =
        1 + (Session.start layout).registrations calls := nextSchemaId_after _ calls
    lia
  · obtain ⟨template, htemplate, hmade⟩ :=
      hstart.catalogued.built_after hstart.built hpermits hapart node hnode
    exact hcatalogued.aligned htemplate hmade

/-- A schema of tasks, another one registered in its place, and nodes of either. -/
def replacingCalls : List Call :=
  [ .register "s" "class Task:\n  note: str\n" "" ""
  , .register "t" "class Tool:\n  name: str\n" "" ""
  , .createNode "s" "Task" 10.0 0.5
  , .createNode "t" "Tool" 10.0 250.0
  , .removeSchema "s"
  , .register "s" "class Task:\n  done: bool\n  tools: List[Union[Tool, Index]]\n" "" ""
  , .importConfig (.obj [("tasks", .arr [.obj [("done", .bool true)]])]) "s" false
  , .createNode "Native" "String" 400.0 0.5 ]

theorem allows_replacingCalls :
    (Session.start ImportLayout.standard).Allows replacingCalls := by
  refine ⟨⟨show String.length _ < 2 ^ 64 from ?_, trivial⟩,
    ⟨show String.length _ < 2 ^ 64 from ?_, trivial⟩, ⟨trivial, ?_⟩, ⟨trivial, ?_⟩,
    ⟨trivial, ?_⟩, ⟨show String.length _ < 2 ^ 64 from ?_, trivial⟩, ⟨trivial, ?_⟩,
    ⟨trivial, ?_⟩, trivial⟩
  all_goals decide +kernel

theorem aligned_after_replacingCalls :
    (Session.start ImportLayout.standard).Permits replacingCalls ∧
      (Session.start ImportLayout.standard).registrations replacingCalls = 3 ∧
      ((Session.start ImportLayout.standard).after replacingCalls).Listed ∧
      ((Session.start ImportLayout.standard).after replacingCalls).graph.nodes.map
        (fun node => (node.title, node.inputs.map InputSlot.name)) =
          [("t.Tool", ["name"]), ("s.Task", ["done", "tools"]), ("Native.String", [])] ∧
      ∀ node ∈ ((Session.start ImportLayout.standard).after replacingCalls).graph.nodes,
        ((Session.start ImportLayout.standard).after replacingCalls).Aligned node := by
  have hcount : (Session.start ImportLayout.standard).registrations replacingCalls = 3 := by
    decide +kernel
  obtain ⟨hlisted, haligned, hapart⟩ := aligned_after ImportLayout.standard
    allows_replacingCalls.permits (hcount ▸ by decide)
  exact ⟨allows_replacingCalls.permits, hcount, hlisted, by decide +kernel,
    haligned (hapart allows_replacingCalls)⟩

/-- Two nodes come to share the number one when the counter runs over its end. -/
def wrappingCalls : List Call :=
  [ .register "s" "class A:\n  n: int\n" "" ""
  , .register "t" "class B:\n  n: int\n" "" ""
  , .createNode "t" "B" 0.0 0.0
  , .editGraph (.raiseCounters Graph.lastId 0)
  , .createNode "s" "A" 0.0 0.0
  , .editGraph (.raiseCounters 0 0)
  , .createNode "s" "A" 0.0 0.0
  , .removeSchema "s" ]

/-- Past the end of the counter a node can outlive its schema, and another go in its place. -/
theorem outlives_wrappingCalls :
    (Session.start ImportLayout.standard).Permits wrappingCalls ∧
      ((Session.start ImportLayout.standard).after wrappingCalls).schemaNames = ["t"] ∧
      ((Session.start ImportLayout.standard).after wrappingCalls).graph.nodes.map
        (fun node => (node.id, node.title)) = [(1, "s.A")] := by
  refine ⟨⟨show String.length _ < 2 ^ 64 from ?_, show String.length _ < 2 ^ 64 from ?_, trivial,
    ⟨trivial, ?_, ?_⟩, trivial, ⟨trivial, ?_, ?_⟩, trivial, trivial, trivial⟩, ?_, ?_⟩
  all_goals decide +kernel

end Session

end SlotGraph
