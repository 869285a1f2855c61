import SlotGraph.Proofs.Graph.Frame
import SlotGraph.Proofs.Import.Flat

/-!
# The nodes that an import makes

An import makes a node for each element under a group key, for each inline object in a
slot that links feed, and for the root.  Which nodes these are, and in which order they
are made, can be read off the document.  A node that is made is filled once, and what is
done later leaves it as it is: so in the end each of its slots holds what the document says
for the field, as far as no inline objects stand there.
-/

namespace SlotGraph

namespace Import

/-- A node that is made: its class, and the element that it stands for. -/
structure Making where
  className : String
  element : Json

/-! ## What inline objects become -/

def inlineClass? (schema : Schema) (field : Field) (object : List (String × Json)) :
    Option SchemaClass :=
  ((schema.modelOf? field).or (classesCovering schema object).head?).bind schema.findClass?

/-- What an inline object in a field becomes, together with those inside it. -/
abbrev Inline :=
  Field → List (String × Json) → List Making

def elementMakings (inline : Inline) (field : Field) : Json → List Making
  | .obj object => inline field object
  | _ => []

def linkedMakings (inline : Inline) (field : Field) : Json → List Making
  | .arr elements => elements.flatMap (elementMakings inline field)
  | .obj object =>
      if field.type.required.isDict then
        object.flatMap fun entry => elementMakings inline field entry.2
      else
        elementMakings inline field (.obj object)
  | _ => []

def slotMakings (inline : Inline) (input : InputSpec) (field : Field) : Option Json → List Making
  | some value => if input.intake.native?.isSome then [] else linkedMakings inline field value
  | none => []

def objectMakings (schema : Schema) (inline : Inline) (cls : SchemaClass)
    (source : List (String × Json)) : List Making :=
  cls.fields.flatMap fun field =>
    slotMakings inline (schema.inputOf cls field) field (source.lookup field.name)

def inlineWith (schema : Schema) (inline : Inline) : Inline := fun field object =>
  match inlineClass? schema field object with
  | some cls => ⟨cls.name, .obj object⟩ :: objectMakings schema inline cls object
  | none => []

/-- What an inline object becomes where objects nest at most so deep. -/
def inlineMakings (schema : Schema) : Nat → Inline
  | 0 => fun _ _ => []
  | depth + 1 => inlineWith schema (inlineMakings schema depth)

variable {setting : Setting} {groups : List Group} {embed : Embed} {inline : Inline}
  {p q p' : Progress} {spot spot' : NodeId → Nat → Prop}

/-! ## Growth -/

/-- The number of a node that was made, and the template of its class. -/
def blueprint (setting : Setting) (entry : NodeId × Making) : NodeId × Option NodeTemplate :=
  (entry.1, setting.registry.find? setting.schema.name entry.2.className)

/--
How a graph grows: some nodes join it behind those that are there, each made from the
template of its class, and of what was known nothing changes but what some spots hold.
-/
structure Grown (setting : Setting) (spot : NodeId → Nat → Prop) (p p' : Progress)
    (made : List (NodeId × Making)) : Prop where
  shapes : ∃ added, p'.graph.shapes = p.graph.shapes ++ added ∧
    added.map (fun shape => (shape.1, some shape.2)) = made.map (blueprint setting)
  kept : ∀ id, p.graph.Knows id → ∀ slot, ¬ spot id slot →
    p'.graph.content id slot = p.graph.content id slot

namespace Grown

variable {made made' : List (NodeId × Making)}

theorem of_shapes (hshapes : p'.graph.shapes = p.graph.shapes)
    (hkept : ∀ id slot, ¬ spot id slot →
      p'.graph.content id slot = p.graph.content id slot) : Grown setting spot p p' [] where
  shapes := ⟨[], by rw [hshapes, List.append_nil], rfl⟩
  kept id _ slot := hkept id slot

theorem refl (p : Progress) : Grown setting spot p p [] :=
  .of_shapes rfl fun _ _ _ => rfl

theorem knows (h : Grown setting spot p p' made) {id : NodeId} (hid : p.graph.Knows id) :
    p'.graph.Knows id := by
  obtain ⟨added, hshapes, -⟩ := h.shapes
  exact hid.of_append hshapes

theorem shape?_eq (h : Grown setting spot p p' made) {id : NodeId} (hid : p.graph.Knows id) :
    p'.graph.shape? id = p.graph.shape? id := by
  obtain ⟨added, hshapes, -⟩ := h.shapes
  exact hid.shape?_append hshapes

theorem ids (h : Grown setting spot p p' made) :
    p'.graph.shapes.map Prod.fst = p.graph.shapes.map Prod.fst ++ made.map Prod.fst := by
  obtain ⟨added, hshapes, hadded⟩ := h.shapes
  have hids := congrArg (List.map Prod.fst) hadded
  rw [List.map_map, List.map_map] at hids
  rw [hshapes, List.map_append]
  exact congrArg _ hids

theorem knows_made (h : Grown setting spot p p' made) {entry : NodeId × Making}
    (hentry : entry ∈ made) : p'.graph.Knows entry.1 := by
  rw [Graph.Knows, h.ids]
  exact List.mem_append_right _ (List.mem_map_of_mem hentry)

theorem not_knows (h : Grown setting spot p p' made) (hp' : Sound p') {entry : NodeId × Making}
    (hentry : entry ∈ made) : ¬ p.graph.Knows entry.1 := by
  intro hknown
  have hdistinct := hp'.wellFormed.nodes_distinct
  rw [← Graph.map_fst_shapes, h.ids] at hdistinct
  exact (List.nodup_append.1 hdistinct).2.2 _ hknown _ (List.mem_map_of_mem hentry) rfl

theorem trans (h : Grown setting spot p q made) (h' : Grown setting spot' q p' made')
    (hspot : ∀ id, p.graph.Knows id → ∀ slot, spot' id slot → spot id slot) :
    Grown setting spot p p' (made ++ made') where
  shapes := by
    obtain ⟨added, hshapes, hadded⟩ := h.shapes
    obtain ⟨added', hshapes', hadded'⟩ := h'.shapes
    exact ⟨added ++ added', by rw [hshapes', hshapes, List.append_assoc],
      by rw [List.map_append, List.map_append, hadded, hadded']⟩
  kept := by
    intro id hid slot houtside
    rw [h'.kept id (h.knows hid) slot fun hinside => houtside (hspot id hid slot hinside),
      h.kept id hid slot houtside]

theorem widen (h : Grown setting spot p p' made)
    (hspot : ∀ id, p.graph.Knows id → ∀ slot, spot id slot → spot' id slot) :
    Grown setting spot' p p' made where
  shapes := h.shapes
  kept id hid slot houtside :=
    h.kept id hid slot fun hinside => houtside (hspot id hid slot hinside)

end Grown

/-! ## Nodes that stay filled -/

/-- Whether the nodes of some groups are known. -/
def Stocked (groups : List Group) (g : Graph) : Prop :=
  ∀ group ∈ groups, ∀ id ∈ group.nodes.map Prod.fst, g.Knows id

theorem Grown.stocked {made : List (NodeId × Making)} (h : Grown setting spot p p' made)
    (hstocked : Stocked groups p.graph) : Stocked groups p'.graph :=
  fun group hgroup id hid => h.knows (hstocked group hgroup id hid)

/-- What a value says of a slot stays the same while nodes join. -/
theorem Grown.filledContent_eq {made : List (NodeId × Making)}
    (h : Grown setting spot p p' made) (hstocked : Stocked groups p.graph) {id : NodeId}
    (hid : p.graph.Knows id) (slot : Nat) (input : InputSpec) (field : Field)
    (value : Option Json) :
    filledContent setting groups p'.graph id slot input field value =
      filledContent setting groups p.graph id slot input field value := by
  obtain ⟨added, hshapes, -⟩ := h.shapes
  have hsource : source? setting groups p'.graph id slot field =
      source? setting groups p.graph id slot field := by
    funext entry
    refine Option.bind_congr fun origin horigin => ?_
    obtain ⟨group, hgroup, hmem⟩ := resolve?_mem horigin
    rw [(hstocked group hgroup origin hmem).admits_append hshapes hid]
  cases value with
  | none =>
      rfl
  | some value =>
      rw [filledContent, filledContent, hsource]

/--
Whether a slot holds what a value says, provided that the value has no inline objects
for it.
-/
def SlotFilled (setting : Setting) (groups : List Group) (g : Graph) (id : NodeId) (slot : Nat)
    (input : InputSpec) (field : Field) (value : Option Json) : Prop :=
  (∀ v, value = some v → Flat input field v) →
    g.content id slot = filledContent setting groups g id slot input field value

theorem SlotFilled.of_grown {made : List (NodeId × Making)} {id : NodeId} {slot : Nat}
    {input : InputSpec} {field : Field} {value : Option Json}
    (h : SlotFilled setting groups p.graph id slot input field value)
    (hgrown : Grown setting spot p p' made) (hstocked : Stocked groups p.graph)
    (hid : p.graph.Knows id) (houtside : ¬ spot id slot) :
    SlotFilled setting groups p'.graph id slot input field value := by
  intro hflat
  rw [hgrown.kept id hid slot houtside, hgrown.filledContent_eq hstocked hid]
  exact h hflat

/-- Whether the slots of a node hold what an object says of the fields of its class. -/
def ObjectFilled (setting : Setting) (groups : List Group) (g : Graph) (id : NodeId)
    (cls : SchemaClass) (source : List (String × Json)) : Prop :=
  ∀ position field, cls.fields[position]? = some field →
    SlotFilled setting groups g id position (setting.schema.inputOf cls field) field
      (source.lookup field.name)

/-- Whether a node that was made is of a class, and filled from its element if that is an object. -/
def Settled (setting : Setting) (groups : List Group) (g : Graph)
    (entry : NodeId × Making) : Prop :=
  ∃ cls, setting.schema.findClass? entry.2.className = some cls ∧
    ∀ source, entry.2.element = .obj source →
      ObjectFilled setting groups g entry.1 cls source

theorem ObjectFilled.of_grown {made : List (NodeId × Making)} {id : NodeId} {cls : SchemaClass}
    {source : List (String × Json)} (h : ObjectFilled setting groups p.graph id cls source)
    (hgrown : Grown setting spot p p' made) (hstocked : Stocked groups p.graph)
    (hid : p.graph.Knows id) (houtside : ∀ slot, ¬ spot id slot) :
    ObjectFilled setting groups p'.graph id cls source :=
  fun position field hfield =>
    (h position field hfield).of_grown hgrown hstocked hid (houtside position)

theorem Settled.of_grown {made : List (NodeId × Making)} {entry : NodeId × Making}
    (h : Settled setting groups p.graph entry) (hgrown : Grown setting spot p p' made)
    (hstocked : Stocked groups p.graph) (hid : p.graph.Knows entry.1)
    (houtside : ∀ slot, ¬ spot entry.1 slot) : Settled setting groups p'.graph entry := by
  obtain ⟨cls, hcls, hfilled⟩ := h
  exact ⟨cls, hcls, fun source hsource =>
    (hfilled source hsource).of_grown hgrown hstocked hid houtside⟩

/-! ## Making nodes -/

/--
What some of an import comes to: it makes nodes for some elements, fills them, and leaves
all else but some spots.
-/
def Makes (setting : Setting) (groups : List Group) (spot : NodeId → Nat → Prop)
    (p p' : Progress) (makings : List Making) : Prop :=
  ∃ made, made.map Prod.snd = makings ∧ Grown setting spot p p' made ∧
    ∀ entry ∈ made, Settled setting groups p'.graph entry

namespace Makes

variable {makings makings' : List Making}

theorem of_grown (h : Grown setting spot p p' []) : Makes setting groups spot p p' [] :=
  ⟨[], rfl, h, fun _ hentry => absurd hentry List.not_mem_nil⟩

theorem of_shapes (hshapes : p'.graph.shapes = p.graph.shapes)
    (hkept : ∀ id slot, ¬ spot id slot →
      p'.graph.content id slot = p.graph.content id slot) : Makes setting groups spot p p' [] :=
  .of_grown (.of_shapes hshapes hkept)

theorem refl (p : Progress) : Makes setting groups spot p p [] :=
  .of_grown (.refl p)

theorem of_fills {id : NodeId} {slot : Nat} {content : SlotContent}
    (h : Fills id slot content p p') :
    Makes setting groups (fun other position => other = id ∧ position = slot) p p' [] :=
  .of_shapes h.shapes fun other position houtside => by rw [h.contents, if_neg houtside]

theorem knows (h : Makes setting groups spot p p' makings) {id : NodeId}
    (hid : p.graph.Knows id) : p'.graph.Knows id := by
  obtain ⟨made, -, hgrown, -⟩ := h
  exact hgrown.knows hid

theorem stocked (h : Makes setting groups spot p p' makings)
    (hstocked : Stocked groups p.graph) : Stocked groups p'.graph := by
  obtain ⟨made, -, hgrown, -⟩ := h
  exact hgrown.stocked hstocked

theorem shape?_eq (h : Makes setting groups spot p p' makings) {id : NodeId}
    (hid : p.graph.Knows id) : p'.graph.shape? id = p.graph.shape? id := by
  obtain ⟨made, -, hgrown, -⟩ := h
  exact hgrown.shape?_eq hid

theorem kept (h : Makes setting groups spot p p' makings) {id : NodeId}
    (hid : p.graph.Knows id) {slot : Nat} (houtside : ¬ spot id slot) :
    p'.graph.content id slot = p.graph.content id slot := by
  obtain ⟨made, -, hgrown, -⟩ := h
  exact hgrown.kept id hid slot houtside

theorem widen (h : Makes setting groups spot p p' makings)
    (hspot : ∀ id, p.graph.Knows id → ∀ slot, spot id slot → spot' id slot) :
    Makes setting groups spot' p p' makings := by
  obtain ⟨made, hmakings, hgrown, hsettled⟩ := h
  exact ⟨made, hmakings, hgrown.widen hspot, hsettled⟩

/-- Nodes made first stay filled while spots of nodes that were there before them are. -/
theorem trans (h : Makes setting groups spot p q makings)
    (h' : Makes setting groups spot' q p' makings') (hq : Sound q)
    (hstocked : Stocked groups p.graph) (hold : ∀ id slot, spot' id slot → p.graph.Knows id)
    (hspot : ∀ id slot, spot' id slot → spot id slot) :
    Makes setting groups spot p p' (makings ++ makings') := by
  obtain ⟨made, hmakings, hgrown, hsettled⟩ := h
  obtain ⟨made', hmakings', hgrown', hsettled'⟩ := h'
  refine ⟨made ++ made', by rw [List.map_append, hmakings, hmakings'],
    hgrown.trans hgrown' fun id _ slot => hspot id slot, fun entry hentry => ?_⟩
  rcases List.mem_append.1 hentry with hfirst | hsecond
  · exact (hsettled entry hfirst).of_grown hgrown' (hgrown.stocked hstocked)
      (hgrown.knows_made hfirst) fun slot hinside =>
        hgrown.not_knows hq hfirst (hold entry.1 slot hinside)
  · exact hsettled' entry hsecond

/-- Nodes that have joined come before those that are made while they are filled. -/
theorem prepend {made : List (NodeId × Making)} (hgrown : Grown setting spot p q made)
    (h : Makes setting groups spot' q p' makings)
    (hsettled : ∀ entry ∈ made, Settled setting groups p'.graph entry)
    (hspot : ∀ id, p.graph.Knows id → ∀ slot, spot' id slot → spot id slot) :
    Makes setting groups spot p p' (made.map Prod.snd ++ makings) := by
  obtain ⟨later, hmakings, hlater, hsettledLater⟩ := h
  refine ⟨made ++ later, by rw [List.map_append, hmakings], hgrown.trans hlater hspot,
    fun entry hentry => ?_⟩
  rcases List.mem_append.1 hentry with hfirst | hsecond
  · exact hsettled entry hfirst
  · exact hsettledLater entry hsecond

end Makes

end Import

end SlotGraph
