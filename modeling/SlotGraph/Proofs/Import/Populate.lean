import SlotGraph.Proofs.Import.Fill
import SlotGraph.Proofs.Schema.Templates

/-!
# Filling nodes

A node is filled slot by slot, and the nodes of the groups one after the other.  No
slot is filled twice, and filling one leaves the others fresh, so in the end each slot
holds what its own field says.
-/

namespace SlotGraph

namespace Import

variable {setting : Setting} {groups : List Group} {embed : Embed} {p : Progress}

/-! ## The slots of one node -/

def fillEach (fill : Nat → Field → Progress → Progress) :
    Nat → List Field → Progress → Progress
  | _, [], p => p
  | slot, field :: rest, p => fillEach fill (slot + 1) rest (fill slot field p)

theorem steps_fillEach {fill : Nat → Field → Progress → Progress}
    (hsteps : ∀ slot field p, Steps setting p (fill slot field p)) (slot : Nat)
    (fields : List Field) (p : Progress) : Steps setting p (fillEach fill slot fields p) := by
  induction fields generalizing slot p with
  | nil =>
      exact .refl
  | cons field rest ih =>
      exact (hsteps slot field p).trans (ih (slot + 1) (fill slot field p))

/--
Fields whose slots are filled one by one, each as if it were alone: it is enough that
filling a fresh slot gives what is expected of it.
-/
theorem fillEach_contents {fill : Nat → Field → Progress → Progress} {id : NodeId}
    (expected : Nat → Field → SlotContent) (fresh : Nat → SlotContent)
    {shapes : List (NodeId × NodeTemplate)} {slot : Nat} {fields : List Field}
    (hsteps : ∀ slot field p, Steps setting p (fill slot field p))
    (hfill : ∀ i field p, fields[i]? = some field → Sound p → p.graph.shapes = shapes →
      p.graph.content id (slot + i) = fresh (slot + i) → (fill (slot + i) field p).Fits →
      Fills id (slot + i) (expected (slot + i) field) p (fill (slot + i) field p))
    (hp : Sound p) (hshapes : p.graph.shapes = shapes)
    (hfresh : ∀ position, slot ≤ position → p.graph.content id position = fresh position)
    (hfits : (fillEach fill slot fields p).Fits) :
    (fillEach fill slot fields p).graph.shapes = shapes ∧
    (∀ other position, ¬ (other = id ∧ slot ≤ position) →
      (fillEach fill slot fields p).graph.content other position =
        p.graph.content other position) ∧
    ∀ i field, fields[i]? = some field →
      (fillEach fill slot fields p).graph.content id (slot + i) =
        expected (slot + i) field := by
  induction fields generalizing slot p with
  | nil =>
      exact ⟨hshapes, fun _ _ _ => rfl, fun i field hfield => by simp at hfield⟩
  | cons field rest ih =>
      rw [fillEach] at hfits ⊢
      have hfitsFirst := hfits.of_steps (steps_fillEach hsteps (slot + 1) rest _)
      have hfirst : Fills id slot (expected slot field) p (fill slot field p) :=
        hfill 0 field p rfl hp hshapes (hfresh slot (Nat.le_refl _)) hfitsFirst
      have hsound := hp.steps (hsteps slot field p) hfitsFirst
      obtain ⟨hkept, helsewhere, hrest⟩ := ih
        (fun i other q hother hq hqShapes hqFresh hqFits => by
          rw [Nat.succ_add_eq_add_succ] at hqFresh hqFits ⊢
          exact hfill (i + 1) other q hother hq hqShapes hqFresh hqFits)
        hsound (hfirst.shapes.trans hshapes)
        (fun position hposition => by
          rw [hfirst.contents, if_neg (fun hhere => by omega)]
          exact hfresh position (Nat.le_of_succ_le hposition))
        hfits
      refine ⟨hkept, fun other position houtside => ?_, fun i other hother => ?_⟩
      · rw [helsewhere other position (fun hhere => houtside ⟨hhere.1, by omega⟩),
          hfirst.contents, if_neg (fun hhere => houtside ⟨hhere.1, by omega⟩)]
      · cases i with
        | zero =>
            obtain rfl : field = other := Option.some.inj hother
            rw [helsewhere id (slot + 0) (fun hhere => by omega)]
            exact hfirst.here
        | succ i =>
            have hposition : slot + (i + 1) = slot + 1 + i := by
              omega
            rw [hposition]
            exact hrest i other hother

def fillValue (setting : Setting) (groups : List Group) (embed : Embed) (id : NodeId)
    (slot : Nat) (field : Field) (value : Option Json) (p : Progress) : Progress :=
  match value with
  | some value => fillSlot setting groups embed id slot field value p
  | none => p.clearMissing id slot

theorem fillFields_eq (id : NodeId) (source : List (String × Json)) (slot : Nat)
    (fields : List Field) (p : Progress) :
    fillFields setting groups embed id source slot fields p =
      fillEach
        (fun slot field p =>
          fillValue setting groups embed id slot field (source.lookup field.name) p)
        slot fields p := by
  induction fields generalizing slot p with
  | nil =>
      rfl
  | cons field rest ih =>
      rw [fillFields, fillEach, ih]
      rfl

/-! ## One node -/

/-- Whether a node is a fresh node of a class. -/
structure Ready (setting : Setting) (g : Graph) (id : NodeId) (cls : SchemaClass) : Prop where
  shape : ∃ template, g.shape? id = some template ∧ setting.schema.IsTemplate cls template
  fresh : ∀ position input, (g.shape? id).bind (·.inputs[position]?) = some input →
    g.content id position = input.intake.freshContent

theorem Ready.input {g : Graph} {id : NodeId} {cls : SchemaClass}
    (h : Ready setting g id cls) {position : Nat} {field : Field}
    (hfield : cls.fields[position]? = some field) :
    (g.shape? id).bind (·.inputs[position]?) = some (setting.schema.inputOf cls field) := by
  obtain ⟨template, hshape, htemplate⟩ := h.shape
  rw [hshape, Option.bind_some, htemplate.input_eq hfield]

theorem Ready.congr {g g' : Graph} {id : NodeId} {cls : SchemaClass}
    (h : Ready setting g id cls) (hshapes : g'.shapes = g.shapes)
    (hcontent : ∀ position, g'.content id position = g.content id position) :
    Ready setting g' id cls := by
  refine ⟨?_, fun position input hinput => ?_⟩
  · rw [Graph.shape?_congr hshapes]
    exact h.shape
  · rw [Graph.shape?_congr hshapes] at hinput
    rw [hcontent]
    exact h.fresh position input hinput

/-- Whether an object gives the slots of a class no inline objects. -/
def FlatObject (schema : Schema) (cls : SchemaClass) (source : List (String × Json)) : Prop :=
  ∀ field ∈ cls.fields, ∀ value, source.lookup field.name = some value →
    Flat (schema.inputOf cls field) field value

def Filled (setting : Setting) (groups : List Group) (g : Graph) (id : NodeId)
    (cls : SchemaClass) (values : Field → Option Json) : Prop :=
  ∀ position field, cls.fields[position]? = some field →
    g.content id position =
      filledContent setting groups g id position (setting.schema.inputOf cls field) field
        (values field)

theorem Filled.congr {g g' : Graph} {id : NodeId} {cls : SchemaClass}
    {values : Field → Option Json} (h : Filled setting groups g id cls values)
    (hshapes : g'.shapes = g.shapes)
    (hcontent : ∀ position, g'.content id position = g.content id position) :
    Filled setting groups g' id cls values := by
  intro position field hfield
  rw [hcontent, filledContent_congr hshapes]
  exact h position field hfield

theorem fills_fillValue (hp : Sound p) {id : NodeId} {slot : Nat} {field : Field}
    {input : InputSpec} {value : Option Json}
    (hinput : (p.graph.shape? id).bind (·.inputs[slot]?) = some input)
    (hfresh : p.graph.content id slot = input.intake.freshContent)
    (hflat : ∀ v, value = some v → Flat input field v)
    (hfits : (fillValue setting groups embed id slot field value p).Fits) :
    Fills id slot (filledContent setting groups p.graph id slot input field value) p
      (fillValue setting groups embed id slot field value p) := by
  cases value with
  | some v =>
      exact fills_fillSlot hp hinput hfresh (hflat v rfl) hfits
  | none =>
      exact fills_clearMissing hinput hfresh

theorem steps_fillValue (hembed : embed.TakesSteps setting) (id : NodeId) (slot : Nat)
    (field : Field) (value : Option Json) (p : Progress) :
    Steps setting p (fillValue setting groups embed id slot field value p) := by
  cases value with
  | some v =>
      exact steps_fillSlot hembed id slot field v p
  | none =>
      exact steps_clearMissing p id slot

theorem populate_eq {id : NodeId} {cls : SchemaClass} {source : List (String × Json)}
    (hshape : ∃ template, p.graph.shape? id = some template ∧
      setting.schema.IsTemplate cls template)
    (hcls : setting.schema.findClass? cls.name = some cls) :
    populate setting groups embed id source p =
      fillFields setting groups embed id source 0 cls.fields p := by
  obtain ⟨template, hshape, htemplate⟩ := hshape
  obtain ⟨node, hfind, hnode⟩ := Option.map_eq_some_iff.1 hshape
  have hname : node.className = cls.name := by
    rw [← htemplate.className, ← hnode]
    rfl
  rw [populate, hfind, Option.bind_some, hname, hcls]

/-- A fresh node is filled from a flat object, and no other node is touched. -/
theorem populate_contents (hembed : embed.TakesSteps setting) (hp : Sound p) {id : NodeId}
    {cls : SchemaClass} {source : List (String × Json)}
    (hready : Ready setting p.graph id cls)
    (hcls : setting.schema.findClass? cls.name = some cls)
    (hflat : FlatObject setting.schema cls source)
    (hfits : (populate setting groups embed id source p).Fits) :
    (populate setting groups embed id source p).graph.shapes = p.graph.shapes ∧
    (∀ other, other ≠ id → ∀ position,
      (populate setting groups embed id source p).graph.content other position =
        p.graph.content other position) ∧
    Filled setting groups (populate setting groups embed id source p).graph id cls
      fun field => source.lookup field.name := by
  rw [populate_eq hready.shape hcls, fillFields_eq] at hfits ⊢
  obtain ⟨hshapes, helsewhere, hfilled⟩ := fillEach_contents
    (fun slot field =>
      filledContent setting groups p.graph id slot (setting.schema.inputOf cls field) field
        (source.lookup field.name))
    (p.graph.content id)
    (fun slot field q => steps_fillValue hembed id slot field (source.lookup field.name) q)
    (fun i field q hfield hq hqShapes hqFresh hqFits => by
      rw [Nat.zero_add] at hqFresh hqFits ⊢
      have hinput := hready.input hfield
      rw [← filledContent_congr hqShapes]
      refine fills_fillValue hq ?_ ?_ ?_ hqFits
      · rw [Graph.shape?_congr hqShapes]
        exact hinput
      · rw [hqFresh]
        exact hready.fresh i _ hinput
      · exact hflat field (List.mem_of_getElem? hfield))
    hp rfl (fun _ _ => rfl) hfits
  refine ⟨hshapes, fun other hother position => ?_, fun position field hfield => ?_⟩
  · exact helsewhere other position fun hhere => hother hhere.1
  · have hhere := hfilled position field hfield
    rw [Nat.zero_add] at hhere
    rw [hhere, filledContent_congr hshapes]

/-! ## The nodes of the groups -/

/-- A node of a group with its class and the object that it stands for. -/
structure Entry where
  id : NodeId
  className : String
  source : List (String × Json)

/-- The nodes of a group whose elements are objects. -/
def Group.entries (group : Group) : List Entry :=
  group.nodes.map fun node => ⟨node.1, group.className, node.2.members⟩

def populateAll (setting : Setting) (groups : List Group) (embed : Embed)
    (entries : List Entry) (p : Progress) : Progress :=
  entries.foldl (fun p entry => populate setting groups embed entry.id entry.source p) p

theorem steps_populateAll (hembed : embed.TakesSteps setting) (entries : List Entry)
    (p : Progress) : Steps setting p (populateAll setting groups embed entries p) :=
  steps_foldl (fun entry _ p => steps_populate hembed entry.id entry.source p) p

theorem populateNodes_eq {group : Group}
    (hobjects : ∀ node ∈ group.nodes, node.2.isObject = true) (key : String) (position : Nat)
    (p : Progress) :
    populateNodes setting groups embed key position group.nodes p =
      populateAll setting groups embed group.entries p := by
  unfold Group.entries
  generalize group.nodes = nodes at hobjects
  induction nodes generalizing position p with
  | nil =>
      rfl
  | cons node rest ih =>
      obtain ⟨id, element⟩ := node
      have hrest := fun n hn => hobjects n (List.mem_cons_of_mem _ hn)
      cases element with
      | obj source =>
          rw [populateNodes, ih _ _ hrest]
          rfl
      | _ =>
          exact absurd (hobjects _ List.mem_cons_self) (by simp [Json.isObject])

theorem populateGroups_eq {made : List Group}
    (hobjects : ∀ group ∈ made, ∀ node ∈ group.nodes, node.2.isObject = true) (p : Progress) :
    made.foldl (fun p group => populateNodes setting groups embed group.key 0 group.nodes p) p =
      populateAll setting groups embed (made.flatMap Group.entries) p := by
  induction made generalizing p with
  | nil =>
      rfl
  | cons group rest ih =>
      rw [List.foldl_cons, populateNodes_eq (hobjects group List.mem_cons_self),
        ih fun other hother => hobjects other (List.mem_cons_of_mem _ hother),
        List.flatMap_cons, populateAll, populateAll, populateAll, List.foldl_append]

/-- Fresh nodes are filled from flat objects, each its own, and no other node is touched. -/
theorem populateAll_contents (hembed : embed.TakesSteps setting) {entries : List Entry}
    (hdistinct : (entries.map Entry.id).Nodup) (hp : Sound p)
    (hready : ∀ entry ∈ entries, ∃ cls, setting.schema.findClass? entry.className = some cls ∧
      Ready setting p.graph entry.id cls ∧ FlatObject setting.schema cls entry.source)
    (hfits : (populateAll setting groups embed entries p).Fits) :
    (populateAll setting groups embed entries p).graph.shapes = p.graph.shapes ∧
    (∀ other, other ∉ entries.map Entry.id → ∀ position,
      (populateAll setting groups embed entries p).graph.content other position =
        p.graph.content other position) ∧
    ∀ entry ∈ entries, ∀ cls, setting.schema.findClass? entry.className = some cls →
      Filled setting groups (populateAll setting groups embed entries p).graph entry.id cls
        fun field => entry.source.lookup field.name := by
  induction entries generalizing p with
  | nil =>
      exact ⟨rfl, fun _ _ _ => rfl, fun entry hentry => absurd hentry List.not_mem_nil⟩
  | cons entry rest ih =>
      rw [populateAll, List.foldl_cons, ← populateAll] at hfits ⊢
      obtain ⟨hfreshId, hdistinctRest⟩ := List.nodup_cons.1 hdistinct
      have hfitsFirst := hfits.of_steps (steps_populateAll hembed rest _)
      have hsound := hp.steps (steps_populate hembed entry.id entry.source p) hfitsFirst
      obtain ⟨cls, hcls, hreadyFirst, hflat⟩ := hready entry List.mem_cons_self
      have hname : cls.name = entry.className := by
        simpa using List.find?_some hcls
      obtain ⟨hshapes, helsewhere, hfilled⟩ :=
        populate_contents hembed hp hreadyFirst (hname ▸ hcls) hflat hfitsFirst
      have hother : ∀ other ∈ rest, other.id ≠ entry.id := fun other hmem hid =>
        hfreshId (hid ▸ List.mem_map_of_mem hmem)
      obtain ⟨hkept, hkeptElsewhere, hkeptFilled⟩ := ih hdistinctRest hsound
        (fun other hmem => by
          obtain ⟨c, hc, hreadyOther, hflatOther⟩ := hready other (List.mem_cons_of_mem _ hmem)
          exact ⟨c, hc, hreadyOther.congr hshapes (helsewhere other.id (hother other hmem)),
            hflatOther⟩)
        hfits
      refine ⟨hkept.trans hshapes, fun other houtside position => ?_, fun other hmem c hc => ?_⟩
      · rw [List.map_cons, List.mem_cons, not_or] at houtside
        rw [hkeptElsewhere other houtside.2, helsewhere other houtside.1]
      · rcases List.mem_cons.1 hmem with rfl | hmem
        · rw [hcls] at hc
          obtain rfl := Option.some.inj hc
          exact hfilled.congr hkept (hkeptElsewhere other.id hfreshId)
        · exact hkeptFilled other hmem c hc

end Import

end SlotGraph
