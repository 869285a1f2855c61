import SlotGraph.Proofs.Import.Makings

/-!
# Inline objects

Filling a slot makes the nodes that the inline objects of its value become, and changes
nothing else but what the slot holds.  By induction on how deep objects nest, an inline
object becomes a node of its own, filled from it, and the nodes for the objects inside.
-/

namespace SlotGraph

namespace Import

variable {setting : Setting} {groups : List Group} {embed : Embed} {inline : Inline}
  {p p' : Progress} {id : NodeId} {slot : Nat} {field : Field}

def nowhere : NodeId → Nat → Prop :=
  fun _ _ => False

def spotAt (id : NodeId) (slot : Nat) : NodeId → Nat → Prop :=
  fun other position => other = id ∧ position = slot

def spotsFrom (id : NodeId) (slot : Nat) : NodeId → Nat → Prop :=
  fun other position => other = id ∧ slot ≤ position

/-- Whether an embedding makes the nodes that inline objects are to become. -/
def Embeds (setting : Setting) (groups : List Group) (embed : Embed) (inline : Inline) : Prop :=
  ∀ field object p, Sound p → Stocked groups p.graph → (embed field object p).2.Fits →
    Makes setting groups nowhere p (embed field object p).2 (inline field object)

/-! ## One link -/

theorem makes_link (hp : Sound p) {origin : NodeId} {key : String}
    (hfits : (p.link origin id slot key).Fits) :
    Makes setting groups (spotAt id slot) p (p.link origin id slot key) [] := by
  unfold Progress.link at hfits ⊢
  cases hconnect : p.graph.connect origin 0 id slot with
  | error fault =>
      exact .of_shapes rfl fun _ _ _ => rfl
  | ok pair =>
      obtain ⟨link, g'⟩ := pair
      simp only [hconnect] at hfits ⊢
      have hcount : p.graph.lastLink < Graph.lastId := by
        refine hp.links_room (Int.lt_of_lt_of_le ?_ hfits.2)
        exact Int.ofNat_lt.2 (Nat.lt_succ_self _)
      exact .of_shapes (Graph.shapes_connectKeyed hconnect key) fun other position houtside =>
        hp.wellFormed.connect_elsewhere hcount hconnect houtside

theorem makes_linkIndex (hp : Sound p) {index : Int} {key : String}
    (hfits : (linkIndex setting groups id slot field index key p).Fits) :
    Makes setting groups (spotAt id slot) p
      (linkIndex setting groups id slot field index key p) [] := by
  unfold linkIndex at hfits ⊢
  split at hfits
  · exact makes_link hp hfits
  · exact .of_shapes rfl fun _ _ _ => rfl

/-- Elements that are linked into a slot one after the other make what each becomes. -/
theorem makes_foldl {α : Type} {f : Progress → α → Progress} {makings : α → List Making}
    {xs : List α} (hsteps : ∀ x q, Steps setting q (f q x))
    (hone : ∀ x q, Sound q → Stocked groups q.graph → q.graph.Knows id → (f q x).Fits →
      Makes setting groups (spotAt id slot) q (f q x) (makings x))
    (hp : Sound p) (hstocked : Stocked groups p.graph) (hid : p.graph.Knows id)
    (hfits : (xs.foldl f p).Fits) :
    Makes setting groups (spotAt id slot) p (xs.foldl f p) (xs.flatMap makings) := by
  induction xs generalizing p with
  | nil =>
      exact .refl p
  | cons x rest ih =>
      rw [List.foldl_cons] at hfits ⊢
      have hfitsFirst := hfits.of_steps (steps_foldl (fun y _ q => hsteps y q) (f p x))
      have hsound := hp.steps (hsteps x p) hfitsFirst
      have hfirst := hone x p hp hstocked hid hfitsFirst
      exact hfirst.trans (ih hsound (hfirst.stocked hstocked) (hfirst.knows hid) hfits) hsound
        hstocked (fun _ _ hspot => hspot.1 ▸ hid) fun _ _ hspot => hspot

/-! ## One slot -/

section

variable (hembed : embed.TakesSteps setting) (hmakes : Embeds setting groups embed inline)
  (hp : Sound p) (hstocked : Stocked groups p.graph) (hid : p.graph.Knows id)

include hembed hmakes

theorem makes_linkEmbedded (hp : Sound p) (hstocked : Stocked groups p.graph)
    (hid : p.graph.Knows id) {key : String} {object : List (String × Json)}
    (hfits : (linkElement setting groups embed id slot field key (.obj object) p).Fits) :
    Makes setting groups (spotAt id slot) p
      (linkElement setting groups embed id slot field key (.obj object) p)
      (inline field object) := by
  have hsteps : Steps setting p (embed field object p).2 := hembed field object p
  have hmade := hmakes field object p hp hstocked
  have hnumber : (Json.obj object).int64? = none := rfl
  rcases hresult : embed field object p with ⟨_ | origin, next⟩
  · have hlinked : linkElement setting groups embed id slot field key (.obj object) p =
        next := by
      simp only [linkElement, hnumber, hresult]
    rw [hlinked] at hfits ⊢
    rw [hresult] at hmade
    exact (hmade hfits).widen fun _ _ _ => False.elim
  · have hlinked : linkElement setting groups embed id slot field key (.obj object) p =
        next.link origin id slot key := by
      simp only [linkElement, hnumber, hresult]
    rw [hlinked] at hfits ⊢
    rw [hresult] at hmade hsteps
    have hlink : Steps setting next (next.link origin id slot key) :=
      steps_link next origin id slot key
    have hnextFits : next.Fits := hfits.of_steps hlink
    have hnext := hp.steps hsteps hnextFits
    have hnode : Makes setting groups (spotAt id slot) p next (inline field object) :=
      (hmade hnextFits).widen fun _ _ _ => False.elim
    have hall := hnode.trans (makes_link hnext hfits) hnext hstocked
      (fun _ _ hspot => hspot.1 ▸ hid) fun _ _ hspot => hspot
    rwa [List.append_nil] at hall

theorem makes_linkElement (hp : Sound p) (hstocked : Stocked groups p.graph)
    (hid : p.graph.Knows id) {key : String} {element : Json}
    (hfits : (linkElement setting groups embed id slot field key element p).Fits) :
    Makes setting groups (spotAt id slot) p
      (linkElement setting groups embed id slot field key element p)
      (elementMakings inline field element) := by
  cases element with
  | obj object =>
      exact makes_linkEmbedded hembed hmakes hp hstocked hid hfits
  | _ =>
      unfold linkElement at hfits ⊢
      split at hfits
      · exact makes_linkIndex hp hfits
      · exact .of_shapes rfl fun _ _ _ => rfl

theorem makes_fillLinked (hp : Sound p) (hstocked : Stocked groups p.graph)
    (hid : p.graph.Knows id) {value : Json}
    (hfits : (fillLinked setting groups embed id slot field value p).Fits) :
    Makes setting groups (spotAt id slot) p
      (fillLinked setting groups embed id slot field value p)
      (linkedMakings inline field value) := by
  cases value with
  | arr elements =>
      exact makes_foldl (fun element q => steps_linkElement hembed id slot field "" element q)
        (fun element q hq hqStocked hqId hqFits =>
          makes_linkElement hembed hmakes hq hqStocked hqId hqFits) hp hstocked hid hfits
  | obj object =>
      rw [fillLinked] at hfits ⊢
      rw [linkedMakings]
      split
      · next hdict =>
          rw [if_pos hdict] at hfits
          exact makes_foldl
            (fun entry q => steps_linkElement hembed id slot field entry.1 entry.2 q)
            (fun entry q hq hqStocked hqId hqFits =>
              makes_linkElement hembed hmakes hq hqStocked hqId hqFits) hp hstocked hid hfits
      · next hdict =>
          rw [if_neg hdict] at hfits
          exact makes_linkElement hembed hmakes hp hstocked hid hfits
  | _ =>
      unfold fillLinked at hfits ⊢
      dsimp only at hfits ⊢
      split at hfits
      · exact makes_linkIndex hp hfits
      · exact .of_shapes rfl fun _ _ _ => rfl

theorem makes_fillValue (hp : Sound p) (hstocked : Stocked groups p.graph)
    {input : InputSpec} (hinput : (p.graph.shape? id).bind (·.inputs[slot]?) = some input)
    {value : Option Json} (hfits : (fillValue setting groups embed id slot field value p).Fits) :
    Makes setting groups (spotAt id slot) p
      (fillValue setting groups embed id slot field value p)
      (slotMakings inline input field value) := by
  have hid : p.graph.Knows id := by
    obtain ⟨template, hshape, -⟩ := Option.bind_eq_some_iff.1 hinput
    exact Graph.knows_of_shape? hshape
  cases value with
  | none =>
      show Makes setting groups _ p (p.clearMissing id slot) []
      unfold Progress.clearMissing
      split
      · split
        · exact .of_fills (fills_setNative p id slot .null)
        · exact .refl p
      · exact .refl p
  | some value =>
      rw [fillValue, fillSlot, isNative_eq hinput] at hfits ⊢
      rw [slotMakings]
      split
      · exact .of_fills (fills_setNative p id slot (nativeForm value))
      · next hnative =>
          rw [if_neg hnative] at hfits
          split
          · next hnull =>
              cases value with
              | null =>
                  exact .refl p
              | _ =>
                  simp [Json.isNull] at hnull
          · next hnull =>
              rw [if_neg hnull] at hfits
              exact makes_fillLinked hembed hmakes hp hstocked hid hfits

end

/-! ## One node -/

/-- What a host of slots says of itself stays true while other spots change. -/
def Lasting (setting : Setting) (groups : List Group) (id : NodeId)
    (settled : Graph → Nat → Field → Prop) : Prop :=
  ∀ {p p' : Progress} {spot : NodeId → Nat → Prop} {made : List (NodeId × Making)}
    (position : Nat) (field : Field), Grown setting spot p p' made → Stocked groups p.graph →
    p.graph.Knows id → ¬ spot id position → settled p.graph position field →
    settled p'.graph position field

/--
Slots that are filled one by one make what the inline objects for each become, and each is
settled in the end if filling it while it is fresh settles it.
-/
theorem makes_fillEach {fill : Nat → Field → Progress → Progress}
    (makings : Field → List Making) (settled : Graph → Nat → Field → Prop)
    (fresh : Nat → SlotContent) {shape : Option NodeTemplate} {fields : List Field}
    (hsteps : ∀ slot field p, Steps setting p (fill slot field p))
    (hlasting : Lasting setting groups id settled)
    (hfill : ∀ i field q, fields[i]? = some field → Sound q → Stocked groups q.graph →
      q.graph.shape? id = shape → q.graph.content id (slot + i) = fresh (slot + i) →
      (fill (slot + i) field q).Fits →
      Makes setting groups (spotAt id (slot + i)) q (fill (slot + i) field q) (makings field) ∧
        settled (fill (slot + i) field q).graph (slot + i) field)
    (hp : Sound p) (hstocked : Stocked groups p.graph) (hid : p.graph.Knows id)
    (hshape : p.graph.shape? id = shape)
    (hfresh : ∀ position, slot ≤ position → p.graph.content id position = fresh position)
    (hfits : (fillEach fill slot fields p).Fits) :
    Makes setting groups (spotsFrom id slot) p (fillEach fill slot fields p)
      (fields.flatMap makings) ∧
    ∀ i field, fields[i]? = some field →
      settled (fillEach fill slot fields p).graph (slot + i) field := by
  induction fields generalizing slot p with
  | nil =>
      exact ⟨.refl p, fun i field hfield => by simp at hfield⟩
  | cons field rest ih =>
      rw [fillEach] at hfits ⊢
      have hfitsFirst := hfits.of_steps (steps_fillEach hsteps (slot + 1) rest _)
      obtain ⟨hfirst, hsettled⟩ := hfill 0 field p rfl hp hstocked hshape
        (hfresh slot (Nat.le_refl _)) hfitsFirst
      rw [Nat.add_zero] at hfirst hsettled
      have hsound := hp.steps (hsteps slot field p) hfitsFirst
      -- The slots that follow are further on in the same node, and still fresh.
      obtain ⟨hrest, hrestSettled⟩ := ih
        (fun i other q hother hq hqStocked hqShape hqFresh hqFits => by
          rw [Nat.succ_add_eq_add_succ] at hqFresh hqFits ⊢
          exact hfill (i + 1) other q hother hq hqStocked hqShape hqFresh hqFits)
        hsound (hfirst.stocked hstocked) (hfirst.knows hid)
        ((hfirst.shape?_eq hid).trans hshape)
        (fun position hposition => by
          rw [hfirst.kept hid fun hhere => by have := hhere.2; omega]
          exact hfresh position (Nat.le_of_succ_le hposition))
        hfits
      refine ⟨?_, fun i other hother => ?_⟩
      · exact (hfirst.widen fun _ _ _ hhere => ⟨hhere.1, Nat.le_of_eq hhere.2.symm⟩).trans hrest
          hsound hstocked (fun _ _ hspot => hspot.1 ▸ hid)
          fun _ _ hspot => ⟨hspot.1, Nat.le_of_succ_le hspot.2⟩
      · cases i with
        | zero =>
            obtain rfl : field = other := Option.some.inj hother
            obtain ⟨made, -, hgrown, -⟩ := hrest
            exact hlasting slot field hgrown (hfirst.stocked hstocked) (hfirst.knows hid)
              (fun hhere => Nat.not_succ_le_self slot hhere.2) hsettled
        | succ i =>
            have hposition : slot + (i + 1) = slot + 1 + i := by
              omega
            rw [hposition]
            exact hrestSettled i other hother

theorem slotFilled_fillValue (hp : Sound p) {input : InputSpec}
    (hinput : (p.graph.shape? id).bind (·.inputs[slot]?) = some input)
    (hfresh : p.graph.content id slot = input.intake.freshContent) {value : Option Json}
    (hfits : (fillValue setting groups embed id slot field value p).Fits) :
    SlotFilled setting groups (fillValue setting groups embed id slot field value p).graph id
      slot input field value := by
  intro hflat
  have hfills := fills_fillValue hp hinput hfresh hflat hfits
  rw [hfills.here, filledContent_congr hfills.shapes]

section

variable (hembed : embed.TakesSteps setting) (hmakes : Embeds setting groups embed inline)

include hembed hmakes

/-- A fresh node is filled from an object, and the inline objects there are made. -/
theorem makes_populate (hp : Sound p) (hstocked : Stocked groups p.graph) {cls : SchemaClass}
    {source : List (String × Json)} (hready : Ready setting p.graph id cls)
    (hcls : setting.schema.findClass? cls.name = some cls)
    (hfits : (populate setting groups embed id source p).Fits) :
    Makes setting groups (spotsFrom id 0) p (populate setting groups embed id source p)
      (objectMakings setting.schema inline cls source) ∧
    ObjectFilled setting groups (populate setting groups embed id source p).graph id cls
      source := by
  obtain ⟨template, hshape, -⟩ := hready.shape
  rw [populate_eq hready.shape hcls, fillFields_eq] at hfits ⊢
  obtain ⟨hmade, hfilled⟩ := makes_fillEach
    (fun field =>
      slotMakings inline (setting.schema.inputOf cls field) field (source.lookup field.name))
    (fun g position field =>
      SlotFilled setting groups g id position (setting.schema.inputOf cls field) field
        (source.lookup field.name))
    (p.graph.content id)
    (fun slot field q => steps_fillValue hembed id slot field (source.lookup field.name) q)
    (fun position field hgrown hqStocked hqId houtside hsettled =>
      hsettled.of_grown hgrown hqStocked hqId houtside)
    (fun i field q hfield hq hqStocked hqShape hqFresh hqFits => by
      rw [Nat.zero_add] at hqFresh hqFits ⊢
      have hinput := hready.input hfield
      rw [← hqShape] at hinput
      have hfresh := hready.fresh i _ (hready.input hfield)
      exact ⟨makes_fillValue hembed hmakes hq hqStocked hinput hqFits,
        slotFilled_fillValue hq hinput (hqFresh.trans hfresh) hqFits⟩)
    hp hstocked (Graph.knows_of_shape? hshape) rfl (fun _ _ => rfl) hfits
  refine ⟨hmade, fun position field hfield => ?_⟩
  have hhere := hfilled position field hfield
  rwa [Nat.zero_add] at hhere

end

/-! ## Nodes for inline objects -/

/-- What was reported and what was embedded has no part in whether a progress is sound. -/
theorem Sound.congr (h : Sound p) (hgraph : p'.graph = p.graph) (hlinks : p'.links = p.links) :
    Sound p' := by
  obtain ⟨⟨hwf, hnodes, hcount⟩, horder⟩ := h
  rw [← hgraph] at hwf hnodes hcount horder
  exact ⟨⟨hwf, hnodes, hlinks ▸ hcount⟩, horder⟩

theorem findClass?_of_inline {schema : Schema} {object : List (String × Json)} {name : String}
    (h : (schema.modelOf? field).or (classesCovering schema object).head? = some name) :
    ∃ cls, schema.findClass? name = some cls ∧ cls ∈ schema.classes ∧ cls.name = name := by
  have hdeclared : ∃ cls ∈ schema.classes, cls.name = name := by
    rcases Option.or_eq_some_iff.1 h with hmodel | ⟨-, hcovering⟩
    · exact SchemaClass.declared_iff.1 (TypeExpr.declared_of_modelClass? hmodel)
    · obtain ⟨cls, hcls, hname⟩ := List.mem_map.1 (List.mem_of_head? hcovering)
      exact ⟨cls, (List.mem_filter.1 hcls).1, hname⟩
  obtain ⟨cls, hfind⟩ : ∃ cls, schema.findClass? name = some cls := by
    obtain ⟨cls, hcls, hname⟩ := hdeclared
    rw [← Option.isSome_iff_exists, Schema.findClass?, SchemaClass.find?, List.find?_isSome]
    exact ⟨cls, hcls, beq_iff_eq.2 hname⟩
  exact ⟨cls, hfind, List.mem_of_find?_eq_some hfind, by simpa using List.find?_some hfind⟩

/-- Finding the class of an inline object does no more than report. -/
theorem embeddedClass?_eq (schema : Schema) (field : Field) (object : List (String × Json))
    (p : Progress) : ∃ issues, embeddedClass? schema field object p =
      ((schema.modelOf? field).or (classesCovering schema object).head?,
        { p with issues := p.issues ++ issues }) := by
  unfold embeddedClass?
  cases schema.modelOf? field with
  | some className =>
      exact ⟨[], by rw [List.append_nil]; rfl⟩
  | none =>
      cases classesCovering schema object with
      | nil =>
          exact ⟨_, rfl⟩
      | cons chosen others =>
          exact ⟨_, rfl⟩

/-- A node that joins and is filled from its object comes before the nodes for its own. -/
theorem makes_filledNode (hembed : embed.TakesSteps setting)
    (hmakes : Embeds setting groups embed inline) {q : Progress} {cls : SchemaClass}
    {object : List (String × Json)} (hq : Sound q)
    (hgrown : Grown setting nowhere p q [(id, ⟨cls.name, .obj object⟩)])
    (hstocked : Stocked groups p.graph) (hready : Ready setting q.graph id cls)
    (hcls : setting.schema.findClass? cls.name = some cls)
    (hfits : (populate setting groups embed id object q).Fits) :
    Makes setting groups nowhere p (populate setting groups embed id object q)
      (⟨cls.name, .obj object⟩ :: objectMakings setting.schema inline cls object) := by
  obtain ⟨hinside, hfilled⟩ :=
    makes_populate hembed hmakes hq (hgrown.stocked hstocked) hready hcls hfits
  have hnew := hgrown.not_knows hq (List.mem_singleton_self _)
  refine hinside.prepend hgrown (fun entry hentry => ?_) fun other hother slot hspot =>
    hnew (hspot.1 ▸ hother)
  obtain rfl := List.mem_singleton.1 hentry
  refine ⟨cls, hcls, fun source hsource => ?_⟩
  obtain rfl := Json.obj.inj hsource
  exact hfilled

section

variable (hserves : setting.registry.Serves setting.schema)

include hserves

theorem createNode_eq (p : Progress) {cls : SchemaClass} (hcls : cls ∈ setting.schema.classes)
    (x y : Float) : ∃ template,
      setting.registry.find? setting.schema.name cls.name = some template ∧
      setting.schema.IsTemplate cls template ∧
      p.createNode setting cls.name x y =
        (some (p.graph.addNode template x y).1,
          { p with graph := (p.graph.addNode template x y).2 }) := by
  obtain ⟨template, hfind, htemplate⟩ := hserves cls hcls
  exact ⟨template, hfind, htemplate, by rw [Progress.createNode, hfind]⟩

omit hserves in
/-- A node that is made from the template of its class joins the others, and is fresh there. -/
theorem grown_addNode (hp : Sound p) {cls : SchemaClass} {template : NodeTemplate} {x y : Float}
    (hfind : setting.registry.find? setting.schema.name cls.name = some template)
    (htemplate : setting.schema.IsTemplate cls template)
    (hfits : ({ p with graph := (p.graph.addNode template x y).2 } : Progress).Fits)
    (element : Json) :
    Grown setting nowhere p { p with graph := (p.graph.addNode template x y).2 }
      [((p.graph.addNode template x y).1, ⟨cls.name, element⟩)] ∧
    Ready setting (p.graph.addNode template x y).2 (p.graph.addNode template x y).1 cls := by
  have hmade : Sound { p with graph := (p.graph.addNode template x y).2 } :=
    hp.step (Step.create p cls.name template x y hfind) hfits
  have hroom : p.graph.lastNode < Graph.lastId := by
    have hnodes := hfits.1
    simp only [Graph.addNode, List.length_append] at hnodes
    refine hp.nodes_room (Int.lt_of_lt_of_le ?_ hnodes)
    exact Int.ofNat_lt.2 (Nat.lt_succ_self _)
  refine ⟨⟨⟨_, p.graph.shapes_addNode template x y, by simp [blueprint, hfind]⟩, ?_⟩, ?_⟩
  · intro other hknown slot _
    rw [Graph.Knows, Graph.map_fst_shapes] at hknown
    exact Graph.content_addNode_of_ne (hp.wellFormed.ne_addNode hroom hknown) slot
  · have hshape : (p.graph.addNode template x y).2.shape? (p.graph.addNode template x y).1 =
        some template := by
      rw [hmade.wellFormed.shape?_eq_some_iff, Graph.shapes_addNode]
      exact List.mem_append_right _ (List.mem_singleton_self _)
    refine ⟨⟨template, hshape, htemplate⟩, fun position input hinput => ?_⟩
    rw [hshape] at hinput
    exact hp.wellFormed.content_addNode hroom hinput

/-- An inline object becomes a node of its own, filled from it. -/
theorem embeds_embedWith (hembed : embed.TakesSteps setting)
    (hmakes : Embeds setting groups embed inline) :
    Embeds setting groups (embedWith setting groups embed)
      (inlineWith setting.schema inline) := by
  intro field object p hp hstocked hfits
  obtain ⟨issues, hclass⟩ := embeddedClass?_eq setting.schema field object p
  rw [embedWith, hclass] at hfits ⊢
  rw [inlineWith, inlineClass?]
  cases hname : (setting.schema.modelOf? field).or
      (classesCovering setting.schema object).head? with
  | none =>
      exact .of_shapes rfl fun _ _ _ => rfl
  | some className =>
      obtain ⟨cls, hcls, hmem, rfl⟩ := findClass?_of_inline hname
      have hreported : Sound { p with issues := p.issues ++ issues } := hp.congr rfl rfl
      obtain ⟨template, hfind, htemplate, hcreate⟩ :=
        createNode_eq hserves { p with issues := p.issues ++ issues } hmem
          (setting.layout.embeddedX p.embedded) (setting.layout.embeddedY p.embedded)
      rw [Option.bind_some, hcls]
      simp only [hname, hcreate] at hfits ⊢
      have hnodeFits := hfits.of_steps (steps_populate hembed _ object _)
      obtain ⟨hgrown, hready⟩ := grown_addNode hreported hfind htemplate hnodeFits (.obj object)
      have hnode := hreported.step (Step.create _ cls.name template _ _ hfind) hnodeFits
      exact makes_filledNode hembed hmakes (hnode.congr rfl rfl) ⟨hgrown.shapes, hgrown.kept⟩
        hstocked hready hcls hfits

/-- By induction on how deep objects nest, inline objects become nodes of their own. -/
theorem embeds_embedAt (depth : Nat) :
    Embeds setting groups (embedAt setting groups depth)
      (inlineMakings setting.schema depth) := by
  induction depth with
  | zero =>
      exact fun _ _ p _ _ _ => .refl p
  | succ depth ih =>
      exact embeds_embedWith hserves (takesSteps_embedAt depth) ih

end

end Import

end SlotGraph
