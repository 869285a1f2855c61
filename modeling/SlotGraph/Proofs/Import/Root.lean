import SlotGraph.Proofs.Import.Groups

/-!
# Filling the root

The root is one more fresh node.  Each of its slots is fed by the whole group that the
field names, or filled like the slot of any other node.
-/

namespace SlotGraph

namespace Import

variable {setting : Setting} {groups : List Group} {embed : Embed} {p : Progress}

/-! ## Slots of the root -/

def Group.members (group : Group) (input : InputSpec) : List (NodeId × Json) :=
  if input.intake.collects then group.nodes else group.nodes.take 1

theorem Group.nodes_of_members {group : Group} {input : InputSpec} {member : NodeId × Json}
    (h : member ∈ group.members input) : member ∈ group.nodes := by
  rw [Group.members] at h
  split at h
  · exact h
  · exact List.mem_of_mem_take h

def rootContent (setting : Setting) (groups : List Group) (g : Graph) (root : NodeId)
    (slot : Nat) (input : InputSpec) (field : Field) (value : Option Json) : SlotContent :=
  match findGroup? groups field.name with
  | some group =>
      ⟨(group.members input).filterMap fun member =>
        if g.admits member.1 root slot then some ⟨member.1, ""⟩ else none,
        input.intake.freshContent.held⟩
  | none => filledContent setting groups g root slot input field value

theorem rootContent_congr {g g' : Graph} (h : g'.shapes = g.shapes) (root : NodeId)
    (slot : Nat) (input : InputSpec) (field : Field) (value : Option Json) :
    rootContent setting groups g' root slot input field value =
      rootContent setting groups g root slot input field value := by
  simp only [rootContent, filledContent_congr h, Graph.admits_congr h]

def fillRootSlot (setting : Setting) (groups : List Group) (embed : Embed) (root : NodeId)
    (slot : Nat) (field : Field) (value : Option Json) (p : Progress) : Progress :=
  match findGroup? groups field.name with
  | some group => linkGroup root slot group p
  | none => fillValue setting groups embed root slot field value p

theorem steps_fillRootSlot (hembed : embed.TakesSteps setting) (root : NodeId) (slot : Nat)
    (field : Field) (value : Option Json) (p : Progress) :
    Steps setting p (fillRootSlot setting groups embed root slot field value p) := by
  unfold fillRootSlot
  split
  · exact steps_linkGroup root slot _ p
  · exact steps_fillValue hembed root slot field value p

theorem fillRoot_eq (root : NodeId) (document : List (String × Json)) (slot : Nat)
    (fields : List Field) (p : Progress) :
    fillRoot setting groups embed root document slot fields p =
      fillEach
        (fun slot field p =>
          fillRootSlot setting groups embed root slot field (document.lookup field.name) p)
        slot fields p := by
  induction fields generalizing slot p with
  | nil =>
      rfl
  | cons field rest ih =>
      rw [fillRoot, fillEach, ih]
      rfl

theorem linkGroup_eq {root : NodeId} {slot : Nat} {input : InputSpec}
    (hinput : (p.graph.shape? root).bind (·.inputs[slot]?) = some input) (group : Group) :
    linkGroup root slot group p =
      (group.members input).foldl (fun p member => p.link member.1 root slot "") p := by
  have hcollects : ((p.graph.findNode? root).bind fun node => node.inputs[slot]?).any
      (·.feed.collects) = input.intake.collects := by
    cases hfind : p.graph.findNode? root with
    | none =>
        simp [Graph.shape?, hfind] at hinput
    | some node =>
        rw [Graph.shape?_inputs hfind] at hinput
        obtain ⟨slotHere, hslot, rfl⟩ := Option.map_eq_some_iff.1 hinput
        rw [Option.bind_some, hslot]
        exact (Feed.collects_intake slotHere.feed).symm
  rw [linkGroup, hcollects, Group.members]

theorem fills_linkGroup (setting : Setting) (hp : Sound p) {root : NodeId} {slot : Nat}
    {input : InputSpec}
    {group : Group} (hinput : (p.graph.shape? root).bind (·.inputs[slot]?) = some input)
    (hfresh : p.graph.content root slot = input.intake.freshContent)
    (hfits : (linkGroup root slot group p).Fits) :
    Fills root slot
      ⟨(group.members input).filterMap fun member =>
        if p.graph.admits member.1 root slot then some ⟨member.1, ""⟩ else none,
        input.intake.freshContent.held⟩
      p (linkGroup root slot group p) := by
  have hsources := congrArg SlotContent.sources hfresh
  have hheld := congrArg SlotContent.held hfresh
  simp only [Graph.content] at hsources hheld
  have hroom : p.graph.HasRoom root slot (group.members input).length := by
    intro other hother
    rw [hinput] at hother
    rw [← Option.some.inj hother, hsources, Group.members]
    cases input.intake.collects with
    | true =>
        exact Or.inl rfl
    | false =>
        have htaken : (group.nodes.take 1).length ≤ 1 :=
          List.length_take_le 1 group.nodes
        right
        show 0 + (group.nodes.take 1).length ≤ 1
        omega
  have hsteps : ∀ (member : NodeId × Json) q,
      Steps setting q (q.link member.1 root slot "") :=
    fun member q => steps_link q member.1 root slot ""
  have hone : ∀ (member : NodeId × Json) q, Sound q → q.graph.shapes = p.graph.shapes →
      q.graph.HasRoom root slot 1 → (q.link member.1 root slot "").Fits →
      Fills root slot
        (linkedContent q.graph root slot
          (if p.graph.admits member.1 root slot then some ⟨member.1, ""⟩ else none).toList)
        q (q.link member.1 root slot "") := by
    intro member q hq hshapes hqRoom hqFits
    have hlinked := fills_link hq hqRoom hqFits
    rw [Graph.admits_congr hshapes] at hlinked
    split
    · next hadmits =>
        rwa [if_pos hadmits] at hlinked
    · next hadmits =>
        rwa [if_neg hadmits] at hlinked
  rw [linkGroup_eq hinput] at hfits ⊢
  have hlinked := fills_foldl hsteps hone hp hroom hfits
  rw [linkedContent, hsources, hheld] at hlinked
  exact hlinked

theorem fills_fillRootSlot (hp : Sound p) {root : NodeId} {slot : Nat} {field : Field}
    {input : InputSpec} {value : Option Json}
    (hinput : (p.graph.shape? root).bind (·.inputs[slot]?) = some input)
    (hfresh : p.graph.content root slot = input.intake.freshContent)
    (hflat : findGroup? groups field.name = none → ∀ v, value = some v → Flat input field v)
    (hfits : (fillRootSlot setting groups embed root slot field value p).Fits) :
    Fills root slot (rootContent setting groups p.graph root slot input field value) p
      (fillRootSlot setting groups embed root slot field value p) := by
  unfold fillRootSlot rootContent at *
  cases hgroup : findGroup? groups field.name with
  | some group =>
      rw [hgroup] at hfits
      exact fills_linkGroup setting hp hinput hfresh hfits
  | none =>
      rw [hgroup] at hfits
      exact fills_fillValue hp hinput hfresh (hflat hgroup) hfits

def RootFilled (setting : Setting) (groups : List Group) (g : Graph) (root : NodeId)
    (cls : SchemaClass) (document : List (String × Json)) : Prop :=
  ∀ position field, cls.fields[position]? = some field →
    g.content root position =
      rootContent setting groups g root position (setting.schema.inputOf cls field) field
        (document.lookup field.name)

theorem fillRoot_contents (hembed : embed.TakesSteps setting) (hp : Sound p) {root : NodeId}
    {cls : SchemaClass} {document : List (String × Json)}
    (hready : Ready setting p.graph root cls)
    (hflat : ∀ field ∈ cls.fields, findGroup? groups field.name = none →
      ∀ value, document.lookup field.name = some value →
        Flat (setting.schema.inputOf cls field) field value)
    (hfits : (fillRoot setting groups embed root document 0 cls.fields p).Fits) :
    (fillRoot setting groups embed root document 0 cls.fields p).graph.shapes =
      p.graph.shapes ∧
    (∀ other, other ≠ root → ∀ position,
      (fillRoot setting groups embed root document 0 cls.fields p).graph.content other position =
        p.graph.content other position) ∧
    RootFilled setting groups (fillRoot setting groups embed root document 0 cls.fields p).graph
      root cls document := by
  rw [fillRoot_eq] at hfits ⊢
  obtain ⟨hshapes, helsewhere, hfilled⟩ := fillEach_contents
    (fun slot field =>
      rootContent setting groups p.graph root slot (setting.schema.inputOf cls field) field
        (document.lookup field.name))
    (p.graph.content root)
    (fun slot field q => steps_fillRootSlot hembed root slot field (document.lookup field.name) q)
    (fun i field q hfield hq hqShapes hqFresh hqFits => by
      rw [Nat.zero_add] at hqFresh hqFits ⊢
      have hinput := hready.input hfield
      rw [← rootContent_congr hqShapes]
      refine fills_fillRootSlot hq ?_ ?_ ?_ hqFits
      · rw [Graph.shape?_congr hqShapes]
        exact hinput
      · rw [hqFresh]
        exact hready.fresh i _ hinput
      · exact hflat field (List.mem_of_getElem? hfield))
    hp rfl (fun _ _ => rfl) hfits
  refine ⟨hshapes, fun other hother position => ?_, fun position field hfield => ?_⟩
  · exact helsewhere other position fun hhere => hother hhere.1
  · have hhere := hfilled position field hfield
    rw [Nat.zero_add] at hhere
    rw [hhere, rootContent_congr hshapes]

end Import

end SlotGraph
