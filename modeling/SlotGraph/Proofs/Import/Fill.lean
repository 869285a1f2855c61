import SlotGraph.Proofs.Graph.Linking
import SlotGraph.Proofs.Graph.Runs

/-!
# Filling slots

What an import puts into the slots of a node where the document gives it no inline
objects.  Filling a slot changes what this slot holds and nothing else; so what a node
holds in the end is settled slot by slot, by the field and by the value that the
document gives for it.
-/

namespace SlotGraph

namespace Import

variable {setting : Setting} {groups : List Group} {embed : Embed} {p p' : Progress}

/-! ## Sound progress -/

/-- Whether signed 64-bit numbers count the nodes and links of a progress. -/
def Progress.Fits (p : Progress) : Prop :=
  (p.graph.nodes.length : Int) ≤ Graph.lastId ∧ (p.links : Int) ≤ Graph.lastId

theorem Progress.Fits.of_steps (h : p'.Fits) (hsteps : Steps setting p p') : p.Fits := by
  obtain ⟨hnodes, hlinks⟩ := hsteps.mono
  exact ⟨Int.le_trans (Int.ofNat_le.2 hnodes) h.1, Int.le_trans (Int.ofNat_le.2 hlinks) h.2⟩

/-- How far an import into the empty graph has come: well formed, counted and in order. -/
structure Sound (p : Progress) : Prop where
  counted : Counted Graph.empty p
  inOrder : p.graph.InOrder

theorem Sound.wellFormed (h : Sound p) : p.graph.WellFormed :=
  h.counted.wellFormed

theorem Sound.start : Sound (Progress.start Graph.empty) :=
  ⟨Counted.start Graph.WellFormed.empty, Graph.InOrder.empty⟩

theorem Sound.nodes_room (h : Sound p) (hroom : (p.graph.nodes.length : Int) < Graph.lastId) :
    p.graph.lastNode < Graph.lastId := by
  have hcount := h.counted.nodes
  simp only [Graph.empty, List.length_nil] at hcount
  lia

theorem Sound.links_room (h : Sound p) (hroom : (p.links : Int) < Graph.lastId) :
    p.graph.lastLink < Graph.lastId := by
  have hcount := h.counted.links
  simp only [Graph.empty] at hcount
  lia

theorem Sound.step (h : Sound p) (hstep : Step setting p p') (hfits : p'.Fits) : Sound p' := by
  obtain ⟨hnodes, hlinks⟩ := hfits
  have hcounted := h.counted.step hstep
    (by simpa [Graph.empty] using hnodes) (by simpa [Graph.empty] using hlinks)
  refine ⟨hcounted, ?_⟩
  cases hstep with
  | report issues =>
      exact h.inOrder
  | create className template x y hfind =>
      exact h.inOrder.addNode template x y
  | embed =>
      exact h.inOrder
  | link origin target slot key id graph hconnect =>
      have hroom : p.graph.lastLink < Graph.lastId := by
        refine h.links_room (Int.lt_of_lt_of_le ?_ hlinks)
        exact Int.ofNat_lt.2 (Nat.lt_succ_self _)
      have hlinked := h.inOrder.connect h.wellFormed hroom hconnect
      split
      · exact hlinked
      · exact hlinked.setKey_getD id key
  | setNative id slot value graph hset =>
      exact h.inOrder.setNative hset

theorem Sound.steps (h : Sound p) (hsteps : Steps setting p p') (hfits : p'.Fits) :
    Sound p' := by
  induction hsteps with
  | refl =>
      exact h
  | tail hbefore hstep ih =>
      exact (ih (hfits.of_steps (.single hstep))).step hstep hfits

/-! ## Filling one slot -/

/-- The slot of a node gets a content, and nothing else in the graph changes its own. -/
structure Fills (id : NodeId) (slot : Nat) (content : SlotContent) (p p' : Progress) :
    Prop where
  shapes : p'.graph.shapes = p.graph.shapes
  contents : ∀ other position, p'.graph.content other position =
    if other = id ∧ position = slot then content else p.graph.content other position

variable {id : NodeId} {slot : Nat} {content content' : SlotContent}

theorem Fills.here (h : Fills id slot content p p') : p'.graph.content id slot = content := by
  rw [h.contents, if_pos ⟨rfl, rfl⟩]

theorem Fills.refl (p : Progress) (id : NodeId) (slot : Nat) :
    Fills id slot (p.graph.content id slot) p p where
  shapes := rfl
  contents other position := by
    split
    · next hhere =>
        rw [hhere.1, hhere.2]
    · rfl

theorem Fills.reported (p : Progress) (issues : List Issue) (id : NodeId) (slot : Nat) :
    Fills id slot (p.graph.content id slot) p { p with issues := p.issues ++ issues } :=
  ⟨rfl, (Fills.refl p id slot).contents⟩

theorem Fills.trans {p'' : Progress} (h : Fills id slot content p p')
    (h' : Fills id slot content' p' p'') : Fills id slot content' p p'' where
  shapes := h'.shapes.trans h.shapes
  contents other position := by
    rw [h'.contents, h.contents]
    split <;> rfl

def linkedContent (g : Graph) (id : NodeId) (slot : Nat) (sources : List Source) :
    SlotContent :=
  ⟨g.sources id slot ++ sources, g.held? id slot⟩

@[simp] theorem linkedContent_nil (g : Graph) (id : NodeId) (slot : Nat) :
    linkedContent g id slot [] = g.content id slot := by
  rw [linkedContent, List.append_nil]
  rfl

theorem fills_link (hp : Sound p) {origin : NodeId} {key : String}
    (hroom : p.graph.HasRoom id slot 1) (hfits : (p.link origin id slot key).Fits) :
    Fills id slot
      (linkedContent p.graph id slot
        (if p.graph.admits origin id slot then [⟨origin, key⟩] else []))
      p (p.link origin id slot key) := by
  unfold Progress.link at hfits ⊢
  cases hconnect : p.graph.connect origin 0 id slot with
  | error fault =>
      have hrefused : p.graph.admits origin id slot = false := by
        refine Bool.eq_false_iff.2 fun hadmits => ?_
        obtain ⟨link, g', hok⟩ := Graph.connect_ok_iff_admits.2 hadmits
        rw [hconnect] at hok
        simp at hok
      rw [hrefused, if_neg Bool.false_ne_true, linkedContent_nil]
      exact Fills.reported p fault.issues id slot
  | ok pair =>
      obtain ⟨link, g'⟩ := pair
      simp only [hconnect] at hfits ⊢
      have hadmits := Graph.connect_ok_iff_admits.1 ⟨link, g', hconnect⟩
      have hcount : p.graph.lastLink < Graph.lastId := by
        refine hp.links_room (Int.lt_of_lt_of_le ?_ hfits.2)
        exact Int.ofNat_lt.2 (Nat.lt_succ_self _)
      rw [hadmits, linkedContent, if_pos rfl]
      refine ⟨Graph.shapes_connectKeyed hconnect key, fun other position => ?_⟩
      rw [hp.wellFormed.connect_keyed hcount hroom hconnect]
      split
      · next hhere =>
          rw [hhere.1, hhere.2]
      · rw [List.append_nil]
        rfl

theorem fills_setNative (p : Progress) (id : NodeId) (slot : Nat) (value : Json) :
    Fills id slot
      ⟨p.graph.sources id slot, (p.graph.held? id slot).map fun _ => value⟩
      p (p.setNative id slot value) := by
  have hsome := p.graph.isSome_setNative? id slot value
  unfold Progress.setNative
  cases hset : p.graph.setNative? id slot value with
  | none =>
      rw [hset] at hsome
      have hnone : p.graph.held? id slot = none := by
        simpa using hsome.symm
      have hsame := Fills.refl p id slot
      rw [Graph.content, hnone] at hsame
      rw [hnone]
      exact hsame
  | some g' =>
      rw [hset] at hsome
      obtain ⟨before, hbefore⟩ := Option.isSome_iff_exists.1 hsome.symm
      have hlinks : g'.links = p.graph.links := by
        rw [Graph.setNative?_eq_some hset]
        rfl
      refine ⟨Graph.shapes_setNative hset, fun other position => ?_⟩
      rw [Option.getD_some, Graph.content, Graph.sources_of_links hlinks,
        Graph.held?_setNative hset, hbefore]
      split
      · next hhere =>
          rw [hhere.1, hhere.2]
          rfl
      · rfl

/--
Links that are made into a slot one after the other stand there in their order, those
left out that give no source.
-/
theorem fills_foldl {α : Type} {f : Progress → α → Progress} {source : α → Option Source}
    (hsteps : ∀ x q, Steps setting q (f q x))
    (hone : ∀ x q, Sound q → q.graph.shapes = p.graph.shapes → q.graph.HasRoom id slot 1 →
      (f q x).Fits →
      Fills id slot (linkedContent q.graph id slot (source x).toList) q (f q x))
    (hp : Sound p) {xs : List α} (hroom : p.graph.HasRoom id slot xs.length)
    (hfits : (xs.foldl f p).Fits) :
    Fills id slot (linkedContent p.graph id slot (xs.filterMap source)) p (xs.foldl f p) := by
  induction xs generalizing p with
  | nil =>
      rw [List.filterMap_nil, linkedContent_nil]
      exact Fills.refl p id slot
  | cons x rest ih =>
      rw [List.foldl_cons] at hfits ⊢
      have hfitsFirst := hfits.of_steps (steps_foldl (fun y _ q => hsteps y q) (f p x))
      have hsound := hp.steps (hsteps x p) hfitsFirst
      have hroomFirst : p.graph.HasRoom id slot 1 := by
        intro input hinput
        refine (hroom input hinput).imp_right fun hle => ?_
        rw [List.length_cons] at hle
        omega
      have hfirst := hone x p hp rfl hroomFirst hfitsFirst
      have hsources := congrArg SlotContent.sources hfirst.here
      have hheld := congrArg SlotContent.held hfirst.here
      simp only [Graph.content, linkedContent] at hsources hheld
      have hroomRest : (f p x).graph.HasRoom id slot rest.length := by
        intro input hinput
        rw [Graph.shape?_congr hfirst.shapes] at hinput
        refine (hroom input hinput).imp_right fun hle => ?_
        have hlength : (source x).toList.length ≤ 1 := by
          cases source x <;> simp
        rw [hsources, List.length_append]
        rw [List.length_cons] at hle
        omega
      have hrest := hfirst.trans (ih (fun y q hq hshapes => hone y q hq
        (hshapes.trans hfirst.shapes)) hsound hroomRest hfits)
      rw [linkedContent, hsources, hheld, List.append_assoc] at hrest
      rw [linkedContent, List.filterMap_cons]
      cases hsource : source x with
      | none =>
          simpa [hsource] using hrest
      | some found =>
          simpa [hsource] using hrest

/-! ## Filling a slot with indices -/

/-- The integers in a value without inline objects, each with the key it stands under. -/
def indices? (keyed : Bool) : Json → Option (List (Int × String))
  | .arr elements => elements.mapM fun element => element.int64?.map fun index => (index, "")
  | .obj members =>
      if keyed then
        members.mapM fun member => member.2.int64?.map fun index => (index, member.1)
      else
        none
  | value => value.int64?.map fun index => [(index, "")]

/-- What an index adds to a slot: the node it stands for, if the slot admits it. -/
def source? (setting : Setting) (groups : List Group) (g : Graph) (id : NodeId) (slot : Nat)
    (field : Field) (entry : Int × String) : Option Source :=
  (resolve? setting.schema groups field entry.1).bind fun origin =>
    if g.admits origin id slot then some ⟨origin, entry.2⟩ else none

theorem source?_congr {g g' : Graph} (h : g'.shapes = g.shapes) (id : NodeId) (slot : Nat)
    (field : Field) :
    source? setting groups g' id slot field = source? setting groups g id slot field := by
  funext entry
  simp only [source?, Graph.admits_congr h]

theorem fills_linkIndex (hp : Sound p) {field : Field} {index : Int} {key : String}
    (hroom : p.graph.HasRoom id slot 1)
    (hfits : (linkIndex setting groups id slot field index key p).Fits) :
    Fills id slot
      (linkedContent p.graph id slot
        (source? setting groups p.graph id slot field (index, key)).toList)
      p (linkIndex setting groups id slot field index key p) := by
  unfold linkIndex at hfits ⊢
  cases horigin : resolve? setting.schema groups field index with
  | none =>
      rw [source?, horigin, Option.bind_none, Option.toList_none, linkedContent_nil]
      exact Fills.reported p _ id slot
  | some origin =>
      simp only [horigin] at hfits ⊢
      have hlinked := fills_link hp hroom hfits
      rw [source?, horigin, Option.bind_some]
      cases hadmits : p.graph.admits origin id slot with
      | true =>
          simpa [hadmits] using hlinked
      | false =>
          simpa [hadmits] using hlinked

def linkIndices (setting : Setting) (groups : List Group) (id : NodeId) (slot : Nat)
    (field : Field) (entries : List (Int × String)) (p : Progress) : Progress :=
  entries.foldl (fun p entry => linkIndex setting groups id slot field entry.1 entry.2 p) p

/-- Indices go into a slot in their order, those left out that give no source. -/
theorem fills_linkIndices (hp : Sound p) {field : Field} {entries : List (Int × String)}
    (hroom : p.graph.HasRoom id slot entries.length)
    (hfits : (linkIndices setting groups id slot field entries p).Fits) :
    Fills id slot
      (linkedContent p.graph id slot
        (entries.filterMap (source? setting groups p.graph id slot field)))
      p (linkIndices setting groups id slot field entries p) := by
  have hone : ∀ (entry : Int × String) q, Sound q → q.graph.shapes = p.graph.shapes →
      q.graph.HasRoom id slot 1 →
      (linkIndex setting groups id slot field entry.1 entry.2 q).Fits →
      Fills id slot
        (linkedContent q.graph id slot
          (source? setting groups p.graph id slot field entry).toList)
        q (linkIndex setting groups id slot field entry.1 entry.2 q) := by
    intro ⟨index, key⟩ q hq hshapes hqRoom hqFits
    rw [← source?_congr hshapes]
    exact fills_linkIndex hq hqRoom hqFits
  have hsteps : ∀ (entry : Int × String) q,
      Steps setting q (linkIndex setting groups id slot field entry.1 entry.2 q) :=
    fun entry q => steps_linkIndex id slot field entry.1 entry.2 q
  rw [linkIndices] at hfits ⊢
  exact fills_foldl hsteps hone hp hroom hfits

theorem linkElement_of_int64? {key : String} {field : Field} {element : Json} {index : Int}
    (hindex : element.int64? = some index) (p : Progress) :
    linkElement setting groups embed id slot field key element p =
      linkIndex setting groups id slot field index key p := by
  unfold linkElement
  rw [hindex]

/-- A value without inline objects is filled in index by index. -/
theorem fillLinked_eq {field : Field} {value : Json} {entries : List (Int × String)}
    (hvalue : indices? field.type.required.isDict value = some entries) (p : Progress) :
    fillLinked setting groups embed id slot field value p =
      linkIndices setting groups id slot field entries p := by
  cases value with
  | arr elements =>
      simp only [indices?] at hvalue
      rw [fillLinked]
      induction elements generalizing entries p with
      | nil =>
          simp only [List.mapM_nil, Option.pure_def, Option.some.injEq] at hvalue
          rw [← hvalue]
          rfl
      | cons element rest ih =>
          simp only [List.mapM_cons, Option.bind_eq_bind, Option.bind_eq_some_iff,
            Option.map_eq_some_iff, Option.pure_def, Option.some.injEq] at hvalue
          obtain ⟨-, ⟨index, hindex, rfl⟩, tail, htail, rfl⟩ := hvalue
          rw [List.foldl_cons, ih _ htail, linkElement_of_int64? hindex]
          rfl
  | obj members =>
      rw [indices?] at hvalue
      split at hvalue
      · next hdict =>
          rw [fillLinked, if_pos hdict]
          induction members generalizing entries p with
          | nil =>
              simp only [List.mapM_nil, Option.pure_def, Option.some.injEq] at hvalue
              rw [← hvalue]
              rfl
          | cons member rest ih =>
              simp only [List.mapM_cons, Option.bind_eq_bind, Option.bind_eq_some_iff,
                Option.map_eq_some_iff, Option.pure_def, Option.some.injEq] at hvalue
              obtain ⟨-, ⟨index, hindex, rfl⟩, tail, htail, rfl⟩ := hvalue
              rw [List.foldl_cons, ih _ htail, linkElement_of_int64? hindex]
              rfl
      · simp at hvalue
  | _ =>
      simp only [indices?, Option.map_eq_some_iff] at hvalue
      obtain ⟨index, hindex, rfl⟩ := hvalue
      simp [fillLinked, linkIndices, hindex]

/-! ## Filling a fresh slot from a field -/

/--
Whether a value gives a slot no inline object, and no more links than the slot has
room for.
-/
def Flat (input : InputSpec) (field : Field) (value : Json) : Prop :=
  input.intake.native?.isSome = true ∨ value.isNull = true ∨
    ∃ entries, indices? field.type.required.isDict value = some entries ∧
      (input.intake.collects = true ∨ entries.length ≤ 1)

/-- What a fresh slot holds once it is filled from the value of its field, if there is one. -/
def filledContent (setting : Setting) (groups : List Group) (g : Graph) (id : NodeId)
    (slot : Nat) (input : InputSpec) (field : Field) : Option Json → SlotContent
  | some value =>
      if input.intake.native?.isSome then
        ⟨[], some (nativeForm value)⟩
      else
        ⟨((indices? field.type.required.isDict value).getD []).filterMap
          (source? setting groups g id slot field), none⟩
  | none =>
      ⟨[], if input.optional then input.intake.native?.map fun _ => .null
        else input.intake.freshContent.held⟩

theorem filledContent_congr {g g' : Graph} (h : g'.shapes = g.shapes) (id : NodeId)
    (slot : Nat) (input : InputSpec) (field : Field) :
    filledContent setting groups g' id slot input field =
      filledContent setting groups g id slot input field := by
  funext value
  cases value <;> simp only [filledContent, source?_congr h]

variable {input : InputSpec}

theorem isNative_eq (hinput : (p.graph.shape? id).bind (·.inputs[slot]?) = some input) :
    p.isNative id slot = input.intake.native?.isSome := by
  rw [← Graph.isSome_held? hinput, Progress.isNative, Graph.held?, Option.isSome_map]

theorem fills_clearMissing {field : Field}
    (hinput : (p.graph.shape? id).bind (·.inputs[slot]?) = some input)
    (hfresh : p.graph.content id slot = input.intake.freshContent) :
    Fills id slot (filledContent setting groups p.graph id slot input field none)
      p (p.clearMissing id slot) := by
  have hset := fills_setNative p id slot .null
  have hsame := Fills.refl p id slot
  have hsources := congrArg SlotContent.sources hfresh
  have hheld := congrArg SlotContent.held hfresh
  rw [Intake.freshContent] at hsources hheld
  simp only [Graph.content] at hsources hheld
  rw [hsources, hheld, Option.map_map] at hset
  rw [hfresh, Intake.freshContent] at hsame
  rw [filledContent, Intake.freshContent]
  cases hfind : p.graph.findNode? id with
  | none =>
      simp [Graph.shape?, hfind] at hinput
  | some node =>
      rw [Graph.shape?_inputs hfind] at hinput
      obtain ⟨slotHere, hslot, rfl⟩ := Option.map_eq_some_iff.1 hinput
      have hnative : slotHere.feed.native?.isSome = slotHere.spec.intake.native?.isSome := by
        rw [InputSlot.spec, ← Feed.native?_kind, Option.isSome_map]
      rw [Progress.clearMissing, hfind, Option.bind_some, hslot]
      simp only [hnative]
      cases hoptional : slotHere.optional with
      | false =>
          simpa [InputSlot.spec, hoptional] using hsame
      | true =>
          cases hkind : slotHere.spec.intake.native? with
          | none =>
              rw [hkind] at hsame
              simpa [InputSlot.spec, hoptional, hkind] using hsame
          | some kind =>
              rw [hkind] at hset
              simpa [InputSlot.spec, hoptional, hkind] using hset

theorem fills_fillSlot (hp : Sound p) {field : Field} {value : Json}
    (hinput : (p.graph.shape? id).bind (·.inputs[slot]?) = some input)
    (hfresh : p.graph.content id slot = input.intake.freshContent)
    (hflat : Flat input field value)
    (hfits : (fillSlot setting groups embed id slot field value p).Fits) :
    Fills id slot (filledContent setting groups p.graph id slot input field (some value))
      p (fillSlot setting groups embed id slot field value p) := by
  have hsources := congrArg SlotContent.sources hfresh
  have hheld := congrArg SlotContent.held hfresh
  rw [Intake.freshContent] at hsources hheld
  simp only [Graph.content] at hsources hheld
  unfold fillSlot at hfits ⊢
  rw [isNative_eq hinput] at hfits ⊢
  rw [filledContent]
  cases hnative : input.intake.native? with
  | some kind =>
      have hset := fills_setNative p id slot (nativeForm value)
      rw [hsources, hheld, hnative] at hset
      exact hset
  | none =>
      rw [hnative] at hheld hfits
      simp only [Option.isSome_none, Bool.false_eq_true, if_false] at hfits ⊢
      have hsame := Fills.refl p id slot
      rw [hfresh, Intake.freshContent, hnative] at hsame
      split at hfits
      · next hnull =>
          rw [if_pos hnull]
          cases value with
          | null =>
              exact hsame
          | _ =>
              simp [Json.isNull] at hnull
      · next hnull =>
          rw [if_neg hnull]
          rcases hflat with hkind | hisNull | ⟨entries, hentries, hroom⟩
          · simp [hnative] at hkind
          · exact absurd hisNull hnull
          · rw [fillLinked_eq hentries] at hfits ⊢
            have hslotRoom : p.graph.HasRoom id slot entries.length := by
              intro other hother
              rw [hinput] at hother
              rw [← Option.some.inj hother, hsources]
              simpa using hroom
            have hlinked := fills_linkIndices hp hslotRoom hfits
            rw [linkedContent, hsources, hheld] at hlinked
            simpa [hentries] using hlinked

end Import

end SlotGraph
