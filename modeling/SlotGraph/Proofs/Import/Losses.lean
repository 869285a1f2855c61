import SlotGraph.Proofs.Graph.Connecting
import SlotGraph.Proofs.Import.Offers

/-!
# What a slot loses of the links made into it

The summary of an import counts a link when it is made.  A slot that takes one link gives
up the one it has for the next, so of the links made into it only the last is kept while all
of them stay counted.  A tally of the links made into a slot tells how many it keeps and how
many are lost, each link that is made being one step of it.
-/

namespace SlotGraph

namespace Import

variable {setting : Setting} {groups : List Group} {document : List (String × Json)}
  {p p₀ q p' : Progress} {id : NodeId} {slot : Nat} {cls : SchemaClass} {field : Field}
  {depth : Nat}

/-! ## Links that are lost -/

/-- How many of the links are displaced that are made into some slots for one. -/
def excess : List Nat → Nat
  | [] => 0
  | n :: rest => n - 1 + excess rest

theorem excess_append (offers offers' : List Nat) :
    excess (offers ++ offers') = excess offers + excess offers' := by
  induction offers with
  | nil =>
      exact (Nat.zero_add _).symm
  | cons n rest ih =>
      rw [List.cons_append, excess, excess, ih, Nat.add_assoc]

theorem excess_flatMap_append {α : Type} (f f' : α → List Nat) (xs : List α) :
    excess (xs.flatMap fun x => f x ++ f' x) =
      excess (xs.flatMap f) + excess (xs.flatMap f') := by
  induction xs with
  | nil =>
      rfl
  | cons x rest ih =>
      simp only [List.flatMap_cons, excess_append, ih]
      omega

/-- What is made for some elements loses as much as each of them with what is inside it. -/
theorem excess_inside (inside : Making → List Making) (offers : Making → List Nat)
    (makings : List Making) :
    excess ((makings ++ makings.flatMap inside).flatMap offers) =
      excess (makings.flatMap fun making => (making :: inside making).flatMap offers) := by
  simp only [List.flatMap_cons, excess_flatMap_append]
  rw [List.flatMap_append, excess_append, List.flatMap_assoc]

theorem excess_eq_zero_iff {offers : List Nat} : excess offers = 0 ↔ ∀ n ∈ offers, n ≤ 1 := by
  induction offers with
  | nil =>
      simp [excess]
  | cons n rest ih =>
      rw [excess, Nat.add_eq_zero_iff, Nat.sub_eq_zero_iff_le, ih, List.forall_mem_cons]

/-- Whether so many of the links that were counted on the way are not there in the end. -/
def Loses (lost : Nat) (p p' : Progress) : Prop :=
  p'.graph.links.length + lost + p.links = p.graph.links.length + p'.links

namespace Loses

variable {lost lost' : Nat}

theorem of_same (hlinks : p'.graph.links = p.graph.links) (hcount : p'.links = p.links) :
    Loses 0 p p' := by
  rw [Loses, hlinks, hcount, Nat.add_zero]

theorem trans (h : Loses lost p q) (h' : Loses lost' q p') : Loses (lost + lost') p p' := by
  unfold Loses at *
  omega

end Loses

theorem loses_setNative (p : Progress) (id : NodeId) (slot : Nat) (value : Json) :
    Loses 0 p (p.setNative id slot value) := by
  refine .of_same ?_ rfl
  rw [Progress.setNative, Graph.setNative?]
  split <;> rfl

theorem loses_reports {α : Type} (issue : α → Issue) (xs : List α) (p : Progress) :
    Loses 0 p (xs.foldl (fun p x => p.report (issue x)) p) :=
  .of_same (congrArg Graph.links (foldl_report_graph issue xs p)) (foldl_report_links issue xs p)

theorem loses_clearMissing (p : Progress) (id : NodeId) (slot : Nat) :
    Loses 0 p (p.clearMissing id slot) := by
  unfold Progress.clearMissing
  split
  · split
    · exact loses_setNative p id slot .null
    · exact .of_same rfl rfl
  · exact .of_same rfl rfl

/-! ## One slot -/

/-- How many of the links that were made into a slot are there in the end. -/
def keeps (intake : Intake) (count : Nat) : Nat :=
  if intake.collects then count else min count 1

theorem keeps_le (intake : Intake) (count : Nat) : keeps intake count ≤ count := by
  rw [keeps]
  split <;> omega

theorem keeps_succ (intake : Intake) (count : Nat) :
    keeps intake (count + 1) = if intake.collects then keeps intake count + 1 else 1 := by
  rw [keeps, keeps]
  split <;> omega

/-- The links made into a slot that was fresh, and those lost for other slots in the meantime. -/
structure Tally (id : NodeId) (slot : Nat) (intake : Intake) (p₀ : Progress) (count lost : Nat)
    (p : Progress) : Prop where
  held : (p.graph.sources id slot).length = keeps intake count
  loses : Loses (lost + (count - keeps intake count)) p₀ p

namespace Tally

variable {intake : Intake} {count lost lost' : Nat} {origin : NodeId} {made : SchemaClass}

theorem start (hfresh : p.graph.sources id slot = []) : Tally id slot intake p 0 0 p where
  held := by
    rw [hfresh, keeps]
    split <;> rfl
  loses := by
    rw [Nat.zero_sub]
    exact .of_same rfl rfl

/-- What is lost elsewhere in the meantime is added to what was lost before. -/
theorem lose (h : Tally id slot intake p₀ count lost p) (hloses : Loses lost' p q)
    (hsame : q.graph.sources id slot = p.graph.sources id slot) :
    Tally id slot intake p₀ count (lost + lost') q where
  held := by
    rw [hsame]
    exact h.held
  loses := by
    have hall := h.loses.trans hloses
    rwa [Nat.add_right_comm] at hall

/-- A link that gets in is counted once more, and takes the place of another if there is one. -/
theorem link (h : Tally id slot (setting.schema.inputOf cls field).intake p₀ count lost p)
    (hp : Sound p) (horigin : IsOf setting.schema p.graph origin made)
    (hnode : IsOf setting.schema p.graph id cls) (hfield : cls.fields[slot]? = some field)
    {key : String} (hfits : (p.link origin id slot key).Fits) :
    Tally id slot (setting.schema.inputOf cls field).intake p₀
      (count +
        if TypeExpr.textFits made.name (setting.schema.inputOf cls field).linkType then 1 else 0)
      lost (p.link origin id slot key) := by
  cases htype : TypeExpr.textFits made.name (setting.schema.inputOf cls field).linkType with
  | false =>
      obtain ⟨title, hlink⟩ := link_of_not_fits horigin hnode hfield htype key
      rw [hlink, if_neg Bool.false_ne_true]
      exact ⟨h.held, h.loses⟩
  | true =>
      obtain ⟨linkId, graph, hconnect, hlink⟩ := link_of_fits horigin hnode hfield htype key
      rw [hlink] at hfits ⊢
      have hroom : p.graph.lastLink < Graph.lastId := by
        refine hp.links_room (Int.lt_of_lt_of_le ?_ hfits.2)
        exact Int.ofNat_lt.2 (Nat.lt_succ_self _)
      obtain ⟨hlinks, hslot⟩ := hp.wellFormed.length_links_connect hroom hconnect
        (hnode.input_eq hfield) key
      obtain ⟨hheld, hloses⟩ := h
      rw [if_pos rfl]
      have hnow := hslot
      rw [hheld, ← keeps_succ] at hnow
      refine ⟨hnow, ?_⟩
      have hle := keeps_le (setting.schema.inputOf cls field).intake count
      have hleNow := keeps_le (setting.schema.inputOf cls field).intake (count + 1)
      rw [hnow, hheld] at hlinks
      unfold Loses at hloses ⊢
      dsimp only
      omega

/--
What an element stands for is linked if it is a node, and the link is counted if the class
of the node fits.
-/
theorem linkStanding
    (h : Tally id slot (setting.schema.inputOf cls field).intake p₀ count lost p) (hp : Sound p)
    {origin? : Option NodeId} {class? : Option String}
    (hstands : Stands setting.schema p.graph origin? class?)
    (hnode : IsOf setting.schema p.graph id cls) (hfield : cls.fields[slot]? = some field)
    (key : String) (hlinked : ∀ origin, origin? = some origin → p' = p.link origin id slot key)
    (hpassed : origin? = none → p'.graph = p.graph ∧ p'.links = p.links) (hfits : p'.Fits) :
    Tally id slot (setting.schema.inputOf cls field).intake p₀
      (count + if class?.any (TypeExpr.textFits · (setting.schema.inputOf cls field).linkType)
        then 1 else 0)
      lost p' := by
  cases hstands with
  | none =>
      obtain ⟨hgraph, hcount⟩ := hpassed rfl
      exact h.lose (.of_same (congrArg Graph.links hgraph) hcount) (by rw [hgraph])
  | some horigin =>
      have hlink := hlinked _ rfl
      rw [hlink] at hfits ⊢
      exact h.link hp horigin hnode hfield hfits

end Tally

/-! ## What embedded nodes lose -/

theorem reaches_empty (hfits : p.Fits) : Reaches Graph.empty p := by
  obtain ⟨hnodes, hlinks⟩ := hfits
  exact ⟨by simpa [Graph.empty] using hnodes, by simpa [Graph.empty] using hlinks⟩

/-- How far an import into the empty graph has come once its groups are made. -/
structure Going (setting : Setting) (groups : List Group) (p : Progress) : Prop where
  sound : Sound p
  underway : Underway setting groups Graph.empty p

namespace Going

theorem steps (h : Going setting groups p) (hsteps : Steps setting p p') (hfits : p'.Fits) :
    Going setting groups p' where
  sound := h.sound.steps hsteps hfits
  underway := h.underway.steps hsteps (reaches_empty hfits)

theorem stocked (h : Going setting groups p) : Stocked groups p.graph := by
  intro group hgroup id hid
  obtain ⟨cls, -, -, hnodes⟩ := h.underway.stocked group hgroup
  exact (hnodes id hid).knows

end Going

/--
Whether an embedding makes of inline objects that nest at most so deep what they are to
become: nodes of their classes, of whose slots those for one lose what they are offered
too much.
-/
structure Places (setting : Setting) (groups : List Group) (document : List (String × Json))
    (embed : Embed) (inline : Inline) (depth : Nat) : Prop where
  steps : embed.TakesSteps setting
  makes : Embeds setting groups embed inline
  places : ∀ field object p, Going setting groups p → (Json.obj object).depth ≤ depth →
    (embed field object p).2.Fits →
    Stands setting.schema (embed field object p).2.graph (embed field object p).1
      ((inlineClass? setting.schema field object).map SchemaClass.name) ∧
    Loses (excess ((inline field object).flatMap (Making.offers setting.schema document))) p
      (embed field object p).2

structure Unlinked (schema : Schema) (g : Graph) (id : NodeId) (slot : Nat) (cls : SchemaClass)
    (field : Field) : Prop where
  node : IsOf schema g id cls
  field : cls.fields[slot]? = some field
  sources : g.sources id slot = []

theorem Unlinked.of_ready (h : Ready setting p.graph id cls)
    (hfield : cls.fields[slot]? = some field) :
    Unlinked setting.schema p.graph id slot cls field where
  node := h.shape
  field := hfield
  sources := congrArg SlotContent.sources (h.fresh slot _ (h.input hfield))

theorem Makes.sources_eq {spot : NodeId → Nat → Prop} {makings : List Making}
    (h : Makes setting groups spot p p' makings) (hid : p.graph.Knows id)
    (houtside : ¬ spot id slot) : p'.graph.sources id slot = p.graph.sources id slot :=
  congrArg SlotContent.sources (h.kept hid houtside)

/-- What is linked into a slot one after the other is counted and lost together. -/
theorem Tally.foldl {α : Type} {f : Progress → α → Progress} {landing : α → Bool}
    {offers : α → List Nat} {xs : List α} {intake : Intake} {count lost : Nat}
    (h : Tally id slot intake p₀ count lost p) (hsteps : ∀ x q, Steps setting q (f q x))
    (hone : ∀ x ∈ xs, ∀ q count lost, Tally id slot intake p₀ count lost q →
      Going setting groups q → IsOf setting.schema q.graph id cls → (f q x).Fits →
      Tally id slot intake p₀ (count + if landing x then 1 else 0) (lost + excess (offers x))
        (f q x))
    (hp : Going setting groups p) (hnode : IsOf setting.schema p.graph id cls)
    (hfits : (xs.foldl f p).Fits) :
    Tally id slot intake p₀ (count + xs.countP landing) (lost + excess (xs.flatMap offers))
      (xs.foldl f p) := by
  induction xs generalizing p count lost with
  | nil =>
      exact h
  | cons x rest ih =>
      rw [List.foldl_cons] at hfits ⊢
      have hfitsFirst := hfits.of_steps (steps_foldl (fun y _ q => hsteps y q) (f p x))
      have hfirst := hone x List.mem_cons_self p count lost h hp hnode hfitsFirst
      have hrest := ih hfirst (fun y hy => hone y (List.mem_cons_of_mem x hy))
        (hp.steps (hsteps x p) hfitsFirst) (hnode.steps (hsteps x p)) hfits
      rw [List.countP_cons, Nat.add_comm (rest.countP landing), ← Nat.add_assoc, List.flatMap_cons,
        excess_append, ← Nat.add_assoc]
      exact hrest

/-- What is neither a number nor an object stands for nothing. -/
theorem lands_of_none {schema : Schema} {element : Json} (hnumber : element.int64? = none)
    (hobject : ∀ object, element ≠ .obj object) :
    lands schema document cls field element = false := by
  unfold lands offeredClass?
  rw [hnumber]
  cases element with
  | obj object =>
      exact absurd rfl (hobject object)
  | _ =>
      rfl

theorem elementMakings_of_ne (inline : Inline) (field : Field) {element : Json}
    (hobject : ∀ object, element ≠ .obj object) : elementMakings inline field element = [] := by
  cases element with
  | obj object =>
      exact absurd rfl (hobject object)
  | _ =>
      rfl

theorem linkElement_of_none {embed : Embed} {key : String} {element : Json}
    (hnumber : element.int64? = none) (hobject : ∀ object, element ≠ .obj object) :
    linkElement setting groups embed id slot field key element p =
      p.report (.unusableElement element field.name) := by
  unfold linkElement
  rw [hnumber]
  cases element with
  | obj object =>
      exact absurd rfl (hobject object)
  | _ =>
      rfl

/-- A value without parts is linked as its own only element, up to what is reported. -/
theorem fillLinked_of_not_isStructured (setting : Setting) (groups : List Group) (embed : Embed)
    (id : NodeId) (slot : Nat) (field : Field) {value : Json} (hparts : value.isStructured = false)
    (p : Progress) :
    (fillLinked setting groups embed id slot field value p).graph =
        (linkElement setting groups embed id slot field "" value p).graph ∧
      (fillLinked setting groups embed id slot field value p).links =
        (linkElement setting groups embed id slot field "" value p).links := by
  cases hnumber : value.int64? with
  | some index =>
      obtain ⟨n, hn⟩ := integer?_of_int64? hnumber
      rw [fillLinked_integer hn]
      exact ⟨rfl, rfl⟩
  | none =>
      cases value with
      | arr | obj =>
          cases hparts
      | _ =>
          simp only [fillLinked, linkElement, hnumber]
          exact ⟨rfl, rfl⟩

section

variable {embed : Embed} {inline : Inline} {count lost : Nat}
  (hplan : groups.map Group.plan = planned setting.schema document)
  (hembed : Places setting groups document embed inline depth)

section

variable (h : Tally id slot (setting.schema.inputOf cls field).intake p₀ count lost p)
  (hp : Going setting groups p) (hnode : IsOf setting.schema p.graph id cls)
  (hfield : cls.fields[slot]? = some field)

include hplan h hp hnode hfield

theorem tally_linkIndex {index : Int} {key : String}
    (hfits : (linkIndex setting groups id slot field index key p).Fits) :
    Tally id slot (setting.schema.inputOf cls field).intake p₀
      (count + if (indexedClass? setting.schema document field index).any
        (TypeExpr.textFits · (setting.schema.inputOf cls field).linkType) then 1 else 0)
      lost (linkIndex setting groups id slot field index key p) := by
  refine h.linkStanding hp.sound (stands_resolve? hplan hp.underway field index) hnode hfield key
    (fun origin horigin => ?_) (fun hnone => ?_) hfits
  · rw [linkIndex, horigin]
  · rw [linkIndex, hnone]
    exact ⟨rfl, rfl⟩

include hembed

omit hplan in
theorem tally_linkEmbedded {key : String} {object : List (String × Json)}
    (hdeep : (Json.obj object).depth ≤ depth)
    (hfits : (linkElement setting groups embed id slot field key (.obj object) p).Fits) :
    Tally id slot (setting.schema.inputOf cls field).intake p₀
      (count + if lands setting.schema document cls field (.obj object) then 1 else 0)
      (lost + excess ((inline field object).flatMap (Making.offers setting.schema document)))
      (linkElement setting groups embed id slot field key (.obj object) p) := by
  have hnumber : (Json.obj object).int64? = none := rfl
  have hsteps : Steps setting p (embed field object p).2 := hembed.steps field object p
  have hmadeFits := hfits.of_steps
    (steps_linkEmbedded setting groups embed id slot field key object p)
  obtain ⟨hstands, hloses⟩ := hembed.places field object p hp hdeep hmadeFits
  have hmade := hembed.makes field object p hp.sound hp.stocked hmadeFits
  have hlost := h.lose hloses (hmade.sources_eq hnode.knows fun hnowhere => hnowhere)
  refine hlost.linkStanding (hp.steps hsteps hmadeFits).sound hstands (hnode.steps hsteps) hfield
    key (fun origin horigin => ?_) (fun hnone => ?_) hfits
  · rcases hresult : embed field object p with ⟨_, next⟩
    rw [hresult] at horigin
    obtain rfl : _ = some origin := horigin
    simp only [linkElement, hnumber, hresult]
  · rcases hresult : embed field object p with ⟨_, next⟩
    rw [hresult] at hnone
    obtain rfl : _ = none := hnone
    have hpassed : linkElement setting groups embed id slot field key (.obj object) p = next := by
      simp only [linkElement, hnumber, hresult]
    rw [hpassed]
    exact ⟨rfl, rfl⟩

theorem tally_linkElement {key : String} {element : Json}
    (hdeep : element.depth ≤ depth)
    (hfits : (linkElement setting groups embed id slot field key element p).Fits) :
    Tally id slot (setting.schema.inputOf cls field).intake p₀
      (count + if lands setting.schema document cls field element then 1 else 0)
      (lost + excess ((elementMakings inline field element).flatMap
        (Making.offers setting.schema document)))
      (linkElement setting groups embed id slot field key element p) := by
  by_cases hobject : ∃ object, element = .obj object
  · obtain ⟨object, rfl⟩ := hobject
    exact tally_linkEmbedded hembed h hp hnode hfield hdeep hfits
  · rw [not_exists] at hobject
    rw [elementMakings_of_ne inline field hobject]
    cases hnumber : element.int64? with
    | some index =>
        rw [linkElement_of_int64? hnumber] at hfits ⊢
        unfold lands offeredClass?
        rw [hnumber]
        exact tally_linkIndex hplan h hp hnode hfield hfits
    | none =>
        rw [linkElement_of_none hnumber hobject, lands_of_none hnumber hobject]
        exact h.lose (.of_same rfl rfl) rfl

theorem tally_fillScalar {value : Json} (hparts : value.isStructured = false)
    (hdeep : value.depth ≤ depth)
    (hfits : (fillLinked setting groups embed id slot field value p).Fits) :
    Tally id slot (setting.schema.inputOf cls field).intake p₀
      (count + (entriesOf field value).countP fun entry =>
        lands setting.schema document cls field entry.2)
      (lost + excess ((linkedMakings inline field value).flatMap
        (Making.offers setting.schema document)))
      (fillLinked setting groups embed id slot field value p) := by
  obtain ⟨hgraph, hcount⟩ :=
    fillLinked_of_not_isStructured setting groups embed id slot field hparts p
  have hlinkFits : (linkElement setting groups embed id slot field "" value p).Fits := by
    rwa [Progress.Fits, hgraph, hcount] at hfits
  have hone := tally_linkElement hplan hembed h hp hnode hfield hdeep hlinkFits
  obtain ⟨hentries, hmakings⟩ : entriesOf field value = [("", value)] ∧
      linkedMakings inline field value = elementMakings inline field value := by
    cases value with
    | arr | obj =>
        cases hparts
    | _ =>
        exact ⟨rfl, rfl⟩
  rw [hentries, List.countP_singleton, hmakings]
  exact hone.lose (.of_same (congrArg Graph.links hgraph) hcount) (by rw [hgraph])

theorem tally_fillLinked {value : Json} (hdeep : value.depth ≤ depth)
    (hfits : (fillLinked setting groups embed id slot field value p).Fits) :
    Tally id slot (setting.schema.inputOf cls field).intake p₀
      (count + (entriesOf field value).countP fun entry =>
        lands setting.schema document cls field entry.2)
      (lost + excess ((linkedMakings inline field value).flatMap
        (Making.offers setting.schema document)))
      (fillLinked setting groups embed id slot field value p) := by
  cases value with
  | arr elements =>
      rw [entriesOf, List.countP_map, linkedMakings, List.flatMap_assoc]
      refine h.foldl (fun element q => steps_linkElement hembed.steps id slot field "" element q)
        (fun element helement q _ _ hq hgoing hqNode hqFits => ?_) hp hnode hfits
      have hlt := Nat.lt_of_lt_of_le (Json.depth_lt_arr helement) hdeep
      exact tally_linkElement hplan hembed hq hgoing hqNode hfield (Nat.le_of_lt hlt) hqFits
  | obj object =>
      rw [fillLinked] at hfits ⊢
      rw [entriesOf, linkedMakings]
      split
      · next hdict =>
          rw [if_pos hdict] at hfits
          rw [List.flatMap_assoc]
          refine h.foldl
            (fun entry q => steps_linkElement hembed.steps id slot field entry.1 entry.2 q)
            (fun entry hentry q _ _ hq hgoing hqNode hqFits => ?_) hp hnode hfits
          have hlt := Nat.lt_of_lt_of_le (Json.depth_lt_obj hentry) hdeep
          exact tally_linkElement hplan hembed hq hgoing hqNode hfield (Nat.le_of_lt hlt) hqFits
      · next hdict =>
          rw [if_neg hdict] at hfits
          rw [List.countP_singleton]
          exact tally_linkElement hplan hembed h hp hnode hfield hdeep hfits
  | _ =>
      exact tally_fillScalar hplan hembed h hp hnode hfield rfl hdeep hfits

end

/-- Of the links that a value makes into a slot all are lost that the slot does not keep. -/
theorem excess_slotOffers (hlinked : (setting.schema.inputOf cls field).intake.native? = none)
    (value : Json) :
    excess (slotOffers setting.schema document cls field (some value)) =
      ((entriesOf field value).countP fun entry =>
        lands setting.schema document cls field entry.2) -
      keeps (setting.schema.inputOf cls field).intake
        ((entriesOf field value).countP fun entry =>
          lands setting.schema document cls field entry.2) := by
  simp only [slotOffers, hlinked, keeps, Option.isSome_none, Bool.or_false]
  split
  · rw [Nat.sub_self]
    rfl
  · rw [excess, excess]
    omega

include hplan hembed

/-- A fresh slot that is filled from the value of its field loses what it was offered too much. -/
theorem loses_fillValue (hp : Going setting groups p)
    (hfresh : Unlinked setting.schema p.graph id slot cls field)
    {value : Option Json} (hdeep : ∀ v, value = some v → v.depth ≤ depth)
    (hfits : (fillValue setting groups embed id slot field value p).Fits) :
    Loses (excess (slotOffers setting.schema document cls field value ++
        (slotMakings inline (setting.schema.inputOf cls field) field value).flatMap
          (Making.offers setting.schema document))) p
      (fillValue setting groups embed id slot field value p) := by
  cases value with
  | none =>
      exact loses_clearMissing p id slot
  | some value =>
      rw [fillValue, fillSlot, isNative_eq (hfresh.node.input_eq hfresh.field)] at hfits ⊢
      rw [slotMakings]
      cases hnative : (setting.schema.inputOf cls field).intake.native? with
      | some kind =>
          simp only [slotOffers, hnative, Option.isSome_some, Bool.or_true, if_true]
          exact loses_setNative p id slot (nativeForm value)
      | none =>
          rw [hnative] at hfits
          simp only [Option.isSome_none, Bool.false_eq_true, if_false] at hfits ⊢
          rw [excess_append, excess_slotOffers hnative]
          split
          · next hnull =>
              cases value with
              | null =>
                  show Loses (0 - _ + 0) p p
                  rw [Nat.zero_sub]
                  exact .of_same rfl rfl
              | _ =>
                  simp [Json.isNull] at hnull
          · next hnull =>
              rw [if_neg hnull] at hfits
              have htally := tally_fillLinked hplan hembed (.start hfresh.sources) hp hfresh.node
                hfresh.field (hdeep value rfl) hfits
              have hloses := htally.loses
              rwa [Nat.zero_add, Nat.zero_add, Nat.add_comm] at hloses

end

end Import

end SlotGraph
