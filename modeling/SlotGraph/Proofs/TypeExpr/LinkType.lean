import SlotGraph.Proofs.Schema.FieldTypes
import SlotGraph.Proofs.Schema.Templates
import SlotGraph.Proofs.TypeExpr.SlotText

/-!
# Link types and the classes that fields refer to

A field refers to a class by its type, while the gate reads the text of its slot.  Both
agree: the slot of a field lets in the class that the field refers to, be it named at once,
in an optional, as an alternative of a union, beside the index type, or as the element or
the value of a collection that takes many links.  However large the union, the gate needs
to look through five layers at most.
-/

namespace SlotGraph

namespace TypeExpr

open Text (Blankless generic)

/-! ## Layers that the gate needs -/

/-- Whether the gate lets an output into an input if it looks through so many layers. -/
def FitsFrom (layers : Nat) (output input : List Char) : Prop :=
  ∀ more, fitsWithin (more + layers) output input = true

section

variable {layers : Nat} {output input part : List Char} {parts texts : List (List Char)}

theorem FitsFrom.mono {others : Nat} (h : FitsFrom layers output input)
    (hle : layers ≤ others) : FitsFrom others output input := by
  intro more
  have hlayers : more + others = more + (others - layers) + layers := by
    omega
  rw [hlayers]
  exact h _

theorem fitsFrom_of_meets (h : Meets output input) : FitsFrom 1 output input :=
  fun more => fitsWithin_of_meets more h

/-- An input lets in what one of the parts lets in that it is taken apart into. -/
theorem fitsFrom_of_splits (hsplits : Splits input parts) (hpart : part ∈ parts)
    (h : FitsFrom layers output part) : FitsFrom (layers + 1) output input := by
  intro more
  show fitsWithin (more + layers + 1) output input = true
  by_cases hmeets : Meets output input
  · exact fitsWithin_of_meets _ hmeets
  · rw [fitsWithin_of_splits _ hmeets hsplits]
    exact List.any_eq_true.2 ⟨part, hpart, h more⟩

/-- A list with bars lets in what one of its parts does, also when it has no bar. -/
theorem fitsFrom_of_bars (hinput : Text.Closed input) (hpart : part ∈ Text.splitTop '|' input)
    (h : FitsFrom layers output part) : FitsFrom (layers + 1) output input := by
  by_cases hbar : Text.containsTop '|' input = true
  · exact fitsFrom_of_splits (.bars hbar) hpart h
  · rw [hinput.splitTop_eq (by simpa using hbar), List.mem_singleton] at hpart
    rw [← hpart]
    exact h.mono (Nat.le_succ layers)

/-- Joined with bars, texts let in what one of them does that has no bar itself. -/
theorem fitsFrom_joined (hclosed : ∀ text ∈ texts, Text.Closed text) (hpart : part ∈ texts)
    (hplain : Text.containsTop '|' part = false) (h : FitsFrom layers output part) :
    FitsFrom (layers + 1) output (joinWith '|' texts) := by
  have hjoined : Text.Closed (joinWith '|' texts) :=
    Text.closed_joinWith (by decide) (by decide) (List.ne_nil_of_mem hpart) hclosed
  refine fitsFrom_of_bars hjoined ?_ h
  rw [Text.splitTop_joinWith (by decide) fun text htext => (hclosed text htext).balanced]
  have hself : Text.splitTop '|' part = [part] := (hclosed part hpart).splitTop_eq hplain
  exact List.mem_flatMap.2 ⟨part, hpart, hself ▸ List.mem_singleton_self part⟩

theorem fitsFrom_optional (hinput : Text.balanced input = true)
    (h : FitsFrom layers output input) :
    FitsFrom (layers + 1) output (generic Wrapper.optional.keyword input) :=
  fitsFrom_of_splits (.optional hinput) (List.mem_singleton_self input) h

end

/-! ## The class that a type refers to -/

/-- Whether a type is a class or a union that refers to it by one of its alternatives. -/
inductive RefersTo (indexType : String) : TypeExpr → String → Prop where
  | named (name : String) : RefersTo indexType (.named name) name
  | union {alternatives : List TypeExpr} {alternative : TypeExpr} {name : String}
      (hmem : alternative ∈ alternatives) (hname : alternative.required.name? = some name)
      (hne : name ≠ indexType) : RefersTo indexType (.union alternatives) name

variable {indexType name : String} {classes : List SchemaClass} {type element : TypeExpr}
  {text : List Char}

theorem refersTo_of_modelClass? (h : type.modelClass? indexType classes = some name) :
    ∃ element, type.element? = some element ∧ RefersTo indexType element.required name ∧
      SchemaClass.declared classes name = true := by
  rw [modelClass?] at h
  cases helement : type.element? with
  | none =>
      simp [helement] at h
  | some element =>
      rw [helement, Option.map_some] at h
      refine ⟨element, rfl, ?_⟩
      cases hrequired : element.required with
      | named other =>
          rw [hrequired] at h
          by_cases hdeclared : SchemaClass.declared classes other = true
          · simp only [if_pos hdeclared, Option.some.injEq] at h
            exact h ▸ ⟨.named other, hdeclared⟩
          · simp [hdeclared] at h
      | union alternatives =>
          rw [hrequired] at h
          obtain ⟨alternative, hmem, hfound⟩ := List.exists_of_findSome?_eq_some h
          obtain ⟨hname, hchosen⟩ := Option.filter_eq_some_iff.1 hfound
          rw [Bool.and_eq_true, bne_iff_ne] at hchosen
          exact ⟨.union hmem hname hchosen.1, hchosen.2⟩
      | wrapped | dict =>
          simp [hrequired] at h

theorem eq_of_required_name? (h : type.required.name? = some name) :
    type = .named name ∨ type = .wrapped .optional (.named name) := by
  cases type with
  | named other =>
      exact .inl (congrArg TypeExpr.named (Option.some.inj h))
  | wrapped wrapper inner =>
      cases wrapper with
      | optional =>
          cases inner with
          | named other =>
              have hsame : other = name := Option.some.inj h
              exact .inr (by rw [hsame])
          | _ =>
              cases h
      | _ =>
          cases h
  | _ =>
      cases h

/-! ## What the text of a slot lets in -/

theorem fitsFrom_named (name indexType : String) :
    FitsFrom 1 (Text.compact name.toList) (slotText indexType (.named name)) :=
  fitsFrom_of_meets (.inr (.inr (.inl rfl)))

theorem Reads.inner {wrapper : Wrapper} (h : Reads text (.wrapped wrapper element)) :
    ∃ part, Reads part element := by
  cases h with
  | tuple _ _ hinner | wrapped _ _ hinner =>
      exact ⟨_, hinner⟩

theorem slotText_optional (indexType : String) (inner : TypeExpr) :
    slotText indexType (.wrapped .optional inner) =
      generic Wrapper.optional.keyword (slotText indexType inner) := by
  rw [slotText_wrapped, suffix_of_ne (by decide), List.append_nil]

theorem fitsFrom_slotText_required {layers : Nat} {output : List Char} (h : Reads text type)
    (hfits : FitsFrom layers output (slotText indexType type.required)) :
    FitsFrom (layers + 1) output (slotText indexType type) := by
  cases type with
  | wrapped wrapper inner =>
      cases wrapper with
      | optional =>
          obtain ⟨part, hinner⟩ := h.inner
          rw [slotText_optional]
          exact fitsFrom_optional (hinner.closed_slotText indexType).balanced hfits
      | _ =>
          exact hfits.mono (Nat.le_succ layers)
  | _ =>
      exact hfits.mono (Nat.le_succ layers)

/-- An alternative that names a class lets the class in, and has no bar at the top level. -/
theorem fitsFrom_alternative (h : Reads text type) (hname : type.required.name? = some name)
    (hbar : '|' ∉ name.toList) :
    FitsFrom 2 (Text.compact name.toList) (slotText indexType type) ∧
      Text.containsTop '|' (slotText indexType type) = false := by
  have hplain : '|' ∉ Text.compact name.toList := fun hmem => hbar (List.mem_of_mem_filter hmem)
  rcases eq_of_required_name? hname with rfl | rfl
  · exact ⟨(fitsFrom_named name indexType).mono (by decide), Text.containsAt_of_not_mem hplain⟩
  · obtain ⟨part, hinner⟩ := h.inner
    have hbalanced := (hinner.closed_slotText indexType).balanced
    refine ⟨fitsFrom_slotText_required h (fitsFrom_named name indexType), ?_⟩
    rw [slotText_optional]
    exact containsTop_bar_generic (by decide) (by decide) hbalanced

/-- The text of a class or of a union that refers to it lets the class in. -/
theorem RefersTo.fitsFrom (h : RefersTo indexType type name) (hread : Reads text type)
    (hbar : '|' ∉ name.toList) :
    FitsFrom 3 (Text.compact name.toList) (slotText indexType type) := by
  cases h with
  | named =>
      exact (fitsFrom_named name indexType).mono (by decide)
  | @union alternatives alternative _ hmem hname hne =>
      obtain ⟨part, hpart⟩ : ∃ part, ∀ alternative ∈ alternatives, ∃ text ∈ part,
          Reads text alternative := by
        cases hread with
        | union _ _ hlength hparts =>
            exact ⟨_, Reads.exists_part hlength hparts⟩
      obtain ⟨alternativeText, -, hreads⟩ := hpart alternative hmem
      have hnamed : FitsFrom 2 _ (slotText indexType alternative) ∧ _ :=
        fitsFrom_alternative hreads hname hbar
      obtain ⟨hfits, hplain⟩ := hnamed
      rcases slotText_union indexType alternatives with ⟨other, -, -, honly, htext⟩ | htext
      · -- Beside the index type stands nothing but the alternative that names the class.
        rw [htext]
        rcases honly alternative hmem with rfl | rfl
        · exact hfits.mono (by decide)
        · exact absurd (Option.some.inj hname).symm hne
      · rw [htext]
        refine fitsFrom_joined (List.forall_mem_map.2 fun other hother => ?_)
          (List.mem_map_of_mem hmem) hplain hfits
        obtain ⟨otherText, -, hother⟩ := hpart other hother
        exact hother.closed_slotText indexType

theorem Reads.required (h : Reads text type) : ∃ part, Reads part type.required := by
  cases type with
  | wrapped wrapper inner =>
      cases wrapper with
      | optional => exact h.inner
      | _ => exact ⟨text, h⟩
  | _ => exact ⟨text, h⟩

theorem Reads.of_element? (h : Reads text type) (helement : type.element? = some element) :
    ∃ part, Reads part element := by
  obtain ⟨part, hrequired⟩ := h.required
  unfold element? at helement
  split at helement
  · next inner heq =>
      exact ⟨part, Option.some.inj helement ▸ heq ▸ hrequired⟩
  · next wrapper inner _ heq =>
      rw [heq] at hrequired
      exact Option.some.inj helement ▸ hrequired.inner
  · next arguments heq =>
      unfold dictValue? at helement
      simp only at helement
      split at helement
      · exact ⟨_, reads_of_ofText? helement⟩
      · cases helement
  · exact ⟨part, Option.some.inj helement ▸ hrequired⟩

theorem RefersTo.fitsFrom_element (h : RefersTo indexType element.required name)
    (hread : Reads text element) (hbar : '|' ∉ name.toList) :
    FitsFrom 4 (Text.compact name.toList) (slotText indexType element) := by
  obtain ⟨part, hrequired⟩ := hread.required
  exact fitsFrom_slotText_required hread (h.fitsFrom hrequired hbar)

/-- The gate looks through more layers than that. -/
theorem textFits_of_fitsFrom (layers : Nat) {text name : String} (hlayers : layers ≤ layerLimit)
    (h : FitsFrom layers (Text.compact name.toList) (Text.compact text.toList)) :
    textFits name text = true :=
  h.mono hlayers 0

def isCollection : TypeExpr → Bool
  | .wrapped wrapper _ => wrapper.isCollection
  | .dict _ => true
  | _ => false

theorem required_eq_of_element? (hplain : type.required.isCollection = false)
    (helement : type.element? = some element) : type.required = element := by
  unfold element? at helement
  split at helement
  · next inner heq =>
      exact heq.trans (Option.some.inj helement)
  · next wrapper inner hne heq =>
      rw [heq] at hplain
      cases wrapper with
      | optional => exact absurd rfl hne
      | _ => cases hplain
  · next arguments heq =>
      rw [heq] at hplain
      cases hplain
  · exact Option.some.inj helement

theorem elementLinkType_eq {inRoot : Bool} (hcollects : collectsLinks classes inRoot type = true)
    (helement : type.element? = some element) :
    elementLinkType indexType type = slotType indexType element := by
  unfold collectsLinks at hcollects
  unfold element? at helement
  unfold elementLinkType
  split at hcollects
  · cases hcollects
  · next wrapper inner hne heq =>
      rw [heq] at helement ⊢
      cases wrapper with
      | optional => exact absurd rfl hne
      | _ => exact congrArg (slotType indexType) (Option.some.inj helement)
  · next arguments heq =>
      rw [heq] at helement ⊢
      simp only at helement ⊢
      rw [helement]
  · cases hcollects

end TypeExpr

namespace Schema

/--
Whether the slot of a field takes what the field refers to: it collects links, or the type
of the field is no collection, optional or not.
-/
def TakesModel (schema : Schema) (cls : SchemaClass) (field : Field) : Prop :=
  (∃ keyed, (schema.inputOf cls field).intake = .many keyed) ∨
    field.type.required.isCollection = false

open TypeExpr in
theorem Accepted.textFits_linkType {schema : Schema} (haccepted : schema.Accepted)
    {cls : SchemaClass} (hcls : cls ∈ schema.classes) {field : Field} (hfield : field ∈ cls.fields)
    {name : String} (hmodel : schema.modelOf? field = some name)
    (htakes : schema.TakesModel cls field) :
    textFits name (schema.inputOf cls field).linkType = true := by
  have hread := haccepted.reads hcls hfield
  obtain ⟨element, helement, hrefers, hdeclared⟩ := refersTo_of_modelClass? hmodel
  have hbar : '|' ∉ name.toList := by
    obtain ⟨other, hother, rfl⟩ := SchemaClass.declared_iff.1 hdeclared
    exact fun hmem => absurd ((haccepted.isIdentifier other hother).2 _ hmem) (by decide)
  obtain ⟨elementText, helementRead⟩ := hread.of_element? helement
  have hfits := hrefers.fitsFrom_element helementRead hbar
  by_cases hcollects : collectsLinks schema.classes (schema.isRoot cls) field.type = true
  · have hlinkType : (schema.inputOf cls field).linkType = slotType schema.indexType element := by
      rw [← elementLinkType_eq hcollects helement, inputOf, InputSpec.ofField, intake,
        if_pos hcollects]
    rw [hlinkType]
    refine textFits_of_fitsFrom 4 (by decide) ?_
    rwa [slotType, String.toList_ofList,
      (helementRead.closed_slotText schema.indexType).blankless.compact_eq]
  · have hplain : field.type.required.isCollection = false := by
      refine htakes.resolve_left ?_
      rintro ⟨keyed, hintake⟩
      rw [inputOf, InputSpec.ofField, intake, if_neg hcollects] at hintake
      cases hintake
    have hlinkType : (schema.inputOf cls field).linkType =
        slotType schema.indexType field.type := by
      rw [inputOf, InputSpec.ofField, intake, if_neg hcollects]
    rw [← required_eq_of_element? hplain helement] at hfits
    rw [hlinkType]
    refine textFits_of_fitsFrom 5 (by decide) ?_
    rw [slotType, String.toList_ofList,
      (hread.closed_slotText schema.indexType).blankless.compact_eq]
    exact fitsFrom_slotText_required hread hfits

end Schema

end SlotGraph
