import SlotGraph.Proofs.TypeExpr.SlotText

/-!
# Slot types that read back

The type text of a slot is a type expression itself, and one without unions: it reads as a type
whose own text it is, both in schema syntax and on a slot, whatever the index type.
-/

namespace SlotGraph

namespace TypeExpr

open Text (Blankless generic)

theorem formOf?_of_bar {text : List Char} (h : Text.containsTop '|' text = true) :
    formOf? text = none := by
  refine Option.eq_none_iff_forall_ne_some.2 fun ⟨form, body⟩ hform => ?_
  obtain ⟨keyword, hentry, rfl, hbody⟩ := formOf?_eq_some_iff.1 hform
  rw [containsTop_form (by decide) (by decide) hentry hbody] at h
  exact Bool.false_ne_true h

/-- Whether a text reads as a type that is written as this text, on slots as well. -/
def Settled (text : List Char) : Prop :=
  ∃ type, Reads text type ∧ type.sourceText = text ∧ ∀ indexType, slotText indexType type = text

theorem settled_bars {text : List Char} (hclosed : Text.Closed text)
    (hbar : Text.containsTop '|' text = true) : Settled text := by
  have htrim := hclosed.blankless.trim_eq
  have hread : Reads text (.named (String.ofList (Text.trim text))) :=
    .named (htrim.symm ▸ hclosed.ne_nil) hclosed.balanced (formOf?_of_bar (htrim.symm ▸ hbar))
  have hsource : sourceText (.named (String.ofList (Text.trim text))) = text := by
    rw [sourceText_named, htrim, hclosed.blankless.compact_eq]
  exact ⟨_, hread, hsource, fun _ => hsource⟩

theorem Settled.enclosed {inner : List Char} (h : Settled inner) (hclosed : Text.Closed inner)
    (wrapper : Wrapper) (hcomma : wrapper = .tuple → Text.containsTop ',' inner = false) :
    Settled (generic wrapper.keyword (inner ++ wrapper.suffix)) := by
  obtain ⟨type, hread, hsource, hslot⟩ := h
  refine ⟨.wrapped wrapper type, hread.enclosed hclosed wrapper hcomma, ?_, fun indexType => ?_⟩
  · rw [sourceText_wrapped, hsource]
  · rw [slotText_wrapped, hslot]

namespace Reads

variable {text : List Char} {type : TypeExpr}

theorem containsTop_slotText (h : Reads text type) (indexType : String)
    (hcomma : Text.containsTop ',' text = false) :
    Text.containsTop ',' (slotText indexType type) = false := by
  induction h with
  | named hne hbalanced hform =>
      exact (Reads.named hne hbalanced hform).written.containsTop hcomma
  | dict hform =>
      exact (Reads.dict hform).written.containsTop hcomma
  | @union text body alternatives hform hne hlength hparts ih =>
      -- The alternatives were parted by commas, so none of them has another one.
      have hall : ∀ alternative ∈ alternatives,
          Text.containsTop ',' (slotText indexType alternative) = false := by
        intro alternative halternative
        obtain ⟨part, hpair⟩ := exists_mem_zip hlength halternative
        exact ih part alternative hpair
          (Text.containsTop_of_mem_splitTop (by decide) (List.of_mem_zip hpair).1)
      have hbalanced : ∀ alternative ∈ alternatives,
          Text.balanced (slotText indexType alternative) = true := by
        intro alternative halternative
        obtain ⟨part, hpair⟩ := exists_mem_zip hlength halternative
        exact ((hparts part alternative hpair).closed_slotText indexType).balanced
      rcases slotText_union indexType alternatives with ⟨other, hother, -, -, htext⟩ | htext
      · rw [htext]
        exact hall other hother
      · rw [htext]
        exact Text.containsTop_joinWith (by decide) (by decide) (List.forall_mem_map.2 hbalanced)
          (List.forall_mem_map.2 hall)
  | tuple hform hparts hinner ih =>
      rw [slotText_wrapped]
      exact containsTop_form (by decide) (by decide) (mem_forms .tuple)
        (closed_suffix (hinner.closed_slotText indexType) .tuple).2
  | @wrapped text body wrapper inner hwrapper hform hinner ih =>
      rw [slotText_wrapped]
      exact containsTop_form (by decide) (by decide) (mem_forms wrapper)
        (closed_suffix (hinner.closed_slotText indexType) wrapper).2

theorem settled_slotText (h : Reads text type) (hblank : Blankless text) (indexType : String) :
    Settled (slotText indexType type) := by
  induction h with
  | named hne hbalanced hform =>
      exact ⟨_, (Reads.named hne hbalanced hform).reads_sourceText hblank, rfl, fun _ => rfl⟩
  | dict hform =>
      exact ⟨_, (Reads.dict hform).reads_sourceText hblank, rfl, fun _ => rfl⟩
  | @union text body alternatives hform hne hlength hparts ih =>
      have hinside := blankless_body hblank hform
      have hall : ∀ alternative ∈ alternatives, Settled (slotText indexType alternative) := by
        intro alternative halternative
        obtain ⟨part, hpair⟩ := exists_mem_zip hlength halternative
        exact ih part alternative hpair
          (hinside.of_subset (Text.isInfix_of_mem_splitTop (List.of_mem_zip hpair).1).subset)
      rcases slotText_union indexType alternatives with ⟨other, hother, -, -, htext⟩ | htext
      · rw [htext]
        exact hall other hother
      · have hclosed := (Reads.union hform hne hlength hparts).closed_slotText indexType
        rw [htext] at hclosed ⊢
        match alternatives with
        | [] =>
            exact absurd rfl hne
        | [only] =>
            exact hall only List.mem_cons_self
        | first :: second :: rest =>
            obtain ⟨part, hpair⟩ := exists_mem_zip hlength
              (List.mem_cons_self : first ∈ first :: second :: rest)
            have hfirst := (hparts part first hpair).closed_slotText indexType
            exact settled_bars hclosed
              (Text.containsTop_joinWith_self (by decide) _ hfirst.balanced)
  | @tuple text body part rest inner hform hparts hinner ih =>
      have hpart : part ∈ Text.splitTop ',' body := hparts ▸ List.mem_cons_self
      rw [slotText_wrapped]
      refine (ih ?_).enclosed (hinner.closed_slotText indexType) .tuple fun _ =>
        hinner.containsTop_slotText indexType (Text.containsTop_of_mem_splitTop (by decide) hpart)
      exact (blankless_body hblank hform).of_subset (Text.isInfix_of_mem_splitTop hpart).subset
  | @wrapped text body wrapper inner hwrapper hform hinner ih =>
      rw [slotText_wrapped]
      exact (ih (blankless_body hblank hform)).enclosed (hinner.closed_slotText indexType) wrapper
        fun htuple => absurd htuple hwrapper

end Reads

/--
The type text of a slot reads as a type again.  What it reads as has the same text, in schema
syntax and on a slot under whatever index type.
-/
theorem parse?_slotType {text : String} {type : TypeExpr} (hblank : Blankless text.toList)
    (h : parse? text = some type) (indexType : String) :
    ∃ again, parse? (slotType indexType type) = some again ∧
      again.source = slotType indexType type ∧
      ∀ other, slotType other again = slotType indexType type := by
  obtain ⟨again, hread, hsource, hslot⟩ :=
    (reads_of_ofText? h).settled_slotText hblank indexType
  refine ⟨again, ?_, congrArg String.ofList hsource,
    fun other => congrArg String.ofList (hslot other)⟩
  rw [parse?, slotType, String.toList_ofList]
  exact ofText?_of_reads hread

/-- A model beside the index type in a tuple, and three types with bars in the list inside. -/
theorem parse?_slotType_nested :
    parse? "Tuple[Union[Index,List[Union[A,Optional[B|C],dict[k,v]]]],int]" =
        some (.wrapped .tuple (.union [.named "Index", .wrapped .list (.union
          [.named "A", .wrapped .optional (.named "B|C"), .dict "k,v"])])) ∧
      ∃ again, parse? "Tuple[List[A|Optional[B|C]|Dict[k,v]],...]" = some again ∧
        again.source = "Tuple[List[A|Optional[B|C]|Dict[k,v]],...]" ∧
        ∀ other, slotType other again = "Tuple[List[A|Optional[B|C]|Dict[k,v]],...]" := by
  have hread : parse? "Tuple[Union[Index,List[Union[A,Optional[B|C],dict[k,v]]]],int]" =
      some (.wrapped .tuple (.union [.named "Index", .wrapped .list (.union
        [.named "A", .wrapped .optional (.named "B|C"), .dict "k,v"])])) := by
    with_unfolding_all rfl
  have hslot : slotType "Index" (.wrapped .tuple (.union [.named "Index", .wrapped .list (.union
      [.named "A", .wrapped .optional (.named "B|C"), .dict "k,v"])])) =
        "Tuple[List[A|Optional[B|C]|Dict[k,v]],...]" := by
    with_unfolding_all rfl
  have hagain := parse?_slotType (by decide) hread "Index"
  rw [hslot] at hagain
  exact ⟨hread, hagain⟩

end TypeExpr

end SlotGraph
