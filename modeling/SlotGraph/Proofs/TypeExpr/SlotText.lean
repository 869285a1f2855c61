import SlotGraph.Proofs.Schema.Declared
import SlotGraph.Proofs.TypeExpr.Rendering
import SlotGraph.Template.SlotType

/-!
# Slot types and the gate

The type text of a slot writes a union as a list with bars and drops the index type beside
another.  A class that is not admitted as an index is admitted by the text of the slot
exactly when it is admitted by the type as it was declared.
-/

namespace SlotGraph

namespace TypeExpr

open Text (Blankless generic)

/-! ## The text of a slot -/

theorem isIndex_iff {indexType : String} {type : TypeExpr} :
    type.isIndex indexType = true ↔ type = .named indexType := by
  cases type <;> simp [isIndex]

theorem slotTexts_eq (indexType : String) (types : List TypeExpr) :
    slotTexts indexType types = types.map (slotText indexType) := by
  induction types with
  | nil =>
      rfl
  | cons type rest ih =>
      rw [slotTexts, ih, List.map_cons]

theorem slotText_wrapped (indexType : String) (wrapper : Wrapper) (inner : TypeExpr) :
    slotText indexType (.wrapped wrapper inner) =
      generic wrapper.keyword (slotText indexType inner ++ wrapper.suffix) := by
  rw [slotText]
  rfl

/-- A union is written as the alternative beside the index type, or as its alternatives with
bars. -/
theorem slotText_union (indexType : String) (alternatives : List TypeExpr) :
    (∃ other ∈ alternatives, .named indexType ∈ alternatives ∧
      (∀ alternative ∈ alternatives, alternative = other ∨ alternative = .named indexType) ∧
      slotText indexType (.union alternatives) = slotText indexType other) ∨
    slotText indexType (.union alternatives) =
      joinWith '|' (alternatives.map (slotText indexType)) := by
  match alternatives with
  | [a, b] =>
      rw [slotText]
      split
      · next hfirst =>
          rw [Bool.and_eq_true, isIndex_iff] at hfirst
          exact .inl ⟨b, by simp, by simp [hfirst.1], by simp [hfirst.1], rfl⟩
      · split
        · next hsecond =>
            rw [Bool.and_eq_true, isIndex_iff] at hsecond
            exact .inl ⟨a, by simp, by simp [hsecond.1], by simp [hsecond.1], rfl⟩
        · exact .inr rfl
  | [] =>
      exact .inr rfl
  | [a] =>
      exact .inr rfl
  | a :: b :: c :: rest =>
      refine .inr ?_
      rw [slotText, slotTexts_eq]
      simp

/-- Whether a character opens a form, parts alternatives or ends a qualifier. -/
def isSign (c : Char) : Bool :=
  isMark c || c == ','

namespace Reads

variable {text : List Char} {type : TypeExpr}

theorem closed_slotText (h : Reads text type) (indexType : String) :
    Text.Closed (slotText indexType type) := by
  induction h with
  | named hne hbalanced hform =>
      exact (Reads.named hne hbalanced hform).closed
  | dict hform =>
      exact (Reads.dict hform).closed
  | @union text body alternatives hform hne hlength hparts ih =>
      have hall : ∀ alternative ∈ alternatives,
          Text.Closed (slotText indexType alternative) := by
        intro alternative halternative
        obtain ⟨part, hpair⟩ := exists_mem_zip hlength halternative
        exact ih part alternative hpair
      rcases slotText_union indexType alternatives with ⟨other, hother, -, -, htext⟩ | htext
      · rw [htext]
        exact hall other hother
      · rw [htext]
        exact Text.closed_joinWith (by decide) (by decide) (by simpa using hne)
          (List.forall_mem_map.2 hall)
  | tuple hform hparts hinner ih =>
      obtain ⟨hblank, hbalanced⟩ := closed_suffix ih .tuple
      rw [slotText_wrapped]
      exact closed_form (mem_forms .tuple) hblank hbalanced
  | @wrapped text body wrapper inner hwrapper hform hinner ih =>
      obtain ⟨hblank, hbalanced⟩ := closed_suffix ih wrapper
      rw [slotText_wrapped]
      exact closed_form (mem_forms wrapper) hblank hbalanced

end Reads

/-! ## The size of the text -/

theorem sublist_generic (keyword body : List Char) : body.Sublist (generic keyword body) :=
  (List.sublist_append_left _ _).trans
    ((List.sublist_cons_self _ _).trans (List.sublist_append_right _ _))

theorem sublist_sourceText_union {alternatives : List TypeExpr} {alternative : TypeExpr}
    (h : alternative ∈ alternatives) :
    alternative.sourceText.Sublist (sourceText (.union alternatives)) := by
  have hjoined := (Text.isInfix_joinWith ',' (List.mem_map_of_mem (f := sourceText) h)).sublist
  rw [sourceText_union]
  exact hjoined.trans (sublist_generic _ _)

theorem marks_le_countP (text : List Char) : marks text ≤ text.countP isSign :=
  List.countP_mono_left fun c _ hc => by simp [isSign, hc]

theorem marks_generic_le (keyword suffix : List Char) {slot source : List Char}
    (h : marks slot ≤ source.countP isSign) :
    marks (generic keyword (slot ++ suffix)) ≤
      (generic keyword (source ++ suffix)).countP isSign := by
  have hkeyword := marks_le_countP keyword
  have hsuffix := marks_le_countP suffix
  have hclose := marks_le_countP [']']
  have hopen : isMark '[' = true ∧ isSign '[' = true := ⟨rfl, rfl⟩
  simp only [marks] at h hkeyword hsuffix hclose
  simp only [generic, marks, List.countP_append, List.countP_cons_of_pos hopen.1,
    List.countP_cons_of_pos hopen.2]
  omega

/-- The text of a slot has no more marks than the source of its type has signs: a bar stands
for a comma. -/
theorem marks_slotText_le {text : List Char} {type : TypeExpr} (h : Reads text type)
    (indexType : String) :
    marks (slotText indexType type) ≤ type.sourceText.countP isSign := by
  induction h with
  | named _ _ _ =>
      exact marks_le_countP _
  | dict _ =>
      exact marks_le_countP _
  | @union text body alternatives hform hne hlength hparts ih =>
      have hall : ∀ alternative ∈ alternatives,
          marks (slotText indexType alternative) ≤ alternative.sourceText.countP isSign := by
        intro alternative halternative
        obtain ⟨part, hpair⟩ := exists_mem_zip hlength halternative
        exact ih part alternative hpair
      rcases slotText_union indexType alternatives with ⟨other, hother, -, -, htext⟩ | htext
      · rw [htext]
        exact Nat.le_trans (hall other hother) (sublist_sourceText_union hother).countP_le
      · have hslots : alternatives.map (slotText indexType) ≠ [] := by
          simpa using hne
        have hsources : alternatives.map sourceText ≠ [] := by
          simpa using hne
        have hbars := Text.countP_joinWith isMark '|' hslots
        have hcommas := Text.countP_joinWith isSign ',' hsources
        have hsum : ((alternatives.map (slotText indexType)).map (List.countP isMark)).sum ≤
            ((alternatives.map sourceText).map (List.countP isSign)).sum := by
          rw [List.map_map, List.map_map]
          exact List.sum_le_sum hall
        have hmark : isMark '|' = true := rfl
        have hsign : isSign ',' = true := rfl
        simp only [hmark, hsign, if_true, List.length_map, Nat.mul_one] at hbars hcommas
        have hbody : (joinWith ',' (alternatives.map sourceText)).countP isSign ≤
            (sourceText (.union alternatives)).countP isSign := by
          rw [sourceText_union]
          exact (sublist_generic _ _).countP_le
        rw [htext, marks]
        omega
  | tuple hform hparts hinner ih =>
      rw [slotText_wrapped, sourceText_wrapped]
      exact marks_generic_le _ _ ih
  | wrapped hwrapper hform hinner ih =>
      rw [slotText_wrapped, sourceText_wrapped]
      exact marks_generic_le _ _ ih

/-! ## What the text of a slot admits -/

/-- A name that is neither empty nor `Any` and has letters, digits and underscores only. -/
structure IsBare (name : List Char) : Prop where
  ne_nil : name ≠ []
  ne_any : name ≠ anyText
  continues : ∀ c ∈ name, Text.continuesIdentifier c = true

namespace IsBare

variable {name text : List Char}

theorem not_mem (h : IsBare name) {c : Char} (hc : Text.continuesIdentifier c = false) :
    c ∉ name := by
  intro hmem
  rw [h.continues c hmem] at hc
  exact absurd hc (by decide)

/-- A bare name meets a text with other characters only where the text admits everything. -/
theorem not_meets (h : IsBare name) {c : Char} (hc : Text.continuesIdentifier c = false)
    (hmem : c ∈ text) : ¬ Meets name text := by
  rintro (hempty | hnil | hsame | hany | hanything)
  · exact h.ne_nil hempty
  · rw [hnil] at hmem
    simp at hmem
  · exact h.not_mem hc (hsame ▸ hmem)
  · exact h.ne_any hany
  · have hletters : anyText.all Text.continuesIdentifier = true := by
      decide
    rw [List.all_eq_true.1 hletters c (hanything ▸ hmem)] at hc
    exact absurd hc (by decide)

theorem admits_optional (h : IsBare name) {inner : List Char}
    (hinner : Text.balanced inner = true) :
    Admits name (generic Wrapper.optional.keyword inner) ↔ Admits name inner := by
  rw [admits_of_splits (h.not_meets (c := '[') (by decide) (by simp [generic]))
    (.optional hinner)]
  simp

theorem admits_union (h : IsBare name) {body : List Char} (hbody : Text.balanced body = true) :
    Admits name (generic unionKeyword body) ↔
      ∃ part ∈ Text.splitTop ',' body, Admits name part :=
  admits_of_splits (h.not_meets (c := '[') (by decide) (by simp [generic])) (.union hbody)

theorem admits_bars (h : IsBare name) (htext : Text.Closed text) :
    Admits name text ↔ ∃ part ∈ Text.splitTop '|' text, Admits name part := by
  by_cases hbar : Text.containsTop '|' text = true
  · have hmem : '|' ∈ text := by
      by_contra hnone
      rw [Text.containsTop, Text.containsAt_of_not_mem hnone] at hbar
      exact absurd hbar (by decide)
    exact admits_of_splits (h.not_meets (by decide) hmem) (.bars hbar)
  · rw [htext.splitTop_eq (by simpa using hbar)]
    simp

theorem admits_joined (h : IsBare name) {texts : List (List Char)} (hne : texts ≠ [])
    (hclosed : ∀ text ∈ texts, Text.Closed text) :
    Admits name (joinWith '|' texts) ↔ ∃ text ∈ texts, Admits name text := by
  have hjoined : Text.Closed (joinWith '|' texts) :=
    Text.closed_joinWith (by decide) (by decide) hne hclosed
  rw [h.admits_bars hjoined,
    Text.splitTop_joinWith (by decide) fun text htext => (hclosed text htext).balanced]
  calc
    (∃ part ∈ texts.flatMap (Text.splitTop '|'), Admits name part) ↔
      ∃ text ∈ texts, ∃ part ∈ Text.splitTop '|' text, Admits name part := by
        simp only [List.mem_flatMap]
        exact ⟨fun ⟨part, ⟨text, htext, hpart⟩, hadmits⟩ => ⟨text, htext, part, hpart, hadmits⟩,
          fun ⟨text, htext, part, hpart, hadmits⟩ => ⟨part, ⟨text, htext, hpart⟩, hadmits⟩⟩
    _ ↔ ∃ text ∈ texts, Admits name text :=
        exists_congr fun text => and_congr_right fun htext =>
          (h.admits_bars (hclosed text htext)).symm

theorem admits_sourceText_union (h : IsBare name)
    {alternatives : List TypeExpr} (hne : alternatives ≠ [])
    (hread : ∀ alternative ∈ alternatives, ∃ part ∈ Text.splitTop ',' text,
      Reads part alternative) :
    Admits name (sourceText (.union alternatives)) ↔
      ∃ alternative ∈ alternatives, Admits name alternative.sourceText := by
  rw [sourceText_union, h.admits_union (Reads.closed_joined hne hread).balanced,
    Reads.splitTop_sources hread]
  simp only [List.mem_map, exists_exists_and_eq_and]

theorem not_admits_form (h : IsBare name) {keyword body : List Char} {form : Form}
    (hentry : (keyword, form) ∈ forms) (hbody : Text.balanced body = true)
    (hoptional : keyword ≠ Wrapper.optional.keyword) (hunion : keyword ≠ unionKeyword) :
    ¬ Admits name (generic keyword body) := by
  have hopen : '[' ∈ generic keyword body := by
    simp [generic]
  have hleaf : IsLeaf (generic keyword body) :=
    isLeaf_form hentry hbody hoptional hunion
  have hname : Text.stripQualifier name = name :=
    stripQualifier_of_not_mem (h.not_mem (by decide))
  have hform : Text.stripQualifier (generic keyword body) = generic keyword body :=
    (stripQualifier_cases _).resolve_right fun hother => hother.1 hopen
  have hmeets := h.not_meets (by decide) hopen
  have hplain : ∀ word ∈ integerNames ++ stringNames, '[' ∉ word := by
    decide
  rw [admits_of_isLeaf hmeets hleaf, StrippedAgrees, hname, hform]
  simp only [hleaf.alternative_iff, exists_eq_left]
  simp only [Meets, not_or] at hmeets
  obtain ⟨hempty, hnil, hne, hany, hanything⟩ := hmeets
  simp only [hempty, hnil, hany, hanything, false_or]
  rintro (hsame | ⟨-, hinteger⟩ | ⟨-, hstring⟩)
  · exact hne hsame
  · exact hplain _ (List.mem_append_left _ hinteger) hopen
  · exact hplain _ (List.mem_append_right _ hstring) hopen

end IsBare

/--
A bare name that is not admitted as an index is admitted by the text of a slot exactly when
it is by the source of the type.  The index type is asked about only where it is written.
-/
theorem admits_slotText {text name : List Char} {type : TypeExpr} {indexType : String}
    (h : Reads text type) (hname : IsBare name)
    (hindex : (Text.compact indexType.toList).countP isSign ≤ type.sourceText.countP isSign →
      ¬ Admits name (Text.compact indexType.toList)) :
    Admits name (slotText indexType type) ↔ Admits name type.sourceText := by
  induction h with
  | named _ _ _ =>
      exact Iff.rfl
  | dict _ =>
      exact Iff.rfl
  | @union text body alternatives hform hne hlength hparts ih =>
      have hread := Reads.exists_part hlength hparts
      have hall : ∀ alternative ∈ alternatives,
          (Admits name (slotText indexType alternative) ↔
            Admits name alternative.sourceText) := by
        intro alternative halternative
        obtain ⟨part, hpair⟩ := exists_mem_zip hlength halternative
        exact ih part alternative hpair fun hsize =>
          hindex (Nat.le_trans hsize (sublist_sourceText_union halternative).countP_le)
      rw [hname.admits_sourceText_union hne hread]
      rcases slotText_union indexType alternatives with
        ⟨other, hother, hindexed, hpair, htext⟩ | htext
      · have hnone : ¬ Admits name (sourceText (.named indexType)) :=
          hindex (sublist_sourceText_union hindexed).countP_le
        rw [htext, hall other hother]
        refine ⟨fun hadmits => ⟨other, hother, hadmits⟩, ?_⟩
        rintro ⟨alternative, halternative, hadmits⟩
        rcases hpair alternative halternative with rfl | rfl
        · exact hadmits
        · exact absurd hadmits hnone
      · have hslots : ∀ slot ∈ alternatives.map (slotText indexType), Text.Closed slot := by
          refine List.forall_mem_map.2 fun alternative halternative => ?_
          obtain ⟨part, -, hreads⟩ := hread alternative halternative
          exact hreads.closed_slotText indexType
        rw [htext, hname.admits_joined (by simpa using hne) hslots]
        simp only [List.mem_map, exists_exists_and_eq_and]
        exact exists_congr fun alternative => and_congr_right fun halternative =>
          hall alternative halternative
  | tuple hform hparts hinner ih =>
      rw [slotText_wrapped, sourceText_wrapped]
      exact iff_of_false
        (hname.not_admits_form (mem_forms .tuple)
          (closed_suffix (hinner.closed_slotText indexType) .tuple).2 (by decide) (by decide))
        (hname.not_admits_form (mem_forms .tuple)
          (closed_suffix hinner.closed .tuple).2 (by decide) (by decide))
  | @wrapped text body wrapper inner hwrapper hform hinner ih =>
      have hslot := (closed_suffix (hinner.closed_slotText indexType) wrapper).2
      have hsource := (closed_suffix hinner.closed wrapper).2
      have hinside : inner.sourceText.countP isSign ≤
          (sourceText (.wrapped wrapper inner)).countP isSign := by
        rw [sourceText_wrapped]
        exact ((List.sublist_append_left _ _).trans (sublist_generic _ _)).countP_le
      rw [slotText_wrapped, sourceText_wrapped]
      by_cases hoptional : wrapper = .optional
      · subst hoptional
        simp only [Wrapper.suffix, List.append_nil] at hslot hsource ⊢
        rw [hname.admits_optional hslot, hname.admits_optional hsource]
        exact ih fun hsize => hindex (Nat.le_trans hsize hinside)
      · have hkeyword : wrapper.keyword ≠ Wrapper.optional.keyword ∧
            wrapper.keyword ≠ unionKeyword := by
          cases wrapper <;> simp_all [Wrapper.keyword, unionKeyword]
        exact iff_of_false
          (hname.not_admits_form (mem_forms wrapper) hslot hkeyword.1 hkeyword.2)
          (hname.not_admits_form (mem_forms wrapper) hsource hkeyword.1 hkeyword.2)

/-! ## The gate at a slot -/

/-- On a bare name the gate decides what a text admits that it looks through. -/
theorem textFits_iff_of_isBare {name text : String} (hname : IsBare name.toList)
    (hsize : marks (Text.compact text.toList) ≤ 64) :
    textFits name text = true ↔ Admits name.toList (Text.compact text.toList) := by
  have hblank : Blankless name.toList := fun c hc =>
    Text.isBlank_of_continuesIdentifier (hname.continues c hc)
  have hplain : ∀ c, isMark c = true → Text.continuesIdentifier c = false := by
    intro c hc
    simp only [isMark, Bool.or_eq_true, beq_iff_eq] at hc
    rcases hc with (rfl | rfl) | rfl <;> decide
  have hmarks : marks name.toList = 0 :=
    List.countP_eq_zero.2 fun c hc hmark => hname.not_mem (hplain c hmark) hc
  have hlayers : marks name.toList + marks (Text.compact text.toList) < layerLimit := by
    rw [hmarks, Nat.zero_add]
    exact Nat.lt_succ_of_le hsize
  rw [textFits, hblank.compact_eq]
  exact fitsWithin_iff_admits hlayers

theorem isBare_of_textFits {name indexType : String} (hname : Text.IsIdentifier name)
    (hindex : textFits name indexType = false) : IsBare name.toList where
  ne_nil := fun hnil => hname.1 (String.toList_eq_nil_iff.1 hnil)
  ne_any := by
    intro hany
    have hcompact : Text.compact anyText = anyText := by
      decide
    have hfits : textFits name indexType = true := by
      rw [textFits, hany, hcompact]
      exact fitsWithin_of_meets 64 (.inr (.inr (.inr (.inl rfl))))
    rw [hfits] at hindex
    exact absurd hindex (by decide)
  continues := hname.2

/--
A class that does not fit the index type fits the type of a slot exactly when it fits the
type of the field, for types that are no larger than the gate looks through.
-/
theorem textFits_slotType {text indexType name : String} {type : TypeExpr}
    (hread : parse? text = some type)
    (hsize : type.source.toList.countP isSign ≤ 64) (hname : Text.IsIdentifier name)
    (hindex : textFits name indexType = false) :
    textFits name (slotType indexType type) = textFits name type.source := by
  have hreads := reads_of_ofText? hread
  have hbare := isBare_of_textFits hname hindex
  rw [source, String.toList_ofList] at hsize
  have hsource : Text.compact type.source.toList = type.sourceText := by
    rw [source, String.toList_ofList, hreads.closed.blankless.compact_eq]
  have hslot : Text.compact (slotType indexType type).toList = slotText indexType type := by
    rw [slotType, String.toList_ofList, (hreads.closed_slotText indexType).blankless.compact_eq]
  have hsourceSize : marks (Text.compact type.source.toList) ≤ 64 := by
    rw [hsource]
    exact Nat.le_trans (marks_le_countP _) hsize
  have hslotSize : marks (Text.compact (slotType indexType type).toList) ≤ 64 := by
    rw [hslot]
    exact Nat.le_trans (marks_slotText_le hreads indexType) hsize
  have hsourceGate := textFits_iff_of_isBare hbare hsourceSize
  have hslotGate := textFits_iff_of_isBare hbare hslotSize
  -- An index type with more marks than the source is written nowhere in it.
  have hnone : (Text.compact indexType.toList).countP isSign ≤ type.sourceText.countP isSign →
      ¬ Admits name.toList (Text.compact indexType.toList) := by
    intro hsmall hadmits
    have hmarks := Nat.le_trans (marks_le_countP _) (Nat.le_trans hsmall hsize)
    rw [(textFits_iff_of_isBare hbare hmarks).2 hadmits] at hindex
    exact absurd hindex (by decide)
  rw [hsource] at hsourceGate
  rw [hslot] at hslotGate
  exact Bool.eq_iff_iff.2
    (hslotGate.trans ((admits_slotText hreads hbare hnone).trans hsourceGate.symm))

/-- A model beside the index type, bars inside an optional, and a collection in a union. -/
theorem textFits_slotType_nested :
    textFits "Tool" "Index" = false ∧
      textFits "Tool" "Optional[pkg.Tool|Part]|List[Tool]|Index" =
        textFits "Tool" "Union[Optional[Union[pkg.Tool|Part,Index]],List[Tool],Index]" := by
  have hread : parse? "Union[Optional[Union[pkg.Tool|Part, Index]], List[Tool], Index]" =
      some (.union [.wrapped .optional (.union [.named "pkg.Tool|Part", .named "Index"]),
        .wrapped .list (.named "Tool"), .named "Index"]) := by
    with_unfolding_all rfl
  have hindex : textFits "Tool" "Index" = false := by
    decide
  have hname : Text.IsIdentifier "Tool" :=
    ⟨by decide, List.all_eq_true.1 (by decide)⟩
  have hfits := textFits_slotType hread (by decide) hname hindex
  have hslot : slotType "Index" (.union [.wrapped .optional
      (.union [.named "pkg.Tool|Part", .named "Index"]), .wrapped .list (.named "Tool"),
      .named "Index"]) = "Optional[pkg.Tool|Part]|List[Tool]|Index" := by
    with_unfolding_all rfl
  have hsource : source (.union [.wrapped .optional
      (.union [.named "pkg.Tool|Part", .named "Index"]), .wrapped .list (.named "Tool"),
      .named "Index"]) = "Union[Optional[Union[pkg.Tool|Part,Index]],List[Tool],Index]" := by
    with_unfolding_all rfl
  rw [hslot, hsource] at hfits
  exact ⟨hindex, hfits⟩

end TypeExpr

end SlotGraph
