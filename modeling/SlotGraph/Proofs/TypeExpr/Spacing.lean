import SlotGraph.Proofs.TypeExpr.Brackets
import SlotGraph.Proofs.TypeExpr.Rendering

/-!
# Blanks in type texts

A form is read where the bracket follows its keyword at once, and the source of a type is
written without blanks.  A text such as `Tuple [int]` is therefore read as a name, and its
source as a tuple.  Blanks change nothing exactly where every name is one of which this
cannot be said.
-/

namespace SlotGraph

namespace TypeExpr

open Text (generic)

/--
A text whose blanks keep none of its parts from being read as what it is without them: a
part that is read as a name is, without its blanks, read and in standard spelling.
-/
inductive Unbroken : List Char → Prop where
  | named {text : List Char} (hform : formOf? (Text.trim text) = none)
      (hread : ∃ type, Reads (Text.compact text) type)
      (hstandard : Standard (Text.compact text)) : Unbroken text
  | dict {text body : List Char} (hform : formOf? (Text.trim text) = some (.dict, body)) :
      Unbroken text
  | union {text body : List Char} (hform : formOf? (Text.trim text) = some (.union, body))
      (hparts : ∀ part ∈ Text.splitTop ',' body, Unbroken part) : Unbroken text
  | tuple {text body part : List Char} {rest : List (List Char)}
      (hform : formOf? (Text.trim text) = some (.wrapper .tuple, body))
      (hparts : Text.splitTop ',' body = part :: rest) (hinner : Unbroken part) : Unbroken text
  | wrapped {text body : List Char} {wrapper : Wrapper} (hwrapper : wrapper ≠ .tuple)
      (hform : formOf? (Text.trim text) = some (.wrapper wrapper, body))
      (hinner : Unbroken body) : Unbroken text

/-- Lists are related entry by entry to given images exactly if they are related to a list
that has these images. -/
theorem exists_forall₂_map_iff {α β γ : Type} {related : α → β → Prop} {f : β → γ}
    {xs : List α} {images : List γ} :
    (∃ ys, List.Forall₂ related xs ys ∧ ys.map f = images) ↔
      List.Forall₂ (fun x image => ∃ y, related x y ∧ f y = image) xs images := by
  constructor
  · rintro ⟨ys, hrelated, rfl⟩
    exact List.forall₂_map_right_iff.2 (hrelated.imp fun x y h => ⟨y, h, rfl⟩)
  · intro h
    induction h with
    | nil =>
        exact ⟨[], .nil, rfl⟩
    | cons hfirst _ ih =>
        obtain ⟨y, hy, rfl⟩ := hfirst
        obtain ⟨ys, hys, rfl⟩ := ih
        exact ⟨y :: ys, .cons hy hys, rfl⟩

/-! ## Reading a form -/

namespace Reads

variable {text body : List Char} {type : TypeExpr}

theorem readable (h : Reads text type) :
    Text.trim text ≠ [] ∧ Text.balanced text = true := by
  have hsome := ofText?_of_reads h
  rw [ofText?_eq] at hsome
  split at hsome
  · simp at hsome
  · next hreadable =>
      simpa [Text.balanced_trim] using hreadable

theorem of_union (h : Reads text type)
    (hform : formOf? (Text.trim text) = some (.union, body)) :
    ∃ alternatives, type = .union alternatives ∧ alternatives ≠ [] ∧
      List.Forall₂ Reads (Text.splitTop ',' body) alternatives := by
  cases h with
  | union hother hne hlength hparts =>
      obtain ⟨-, rfl⟩ := Prod.mk.inj (Option.some.inj (hform.symm.trans hother))
      exact ⟨_, rfl, hne, List.forall₂_iff_zip.2 ⟨hlength, fun {a b} => hparts a b⟩⟩
  | named | dict | tuple | wrapped =>
      simp_all

theorem of_tuple (h : Reads text type)
    (hform : formOf? (Text.trim text) = some (.wrapper .tuple, body)) :
    ∃ part rest inner, Text.splitTop ',' body = part :: rest ∧ Reads part inner ∧
      type = .wrapped .tuple inner := by
  cases h with
  | tuple hother hparts hinner =>
      obtain ⟨-, rfl⟩ := Prod.mk.inj (Option.some.inj (hform.symm.trans hother))
      exact ⟨_, _, _, hparts, hinner, rfl⟩
  | named | dict | union | wrapped =>
      simp_all

theorem of_wrapped {wrapper : Wrapper} (h : Reads text type) (hwrapper : wrapper ≠ .tuple)
    (hform : formOf? (Text.trim text) = some (.wrapper wrapper, body)) :
    ∃ inner, Reads body inner ∧ type = .wrapped wrapper inner := by
  cases h with
  | wrapped hother hform' hinner =>
      obtain ⟨hsame, rfl⟩ := Prod.mk.inj (Option.some.inj (hform.symm.trans hform'))
      exact ⟨_, hinner, by rw [Form.wrapper.inj hsame]⟩
  | named | dict | union | tuple =>
      simp_all

end Reads

section

variable {text body : List Char} {type : TypeExpr}

theorem formOf?_compact {form : Form} (hform : formOf? (Text.trim text) = some (form, body)) :
    formOf? (Text.trim (Text.compact text)) = some (form, Text.compact body) := by
  obtain ⟨keyword, hentry, -, hcompact, hbody⟩ := Reads.compact_of_form hform
  rw [hcompact]
  exact formOf?_generic hentry (Text.blankless_compact body) hbody

theorem splitTop_compact_comma :
    Text.splitTop ',' (Text.compact body) = (Text.splitTop ',' body).map Text.compact :=
  Text.splitTop_compact rfl

theorem exists_reads_of_compact (h : Reads (Text.compact text) type) :
    ∃ written, Reads text written := by
  induction hsize : text.length using Nat.strong_induction_on generalizing text type with
  | _ size ih =>
      subst hsize
      cases hform : formOf? (Text.trim text) with
      | none =>
          obtain ⟨hne, hbalanced⟩ := h.readable
          rw [(Text.blankless_compact text).trim_eq, ← Text.trim_ne_nil_iff] at hne
          exact ⟨_, .named hne (Text.balanced_compact.symm.trans hbalanced) hform⟩
      | some found =>
          obtain ⟨form, body⟩ := found
          have hcompact := formOf?_compact hform
          have hsmaller : body.length < text.length :=
            Nat.lt_of_lt_of_le (formOf?_length hform) (Text.trim_length_le text)
          have hpart : ∀ part ∈ Text.splitTop ',' body, ∀ inner,
              Reads (Text.compact part) inner → ∃ written, Reads part written :=
            fun part hmem inner hinner => ih part.length
              (Nat.lt_of_le_of_lt (Text.length_le_of_mem_splitTop hmem) hsmaller) hinner rfl
          cases form with
          | dict =>
              exact ⟨_, .dict hform⟩
          | union =>
              obtain ⟨others, -, hne, hothers⟩ := h.of_union hcompact
              rw [splitTop_compact_comma, List.forall₂_map_left_iff,
                List.forall₂_iff_zip] at hothers
              obtain ⟨alternatives, hread⟩ := exists_forall₂ fun part hmem =>
                have ⟨other, hpair⟩ := exists_mem_zip_left hothers.1 hmem
                hpart part hmem other (hothers.2 hpair)
              obtain ⟨hlength, hpairs⟩ := List.forall₂_iff_zip.1 hread
              have hsome : alternatives ≠ [] := by
                rintro rfl
                exact hne (List.length_eq_zero_iff.1 (hothers.1.symm.trans hlength))
              exact ⟨_, .union hform hsome hlength fun _ _ hpair => hpairs hpair⟩
          | wrapper w =>
              by_cases hw : w = .tuple
              · subst hw
                obtain ⟨compacted, others, inner, hcut, hinner, -⟩ := h.of_tuple hcompact
                obtain ⟨part, rest, hparts, rfl, -⟩ :=
                  List.map_eq_cons_iff.1 (splitTop_compact_comma.symm.trans hcut)
                obtain ⟨written, hwritten⟩ :=
                  hpart part (hparts ▸ List.mem_cons_self) inner hinner
                exact ⟨_, .tuple hform hparts hwritten⟩
              · obtain ⟨inner, hinner, -⟩ := h.of_wrapped hw hcompact
                obtain ⟨written, hwritten⟩ := ih body.length hsmaller hinner rfl
                exact ⟨_, .wrapped hw hform hwritten⟩

/-! ## Blanks and the source -/

def ReadsSource (text source : List Char) : Prop :=
  ∃ type, Reads text type ∧ type.sourceText = source

theorem Unbroken.readsSource_compact (hunbroken : Unbroken text) (h : Reads text type) :
    ReadsSource (Text.compact text) type.sourceText := by
  induction h with
  | named hne hbalanced hform =>
      cases hunbroken with
      | named _ hread hstandard =>
          obtain ⟨other, hother⟩ := hread
          have hsource := hother.compact_eq_of_standard hstandard
          rw [(Text.blankless_compact _).compact_eq] at hsource
          refine ⟨other, hother, ?_⟩
          rw [sourceText_named, Text.compact_trim, hsource]
      | dict | union | tuple | wrapped =>
          simp_all
  | @dict text body hform =>
      refine ⟨_, .dict (formOf?_compact hform), ?_⟩
      rw [sourceText_dict, sourceText_dict, Text.compact_trim, Text.compact_trim,
        (Text.blankless_compact body).compact_eq]
  | @union text body alternatives hform hne hlength hparts ih =>
      cases hunbroken with
      | union hother hinner =>
          obtain ⟨-, rfl⟩ := Prod.mk.inj (Option.some.inj (hform.symm.trans hother))
          have hread : List.Forall₂
              (fun part alternative => ReadsSource (Text.compact part) (sourceText alternative))
              (Text.splitTop ',' body) alternatives :=
            List.forall₂_iff_zip.2 ⟨hlength, fun {part alternative} hpair =>
              ih part alternative hpair (hinner part (List.of_mem_zip hpair).1)⟩
          obtain ⟨others, hothers, hsources⟩ :=
            exists_forall₂_map_iff.2 (List.forall₂_map_right_iff.2 hread)
          obtain ⟨hcount, hpairs⟩ := List.forall₂_iff_zip.1 (List.forall₂_map_left_iff.2 hothers)
          rw [← splitTop_compact_comma] at hcount hpairs
          refine ⟨_, .union (formOf?_compact hform) ?_ hcount fun _ _ hpair => hpairs hpair, ?_⟩
          · rintro rfl
            exact hne (List.map_eq_nil_iff.1 hsources.symm)
          · rw [sourceText_union, sourceText_union, hsources]
      | named | dict | tuple | wrapped =>
          simp_all
  | @tuple text body part rest inner hform hparts hinner ih =>
      cases hunbroken with
      | tuple hother hcut helement =>
          obtain ⟨-, rfl⟩ := Prod.mk.inj (Option.some.inj (hform.symm.trans hother))
          obtain ⟨rfl, rfl⟩ := List.cons.inj (hparts.symm.trans hcut)
          obtain ⟨other, hread, hsource⟩ := ih helement
          have hcuts : Text.splitTop ',' (Text.compact body) =
              Text.compact part :: rest.map Text.compact := by
            rw [splitTop_compact_comma, hparts, List.map_cons]
          refine ⟨_, .tuple (formOf?_compact hform) hcuts hread, ?_⟩
          rw [sourceText_wrapped, sourceText_wrapped, hsource]
      | named | dict | union | wrapped =>
          simp_all
  | @wrapped text body wrapper inner hwrapper hform hinner ih =>
      cases hunbroken with
      | wrapped hother hform' hbody =>
          obtain ⟨-, rfl⟩ := Prod.mk.inj (Option.some.inj (hform.symm.trans hform'))
          obtain ⟨other, hread, hsource⟩ := ih hbody
          refine ⟨_, .wrapped hwrapper (formOf?_compact hform) hread, ?_⟩
          rw [sourceText_wrapped, sourceText_wrapped, hsource]
      | named | dict | union | tuple =>
          simp_all

theorem unbroken_of_readsSource (h : Reads text type)
    (hagain : ReadsSource type.sourceText type.sourceText) : Unbroken text := by
  induction h with
  | named hne hbalanced hform =>
      rw [sourceText_named, Text.compact_trim] at hagain
      obtain ⟨other, hother, hsource⟩ := hagain
      refine .named hform ⟨other, hother⟩ (hother.standard_of_compact_eq ?_)
      rw [(Text.blankless_compact _).compact_eq, hsource]
  | dict hform =>
      exact .dict hform
  | @union text body alternatives hform hne hlength hparts ih =>
      have hread := Reads.exists_part hlength hparts
      have hjoined := Reads.closed_joined hne hread
      have hcuts := Reads.splitTop_sources hread
      obtain ⟨again, hagain, hsource⟩ := hagain
      rw [sourceText_union] at hagain hsource
      obtain ⟨others, rfl, -, hothers⟩ :=
        hagain.of_union (formOf?_generic mem_forms_union hjoined.blankless hjoined.balanced)
      obtain ⟨hcount, hpairs⟩ := List.forall₂_iff_zip.1 hothers
      have hsources : others.map sourceText = alternatives.map sourceText := by
        have hbodies : joinWith ',' (others.map sourceText) =
            joinWith ',' (alternatives.map sourceText) := by
          simpa [sourceText_union, generic] using hsource
        rw [← hcuts, ← hbodies,
          Reads.splitTop_sources (Reads.exists_part hcount fun _ _ hpair => hpairs hpair)]
      rw [hcuts] at hothers
      have hkept := exists_forall₂_map_iff.1 ⟨others, hothers, hsources⟩
      rw [List.forall₂_map_left_iff, List.forall₂_map_right_iff, List.forall₂_same] at hkept
      refine .union hform fun part hpart => ?_
      obtain ⟨alternative, hpair⟩ := exists_mem_zip_left hlength hpart
      exact ih part alternative hpair (hkept alternative (List.of_mem_zip hpair).2)
  | @tuple text body part rest inner hform hparts hinner ih =>
      obtain ⟨hblank, hbalanced⟩ := closed_suffix hinner.closed .tuple
      obtain ⟨again, hagain, hsource⟩ := hagain
      rw [sourceText_wrapped] at hagain hsource
      obtain ⟨first, others, element, hcut, helement, rfl⟩ :=
        hagain.of_tuple (formOf?_generic (mem_forms .tuple) hblank hbalanced)
      have hcomma := hinner.written.containsTop
        (Text.containsTop_of_mem_splitTop (by decide) (hparts ▸ List.mem_cons_self))
      rw [splitTop_tuple hinner.closed hcomma] at hcut
      obtain ⟨rfl, -⟩ := List.cons.inj hcut
      rw [sourceText_wrapped] at hsource
      have hbodies : element.sourceText = inner.sourceText := by
        simpa [generic] using hsource
      exact .tuple hform hparts (ih ⟨element, helement, hbodies⟩)
  | @wrapped text body wrapper inner hwrapper hform hinner ih =>
      obtain ⟨hblank, hbalanced⟩ := closed_suffix hinner.closed wrapper
      obtain ⟨again, hagain, hsource⟩ := hagain
      rw [sourceText_wrapped] at hagain hsource
      obtain ⟨element, helement, rfl⟩ :=
        hagain.of_wrapped hwrapper (formOf?_generic (mem_forms wrapper) hblank hbalanced)
      rw [sourceText_wrapped] at hsource
      rw [suffix_of_ne hwrapper, List.append_nil] at helement
      have hbodies : element.sourceText = inner.sourceText := by
        simpa [generic] using hsource
      exact .wrapped hwrapper hform (ih ⟨element, helement, hbodies⟩)

/-- The blanks of a text change nothing exactly if it is unbroken, and exactly then its
source is the source of what is read from it. -/
theorem Reads.unbroken_iff (h : Reads text type) :
    (Unbroken text ↔ ReadsSource (Text.compact text) type.sourceText) ∧
      (Unbroken text ↔ ReadsSource type.sourceText type.sourceText) := by
  -- What is read from a text without blanks is read from its own source as well.
  have hsettled : ReadsSource (Text.compact text) type.sourceText →
      ReadsSource type.sourceText type.sourceText := by
    rintro ⟨other, hother, hsource⟩
    have hagain := hother.reads_sourceText (Text.blankless_compact text)
    exact ⟨other, hsource ▸ hagain, hsource⟩
  have hunbroken := unbroken_of_readsSource h
  exact ⟨⟨fun hkept => hkept.readsSource_compact h, fun hread => hunbroken (hsettled hread)⟩,
    ⟨fun hkept => hsettled (hkept.readsSource_compact h), hunbroken⟩⟩

theorem readsSource_iff {source : List Char} :
    ReadsSource text source ↔
      (parse? (String.ofList text)).map TypeExpr.source = some (String.ofList source) := by
  simp only [ReadsSource, ← ofText?_eq_some_iff, parse?, String.toList_ofList,
    Option.map_eq_some_iff, TypeExpr.source, String.ofList_inj]

end

/--
A text that is not read is not read without its blanks either.  A text that is read is read
without its blanks as a type of the same source exactly if it is unbroken, and exactly then
reading its source and writing the type gives the source again.
-/
theorem parse?_compact_iff (text : String) :
    (parse? text = none → parse? (String.ofList (Text.compact text.toList)) = none) ∧
      ∀ type, parse? text = some type →
        ((parse? (String.ofList (Text.compact text.toList))).map source = some type.source ↔
          Unbroken text.toList) ∧
        ((parse? type.source).map source = some type.source ↔ Unbroken text.toList) := by
  refine ⟨fun hnone => ?_, fun type htype => ?_⟩
  · rw [Option.eq_none_iff_forall_ne_some]
    intro type htype
    rw [parse?, String.toList_ofList, ofText?_eq_some_iff] at htype
    obtain ⟨written, hwritten⟩ := exists_reads_of_compact htype
    rw [parse?, ofText?_of_reads hwritten] at hnone
    exact absurd hnone (by simp)
  · obtain ⟨hcompact, hsource⟩ := (reads_of_ofText? htype).unbroken_iff
    exact ⟨readsSource_iff.symm.trans hcompact.symm, readsSource_iff.symm.trans hsource.symm⟩

/-- Blanks inside the brackets and inside a name change nothing; a blank in front of a
bracket makes a name of a tuple, whose source is written otherwise when it is read again; and
a pair of brackets with nothing in it is read with and without its blank as no type. -/
theorem parse?_compact_iff_spaced :
    parse? " Optional[ Union[To ol,\tList[ int ]] ]" =
        some (.wrapped .optional (.union [.named "To ol", .wrapped .list (.named "int")])) ∧
      Unbroken " Optional[ Union[To ol,\tList[ int ]] ]".toList ∧
      parse? "Tuple [int]" = some (.named "Tuple [int]") ∧
      ¬ Unbroken "Tuple [int]".toList ∧
      (parse? "Tuple[int]").map source = some "Tuple[int,...]" ∧
      parse? "Set[ ]" = none ∧ parse? "Set[]" = none := by
  have hspaced : parse? " Optional[ Union[To ol,\tList[ int ]] ]" =
      some (.wrapped .optional (.union [.named "To ol", .wrapped .list (.named "int")])) := by
    with_unfolding_all rfl
  have htuple : parse? "Tuple [int]" = some (.named "Tuple [int]") := by
    with_unfolding_all rfl
  have hagain : (parse? "Tuple[int]").map source = some "Tuple[int,...]" := by
    with_unfolding_all rfl
  have hempty : parse? "Set[ ]" = none := by
    with_unfolding_all rfl
  refine ⟨hspaced, ?_, htuple, fun hunbroken => ?_, hagain, hempty,
    (parse?_compact_iff "Set[ ]").1 hempty⟩
  · refine ((parse?_compact_iff _).2 _ hspaced).2.1 ?_
    with_unfolding_all rfl
  · have hstable : (parse? "Tuple[int]").map source = some "Tuple[int]" :=
      ((parse?_compact_iff _).2 _ htuple).2.2 hunbroken
    rw [hagain] at hstable
    exact absurd hstable (by decide)

end TypeExpr

end SlotGraph
