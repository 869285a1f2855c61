import SlotGraph.Proofs.TypeExpr.Admission
import SlotGraph.Proofs.TypeExpr.Reading

/-!
# The gate on texts and on types

The gate is asked about types by their texts, or about types that were read, by their
source.  A source may be spelled otherwise than the text it was read from: a tuple keeps its
first element type, a union loses its blank alternatives, and `dict` gets a capital letter.
Both spellings are taken apart in the same way all the same, so the two answers can differ
only where the output equals a part of the input in one spelling and not in the other.
-/

namespace SlotGraph

namespace TypeExpr

open Text (Blankless generic)

/-! ## Texts that are taken apart in the same way -/

/-- The texts that are met at the same place when two texts are taken apart. -/
inductive Corresponding : List Char → List Char → List Char → List Char → Prop where
  | whole (x y : List Char) : Corresponding x y x y
  | inside {x y a b part other : List Char} {xs ys : List (List Char)} (hx : Splits x xs)
      (hy : Splits y ys) (hpair : (a, b) ∈ xs.zip ys) (h : Corresponding a b part other) :
      Corresponding x y part other

/-- Whether two texts are taken apart in the same way, and differ in bracketed texts only. -/
inductive Alike : List Char → List Char → Prop where
  | same (text : List Char) : Alike text text
  | leaves {x y : List Char} (hx : '[' ∈ x) (hy : '[' ∈ y) (hleaf : IsLeaf x)
      (hother : IsLeaf y) : Alike x y
  | parts {x y : List Char} {xs ys : List (List Char)} (hx : '[' ∈ x) (hy : '[' ∈ y)
      (hsplits : Splits x xs) (hother : Splits y ys) (hlength : xs.length = ys.length)
      (hparts : ∀ a b, (a, b) ∈ xs.zip ys → Alike a b) : Alike x y

/-- Whether two texts are the same or both have a bracket. -/
def SameOrBracketed (x y : List Char) : Prop :=
  x = y ∨ '[' ∈ x ∧ '[' ∈ y

section

variable {x y o o' : List Char}

theorem Alike.sameOrBracketed (h : Alike x y) : SameOrBracketed x y := by
  cases h with
  | same =>
      exact .inl rfl
  | leaves hx hy =>
      exact .inr ⟨hx, hy⟩
  | parts hx hy =>
      exact .inr ⟨hx, hy⟩

/-- Texts that are alike are both taken apart, or neither of them is. -/
theorem Alike.parts_or_leaves (h : Alike x y) :
    (∃ xs ys, Splits x xs ∧ Splits y ys ∧ xs.length = ys.length ∧
      ∀ a b, (a, b) ∈ xs.zip ys → Alike a b) ∨ IsLeaf x ∧ IsLeaf y := by
  cases h with
  | same =>
      cases hparts : parts? x with
      | none =>
          exact .inr ⟨isLeaf_iff.2 hparts, isLeaf_iff.2 hparts⟩
      | some xs =>
          have hsplits := parts?_eq_some_iff.1 hparts
          refine .inl ⟨xs, xs, hsplits, hsplits, rfl, fun a b hpair => ?_⟩
          obtain rfl : a = b :=
            (List.forall₂_iff_zip.1 (List.forall₂_same.2 fun _ _ => rfl)).2 hpair
          exact .same a
  | leaves _ _ hleaf hother =>
      exact .inr ⟨hleaf, hother⟩
  | parts _ _ hsplits hother hlength hparts =>
      exact .inl ⟨_, _, hsplits, hother, hlength, hparts⟩

theorem Corresponding.eq_of_same {a b : List Char} (h : Corresponding x y a b) (hsame : x = y) :
    a = b ∧ Alternative x a := by
  induction h with
  | whole =>
      exact ⟨hsame, .refl⟩
  | @inside x y a b part other xs ys hx hy hpair _ ih =>
      subst hsame
      obtain rfl := hx.unique hy
      obtain rfl : a = b :=
        (List.forall₂_iff_zip.1 (List.forall₂_same.2 fun _ _ => rfl)).2 hpair
      exact ⟨(ih rfl).1, .head ⟨xs, hx, (List.of_mem_zip hpair).1⟩ (ih rfl).2⟩

theorem Corresponding.eq_of_isLeaf {a b : List Char} (h : Corresponding x y a b)
    (hleaf : IsLeaf x) : a = x ∧ b = y := by
  cases h with
  | whole =>
      exact ⟨rfl, rfl⟩
  | inside hx =>
      exact absurd hx (hleaf _)

/-- What stands at the same place of texts that are alike is alike. -/
theorem Corresponding.alike {a b : List Char} (h : Corresponding x y a b) (halike : Alike x y) :
    Alike a b := by
  induction h with
  | whole =>
      exact halike
  | @inside x y a b part other xs ys hx hy hpair _ ih =>
      refine ih ?_
      rcases halike.parts_or_leaves with ⟨xs', ys', hx', hy', -, hparts⟩ | ⟨hleaf, -⟩
      · obtain rfl := hx.unique hx'
        obtain rfl := hy.unique hy'
        exact hparts a b hpair
      · exact absurd hx (hleaf xs)

theorem stripQualifier_of_mem (h : '[' ∈ x) : Text.stripQualifier x = x :=
  (stripQualifier_cases x).resolve_right fun hother => hother.1 h

theorem not_mem_stripQualifier (h : Text.stripQualifier x ≠ x) :
    '[' ∉ Text.stripQualifier x := by
  obtain ⟨hbracket, -, front, hfront⟩ := (stripQualifier_cases x).resolve_left h
  rw [hfront] at hbracket
  exact fun hmem => hbracket (List.mem_append_right _ (List.mem_cons_of_mem _ hmem))

namespace SameOrBracketed

theorem eq_of_not_mem (h : SameOrBracketed x y) (hx : '[' ∉ x) : x = y :=
  h.resolve_right fun hboth => hx hboth.1

theorem stripQualifier_eq_iff (h : SameOrBracketed x y) :
    Text.stripQualifier x = x ↔ Text.stripQualifier y = y := by
  rcases h with rfl | ⟨hx, hy⟩
  · rfl
  · exact iff_of_true (stripQualifier_of_mem hx) (stripQualifier_of_mem hy)

/-- A text without a bracket is one of two such texts exactly when it is the other. -/
theorem eq_iff {text : List Char} (h : SameOrBracketed x y) (htext : '[' ∉ text) :
    text = x ↔ text = y := by
  rcases h with rfl | ⟨hx, hy⟩
  · rfl
  · exact iff_of_false (fun heq => htext (heq ▸ hx)) fun heq => htext (heq ▸ hy)

theorem meets_iff (ho : SameOrBracketed o o') (h : SameOrBracketed x y)
    (hsame : x = o ↔ y = o') : Meets o x ↔ Meets o' y := by
  have hplain : ∀ {a b : List Char}, SameOrBracketed a b →
      (a = [] ↔ b = []) ∧ (a = anyText ↔ b = anyText) := fun hab =>
    ⟨eq_comm.trans ((hab.eq_iff (by decide)).trans eq_comm),
      eq_comm.trans ((hab.eq_iff (by decide)).trans eq_comm)⟩
  have heq : o = x ↔ o' = y := eq_comm.trans (hsame.trans eq_comm)
  simp only [Meets, (hplain ho).1, (hplain ho).2, (hplain h).1, (hplain h).2, heq]

/-- Two names that differ stand for one type only if neither has a bracket. -/
theorem sameName_iff (ho : SameOrBracketed o o') (h : SameOrBracketed x y) (hne : o ≠ x)
    (hne' : o' ≠ y) : SameName o x ↔ SameName o' y := by
  have hplain : ∀ name ∈ integerNames ++ stringNames, '[' ∉ name := by
    decide
  have hbare : ∀ {a b : List Char}, a ≠ b → SameName a b → '[' ∉ a ∧ '[' ∉ b := by
    rintro a b hab (heq | ⟨ha, hb⟩ | ⟨ha, hb⟩)
    · exact absurd heq hab
    · exact ⟨hplain a (List.mem_append_left _ ha), hplain b (List.mem_append_left _ hb)⟩
    · exact ⟨hplain a (List.mem_append_right _ ha), hplain b (List.mem_append_right _ hb)⟩
  constructor
  · intro hname
    obtain ⟨hbareO, hbareX⟩ := hbare hne hname
    rwa [← ho.eq_of_not_mem hbareO, ← h.eq_of_not_mem hbareX]
  · intro hname
    obtain ⟨hbareO, hbareY⟩ := hbare hne' hname
    rwa [((ho.eq_iff hbareO).2 rfl).symm, ((h.eq_iff hbareY).2 rfl).symm]

end SameOrBracketed

theorem any_eq_of_zip {α β : Type} {f : α → Bool} {g : β → Bool} {xs : List α} {ys : List β}
    (hlength : xs.length = ys.length) (h : ∀ a b, (a, b) ∈ xs.zip ys → f a = g b) :
    xs.any f = ys.any g := by
  have hpaired : List.Forall₂ (fun a b => f a = g b) xs ys :=
    List.forall₂_iff_zip.2 ⟨hlength, fun hpair => h _ _ hpair⟩
  clear hlength h
  induction hpaired with
  | nil =>
      rfl
  | cons hfirst _ ih =>
      rw [List.any_cons, List.any_cons, hfirst, ih]

/--
The gate gives one answer for inputs that are taken apart in the same way, provided that
nothing in one of them equals its output where what stands there in the other does not.
-/
theorem fitsWithin_eq_of_alike {layers : Nat} (h : Alike x y) (ho : SameOrBracketed o o')
    (hsame : ∀ a b, Corresponding x y a b → (a = o ↔ b = o')) :
    fitsWithin layers o x = fitsWithin layers o' y := by
  induction layers generalizing x y o o' with
  | zero =>
      rfl
  | succ layers ih =>
      have hxy := h.sameOrBracketed
      have hmeets := ho.meets_iff hxy (hsame x y (.whole x y))
      by_cases hx : Meets o x
      · rw [fitsWithin_of_meets layers hx, fitsWithin_of_meets layers (hmeets.1 hx)]
      · have hy : ¬ Meets o' y := fun hmeet => hx (hmeets.2 hmeet)
        rcases h.parts_or_leaves with ⟨xs, ys, hxs, hys, hlength, hparts⟩ | ⟨hleaf, hother⟩
        · rw [fitsWithin_of_splits layers hx hxs, fitsWithin_of_splits layers hy hys]
          exact any_eq_of_zip hlength fun a b hpair => ih (hparts a b hpair) ho
            fun part other hpart => hsame part other (.inside hxs hys hpair hpart)
        · rw [fitsWithin_of_isLeaf layers hx hleaf, fitsWithin_of_isLeaf layers hy hother]
          by_cases hqualified : Text.stripQualifier o = o
          · have hqualified' := ho.stripQualifier_eq_iff.1 hqualified
            rw [if_neg (not_not.2 hqualified), if_neg (not_not.2 hqualified')]
            by_cases hbare : Text.stripQualifier x = x
            · have hbare' := hxy.stripQualifier_eq_iff.1 hbare
              rw [if_neg (not_not.2 hbare), if_neg (not_not.2 hbare')]
              have hne : o ≠ x := fun heq => hx (.inr (.inr (.inl heq)))
              have hne' : o' ≠ y := fun heq => hy (.inr (.inr (.inl heq)))
              rw [decide_eq_decide, canonicalName_eq_iff, canonicalName_eq_iff]
              exact ho.sameName_iff hxy hne hne'
            · -- Only a text without a bracket loses a qualifier, so the two inputs are one.
              obtain rfl := hxy.eq_of_not_mem fun hmem => hbare (stripQualifier_of_mem hmem)
              rw [if_pos hbare, if_pos hbare]
              refine ih (.same _) ho fun a b hpart => ?_
              obtain ⟨rfl, halternative⟩ := hpart.eq_of_same rfl
              exact ho.eq_iff fun hmem =>
                not_mem_stripQualifier hbare (halternative.subset hmem)
          · -- So are the two outputs.
            obtain rfl := ho.eq_of_not_mem fun hmem => hqualified (stripQualifier_of_mem hmem)
            rw [if_pos hqualified, if_pos hqualified]
            refine ih h (.inl rfl) fun a b hpart => ?_
            obtain ⟨rfl, rfl⟩ := hpart.eq_of_isLeaf hleaf
            rw [eq_comm, eq_comm (a := b)]
            exact hxy.eq_iff (not_mem_stripQualifier hqualified)

end

/-! ## A text and the source of its type -/

theorem isLeaf_form {keyword body : List Char} {form : Form} (hentry : (keyword, form) ∈ forms)
    (hbody : Text.balanced body = true) (hoptional : keyword ≠ Wrapper.optional.keyword)
    (hunion : keyword ≠ unionKeyword) : IsLeaf (generic keyword body) := by
  have hkeyword : '[' ∉ keyword := not_mem_keyword hentry (by decide)
  rw [isLeaf_iff, parts?, Text.unwrapGeneric?_of_ne hkeyword (by decide) hoptional,
    Text.unwrapGeneric?_of_ne hkeyword (by decide) hunion,
    containsTop_form (by decide) (by decide) hentry hbody]
  rfl

namespace Reads

variable {text : List Char} {type : TypeExpr}

theorem compact_of_form {body : List Char} {form : Form}
    (hform : formOf? (Text.trim text) = some (form, body)) :
    ∃ keyword, (keyword, form) ∈ forms ∧ Text.trim text = generic keyword body ∧
      Text.compact text = generic keyword (Text.compact body) ∧
      Text.balanced (Text.compact body) = true := by
  obtain ⟨keyword, hentry, htext, hbody⟩ := formOf?_eq_some_iff.1 hform
  refine ⟨keyword, hentry, htext, ?_, Text.balanced_compact.trans hbody⟩
  have happend : ∀ xs ys : List Char,
      Text.compact (xs ++ ys) = Text.compact xs ++ Text.compact ys := fun xs ys =>
    List.filter_append xs ys
  rw [← Text.compact_trim, htext, generic, happend,
    (closed_keyword hentry).blankless.compact_eq, ← List.singleton_append, happend, happend]
  rfl

/-- Without blanks a text that was read is taken apart as the source of its type is. -/
theorem alike (h : Reads text type) : Alike (Text.compact text) type.sourceText := by
  have hbracket : ∀ keyword body : List Char, '[' ∈ generic keyword body := fun keyword body => by
    simp [generic]
  induction h with
  | named hne hbalanced hform =>
      rw [sourceText_named, Text.compact_trim]
      exact .same _
  | dict hform =>
      obtain ⟨keyword, hentry, -, hcompact, hbody⟩ := compact_of_form hform
      have hother : keyword ≠ Wrapper.optional.keyword ∧ keyword ≠ unionKeyword := by
        simp only [forms, List.mem_cons, Prod.mk.injEq, reduceCtorEq, and_false, and_true,
          List.not_mem_nil, or_false, false_or] at hentry
        rcases hentry with rfl | rfl <;> decide
      rw [sourceText_dict, Text.compact_trim, hcompact]
      exact .leaves (hbracket _ _) (hbracket _ _) (isLeaf_form hentry hbody hother.1 hother.2)
        (isLeaf_form mem_forms_dict hbody (by decide) (by decide))
  | @union text body alternatives hform hne hlength hparts ih =>
      obtain ⟨keyword, hentry, -, hcompact, hbody⟩ := compact_of_form hform
      obtain rfl : keyword = unionKeyword := by
        simpa [forms] using hentry
      have hread := exists_part hlength hparts
      have hsplits : Splits (generic unionKeyword (joinWith ',' (alternatives.map sourceText)))
          (alternatives.map sourceText) := by
        have hunion := Splits.union (closed_joined hne hread).balanced
        rwa [splitTop_sources hread] at hunion
      have hwritten : Splits (generic unionKeyword (Text.compact body))
          ((Text.splitTop ',' body).map Text.compact) := by
        have hcuts : Text.splitTop ',' (Text.compact body) =
            (Text.splitTop ',' body).map Text.compact := Text.splitTop_compact rfl
        exact hcuts ▸ Splits.union hbody
      rw [sourceText_union, hcompact]
      refine .parts (hbracket _ _) (hbracket _ _) hwritten hsplits (by simpa using hlength)
        fun a b hpair => ?_
      rw [List.zip_map, List.mem_map] at hpair
      obtain ⟨⟨part, alternative⟩, hpair, heq⟩ := hpair
      obtain ⟨rfl, rfl⟩ := Prod.mk.inj heq
      exact ih part alternative hpair
  | tuple hform hparts hinner ih =>
      obtain ⟨keyword, hentry, -, hcompact, hbody⟩ := compact_of_form hform
      obtain rfl : keyword = Wrapper.tuple.keyword := by
        simpa [forms] using hentry
      obtain ⟨-, hbalanced⟩ := closed_suffix hinner.closed .tuple
      rw [sourceText_wrapped, hcompact]
      exact .leaves (hbracket _ _) (hbracket _ _)
        (isLeaf_form hentry hbody (by decide) (by decide))
        (isLeaf_form hentry hbalanced (by decide) (by decide))
  | @wrapped text body wrapper inner hwrapper hform hinner ih =>
      obtain ⟨keyword, hentry, -, hcompact, hbody⟩ := compact_of_form hform
      obtain rfl : keyword = wrapper.keyword := by
        cases wrapper <;> simpa [forms] using hentry
      obtain ⟨-, hbalanced⟩ := closed_suffix hinner.closed wrapper
      rw [sourceText_wrapped, hcompact]
      cases wrapper with
      | optional =>
          refine .parts (hbracket _ _) (hbracket _ _) (.optional hbody) (.optional hbalanced) rfl
            fun a b hpair => ?_
          obtain ⟨rfl, rfl⟩ := Prod.mk.inj (List.mem_singleton.1 hpair)
          have hsuffix : Wrapper.optional.suffix = [] := rfl
          rw [hsuffix, List.append_nil]
          exact ih
      | tuple =>
          exact absurd rfl hwrapper
      | list | set =>
          exact .leaves (hbracket _ _) (hbracket _ _)
            (isLeaf_form hentry hbody (by decide) (by decide))
            (isLeaf_form hentry hbalanced (by decide) (by decide))

end Reads

/--
A text in which every form is spelled as in the source of its type: a tuple has its element
type and three full stops, a union no blank alternative, a dictionary a capital letter.
-/
inductive Standard : List Char → Prop where
  | named {text : List Char} (hform : formOf? (Text.trim text) = none) : Standard text
  | dict {text body : List Char} (hform : formOf? (Text.trim text) = some (.dict, body))
      (htext : Text.trim text = generic dictKeyword body) : Standard text
  | union {text body : List Char} (hform : formOf? (Text.trim text) = some (.union, body))
      (hfull : ∀ piece ∈ Text.pieces ',' 0 body, Text.trim piece ≠ [])
      (hparts : ∀ part ∈ Text.splitTop ',' body, Standard part) : Standard text
  | tuple {text body element dots : List Char}
      (hform : formOf? (Text.trim text) = some (.wrapper .tuple, body))
      (hfull : ∀ piece ∈ Text.pieces ',' 0 body, Text.trim piece ≠ [])
      (hparts : Text.splitTop ',' body = [element, dots])
      (hdots : Text.compact dots = ['.', '.', '.']) (hinner : Standard element) :
      Standard text
  | wrapped {text body : List Char} {wrapper : Wrapper} (hwrapper : wrapper ≠ .tuple)
      (hform : formOf? (Text.trim text) = some (.wrapper wrapper, body))
      (hinner : Standard body) : Standard text

namespace Reads

variable {text : List Char} {type : TypeExpr}

/-- Parts are spelled as the sources of alternatives when each is as that of its own. -/
theorem map_compact_eq_iff {parts : List (List Char)} {alternatives : List TypeExpr}
    (hlength : parts.length = alternatives.length) :
    parts.map Text.compact = alternatives.map sourceText ↔
      ∀ part alternative, (part, alternative) ∈ parts.zip alternatives →
        Text.compact part = alternative.sourceText := by
  have hpaired : parts.map Text.compact = alternatives.map sourceText ↔
      List.Forall₂ (fun part alternative => Text.compact part = sourceText alternative)
        parts alternatives := by
    rw [← List.forall₂_map_right_iff (f := sourceText)
      (R := fun part source => Text.compact part = source),
      ← List.forall₂_map_left_iff (f := Text.compact) (R := Eq), List.forall₂_eq_eq_eq]
  rw [hpaired, List.forall₂_iff_zip]
  exact ⟨fun h part alternative hpair => h.2 hpair,
    fun h => ⟨hlength, fun hpair => h _ _ hpair⟩⟩

/-- A text in standard spelling is, without its blanks, the source of its type. -/
theorem compact_eq_of_standard (h : Reads text type) (hstandard : Standard text) :
    Text.compact text = type.sourceText := by
  induction h with
  | named hne hbalanced hform =>
      rw [sourceText_named, Text.compact_trim]
  | dict hform =>
      obtain ⟨keyword, hentry, htext, hcompact, -⟩ := compact_of_form hform
      cases hstandard with
      | dict hother hspelled =>
          obtain ⟨rfl, -⟩ := Text.generic_inj (not_mem_keyword hentry (by decide)) (by decide)
            (htext.symm.trans hspelled)
          rw [sourceText_dict, Text.compact_trim, hcompact]
      | named | union | tuple | wrapped =>
          simp_all
  | @union text body alternatives hform hne hlength hparts ih =>
      obtain ⟨keyword, hentry, -, hcompact, -⟩ := compact_of_form hform
      obtain rfl : keyword = unionKeyword := by
        simpa [forms] using hentry
      cases hstandard with
      | union hother hfull hinner =>
          obtain ⟨-, rfl⟩ := Prod.mk.inj (Option.some.inj (hform.symm.trans hother))
          have hsources := (map_compact_eq_iff hlength).2 fun part alternative hpair =>
            ih part alternative hpair (hinner part (List.of_mem_zip hpair).1)
          rw [sourceText_union, hcompact, Text.compact_eq_joinWith rfl hfull, hsources]
      | named | dict | tuple | wrapped =>
          simp_all
  | @tuple text body part rest inner hform hparts hinner ih =>
      obtain ⟨keyword, hentry, -, hcompact, -⟩ := compact_of_form hform
      obtain rfl : keyword = Wrapper.tuple.keyword := by
        simpa [forms] using hentry
      cases hstandard with
      | tuple hother hfull hpair hdots helement =>
          obtain ⟨-, rfl⟩ := Prod.mk.inj (Option.some.inj (hform.symm.trans hother))
          obtain ⟨rfl, rfl⟩ := List.cons.inj (hparts.symm.trans hpair)
          rw [sourceText_wrapped, hcompact, Text.compact_eq_joinWith rfl hfull, hparts,
            List.map_cons, List.map_singleton, ih helement, hdots]
          rfl
      | named | dict | union | wrapped =>
          simp_all
  | @wrapped text body wrapper inner hwrapper hform hinner ih =>
      obtain ⟨keyword, hentry, -, hcompact, -⟩ := compact_of_form hform
      obtain rfl : keyword = wrapper.keyword := by
        cases wrapper <;> simpa [forms] using hentry
      cases hstandard with
      | wrapped hother hform' hbody =>
          obtain ⟨-, rfl⟩ := Prod.mk.inj (Option.some.inj (hform.symm.trans hform'))
          rw [sourceText_wrapped, hcompact, ih hbody, suffix_of_ne hwrapper, List.append_nil]
      | named | dict | union | tuple =>
          simp_all

/-- Only a text in standard spelling is, without its blanks, the source of its type. -/
theorem standard_of_compact_eq (h : Reads text type)
    (hsource : Text.compact text = type.sourceText) : Standard text := by
  have hkeywords : ∀ {keyword other body inner : List Char} {form form' : Form},
      (keyword, form) ∈ forms → (other, form') ∈ forms →
      generic keyword body = generic other inner → keyword = other ∧ body = inner :=
    fun hentry hother => Text.generic_inj (not_mem_keyword hentry (by decide))
      (not_mem_keyword hother (by decide))
  induction h with
  | named hne hbalanced hform =>
      exact .named hform
  | dict hform =>
      obtain ⟨keyword, hentry, htext, hcompact, -⟩ := compact_of_form hform
      rw [sourceText_dict, hcompact] at hsource
      obtain ⟨rfl, -⟩ := hkeywords hentry mem_forms_dict hsource
      exact .dict hform htext
  | @union text body alternatives hform hne hlength hparts ih =>
      obtain ⟨keyword, hentry, -, hcompact, -⟩ := compact_of_form hform
      rw [sourceText_union, hcompact] at hsource
      obtain ⟨-, hbody⟩ := hkeywords hentry mem_forms_union hsource
      have hapart := sources_apart (exists_part hlength hparts)
      obtain ⟨hfull, htexts⟩ := Text.full_of_compact_eq (by decide) rfl (by simpa using hne)
        hapart.1 hapart.2 hbody
      refine .union hform hfull fun part hpart => ?_
      obtain ⟨alternative, hpair⟩ := exists_mem_zip_left hlength hpart
      exact ih part alternative hpair ((map_compact_eq_iff hlength).1 htexts part alternative hpair)
  | @tuple text body part rest inner hform hparts hinner ih =>
      obtain ⟨keyword, hentry, -, hcompact, -⟩ := compact_of_form hform
      rw [sourceText_wrapped, hcompact] at hsource
      obtain ⟨-, hbody⟩ := hkeywords hentry (mem_forms .tuple) hsource
      have hcomma := hinner.written.containsTop
        (Text.containsTop_of_mem_splitTop (by decide) (hparts ▸ List.mem_cons_self))
      have hjoined : Text.compact body = joinWith ',' [inner.sourceText, ['.', '.', '.']] := hbody
      obtain ⟨hfull, htexts⟩ := Text.full_of_compact_eq (by decide) rfl (by simp)
        (by simpa using ⟨hinner.closed, by decide, by decide, by decide⟩)
        (by simpa using ⟨hcomma, by decide⟩) hjoined
      rw [hparts, List.map_cons] at htexts
      obtain ⟨hpart, hrest⟩ := List.cons.inj htexts
      obtain ⟨dots, rfl, hdots⟩ := List.map_eq_singleton_iff.1 hrest
      exact .tuple hform hfull hparts hdots (ih hpart)
  | @wrapped text body wrapper inner hwrapper hform hinner ih =>
      obtain ⟨keyword, hentry, -, hcompact, -⟩ := compact_of_form hform
      rw [sourceText_wrapped, hcompact] at hsource
      obtain ⟨-, hbody⟩ := hkeywords hentry (mem_forms wrapper) hsource
      rw [suffix_of_ne hwrapper, List.append_nil] at hbody
      exact .wrapped hwrapper hform (ih hbody)

/-- Exactly the texts in standard spelling are, without their blanks, the source of their
type. -/
theorem standard_iff (h : Reads text type) :
    Standard text ↔ Text.compact text = type.sourceText :=
  ⟨h.compact_eq_of_standard, h.standard_of_compact_eq⟩

end Reads

/-! ## The gate -/

/--
Where the output equals a part of the input as both are written exactly if it does as both
are rendered, the gate gives one answer for the texts and for the types that they were read
as.  This is so for an output without a bracket, whatever the input is, and for texts in
standard spelling.
-/
theorem fits_eq_textFits {output input : String} {o i : TypeExpr}
    (ho : parse? output = some o) (hi : parse? input = some i) :
    ((∀ written rendered,
        Corresponding (Text.compact input.toList) i.sourceText written rendered →
          (written = Text.compact output.toList ↔ rendered = o.sourceText)) →
      fits o i = textFits output input) ∧
    ('[' ∉ output.toList → fits o i = textFits output input) ∧
    (Standard output.toList → Standard input.toList → fits o i = textFits output input) := by
  have houtput := reads_of_ofText? ho
  have hinput := reads_of_ofText? hi
  have hkin := houtput.alike.sameOrBracketed
  have hagree : (∀ written rendered,
      Corresponding (Text.compact input.toList) i.sourceText written rendered →
        (written = Text.compact output.toList ↔ rendered = o.sourceText)) →
      fits o i = textFits output input := fun hsame =>
    (fitsWithin_eq_of_alike hinput.alike hkin hsame).symm
  refine ⟨hagree, fun hbare => ?_, fun hstandard hstandard' => ?_⟩
  · have hnone : '[' ∉ Text.compact output.toList := fun hmem =>
      hbare (List.mem_filter.1 hmem).1
    rw [← hkin.eq_of_not_mem hnone] at hagree
    refine hagree fun written rendered hpart => ?_
    rw [eq_comm, eq_comm (a := rendered)]
    exact (hpart.alike hinput.alike).sameOrBracketed.eq_iff hnone
  · rw [fits, textFits, houtput.standard_iff.1 hstandard, hinput.standard_iff.1 hstandard']

/-- A tuple in standard spelling is admitted by itself inside an optional union, and a
qualified name by a union that is rendered without its blank alternative. -/
theorem fits_eq_textFits_tuple :
    parse? "Tuple[pkg.Tool, ...]" = some (.wrapped .tuple (.named "pkg.Tool")) ∧
      parse? "Optional[Union[Index, Tuple[pkg.Tool, ...]]]" =
        some (.wrapped .optional
          (.union [.named "Index", .wrapped .tuple (.named "pkg.Tool")])) ∧
      Standard "Tuple[pkg.Tool, ...]".toList ∧
      Standard "Optional[Union[Index, Tuple[pkg.Tool, ...]]]".toList ∧
      fits (.wrapped .tuple (.named "pkg.Tool")) (.wrapped .optional
          (.union [.named "Index", .wrapped .tuple (.named "pkg.Tool")])) =
        textFits "Tuple[pkg.Tool, ...]" "Optional[Union[Index, Tuple[pkg.Tool, ...]]]" ∧
      parse? "pkg.Tool" = some (.named "pkg.Tool") ∧
      parse? "Union[Tuple[Tool, int], , Tool]" =
        some (.union [.wrapped .tuple (.named "Tool"), .named "Tool"]) ∧
      '[' ∉ "pkg.Tool".toList ∧
      fits (.named "pkg.Tool") (.union [.wrapped .tuple (.named "Tool"), .named "Tool"]) =
        textFits "pkg.Tool" "Union[Tuple[Tool, int], , Tool]" := by
  have htuple : parse? "Tuple[pkg.Tool, ...]" = some (.wrapped .tuple (.named "pkg.Tool")) := by
    with_unfolding_all rfl
  have hoptional : parse? "Optional[Union[Index, Tuple[pkg.Tool, ...]]]" =
      some (.wrapped .optional
        (.union [.named "Index", .wrapped .tuple (.named "pkg.Tool")])) := by
    with_unfolding_all rfl
  have hname : parse? "pkg.Tool" = some (.named "pkg.Tool") := by
    with_unfolding_all rfl
  have hunion : parse? "Union[Tuple[Tool, int], , Tool]" =
      some (.union [.wrapped .tuple (.named "Tool"), .named "Tool"]) := by
    with_unfolding_all rfl
  have hstandard := (reads_of_ofText? htuple).standard_iff.2 (by decide)
  have hstandard' := (reads_of_ofText? hoptional).standard_iff.2 (by decide)
  have hbare : '[' ∉ "pkg.Tool".toList := by
    decide
  exact ⟨htuple, hoptional, hstandard, hstandard',
    (fits_eq_textFits htuple hoptional).2.2 hstandard hstandard', hname, hunion, hbare,
    (fits_eq_textFits hname hunion).2.1 hbare⟩

/-- Tuples that differ behind their first element type are different texts, and one type. -/
theorem not_fits_eq_textFits_tuples :
    parse? "Tuple[A, B]" = some (.wrapped .tuple (.named "A")) ∧
      parse? "Tuple[A, C]" = some (.wrapped .tuple (.named "A")) ∧
      textFits "Tuple[A, B]" "Tuple[A, C]" = false ∧
      fits (.wrapped .tuple (.named "A")) (.wrapped .tuple (.named "A")) = true := by
  refine ⟨?_, ?_, by decide, by decide⟩ <;> with_unfolding_all rfl

end TypeExpr

end SlotGraph
