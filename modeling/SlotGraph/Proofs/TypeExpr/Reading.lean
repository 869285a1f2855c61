import Mathlib.Data.List.Forall2
import Mathlib.Data.List.Nodup
import SlotGraph.Proofs.Text.Pieces
import SlotGraph.TypeExpr.Parser

/-!
# What a type text denotes

A text reads as a type by its outermost keyword form, and by the parts of its body.  The
source of a type that was read is a text that stands by itself; it reads as the same type
again when the text had no blanks.
-/

namespace SlotGraph

theorem mapM_eq_some_iff_forall₂ {α β : Type} {f : α → Option β} {xs : List α} {ys : List β} :
    xs.mapM f = some ys ↔ List.Forall₂ (fun x y => f x = some y) xs ys := by
  induction xs generalizing ys with
  | nil =>
      simp [eq_comm]
  | cons x rest ih =>
      simp only [List.mapM_cons, Option.bind_eq_bind, Option.bind_eq_some_iff, Option.pure_def,
        Option.some.injEq, List.forall₂_cons_left_iff, ih]
      constructor
      · rintro ⟨y, hy, tail, htail, rfl⟩
        exact ⟨y, tail, hy, htail, rfl⟩
      · rintro ⟨y, tail, hy, htail, rfl⟩
        exact ⟨y, hy, tail, htail, rfl⟩

namespace TypeExpr

open Text (Blankless generic)

/-! ## Keyword forms -/

theorem mem_forms (wrapper : Wrapper) : (wrapper.keyword, .wrapper wrapper) ∈ forms := by
  cases wrapper <;> simp [forms]

theorem mem_forms_dict : (dictKeyword, Form.dict) ∈ forms := by
  simp [forms]

theorem mem_forms_union : (unionKeyword, Form.union) ∈ forms := by
  simp [forms]

section

variable {keyword : List Char} {form : Form}

theorem isAlpha_of_mem_keyword (hentry : (keyword, form) ∈ forms) :
    ∀ c ∈ keyword, c.isAlpha = true := by
  have hletters : ∀ entry ∈ forms, entry.1.all Char.isAlpha = true := by
    decide
  exact List.all_eq_true.1 (hletters _ hentry)

theorem not_mem_keyword {c : Char} (hentry : (keyword, form) ∈ forms)
    (hc : c.isAlpha = false) : c ∉ keyword := by
  intro hmem
  rw [isAlpha_of_mem_keyword hentry c hmem] at hc
  exact absurd hc (by decide)

theorem closed_keyword (hentry : (keyword, form) ∈ forms) : Text.Closed keyword := by
  have hclosed : ∀ entry ∈ forms,
      entry.1 ≠ [] ∧ Blankless entry.1 ∧ Text.balanced entry.1 = true := by
    decide
  obtain ⟨hne, hblank, hbalanced⟩ := hclosed _ hentry
  exact ⟨hne, hblank, hbalanced⟩

end

theorem formOf?_eq_some_iff {text body : List Char} {form : Form} :
    formOf? text = some (form, body) ↔
      ∃ keyword, (keyword, form) ∈ forms ∧ text = generic keyword body ∧
        Text.balanced body = true := by
  constructor
  · intro h
    obtain ⟨⟨keyword, found⟩, hentry, hfound⟩ := List.exists_of_findSome?_eq_some h
    obtain ⟨inner, hinner, hpair⟩ := Option.map_eq_some_iff.1 hfound
    obtain ⟨rfl, rfl⟩ := Prod.mk.inj hpair
    exact ⟨keyword, hentry, Text.unwrapGeneric?_eq_some_iff.1 hinner⟩
  · rintro ⟨keyword, hentry, rfl, hbody⟩
    cases hfound : formOf? (generic keyword body) with
    | none =>
        have hnone := List.findSome?_eq_none_iff.1 hfound _ hentry
        simp [Text.unwrapGeneric?_eq_some_iff.2 ⟨rfl, hbody⟩] at hnone
    | some pair =>
        obtain ⟨⟨other, found⟩, hother, hmap⟩ := List.exists_of_findSome?_eq_some hfound
        obtain ⟨inner, hinner, rfl⟩ := Option.map_eq_some_iff.1 hmap
        obtain ⟨rfl, rfl⟩ := Text.generic_inj (not_mem_keyword hentry (by decide))
          (not_mem_keyword hother (by decide))
          (Text.unwrapGeneric?_eq_some_iff.1 hinner).1
        have hsame := List.inj_on_of_nodup_map (f := Prod.fst) (by decide) hentry hother rfl
        rw [(Prod.mk.inj hsame).2]

theorem ofText?_eq (text : List Char) :
    ofText? text =
      if (Text.trim text).isEmpty || !Text.balanced (Text.trim text) then
        none
      else
        match formOf? (Text.trim text) with
        | none => some (.named (String.ofList (Text.trim text)))
        | some (.dict, body) => some (.dict (String.ofList (Text.trim body)))
        | some (.union, body) =>
            match (Text.splitTop ',' body).mapM ofText? with
            | none | some [] => none
            | some alternatives => some (.union alternatives)
        | some (.wrapper .tuple, body) =>
            match Text.splitTop ',' body with
            | [] => none
            | part :: _ => (ofText? part).map (.wrapped .tuple)
        | some (.wrapper wrapper, body) => (ofText? body).map (.wrapped wrapper) := by
  have hattach : ∀ parts : List (List Char),
      (parts.attach.mapM fun part => ofText? part.1) = parts.mapM ofText? := by
    intro parts
    rw [List.mapM_subtype (g := ofText?) fun part _ => rfl, List.unattach_attach]
  rw [ofText?]
  simp only [hattach]
  congr 1
  split
  · next hform =>
      rw [hform]
  · next body hform =>
      rw [hform]
  · next body hform =>
      rewrite [hform]
      rfl
  · next body hform =>
      rw [hform]
      simp only
      split
      · next hparts =>
          rw [hparts]
      · next hparts =>
          rw [hparts]
  · next wrapper body hform =>
      rw [hform]
      cases wrapper <;> simp_all

theorem suffix_of_ne {wrapper : Wrapper} (h : wrapper ≠ .tuple) : wrapper.suffix = [] := by
  cases wrapper with
  | tuple =>
      exact absurd rfl h
  | optional | list | set =>
      rfl

inductive Reads : List Char → TypeExpr → Prop where
  | named {text : List Char} (hne : Text.trim text ≠ [])
      (hbalanced : Text.balanced text = true) (hform : formOf? (Text.trim text) = none) :
      Reads text (.named (String.ofList (Text.trim text)))
  | dict {text body : List Char} (hform : formOf? (Text.trim text) = some (.dict, body)) :
      Reads text (.dict (String.ofList (Text.trim body)))
  | union {text body : List Char} {alternatives : List TypeExpr}
      (hform : formOf? (Text.trim text) = some (.union, body)) (hne : alternatives ≠ [])
      (hlength : (Text.splitTop ',' body).length = alternatives.length)
      (hparts : ∀ part alternative,
        (part, alternative) ∈ (Text.splitTop ',' body).zip alternatives →
          Reads part alternative) :
      Reads text (.union alternatives)
  | tuple {text body part : List Char} {rest : List (List Char)} {inner : TypeExpr}
      (hform : formOf? (Text.trim text) = some (.wrapper .tuple, body))
      (hparts : Text.splitTop ',' body = part :: rest) (hinner : Reads part inner) :
      Reads text (.wrapped .tuple inner)
  | wrapped {text body : List Char} {wrapper : Wrapper} {inner : TypeExpr}
      (hwrapper : wrapper ≠ .tuple)
      (hform : formOf? (Text.trim text) = some (.wrapper wrapper, body))
      (hinner : Reads body inner) :
      Reads text (.wrapped wrapper inner)

/-- A text in a keyword form is neither empty nor unbalanced. -/
theorem of_formOf? {text body : List Char} {form : Form}
    (h : formOf? (Text.trim text) = some (form, body)) :
    ((Text.trim text).isEmpty || !Text.balanced (Text.trim text)) = false := by
  obtain ⟨keyword, hentry, htext, hbody⟩ := formOf?_eq_some_iff.1 h
  rw [htext, Text.balanced_generic (closed_keyword hentry).balanced hbody]
  simp [generic]

theorem reads_of_ofText? {text : List Char} {type : TypeExpr} (h : ofText? text = some type) :
    Reads text type := by
  induction hsize : text.length using Nat.strong_induction_on generalizing text type with
  | _ size ih =>
      subst hsize
      rw [ofText?_eq] at h
      split at h
      · simp at h
      · next hreadable =>
          simp only [Bool.or_eq_true, List.isEmpty_iff, Bool.not_eq_true', not_or,
            Bool.not_eq_false] at hreadable
          -- The body of a keyword form, and so each part of it, is shorter than the text.
          have hsmaller : ∀ {form : Form} {body : List Char},
              formOf? (Text.trim text) = some (form, body) → body.length < text.length :=
            fun hform =>
              Nat.lt_of_lt_of_le (formOf?_length hform) (Text.trim_length_le text)
          split at h
          · next hform =>
              rw [← Option.some.inj h]
              exact .named hreadable.1 (Text.balanced_trim ▸ hreadable.2) hform
          · next body hform =>
              rw [← Option.some.inj h]
              exact .dict hform
          · next body hform =>
              split at h
              · simp at h
              · simp at h
              · next alternatives hne hparts =>
                  rw [← Option.some.inj h]
                  obtain ⟨hlength, hread⟩ :=
                    List.forall₂_iff_zip.1 (mapM_eq_some_iff_forall₂.1 hparts)
                  refine .union hform hne hlength
                    fun part alternative hpair => ?_
                  have hpart := Text.length_le_of_mem_splitTop (List.of_mem_zip hpair).1
                  exact ih part.length (Nat.lt_of_le_of_lt hpart (hsmaller hform))
                    (hread hpair) rfl
          · next body hform =>
              split at h
              · simp at h
              · next part rest hparts =>
                  obtain ⟨inner, hinner, rfl⟩ := Option.map_eq_some_iff.1 h
                  have hpart := Text.length_le_of_mem_splitTop
                    (hparts ▸ List.mem_cons_self : part ∈ Text.splitTop ',' body)
                  exact .tuple hform hparts
                    (ih part.length (Nat.lt_of_le_of_lt hpart (hsmaller hform)) hinner rfl)
          · next wrapper body hwrapper hform =>
              obtain ⟨inner, hinner, rfl⟩ := Option.map_eq_some_iff.1 h
              exact .wrapped hwrapper hform (ih body.length (hsmaller hform) hinner rfl)

theorem ofText?_of_reads {text : List Char} {type : TypeExpr} (h : Reads text type) :
    ofText? text = some type := by
  induction h with
  | named hne hbalanced hform =>
      rw [ofText?_eq, hform, Text.balanced_trim, hbalanced]
      simp [hne]
  | dict hform =>
      rw [ofText?_eq, of_formOf? hform, hform]
      rfl
  | @union text body alternatives hform hne hlength hparts ih =>
      have hmap : (Text.splitTop ',' body).mapM ofText? = some alternatives :=
        mapM_eq_some_iff_forall₂.2 (List.forall₂_iff_zip.2 ⟨hlength, fun {a b} => ih a b⟩)
      rw [ofText?_eq, of_formOf? hform, hform]
      simp only [hmap]
      cases alternatives with
      | nil =>
          exact absurd rfl hne
      | cons first rest =>
          rfl
  | tuple hform hparts hinner ih =>
      rw [ofText?_eq, of_formOf? hform, hform]
      simp [hparts, ih]
  | @wrapped text body wrapper inner hwrapper hform hinner ih =>
      rw [ofText?_eq, of_formOf? hform, hform]
      cases wrapper with
      | tuple =>
          exact absurd rfl hwrapper
      | optional | list | set =>
          simp [ih]

theorem ofText?_eq_some_iff {text : List Char} {type : TypeExpr} :
    ofText? text = some type ↔ Reads text type :=
  ⟨reads_of_ofText?, ofText?_of_reads⟩

/-! ## The source of a type that was read -/

theorem sourceTexts_eq (types : List TypeExpr) : sourceTexts types = types.map sourceText := by
  induction types with
  | nil =>
      rfl
  | cons type rest ih =>
      rw [sourceTexts, ih, List.map_cons]

theorem sourceText_dict (arguments : List Char) :
    sourceText (.dict (String.ofList arguments)) =
      generic dictKeyword (Text.compact arguments) := by
  rw [sourceText, dictText, String.toList_ofList]
  rfl

theorem sourceText_union (alternatives : List TypeExpr) :
    sourceText (.union alternatives) =
      generic unionKeyword (joinWith ',' (alternatives.map sourceText)) := by
  rw [sourceText, sourceTexts_eq]
  rfl

theorem sourceText_wrapped (wrapper : Wrapper) (inner : TypeExpr) :
    sourceText (.wrapped wrapper inner) =
      generic wrapper.keyword (inner.sourceText ++ wrapper.suffix) := by
  rw [sourceText]
  rfl

theorem sourceText_named (name : List Char) :
    sourceText (.named (String.ofList name)) = Text.compact name := by
  rw [sourceText, String.toList_ofList]

section

variable {keyword body : List Char} {form : Form}

theorem closed_form (hentry : (keyword, form) ∈ forms) (hblank : Blankless body)
    (hbody : Text.balanced body = true) : Text.Closed (generic keyword body) :=
  Text.closed_generic (closed_keyword hentry) hblank hbody

/-- The keywords are made of letters, so nothing else stands at the top level of a form. -/
theorem containsTop_form {separator : Char} (hplain : Text.depthChange separator = 0)
    (hletter : separator.isAlpha = false) (hentry : (keyword, form) ∈ forms)
    (hbody : Text.balanced body = true) :
    Text.containsTop separator (generic keyword body) = false := by
  rw [Text.containsTop_generic hplain (closed_keyword hentry).balanced hbody]
  exact Text.containsAt_of_not_mem (not_mem_keyword hentry hletter)

theorem formOf?_generic (hentry : (keyword, form) ∈ forms) (hblank : Blankless body)
    (hbody : Text.balanced body = true) :
    formOf? (Text.trim (generic keyword body)) = some (form, body) := by
  rw [(closed_form hentry hblank hbody).blankless.trim_eq]
  exact formOf?_eq_some_iff.2 ⟨keyword, hentry, rfl, hbody⟩

/-- What stands behind the inner type of a wrapper has neither blanks nor brackets. -/
theorem closed_suffix {inner : List Char} (h : Text.Closed inner) (wrapper : Wrapper) :
    Blankless (inner ++ wrapper.suffix) ∧ Text.balanced (inner ++ wrapper.suffix) = true := by
  have hsuffix : Blankless wrapper.suffix ∧ Text.balanced wrapper.suffix = true := by
    cases wrapper <;> decide
  exact ⟨h.blankless.append hsuffix.1, by rw [Text.balanced_append h.balanced, hsuffix.2]⟩

/-- Inside a tuple stand the element type and three full stops. -/
theorem splitTop_tuple {inner : List Char} (h : Text.Closed inner)
    (hcomma : Text.containsTop ',' inner = false) :
    Text.splitTop ',' (inner ++ Wrapper.tuple.suffix) = [inner, ['.', '.', '.']] := by
  rw [Wrapper.suffix, Text.splitTop_append (by decide) h.balanced, h.splitTop_eq hcomma]
  rfl

end

/-- How a type is written that was read from some text: as the text was, or in a form. -/
inductive Written (text : List Char) : List Char → Prop where
  | bare (hne : Text.trim text ≠ []) (hbalanced : Text.balanced text = true) :
      Written text (Text.compact text)
  | form {keyword body : List Char} {form : Form} (hentry : (keyword, form) ∈ forms)
      (hblank : Blankless body) (hbody : Text.balanced body = true) :
      Written text (generic keyword body)

theorem Written.closed {text source : List Char} (h : Written text source) :
    Text.Closed source := by
  cases h with
  | bare hne hbalanced =>
      exact ⟨Text.compact_ne_nil_of_trim hne, Text.blankless_compact text,
        Text.balanced_compact.trans hbalanced⟩
  | form hentry hblank hbody =>
      exact closed_form hentry hblank hbody

theorem Written.containsTop {text source : List Char} (h : Written text source)
    (hcomma : Text.containsTop ',' text = false) : Text.containsTop ',' source = false := by
  cases h with
  | bare _ _ =>
      rwa [Text.containsTop_compact (by decide)]
  | form hentry _ hbody =>
      exact containsTop_form (by decide) (by decide) hentry hbody

theorem blankless_body {text body : List Char} {form : Form} (hblank : Blankless text)
    (hform : formOf? (Text.trim text) = some (form, body)) : Blankless body := by
  obtain ⟨keyword, -, htext, -⟩ := formOf?_eq_some_iff.1 hform
  rw [hblank.trim_eq] at htext
  subst htext
  exact hblank.of_subset fun c hc => by simp [generic, hc]

theorem closed_sources {alternatives : List TypeExpr} (hne : alternatives ≠ [])
    (h : ∀ alternative ∈ alternatives, Text.Closed alternative.sourceText) :
    Text.Closed (joinWith ',' (alternatives.map sourceText)) :=
  Text.closed_joinWith (by decide) (by decide) (by simpa using hne)
    (List.forall_mem_map.2 h)

theorem exists_mem_zip {α β : Type} {xs : List α} {ys : List β} {y : β}
    (hlength : xs.length = ys.length) (hy : y ∈ ys) : ∃ x, (x, y) ∈ xs.zip ys := by
  have hsecond : (xs.zip ys).map Prod.snd = ys :=
    List.map_snd_zip (Nat.le_of_eq hlength.symm)
  rw [← hsecond] at hy
  obtain ⟨⟨x, same⟩, hpair, rfl⟩ := List.mem_map.1 hy
  exact ⟨x, hpair⟩

theorem exists_mem_zip_left {α β : Type} {xs : List α} {ys : List β} {x : α}
    (hlength : xs.length = ys.length) (hx : x ∈ xs) : ∃ y, (x, y) ∈ xs.zip ys := by
  have hfirst : (xs.zip ys).map Prod.fst = xs :=
    List.map_fst_zip (Nat.le_of_eq hlength)
  rw [← hfirst] at hx
  obtain ⟨⟨same, y⟩, hpair, rfl⟩ := List.mem_map.1 hx
  exact ⟨y, hpair⟩

namespace Reads

variable {text : List Char} {type : TypeExpr}

theorem written (h : Reads text type) : Written text type.sourceText := by
  induction h with
  | named hne hbalanced hform =>
      rw [sourceText_named, Text.compact_trim]
      exact .bare hne hbalanced
  | dict hform =>
      obtain ⟨-, -, -, hbody⟩ := formOf?_eq_some_iff.1 hform
      rw [sourceText_dict, Text.compact_trim]
      exact .form mem_forms_dict (Text.blankless_compact _)
        (Text.balanced_compact.trans hbody)
  | @union text body alternatives hform hne hlength hparts ih =>
      have hjoined : Text.Closed (joinWith ',' (alternatives.map sourceText)) := by
        refine closed_sources hne fun alternative halternative => ?_
        obtain ⟨part, hpair⟩ := exists_mem_zip hlength halternative
        exact (ih part alternative hpair).closed
      rw [sourceText_union]
      exact .form mem_forms_union hjoined.blankless hjoined.balanced
  | tuple hform hparts hinner ih =>
      obtain ⟨hblank, hbalanced⟩ := closed_suffix ih.closed .tuple
      rw [sourceText_wrapped]
      exact .form (mem_forms .tuple) hblank hbalanced
  | @wrapped text body wrapper inner hwrapper hform hinner ih =>
      obtain ⟨hblank, hbalanced⟩ := closed_suffix ih.closed wrapper
      rw [sourceText_wrapped]
      exact .form (mem_forms wrapper) hblank hbalanced

theorem closed (h : Reads text type) : Text.Closed type.sourceText :=
  h.written.closed

theorem sources_apart {body : List Char} {alternatives : List TypeExpr}
    (h : ∀ alternative ∈ alternatives, ∃ part ∈ Text.splitTop ',' body, Reads part alternative) :
    (∀ source ∈ alternatives.map sourceText, Text.Closed source) ∧
      ∀ source ∈ alternatives.map sourceText, Text.containsTop ',' source = false := by
  constructor
  · intro source hsource
    obtain ⟨alternative, halternative, rfl⟩ := List.mem_map.1 hsource
    obtain ⟨part, -, hreads⟩ := h alternative halternative
    exact hreads.closed
  · intro source hsource
    obtain ⟨alternative, halternative, rfl⟩ := List.mem_map.1 hsource
    obtain ⟨part, hpart, hreads⟩ := h alternative halternative
    exact hreads.written.containsTop (Text.containsTop_of_mem_splitTop (by decide) hpart)

theorem splitTop_sources {body : List Char} {alternatives : List TypeExpr}
    (h : ∀ alternative ∈ alternatives, ∃ part ∈ Text.splitTop ',' body, Reads part alternative) :
    Text.splitTop ',' (joinWith ',' (alternatives.map sourceText)) =
      alternatives.map sourceText :=
  Text.splitTop_joinWith_eq (by decide) (sources_apart h).1 (sources_apart h).2

theorem exists_part {parts : List (List Char)} {alternatives : List TypeExpr}
    (hlength : parts.length = alternatives.length)
    (hparts : ∀ part alternative, (part, alternative) ∈ parts.zip alternatives →
      Reads part alternative) :
    ∀ alternative ∈ alternatives, ∃ part ∈ parts, Reads part alternative := by
  intro alternative halternative
  obtain ⟨part, hpair⟩ := exists_mem_zip hlength halternative
  exact ⟨part, (List.of_mem_zip hpair).1, hparts part alternative hpair⟩

theorem closed_joined {parts : List (List Char)} {alternatives : List TypeExpr}
    (hne : alternatives ≠ [])
    (hread : ∀ alternative ∈ alternatives, ∃ part ∈ parts, Reads part alternative) :
    Text.Closed (joinWith ',' (alternatives.map sourceText)) := by
  refine closed_sources hne fun alternative halternative => ?_
  obtain ⟨part, -, hreads⟩ := hread alternative halternative
  exact hreads.closed

theorem enclosed {inner : List Char} (h : Reads inner type) (hclosed : Text.Closed inner)
    (wrapper : Wrapper) (hcomma : wrapper = .tuple → Text.containsTop ',' inner = false) :
    Reads (generic wrapper.keyword (inner ++ wrapper.suffix)) (.wrapped wrapper type) := by
  obtain ⟨hblank, hbalanced⟩ := closed_suffix hclosed wrapper
  have hform := formOf?_generic (mem_forms wrapper) hblank hbalanced
  by_cases htuple : wrapper = .tuple
  · subst htuple
    exact .tuple hform (splitTop_tuple hclosed (hcomma rfl)) h
  · rw [suffix_of_ne htuple, List.append_nil] at hform ⊢
    exact .wrapped htuple hform h

/-- The source of a type that was read from a text without blanks reads as the type. -/
theorem reads_sourceText (h : Reads text type) (hblank : Blankless text) :
    Reads type.sourceText type := by
  induction h with
  | named hne hbalanced hform =>
      rw [sourceText_named, Text.compact_trim, hblank.compact_eq]
      exact .named hne hbalanced hform
  | dict hform =>
      obtain ⟨-, -, -, hbody⟩ := formOf?_eq_some_iff.1 hform
      have hinside := blankless_body hblank hform
      rw [sourceText_dict, Text.compact_trim, hinside.compact_eq]
      exact .dict (formOf?_generic mem_forms_dict hinside hbody)
  | @union text body alternatives hform hne hlength hparts ih =>
      have hinside := blankless_body hblank hform
      have hread := exists_part hlength hparts
      have hjoined := closed_joined hne hread
      have hsources := splitTop_sources hread
      have hpaired : List.Forall₂ (fun source alternative => source = sourceText alternative)
          (alternatives.map sourceText) alternatives :=
        List.forall₂_map_left_iff.2 (List.forall₂_same.2 fun _ _ => rfl)
      rw [sourceText_union]
      refine .union (formOf?_generic mem_forms_union hjoined.blankless hjoined.balanced) hne
        (by rw [hsources, List.length_map]) fun source alternative hpair => ?_
      rw [hsources] at hpair
      obtain rfl := (List.forall₂_iff_zip.1 hpaired).2 hpair
      obtain ⟨part, hpart⟩ := exists_mem_zip hlength (List.of_mem_zip hpair).2
      exact ih part alternative hpart
        (hinside.of_subset (Text.isInfix_of_mem_splitTop (List.of_mem_zip hpart).1).subset)
  | @tuple text body part rest inner hform hparts hinner ih =>
      have hinside := blankless_body hblank hform
      have hpart : part ∈ Text.splitTop ',' body := hparts ▸ List.mem_cons_self
      have hsource := ih (hinside.of_subset (Text.isInfix_of_mem_splitTop hpart).subset)
      rw [sourceText_wrapped]
      exact hsource.enclosed hinner.closed .tuple fun _ => hinner.written.containsTop
        (Text.containsTop_of_mem_splitTop (by decide) hpart)
  | @wrapped text body wrapper inner hwrapper hform hinner ih =>
      have hsource := ih (blankless_body hblank hform)
      rw [sourceText_wrapped]
      exact hsource.enclosed hinner.closed wrapper fun htuple => absurd htuple hwrapper

end Reads

/-! ## Reading what was written -/

/-- Reading a text without blanks, writing the type and reading once more gives the type. -/
theorem parse?_source {text : String} {type : TypeExpr} (hblank : Blankless text.toList)
    (h : parse? text = some type) :
    parse? type.source = some type ∧ (parse? type.source).map source = some type.source := by
  have hagain : parse? type.source = some type := by
    rw [parse?, source, String.toList_ofList]
    exact ofText?_of_reads ((reads_of_ofText? h).reads_sourceText hblank)
  exact ⟨hagain, by rw [hagain, Option.map_some]⟩

/-- An empty alternative, a second element type and the other spelling of a dictionary are
written differently and yet read alike. -/
theorem parse?_source_nested :
    parse? "Optional[Union[Tool,,dict[str,Tool],Tuple[A|B,int]]]" =
        some (.wrapped .optional (.union [.named "Tool", .dict "str,Tool",
          .wrapped .tuple (.named "A|B")])) ∧
      parse? "Optional[Union[Tool,Dict[str,Tool],Tuple[A|B,...]]]" =
        some (.wrapped .optional (.union [.named "Tool", .dict "str,Tool",
          .wrapped .tuple (.named "A|B")])) := by
  have hread : parse? "Optional[Union[Tool,,dict[str,Tool],Tuple[A|B,int]]]" =
      some (.wrapped .optional (.union [.named "Tool", .dict "str,Tool",
        .wrapped .tuple (.named "A|B")])) := by
    with_unfolding_all rfl
  exact ⟨hread, (parse?_source (by decide) hread).1⟩

end TypeExpr

end SlotGraph
