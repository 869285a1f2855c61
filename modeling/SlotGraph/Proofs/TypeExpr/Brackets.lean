import Mathlib.Data.List.Infix
import SlotGraph.Proofs.TypeExpr.Reading

/-!
# Which texts denote types

A text that denotes a type is not blank and its brackets pair up.  Nothing more is asked where
every pair of brackets has something in it: a part that reading cuts out of such a text is
again such a text.
-/

namespace SlotGraph

namespace Text

variable {text part : List Char}

/-- Whether every pair of brackets has something in it that is neither a blank nor a comma. -/
def Filled (text : List Char) : Prop :=
  ∀ front body back, text = front ++ '[' :: (body ++ ']' :: back) → Paired body →
    ∃ c ∈ body, isBlank c = false ∧ c ≠ ','

/-- What stands inside a text whose pairs are filled has no other pairs. -/
theorem Filled.of_isInfix (h : Filled text) (hpart : part <:+: text) : Filled part := by
  obtain ⟨before, after, rfl⟩ := hpart
  intro front body back heq hbody
  refine h (before ++ front) body (back ++ after) ?_ hbody
  rw [heq]
  simp only [List.append_assoc, List.cons_append]

/-- Whether every bracket that opens some rest of a text has something in it, if it is closed. -/
def pairsFilled (text : List Char) : Bool :=
  text.tails.all fun rest =>
    (openingBody? rest).all fun cut => cut.1.any fun c => !isBlank c && c != ','

theorem filled_iff : Filled text ↔ pairsFilled text = true := by
  simp only [pairsFilled, List.all_eq_true, Option.all_eq_true, List.any_eq_true, Bool.and_eq_true,
    Bool.not_eq_true', bne_iff_ne]
  constructor
  · rintro h rest hrest ⟨body, back⟩ hcut
    obtain ⟨front, rfl⟩ := (List.mem_tails _ _).1 hrest
    obtain ⟨rfl, hbody⟩ := openingBody?_eq_some_iff.1 hcut
    exact h front body back rfl (balanced_iff_paired.1 hbody)
  · rintro h front body back rfl hbody
    refine h ('[' :: (body ++ ']' :: back)) ((List.mem_tails _ _).2 ⟨front, rfl⟩) (body, back) ?_
    exact openingBody?_eq_some_iff.2 ⟨rfl, balanced_iff_paired.2 hbody⟩

instance (text : List Char) : Decidable (Filled text) :=
  decidable_of_iff _ filled_iff.symm

end Text

namespace TypeExpr

open Text (isBlank Filled Paired generic)

theorem ofText?_eq_none {text : List Char}
    (h : (∀ c ∈ text, isBlank c = true) ∨ ¬ Paired text) : ofText? text = none := by
  have hunreadable : ((Text.trim text).isEmpty || !Text.balanced (Text.trim text)) = true := by
    rcases h with hblank | hunpaired
    · have hnil : Text.trim text = [] := by
        by_contra hne
        refine Text.compact_ne_nil_of_trim hne (List.filter_eq_nil_iff.2 fun c hc => ?_)
        simp [hblank c hc]
      rw [hnil]
      rfl
    · have hunbalanced : Text.balanced text = false :=
        Bool.eq_false_iff.2 fun hbalanced => hunpaired (Text.balanced_iff_paired.1 hbalanced)
      rw [Text.balanced_trim, hunbalanced, Bool.not_false, Bool.or_true]
  rw [ofText?_eq, if_pos hunreadable]

theorem exists_forall₂ {α β : Type} {related : α → β → Prop} {xs : List α}
    (h : ∀ x ∈ xs, ∃ y, related x y) : ∃ ys, List.Forall₂ related xs ys := by
  induction xs with
  | nil =>
      exact ⟨[], .nil⟩
  | cons x rest ih =>
      obtain ⟨hfirst, hrest⟩ := List.forall_mem_cons.1 h
      obtain ⟨y, hy⟩ := hfirst
      obtain ⟨ys, hys⟩ := ih hrest
      exact ⟨y :: ys, .cons hy hys⟩

/-- What is neither blank nor unbalanced is read, if no pair of brackets in it is empty. -/
theorem exists_reads {text : List Char} (hblank : Text.trim text ≠ [])
    (hbalanced : Text.balanced text = true) (hfilled : Filled text) :
    ∃ type, Reads text type := by
  induction hsize : text.length using Nat.strong_induction_on generalizing text with
  | _ size ih =>
      subst hsize
      cases hform : formOf? (Text.trim text) with
      | none =>
          exact ⟨_, .named hblank hbalanced hform⟩
      | some found =>
          obtain ⟨form, body⟩ := found
          obtain ⟨keyword, -, htext, hbody⟩ := formOf?_eq_some_iff.1 hform
          have hinside : body <:+: text := by
            refine List.IsInfix.trans ?_ (Text.isInfix_trim text)
            exact ⟨keyword ++ ['['], [']'], by rw [htext, generic]; simp⟩
          have hsmaller : body.length < text.length :=
            Nat.lt_of_lt_of_le (formOf?_length hform) (Text.trim_length_le text)
          obtain ⟨c, hc, hvisible, hother⟩ := hfilled.of_isInfix (Text.isInfix_trim text)
            keyword body [] htext (Text.balanced_iff_paired.1 hbody)
          -- Whatever is cut out of the body is read in its turn.
          have hpart : ∀ part, part <:+: body → Text.trim part ≠ [] →
              Text.balanced part = true → ∃ type, Reads part type := by
            intro part hpart hne hpartBalanced
            exact ih part.length (Nat.lt_of_le_of_lt hpart.length_le hsmaller) hne
              hpartBalanced (hfilled.of_isInfix (hpart.trans hinside)) rfl
          have hparts : ∀ part ∈ Text.splitTop ',' body, ∃ type, Reads part type := by
            intro part hmem
            refine hpart part (Text.isInfix_of_mem_splitTop hmem) ?_
              (Text.balanced_of_mem_splitTop (by decide) hbody hmem)
            obtain ⟨⟨piece, -, rfl⟩, hne⟩ := Text.mem_splitTop.1 hmem
            rw [Text.trim_ne_nil_iff, Text.compact_trim]
            exact Text.compact_ne_nil_of_trim hne
          have hsome : Text.splitTop ',' body ≠ [] := Text.splitTop_ne_nil hc hvisible hother
          cases form with
          | dict =>
              exact ⟨_, .dict hform⟩
          | union =>
              obtain ⟨alternatives, hread⟩ := exists_forall₂ hparts
              obtain ⟨hlength, hpairs⟩ := List.forall₂_iff_zip.1 hread
              have hne : alternatives ≠ [] := by
                rintro rfl
                exact hsome (List.length_eq_zero_iff.1 hlength)
              exact ⟨_, .union hform hne hlength fun _ _ hpair => hpairs hpair⟩
          | wrapper w =>
              by_cases hw : w = .tuple
              · subst hw
                obtain ⟨part, rest, hcut⟩ := List.exists_cons_of_ne_nil hsome
                obtain ⟨inner, hinner⟩ := hparts part (hcut ▸ List.mem_cons_self)
                exact ⟨_, .tuple hform hcut hinner⟩
              · have hne : Text.trim body ≠ [] :=
                  Text.trim_ne_nil_iff.2
                    (List.ne_nil_of_mem (List.mem_filter.2 ⟨hc, by simp [hvisible]⟩))
                obtain ⟨inner, hinner⟩ := hpart body List.infix_rfl hne hbody
                exact ⟨_, .wrapped hw hform hinner⟩

/--
Which texts denote types: none that is blank or whose brackets do not pair up, and every other
one in which no pair of brackets has blanks and commas only.
-/
theorem parse?_brackets (text : String) :
    ((∀ c ∈ text.toList, isBlank c = true) ∨ ¬ Paired text.toList → parse? text = none) ∧
      ((∃ c ∈ text.toList, isBlank c = false) → Paired text.toList → Filled text.toList →
        ∃ type, parse? text = some type) := by
  refine ⟨ofText?_eq_none, ?_⟩
  rintro ⟨c, hc, hvisible⟩ hpaired hfilled
  have hne : Text.trim text.toList ≠ [] :=
    Text.trim_ne_nil_iff.2 (List.ne_nil_of_mem (List.mem_filter.2 ⟨hc, by simp [hvisible]⟩))
  obtain ⟨type, hreads⟩ := exists_reads hne (Text.balanced_iff_paired.2 hpaired) hfilled
  exact ⟨type, ofText?_of_reads hreads⟩

theorem parse?_brackets_nested :
    parse? "List[Tool" = none ∧ parse? "Tool]|List[" = none ∧ parse? " \t" = none ∧
    ∃ type, parse? "Union[ Tool |Box[ [x] ] ,, Tuple[ Set[A], ...] ,dict[k, ]]" = some type := by
  have hread := parse?_brackets "Union[ Tool |Box[ [x] ] ,, Tuple[ Set[A], ...] ,dict[k, ]]"
  exact ⟨(parse?_brackets "List[Tool").1 (.inr (by decide +kernel)),
    (parse?_brackets "Tool]|List[").1 (.inr (by decide +kernel)),
    (parse?_brackets " \t").1 (.inl (List.all_eq_true.1 (by decide))),
    hread.2 ⟨'U', by decide +kernel, rfl⟩ (by decide +kernel) (by decide +kernel)⟩

end TypeExpr

end SlotGraph
