import Mathlib.Algebra.GroupWithZero.Nat
import Mathlib.Algebra.Order.BigOperators.Group.List
import Mathlib.Algebra.Order.Group.Nat
import Mathlib.Data.List.TakeWhile
import SlotGraph.Proofs.Text.Balance
import SlotGraph.TypeExpr.Basic

/-!
# Pieces of text

Blanks carry neither brackets nor separators, so taking them out changes neither depth nor
balance.  The pieces that a text is cut into make up the text again when they are joined,
and none of them has a separator at its own top level; joined texts that are balanced are
cut where they were joined.
-/

namespace SlotGraph

namespace Text

open TypeExpr (joinWith)

variable {separator : Char} {text part : List Char}

/-! ## Blanks -/

theorem mem_of_isBlank {c : Char} (h : isBlank c = true) :
    c ∈ [' ', '\t', '\n', '\x0b', '\x0c', '\r'] := by
  simp only [isBlank, Bool.or_eq_true, beq_iff_eq, Bool.and_eq_true, decide_eq_true_eq] at h
  rcases h with rfl | ⟨hlow, hhigh⟩
  · simp
  · have hlow : 9 ≤ c.toNat := hlow
    have hhigh : c.toNat ≤ 13 := hhigh
    have hcode : c.toNat = 9 ∨ c.toNat = 10 ∨ c.toNat = 11 ∨ c.toNat = 12 ∨ c.toNat = 13 := by
      omega
    rw [← Char.ofNat_toNat c]
    rcases hcode with h | h | h | h | h <;> rw [h] <;> decide

theorem isBlank_of_continuesIdentifier {c : Char} (h : continuesIdentifier c = true) :
    isBlank c = false := by
  have hblanks : [' ', '\t', '\n', '\x0b', '\x0c', '\r'].all
      (fun blank => !continuesIdentifier blank) = true := by
    decide
  by_contra hblank
  have hother := List.all_eq_true.1 hblanks c (mem_of_isBlank (by simpa using hblank))
  simp [h] at hother

def Blankless (text : List Char) : Prop :=
  ∀ c ∈ text, isBlank c = false

instance (text : List Char) : Decidable (Blankless text) :=
  List.decidableBAll (fun c => isBlank c = false) text

theorem Blankless.of_subset {more : List Char} (h : Blankless more)
    (hsubset : ∀ c ∈ text, c ∈ more) : Blankless text :=
  fun c hc => h c (hsubset c hc)

theorem blankless_compact (text : List Char) : Blankless (compact text) :=
  fun c hc => by simpa using (List.mem_filter.1 hc).2

theorem Blankless.compact_eq (h : Blankless text) : compact text = text :=
  List.filter_eq_self.2 fun c hc => by simp [h c hc]

theorem trimStart_eq_self (h : ∀ c ∈ text.head?, isBlank c = false) : trimStart text = text := by
  cases text with
  | nil =>
      rfl
  | cons c rest =>
      rw [trimStart, List.dropWhile_cons, h c rfl]
      rfl

/-- A text that neither begins nor ends with a blank has none to drop. -/
theorem trim_eq_self (hfront : ∀ c ∈ text.head?, isBlank c = false)
    (hback : ∀ c ∈ text.getLast?, isBlank c = false) : trim text = text := by
  have hreverse : ∀ c ∈ text.reverse.head?, isBlank c = false := by
    rwa [List.head?_reverse]
  rw [trim, trimStart_eq_self hfront, trimStart_eq_self hreverse, List.reverse_reverse]

theorem Blankless.trim_eq (h : Blankless text) : trim text = text :=
  trim_eq_self (fun c hc => h c (List.mem_of_mem_head? hc))
    fun c hc => h c (List.mem_of_getLast? hc)

theorem compact_trimStart (text : List Char) : compact (trimStart text) = compact text := by
  induction text with
  | nil =>
      rfl
  | cons c rest ih =>
      rw [trimStart, List.dropWhile_cons]
      split
      · next hblank =>
          rw [compact, compact, List.filter_cons_of_neg (by simp [hblank])]
          exact ih
      · rfl

theorem trim_append_blanks {blanks : List Char} (h : ∀ c ∈ blanks, isBlank c = true)
    (text : List Char) : trim (text ++ blanks) = trim text := by
  have hdrop : blanks.dropWhile isBlank = [] := List.dropWhile_eq_nil_iff.2 h
  simp only [trim, trimStart, List.dropWhile_append]
  split
  · next hempty =>
      simp [List.isEmpty_iff.1 hempty, hdrop]
  · rw [List.reverse_append,
      List.dropWhile_append_of_pos fun c hc => h c (List.mem_reverse.1 hc)]

theorem trim_blanks_append {blanks : List Char} (h : ∀ c ∈ blanks, isBlank c = true)
    (text : List Char) : trim (blanks ++ text) = trim text := by
  have hfront : trimStart (blanks ++ text) = trimStart text :=
    List.dropWhile_append_of_pos h
  rw [trim, trim, hfront]

theorem head?_trim_cons {c : Char} (h : isBlank c = false) (text : List Char) :
    (trim (c :: text)).head? = some c := by
  have hfront : trimStart (c :: text) = c :: text := by
    simp [trimStart, h]
  rw [trim, hfront, trimStart, List.reverse_cons, List.dropWhile_append]
  split <;> simp [h]

theorem isInfix_trim (text : List Char) : trim text <:+: text := by
  have hback : (trimStart (trimStart text).reverse).reverse <+: trimStart text := by
    have hsuffix := List.dropWhile_suffix isBlank (l := (trimStart text).reverse)
    rwa [← List.reverse_prefix, List.reverse_reverse] at hsuffix
  exact hback.isInfix.trans (List.dropWhile_suffix isBlank).isInfix

@[simp] theorem compact_trim (text : List Char) : compact (trim text) = compact text := by
  have hreverse : ∀ xs : List Char, compact xs.reverse = (compact xs).reverse :=
    fun xs => List.filter_reverse
  rw [trim, hreverse, compact_trimStart, hreverse, List.reverse_reverse, compact_trimStart]

theorem compact_ne_nil_of_trim (h : trim text ≠ []) : compact text ≠ [] := by
  intro hcompact
  have hall : ∀ c ∈ text, isBlank c = true := by
    simpa [compact] using hcompact
  refine h ?_
  have hfront : trimStart text = [] := by
    rw [trimStart]
    exact List.dropWhile_eq_nil_iff.2 hall
  rw [trim, hfront]
  rfl

theorem trim_ne_nil_iff : trim text ≠ [] ↔ compact text ≠ [] := by
  refine ⟨compact_ne_nil_of_trim, fun hcompact htrim => hcompact ?_⟩
  rw [← compact_trim, htrim]
  rfl

theorem balancedAt_compact {depth : Nat} :
    balancedAt depth (compact text) = balancedAt depth text := by
  induction text generalizing depth with
  | nil =>
      rfl
  | cons c rest ih =>
      by_cases hblank : isBlank c = true
      · have hdepth : (depth : Int) + depthChange c = depth := by
          rw [depthChange_of_isBlank hblank, Int.add_zero]
        rw [balancedAt_cons hdepth, compact, List.filter_cons_of_neg (by simp [hblank])]
        exact ih
      · rw [compact, List.filter_cons_of_pos (by simp [hblank])]
        by_cases hlast : depth = 0 ∧ c = ']'
        · obtain ⟨rfl, rfl⟩ := hlast
          simp [balancedAt]
        · obtain ⟨next, hnext⟩ := exists_depth hlast
          rw [balancedAt_cons hnext, balancedAt_cons hnext]
          exact ih

theorem balanced_compact : balanced (compact text) = balanced text :=
  balancedAt_compact

theorem balanced_trim : balanced (trim text) = balanced text := by
  rw [← balanced_compact, compact_trim, balanced_compact]

theorem containsAt_compact {depth : Int} (hseparator : isBlank separator = false) :
    containsAt separator depth (compact text) = containsAt separator depth text := by
  induction text generalizing depth with
  | nil =>
      rfl
  | cons c rest ih =>
      by_cases hblank : isBlank c = true
      · have hother : c ≠ separator := by
          rintro rfl
          rw [hseparator] at hblank
          exact absurd hblank (by decide)
        rw [compact, List.filter_cons_of_neg (by simp [hblank])]
        simp only [containsAt, depthChange_of_isBlank hblank, Int.add_zero, hother, false_and,
          decide_false, Bool.false_or]
        exact ih
      · rw [compact, List.filter_cons_of_pos (by simp [hblank])]
        simp only [containsAt]
        rw [← ih]
        rfl

theorem containsTop_compact (hseparator : isBlank separator = false) :
    containsTop separator (compact text) = containsTop separator text :=
  containsAt_compact hseparator

theorem containsTop_trim (hseparator : isBlank separator = false) :
    containsTop separator (trim text) = containsTop separator text := by
  rw [← containsTop_compact hseparator, compact_trim, containsTop_compact hseparator]

/-! ## Joining texts -/

theorem joinWith_cons (separator : Char) (first : List Char) {rest : List (List Char)}
    (h : rest ≠ []) :
    joinWith separator (first :: rest) = first ++ separator :: joinWith separator rest := by
  cases rest with
  | nil =>
      exact absurd rfl h
  | cons second others =>
      rfl

theorem isInfix_joinWith (separator : Char) {texts : List (List Char)} (hpart : part ∈ texts) :
    part <:+: joinWith separator texts := by
  induction texts with
  | nil =>
      simp at hpart
  | cons first rest ih =>
      cases rest with
      | nil =>
          rw [List.mem_singleton.1 hpart]
          exact List.infix_rfl
      | cons second others =>
          rw [joinWith_cons _ _ (by simp)]
          rcases List.mem_cons.1 hpart with rfl | hrest
          · exact (List.prefix_append _ _).isInfix
          · exact ((ih hrest).trans (List.suffix_cons _ _).isInfix).trans
              (List.suffix_append _ _).isInfix

theorem mem_joinWith {texts : List (List Char)} {c : Char} (h : c ∈ joinWith separator texts) :
    c = separator ∨ ∃ text ∈ texts, c ∈ text := by
  induction texts with
  | nil =>
      simp [joinWith] at h
  | cons first rest ih =>
      by_cases hrest : rest = []
      · subst hrest
        exact .inr ⟨first, List.mem_cons_self, h⟩
      · rw [joinWith_cons _ _ hrest, List.mem_append, List.mem_cons] at h
        rcases h with hfirst | rfl | hlater
        · exact .inr ⟨first, List.mem_cons_self, hfirst⟩
        · exact .inl rfl
        · refine (ih hlater).imp_right fun ⟨text, htext, hc⟩ => ?_
          exact ⟨text, List.mem_cons_of_mem first htext, hc⟩

theorem countP_joinWith (p : Char → Bool) (separator : Char) {texts : List (List Char)}
    (h : texts ≠ []) :
    (joinWith separator texts).countP p + (if p separator then 1 else 0) =
      (texts.map (List.countP p)).sum + texts.length * (if p separator then 1 else 0) := by
  induction texts with
  | nil =>
      exact absurd rfl h
  | cons first rest ih =>
      by_cases hrest : rest = []
      · subst hrest
        simp [joinWith]
      · rw [joinWith_cons _ _ hrest, List.countP_append, List.countP_cons, List.map_cons,
          List.sum_cons, List.length_cons, Nat.succ_mul]
        have := ih hrest
        omega

theorem containsTop_joinWith {other : Char} (hplain : depthChange other = 0)
    (hne : other ≠ separator) {texts : List (List Char)}
    (hbalanced : ∀ text ∈ texts, balanced text = true)
    (hnone : ∀ text ∈ texts, containsTop separator text = false) :
    containsTop separator (joinWith other texts) = false := by
  induction texts with
  | nil =>
      rfl
  | cons first rest ih =>
      obtain ⟨hfirst, hrest⟩ := List.forall_mem_cons.1 hbalanced
      obtain ⟨hfirstNone, hrestNone⟩ := List.forall_mem_cons.1 hnone
      by_cases hlast : rest = []
      · subst hlast
        exact hfirstNone
      · rw [joinWith_cons _ _ hlast, containsTop_append hfirst, containsTop_cons hplain,
          hfirstNone, ih hrest hrestNone]
        simp [hne]

theorem containsTop_joinWith_self (hplain : depthChange separator = 0) {first second : List Char}
    (rest : List (List Char)) (hfirst : balanced first = true) :
    containsTop separator (joinWith separator (first :: second :: rest)) = true := by
  rw [joinWith_cons _ _ (by simp), containsTop_append hfirst, containsTop_cons hplain]
  simp

/-! ## Cutting a text -/

theorem pieces_ne_nil (separator : Char) (depth : Int) (text : List Char) :
    pieces separator depth text ≠ [] := by
  cases text with
  | nil =>
      simp [pieces]
  | cons c rest =>
      rw [pieces]
      split
      · simp
      · cases pieces separator (depth + depthChange c) rest <;> simp [consFirst]

theorem joinWith_consFirst (separator c : Char) {parts : List (List Char)} (h : parts ≠ []) :
    joinWith separator (consFirst c parts) = c :: joinWith separator parts := by
  cases parts with
  | nil =>
      exact absurd rfl h
  | cons first rest =>
      cases rest <;> rfl

theorem joinWith_pieces (separator : Char) (depth : Int) (text : List Char) :
    joinWith separator (pieces separator depth text) = text := by
  induction text generalizing depth with
  | nil =>
      rfl
  | cons c rest ih =>
      rw [pieces]
      split
      · next hcut =>
          rw [joinWith_cons _ _ (pieces_ne_nil _ _ _), ih, hcut.1]
          rfl
      · rw [joinWith_consFirst _ _ (pieces_ne_nil _ _ _), ih]

theorem pieces_of_containsAt {depth : Int} (h : containsAt separator depth text = false) :
    pieces separator depth text = [text] := by
  induction text generalizing depth with
  | nil =>
      rfl
  | cons c rest ih =>
      simp only [containsAt, Bool.or_eq_false_iff, decide_eq_false_iff_not] at h
      rw [pieces, if_neg h.1, ih h.2]
      rfl

theorem length_pieces {depth : Int} (h : containsAt separator depth text = true) :
    2 ≤ (pieces separator depth text).length := by
  induction text generalizing depth with
  | nil =>
      simp [containsAt] at h
  | cons c rest ih =>
      rw [pieces]
      split
      · have := List.length_pos_iff.2
          (pieces_ne_nil separator (depth + depthChange c) rest)
        rw [List.length_cons]
        omega
      · next hnone =>
          simp only [containsAt, hnone, decide_false, Bool.false_or] at h
          have hrest := ih h
          cases hpieces : pieces separator (depth + depthChange c) rest with
          | nil =>
              exact absurd hpieces (pieces_ne_nil _ _ _)
          | cons first others =>
              rw [hpieces] at hrest
              exact hrest

/-- No piece has a separator where it would be cut again: the first is read from the depth
at which the text begins, the others from the top level. -/
theorem containsAt_pieces (separator : Char) (depth : Int) (text : List Char) :
    ∃ first others, pieces separator depth text = first :: others ∧
      containsAt separator depth first = false ∧
      ∀ piece ∈ others, containsTop separator piece = false := by
  induction text generalizing depth with
  | nil =>
      exact ⟨[], [], rfl, rfl, by simp⟩
  | cons c rest ih =>
      obtain ⟨first, others, hpieces, hfirst, hothers⟩ := ih (depth + depthChange c)
      rw [pieces]
      simp only [hpieces]
      split
      · next hcut =>
          refine ⟨[], first :: others, rfl, rfl, fun piece hpiece => ?_⟩
          rcases List.mem_cons.1 hpiece with rfl | hother
          · rwa [hcut.2] at hfirst
          · exact hothers piece hother
      · next hnone =>
          exact ⟨c :: first, others, rfl, by simp [containsAt, hnone, hfirst], hothers⟩

theorem balanced_pieces (hplain : depthChange separator = 0) {depth : Nat}
    (h : balancedAt depth text = true) :
    ∃ first others, pieces separator depth text = first :: others ∧
      balancedAt depth first = true ∧ ∀ piece ∈ others, balanced piece = true := by
  induction text generalizing depth with
  | nil =>
      exact ⟨[], [], rfl, h, by simp⟩
  | cons c rest ih =>
      obtain ⟨next, hnext, hrest⟩ := exists_depth_of_balancedAt h
      obtain ⟨first, others, hpieces, hfirst, hothers⟩ := ih hrest
      rw [pieces]
      simp only [hnext, hpieces]
      split
      · next hcut =>
          obtain rfl : next = 0 := Int.ofNat_eq_zero.1 hcut.2
          rw [hcut.1, hplain, Int.add_zero] at hnext
          obtain rfl : depth = 0 := Int.ofNat_eq_zero.1 hnext
          refine ⟨[], first :: others, rfl, rfl, fun piece hpiece => ?_⟩
          rcases List.mem_cons.1 hpiece with rfl | hother
          · exact hfirst
          · exact hothers piece hother
      · next hnone =>
          refine ⟨c :: first, others, rfl, ?_, hothers⟩
          rwa [balancedAt_cons hnext]

theorem consFirst_append (c : Char) {parts others : List (List Char)} (h : parts ≠ []) :
    consFirst c (parts ++ others) = consFirst c parts ++ others := by
  cases parts with
  | nil =>
      exact absurd rfl h
  | cons first rest =>
      rfl

/-- A separator behind balanced text is a cut. -/
theorem pieces_append (hplain : depthChange separator = 0) {depth : Nat} {xs : List Char}
    (ys : List Char) (h : balancedAt depth xs = true) :
    pieces separator depth (xs ++ separator :: ys) =
      pieces separator depth xs ++ pieces separator 0 ys := by
  induction xs generalizing depth with
  | nil =>
      simp only [balancedAt, beq_iff_eq] at h
      simp [pieces, h, hplain]
  | cons c rest ih =>
      obtain ⟨next, hnext, hrest⟩ := exists_depth_of_balancedAt h
      rw [List.cons_append, pieces, pieces, hnext, ih hrest]
      split
      · rfl
      · rw [consFirst_append c (pieces_ne_nil _ _ _)]

/-! ## The parts of a text -/

theorem mem_splitTop :
    part ∈ splitTop separator text ↔
      (∃ piece ∈ pieces separator 0 text, trim piece = part) ∧ part ≠ [] := by
  simp [splitTop, List.mem_filter]

theorem isInfix_of_mem_splitTop (hpart : part ∈ splitTop separator text) :
    part <:+: text := by
  obtain ⟨⟨piece, hpiece, rfl⟩, -⟩ := mem_splitTop.1 hpart
  have hjoined := isInfix_joinWith separator hpiece
  rw [joinWith_pieces] at hjoined
  exact (isInfix_trim piece).trans hjoined

/-- A text with something in it beside blanks and separators has a part. -/
theorem splitTop_ne_nil {c : Char} (hmem : c ∈ text) (hblank : isBlank c = false)
    (hother : c ≠ separator) : splitTop separator text ≠ [] := by
  rw [← joinWith_pieces separator 0 text] at hmem
  obtain ⟨piece, hpiece, hc⟩ := (mem_joinWith hmem).resolve_left hother
  have hne : trim piece ≠ [] :=
    trim_ne_nil_iff.2 (List.ne_nil_of_mem (List.mem_filter.2 ⟨hc, by simp [hblank]⟩))
  exact List.ne_nil_of_mem (mem_splitTop.2 ⟨⟨piece, hpiece, rfl⟩, hne⟩)

/-- A part has lost at least the separator where the text was cut. -/
theorem countP_lt_of_mem_splitTop {p : Char → Bool} (hseparator : p separator = true)
    (h : containsTop separator text = true) (hpart : part ∈ splitTop separator text) :
    part.countP p < text.countP p := by
  obtain ⟨⟨piece, hpiece, rfl⟩, -⟩ := mem_splitTop.1 hpart
  have hjoined := countP_joinWith p separator (pieces_ne_nil separator 0 text)
  have hlength := length_pieces h
  have hpieces : piece.countP p ≤ ((pieces separator 0 text).map (List.countP p)).sum :=
    List.single_le_sum (fun _ _ => Nat.zero_le _) _ (List.mem_map_of_mem hpiece)
  have htrim := (isInfix_trim piece).sublist.countP_le (p := p)
  rw [joinWith_pieces, hseparator] at hjoined
  simp only [if_true, Nat.mul_one] at hjoined
  omega

theorem containsTop_of_mem_splitTop (hseparator : isBlank separator = false)
    (hpart : part ∈ splitTop separator text) : containsTop separator part = false := by
  obtain ⟨⟨piece, hpiece, rfl⟩, -⟩ := mem_splitTop.1 hpart
  obtain ⟨first, others, hpieces, hfirst, hothers⟩ := containsAt_pieces separator 0 text
  rw [hpieces] at hpiece
  rw [containsTop_trim hseparator]
  rcases List.mem_cons.1 hpiece with rfl | hother
  · exact hfirst
  · exact hothers piece hother

theorem balanced_of_mem_splitTop (hplain : depthChange separator = 0)
    (h : balanced text = true) (hpart : part ∈ splitTop separator text) :
    balanced part = true := by
  obtain ⟨⟨piece, hpiece, rfl⟩, -⟩ := mem_splitTop.1 hpart
  obtain ⟨first, others, hpieces, hfirst, hothers⟩ := balanced_pieces hplain h
  rw [Int.ofNat_zero] at hpieces
  rw [hpieces] at hpiece
  rw [balanced_trim]
  rcases List.mem_cons.1 hpiece with rfl | hother
  · exact hfirst
  · exact hothers piece hother

/-- A text without a separator at its top level is its only part. -/
theorem splitTop_of_containsTop (htrim : trim text = text) (hne : text ≠ [])
    (h : containsTop separator text = false) : splitTop separator text = [text] := by
  rw [splitTop, pieces_of_containsAt h]
  simp [htrim, hne]

theorem splitTop_append (hplain : depthChange separator = 0) {xs ys : List Char}
    (h : balanced xs = true) :
    splitTop separator (xs ++ separator :: ys) =
      splitTop separator xs ++ splitTop separator ys := by
  have hpieces := pieces_append hplain ys h
  rw [Int.ofNat_zero] at hpieces
  rw [splitTop, hpieces, List.map_append, List.filter_append]
  rfl

theorem splitTop_joinWith (hplain : depthChange separator = 0) {texts : List (List Char)}
    (h : ∀ text ∈ texts, balanced text = true) :
    splitTop separator (joinWith separator texts) = texts.flatMap (splitTop separator) := by
  induction texts with
  | nil =>
      simp [joinWith, splitTop, pieces, trim, trimStart]
  | cons first rest ih =>
      have hrest := ih fun text htext => h text (List.mem_cons_of_mem first htext)
      cases rest with
      | nil =>
          simp [joinWith]
      | cons second others =>
          rw [joinWith_cons _ _ (by simp), splitTop_append hplain (h first List.mem_cons_self),
            hrest]
          rfl

theorem splitTop_joinWith_self (hplain : depthChange separator = 0) {texts : List (List Char)}
    (hbalanced : ∀ text ∈ texts, balanced text = true)
    (hself : ∀ text ∈ texts, splitTop separator text = [text]) :
    splitTop separator (joinWith separator texts) = texts := by
  rw [splitTop_joinWith hplain hbalanced, List.flatMap_congr hself, List.flatMap_singleton']

/-- Balanced text without an opening bracket is all at the top level. -/
theorem not_mem_of_containsTop (hopen : '[' ∉ text) (hbalanced : balanced text = true)
    (h : containsTop separator text = false) : separator ∉ text := by
  induction text with
  | nil =>
      simp
  | cons c rest ih =>
      rw [List.mem_cons, not_or] at hopen ⊢
      obtain ⟨next, hnext, hrest⟩ := exists_depth_of_balancedAt hbalanced
      have hflat : depthChange c = 0 := by
        unfold depthChange at hnext ⊢
        rw [if_neg (Ne.symm hopen.1)] at hnext ⊢
        split at hnext
        · omega
        · next hclose =>
            rw [if_neg hclose]
      rw [hflat] at hnext
      obtain rfl : next = 0 := by
        omega
      simp only [containsTop, containsAt, hflat, Int.add_zero, and_true, Bool.or_eq_false_iff,
        decide_eq_false_iff_not] at h
      exact ⟨Ne.symm h.1, ih hopen.2 hrest h.2⟩

/-! ## Cutting without blanks -/

theorem pieces_compact (hseparator : isBlank separator = false) (depth : Int) :
    pieces separator depth (compact text) = (pieces separator depth text).map compact := by
  induction text generalizing depth with
  | nil =>
      rfl
  | cons c rest ih =>
      obtain ⟨first, others, hpieces⟩ :=
        List.exists_cons_of_ne_nil (pieces_ne_nil separator (depth + depthChange c) rest)
      by_cases hblank : isBlank c = true
      · have hother : c ≠ separator := by
          rintro rfl
          rw [hseparator] at hblank
          exact absurd hblank (by decide)
        have hdepth : depth + depthChange c = depth := by
          rw [depthChange_of_isBlank hblank, Int.add_zero]
        have hskip : ∀ more : List Char, compact (c :: more) = compact more := fun more =>
          List.filter_cons_of_neg (by simp [hblank])
        rw [hdepth] at hpieces
        rw [hskip, ih, pieces, if_neg fun hcut => hother hcut.1, hdepth, hpieces, consFirst,
          List.map_cons, List.map_cons, hskip]
      · have hkeep : ∀ more : List Char, compact (c :: more) = c :: compact more := fun more =>
          List.filter_cons_of_pos (by simp [hblank])
        rw [hkeep, pieces, pieces, ih]
        split
        · rfl
        · rw [hpieces, consFirst, List.map_cons, List.map_cons, hkeep, consFirst]

theorem splitTop_compact (hseparator : isBlank separator = false) :
    splitTop separator (compact text) = (splitTop separator text).map compact := by
  rw [splitTop, splitTop, pieces_compact hseparator, List.map_map, List.filter_map,
    List.filter_map, List.map_map]
  have hblank : ∀ piece : List Char, trim (compact piece) = compact piece := fun piece =>
    (blankless_compact piece).trim_eq
  have hsame : (fun piece : List Char => !piece.isEmpty) ∘ trim ∘ compact =
      (fun piece : List Char => !piece.isEmpty) ∘ trim := by
    funext piece
    have hiff : trim piece ≠ [] ↔ compact piece ≠ [] := trim_ne_nil_iff
    simp only [Function.comp, hblank]
    grind
  rw [hsame]
  exact List.map_congr_left fun piece _ => by simp [hblank]

/-- A text without blank pieces is what its parts are joined to, blanks aside. -/
theorem compact_eq_joinWith (hseparator : isBlank separator = false)
    (hfull : ∀ piece ∈ pieces separator 0 text, trim piece ≠ []) :
    compact text = joinWith separator ((splitTop separator text).map compact) := by
  have hparts : splitTop separator text = (pieces separator 0 text).map trim :=
    List.filter_eq_self.2 (List.forall_mem_map.2 fun piece hpiece => by simp [hfull piece hpiece])
  have hcompact : (splitTop separator text).map compact =
      (pieces separator 0 text).map compact := by
    rw [hparts, List.map_map]
    exact List.map_congr_left fun piece _ => compact_trim piece
  rw [hcompact, ← pieces_compact hseparator, joinWith_pieces]

/-! ## Texts that stand by themselves -/

/-- A text that is not empty, has no blank, and whose brackets pair up. -/
structure Closed (text : List Char) : Prop where
  ne_nil : text ≠ []
  blankless : Blankless text
  balanced : balanced text = true

theorem Blankless.append {xs ys : List Char} (hxs : Blankless xs) (hys : Blankless ys) :
    Blankless (xs ++ ys) :=
  fun c hc => (List.mem_append.1 hc).elim (hxs c) (hys c)

theorem Blankless.cons {c : Char} (hc : isBlank c = false) (h : Blankless text) :
    Blankless (c :: text) :=
  List.forall_mem_cons.2 ⟨hc, h⟩

theorem closed_generic {keyword body : List Char} (hkeyword : Closed keyword)
    (hblank : Blankless body) (hbody : balanced body = true) :
    Closed (generic keyword body) where
  ne_nil := by simp [generic]
  blankless := hkeyword.blankless.append
    ((hblank.append (Blankless.cons rfl fun _ h => by simp at h)).cons rfl)
  balanced := balanced_generic hkeyword.balanced hbody

theorem Closed.append {xs ys : List Char} (hplain : depthChange separator = 0)
    (hseparator : isBlank separator = false) (hxs : Closed xs) (hys : Closed ys) :
    Closed (xs ++ separator :: ys) where
  ne_nil := by simp
  blankless := hxs.blankless.append (hys.blankless.cons hseparator)
  balanced := by
    have hdepth : ((0 : Nat) : Int) + depthChange separator = (0 : Nat) := by
      rw [hplain]
      rfl
    rw [balanced_append hxs.balanced, Text.balanced, balancedAt_cons hdepth]
    exact hys.balanced

theorem closed_joinWith (hplain : depthChange separator = 0)
    (hseparator : isBlank separator = false) {texts : List (List Char)} (hne : texts ≠ [])
    (h : ∀ text ∈ texts, Closed text) : Closed (joinWith separator texts) := by
  induction texts with
  | nil =>
      exact absurd rfl hne
  | cons first rest ih =>
      by_cases hrest : rest = []
      · subst hrest
        exact h first List.mem_cons_self
      · rw [joinWith_cons _ _ hrest]
        exact (h first List.mem_cons_self).append hplain hseparator
          (ih hrest fun text htext => h text (List.mem_cons_of_mem first htext))

theorem Closed.splitTop_eq (h : Closed text) (hnone : containsTop separator text = false) :
    splitTop separator text = [text] :=
  splitTop_of_containsTop h.blankless.trim_eq h.ne_nil hnone

theorem splitTop_joinWith_eq (hplain : depthChange separator = 0) {texts : List (List Char)}
    (hclosed : ∀ text ∈ texts, Closed text)
    (hnone : ∀ text ∈ texts, containsTop separator text = false) :
    splitTop separator (joinWith separator texts) = texts :=
  splitTop_joinWith_self hplain (fun text htext => (hclosed text htext).balanced)
    fun text htext => (hclosed text htext).splitTop_eq (hnone text htext)

theorem pieces_joinWith_eq (hplain : depthChange separator = 0) {texts : List (List Char)}
    (hne : texts ≠ []) (hclosed : ∀ text ∈ texts, Closed text)
    (hnone : ∀ text ∈ texts, containsTop separator text = false) :
    pieces separator 0 (joinWith separator texts) = texts := by
  induction texts with
  | nil =>
      exact absurd rfl hne
  | cons first rest ih =>
      have hfirst : pieces separator 0 first = [first] :=
        pieces_of_containsAt (hnone first List.mem_cons_self)
      by_cases hrest : rest = []
      · subst hrest
        exact hfirst
      · have hcut : pieces separator (0 : Nat) (first ++ separator :: joinWith separator rest) =
            pieces separator (0 : Nat) first ++ pieces separator 0 (joinWith separator rest) :=
          pieces_append hplain _ (hclosed first List.mem_cons_self).balanced
        rw [Int.ofNat_zero, hfirst, ih hrest
          (fun text htext => hclosed text (List.mem_cons_of_mem first htext))
          fun text htext => hnone text (List.mem_cons_of_mem first htext)] at hcut
        rw [joinWith_cons _ _ hrest, hcut]
        rfl

theorem full_of_compact_eq (hplain : depthChange separator = 0)
    (hseparator : isBlank separator = false) {texts : List (List Char)} (hne : texts ≠ [])
    (hclosed : ∀ text ∈ texts, Closed text)
    (hnone : ∀ text ∈ texts, containsTop separator text = false)
    (h : compact text = joinWith separator texts) :
    (∀ piece ∈ pieces separator 0 text, trim piece ≠ []) ∧
      (splitTop separator text).map compact = texts := by
  have hpieces : (pieces separator 0 text).map compact = texts := by
    rw [← pieces_compact hseparator, h, pieces_joinWith_eq hplain hne hclosed hnone]
  constructor
  · intro piece hpiece
    have hmem : compact piece ∈ texts := hpieces ▸ List.mem_map_of_mem hpiece
    exact trim_ne_nil_iff.2 (hclosed _ hmem).ne_nil
  · rw [← splitTop_compact hseparator, h, splitTop_joinWith_eq hplain hclosed hnone]

end Text

end SlotGraph
