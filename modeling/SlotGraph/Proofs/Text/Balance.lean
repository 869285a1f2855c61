import Mathlib.Data.List.Basic
import SlotGraph.Text.Bracket

/-!
# Balanced text

Text whose brackets pair up leaves the bracket depth where it was, so what follows it is
read as if it stood alone.  A balanced body is therefore found again between the brackets
of a keyword, and nothing inside these brackets is at the top level.
-/

namespace SlotGraph

namespace Text

variable {separator c : Char} {depth : Nat} {keyword text body rest xs ys : List Char}

/-! ## One character -/

/-- A character that brings the depth to some number leaves the rest to be balanced there. -/
theorem balancedAt_cons {next : Nat} (hnext : (depth : Int) + depthChange c = next) :
    balancedAt depth (c :: rest) = balancedAt next rest := by
  simp only [balancedAt]
  unfold depthChange at hnext
  split at hnext
  · next hopen =>
      rw [if_pos hopen]
      congr 1
      omega
  · next hopen =>
      rw [if_neg hopen]
      split at hnext
      · next hclose =>
          rw [if_pos hclose]
          obtain rfl : depth = next + 1 := by
            omega
          rfl
      · next hclose =>
          rw [if_neg hclose]
          congr 1
          omega

/-- Only a closing bracket with none open brings the depth below zero. -/
theorem exists_depth (h : ¬ (depth = 0 ∧ c = ']')) :
    ∃ next : Nat, (depth : Int) + depthChange c = next := by
  refine Int.eq_ofNat_of_zero_le ?_
  unfold depthChange
  split
  · omega
  · split
    · next hclose =>
        have hopen : depth ≠ 0 := fun hzero => h ⟨hzero, hclose⟩
        omega
    · omega

theorem exists_depth_of_balancedAt (h : balancedAt depth (c :: rest) = true) :
    ∃ next : Nat, (depth : Int) + depthChange c = next ∧ balancedAt next rest = true := by
  have hlast : ¬ (depth = 0 ∧ c = ']') := by
    rintro ⟨rfl, rfl⟩
    simp [balancedAt] at h
  obtain ⟨next, hnext⟩ := exists_depth hlast
  exact ⟨next, hnext, balancedAt_cons hnext ▸ h⟩

theorem depthChange_of_ne (hopen : c ≠ '[') (hclose : c ≠ ']') : depthChange c = 0 := by
  rw [depthChange, if_neg hopen, if_neg hclose]

theorem depthChange_of_isBlank (h : isBlank c = true) : depthChange c = 0 := by
  have hopen : c ≠ '[' := by
    rintro rfl
    exact absurd h (by decide)
  have hclose : c ≠ ']' := by
    rintro rfl
    exact absurd h (by decide)
  exact depthChange_of_ne hopen hclose

/-! ## Text behind balanced text -/

theorem balancedAt_append {outer : Nat} (h : balancedAt depth xs = true) :
    balancedAt (depth + outer) (xs ++ ys) = balancedAt outer ys := by
  induction xs generalizing depth with
  | nil =>
      simp only [balancedAt, beq_iff_eq] at h
      rw [h, Nat.zero_add, List.nil_append]
  | cons c rest ih =>
      obtain ⟨next, hnext, hrest⟩ := exists_depth_of_balancedAt h
      have houter : ((depth + outer : Nat) : Int) + depthChange c = (next + outer : Nat) := by
        omega
      rw [List.cons_append, balancedAt_cons houter, ih hrest]

theorem balanced_append (h : balanced xs = true) : balanced (xs ++ ys) = balanced ys := by
  have happend : balancedAt (0 + 0) (xs ++ ys) = balancedAt 0 ys := balancedAt_append h
  rwa [Nat.zero_add] at happend

theorem containsAt_append (separator : Char) (base : Int) (ys : List Char)
    (h : balancedAt depth xs = true) :
    containsAt separator (depth + base) (xs ++ ys) =
      (containsAt separator (depth + base) xs || containsAt separator base ys) := by
  induction xs generalizing depth with
  | nil =>
      simp only [balancedAt, beq_iff_eq] at h
      simp [containsAt, h]
  | cons c rest ih =>
      obtain ⟨next, hnext, hrest⟩ := exists_depth_of_balancedAt h
      have hbase : (depth : Int) + base + depthChange c = next + base := by
        omega
      simp only [List.cons_append, containsAt, hbase, ih hrest, Bool.or_assoc]

theorem containsTop_append (h : balanced xs = true) :
    containsTop separator (xs ++ ys) =
      (containsTop separator xs || containsTop separator ys) := by
  simpa [containsTop] using containsAt_append separator 0 ys h

theorem containsTop_cons {other : Char} (hplain : depthChange other = 0) (ys : List Char) :
    containsTop separator (other :: ys) =
      (decide (other = separator) || containsTop separator ys) := by
  simp [containsTop, containsAt, hplain]

/-- What balanced text holds is not at the top level when a bracket is open around it. -/
theorem containsAt_succ (separator : Char) (h : balancedAt depth xs = true) :
    containsAt separator (depth + 1) xs = false := by
  induction xs generalizing depth with
  | nil =>
      rfl
  | cons c rest ih =>
      obtain ⟨next, hnext, hrest⟩ := exists_depth_of_balancedAt h
      have hinner : (depth : Int) + 1 + depthChange c = next + 1 := by
        omega
      have hdeep : ¬ (next : Int) + 1 = 0 := by
        omega
      simp [containsAt, hinner, hdeep, ih hrest]

theorem containsAt_of_not_mem {depth : Int} (h : separator ∉ text) :
    containsAt separator depth text = false := by
  induction text generalizing depth with
  | nil =>
      rfl
  | cons c rest ih =>
      rw [List.mem_cons, not_or] at h
      simp [containsAt, Ne.symm h.1, ih h.2]

/-! ## Counting brackets -/

/-- The depth is the number of brackets that opened less the number of those that closed. -/
theorem count_cons_brackets (c : Char) (more : List Char) :
    ((c :: more).count '[' : Int) - (c :: more).count ']' =
      depthChange c + (more.count '[' - more.count ']') := by
  by_cases hopen : c = '['
  · subst hopen
    rw [List.count_cons_self, List.count_cons_of_ne (by decide)]
    simp only [depthChange, if_true]
    omega
  · by_cases hclose : c = ']'
    · subst hclose
      rw [List.count_cons_self, List.count_cons_of_ne (by decide)]
      simp only [depthChange, if_neg hopen, if_true]
      omega
    · rw [List.count_cons_of_ne hopen, List.count_cons_of_ne hclose]
      simp [depthChange, hopen, hclose]

/--
From some depth on a text is balanced if in no part at its front more brackets close than are
open there, and in the whole as many.
-/
theorem balancedAt_iff : balancedAt depth text = true ↔
    (∀ front, front <+: text → front.count ']' ≤ depth + front.count '[') ∧
      depth + text.count '[' = text.count ']' := by
  induction text generalizing depth with
  | nil =>
      simp [balancedAt]
  | cons c rest ih =>
      by_cases hlast : depth = 0 ∧ c = ']'
      · obtain ⟨rfl, rfl⟩ := hlast
        refine iff_of_false (by simp [balancedAt]) fun h => ?_
        exact absurd (h.1 [']'] ⟨rest, rfl⟩) (by decide)
      · obtain ⟨next, hnext⟩ := exists_depth hlast
        have hcount := count_cons_brackets c
        have hrest := hcount rest
        rw [balancedAt_cons hnext, ih]
        constructor
        · rintro ⟨hfront, htotal⟩
          refine ⟨fun front hprefix => ?_, by omega⟩
          rcases List.prefix_cons_iff.1 hprefix with rfl | ⟨more, rfl, hmore⟩
          · simp
          · have hmoreCount := hcount more
            have hbelow := hfront more hmore
            omega
        · rintro ⟨hfront, htotal⟩
          refine ⟨fun more hmore => ?_, by omega⟩
          have hmoreCount := hcount more
          have hbelow := hfront (c :: more) ((List.prefix_cons_inj c).2 hmore)
          omega

structure Paired (text : List Char) : Prop where
  /-- In no part at the front do more brackets close than open. -/
  front : ∀ front, front <+: text → front.count ']' ≤ front.count '['
  total : text.count '[' = text.count ']'

theorem balanced_iff_paired : balanced text = true ↔ Paired text := by
  rw [balanced, balancedAt_iff]
  simp only [Nat.zero_add]
  exact ⟨fun ⟨hfront, htotal⟩ => ⟨hfront, htotal⟩, fun ⟨hfront, htotal⟩ => ⟨hfront, htotal⟩⟩

instance (text : List Char) : Decidable (Paired text) :=
  decidable_of_iff _ balanced_iff_paired

/-! ## A keyword and its body -/

/-- A keyword with one bracketed body, as in `List[Tool]`. -/
def generic (keyword body : List Char) : List Char :=
  keyword ++ '[' :: (body ++ [']'])

theorem generic_inj {other otherBody : List Char} (hkeyword : '[' ∉ keyword)
    (hother : '[' ∉ other) (h : generic keyword body = generic other otherBody) :
    keyword = other ∧ body = otherBody := by
  have hfront : ∀ word rest : List Char, '[' ∉ word →
      (word ++ '[' :: rest).takeWhile (fun c => c != '[') = word := by
    intro word rest hword
    rw [List.takeWhile_append_of_pos, List.takeWhile_cons_of_neg (by simp), List.append_nil]
    exact fun c hc => bne_iff_ne.2 fun heq => hword (heq ▸ hc)
  have hsame : keyword = other := by
    rw [← hfront keyword _ hkeyword, ← hfront other _ hother]
    exact congrArg (List.takeWhile _) h
  subst hsame
  have htail := List.append_cancel_left h
  exact ⟨rfl, List.append_cancel_right (List.cons.inj htail).2⟩

theorem balanced_generic (hkeyword : balanced keyword = true) (hbody : balanced body = true) :
    balanced (generic keyword body) = true := by
  have hclosed : balancedAt (0 + 1) (body ++ [']']) = true := by
    rw [balancedAt_append hbody]
    rfl
  rw [generic, balanced_append hkeyword]
  exact hclosed

/-- A separator is at the top level in front of the bracket only. -/
theorem containsTop_generic (hplain : depthChange separator = 0)
    (hkeyword : balanced keyword = true) (hbody : balanced body = true) :
    containsTop separator (generic keyword body) = containsTop separator keyword := by
  have hopen : '[' ≠ separator := by
    rintro rfl
    exact absurd hplain (by decide)
  have hclose : ']' ≠ separator := by
    rintro rfl
    exact absurd hplain (by decide)
  have hinner : containsAt separator 1 (body ++ [']']) = false := by
    have happend := containsAt_append separator 1 [']'] hbody
    have hbody := containsAt_succ separator hbody
    rw [Int.ofNat_zero, Int.zero_add] at happend hbody
    simp [happend, hbody, containsAt, hclose]
  have hbracket : containsTop separator ('[' :: (body ++ [']'])) = false := by
    simp [containsTop, containsAt, hopen, hinner, depthChange]
  rw [generic, containsTop_append hkeyword, hbracket, Bool.or_false]

/-! ## Recognising a keyword and its body -/

theorem closeBracket?_cons {next : Nat} (hnext : (depth : Int) + depthChange c = next) :
    closeBracket? depth (c :: rest) =
      (closeBracket? next rest).map fun cut => (c :: cut.1, cut.2) := by
  simp only [closeBracket?]
  unfold depthChange at hnext
  split at hnext
  · next hopen =>
      obtain rfl : next = depth + 1 := by
        omega
      simp [hopen]
  · next hopen =>
      split at hnext
      · next hclose =>
          obtain rfl : depth = next + 1 := by
            omega
          simp [hclose]
      · next hclose =>
          obtain rfl : next = depth := by
            omega
          simp [hopen, hclose]

/-- The closing bracket is the first one in front of which the text is balanced. -/
theorem closeBracket?_eq_some_iff :
    closeBracket? depth text = some (body, rest) ↔
      text = body ++ ']' :: rest ∧ balancedAt depth body = true := by
  induction text generalizing depth body with
  | nil =>
      simp [closeBracket?]
  | cons c tail ih =>
      by_cases hlast : depth = 0 ∧ c = ']'
      · obtain ⟨rfl, rfl⟩ := hlast
        cases body with
        | nil =>
            simp [closeBracket?, balancedAt]
        | cons first body =>
            have hbelow : closeBracket? 0 (']' :: tail) = some ([], tail) := by
              simp [closeBracket?]
            simp only [hbelow, Option.some.injEq, Prod.mk.injEq, reduceCtorEq, false_and,
              List.cons_append, List.cons.injEq, false_iff, not_and]
            rintro ⟨rfl, -⟩
            simp [balancedAt]
      · obtain ⟨next, hnext⟩ := exists_depth hlast
        rw [closeBracket?_cons hnext]
        cases body with
        | nil =>
            simp only [Option.map_eq_some_iff, Prod.mk.injEq, reduceCtorEq, false_and,
              and_false, exists_false, List.nil_append, List.cons.injEq, false_iff]
            rintro ⟨⟨rfl, rfl⟩, hbalanced⟩
            simp [balancedAt] at hbalanced
            exact hlast ⟨hbalanced, rfl⟩
        | cons first body =>
            simp only [Option.map_eq_some_iff, Prod.exists, Prod.mk.injEq, List.cons.injEq,
              List.cons_append]
            constructor
            · rintro ⟨inner, after, hinner, ⟨rfl, rfl⟩, rfl⟩
              obtain ⟨htail, hbalanced⟩ := ih.1 hinner
              exact ⟨⟨rfl, htail⟩, by rwa [balancedAt_cons hnext]⟩
            · rintro ⟨⟨rfl, htail⟩, hbalanced⟩
              rw [balancedAt_cons hnext] at hbalanced
              exact ⟨body, rest, ih.2 ⟨htail, hbalanced⟩, ⟨rfl, rfl⟩, rfl⟩

theorem openingBody?_eq_some_iff :
    openingBody? text = some (body, rest) ↔
      text = '[' :: (body ++ ']' :: rest) ∧ balanced body = true := by
  unfold openingBody?
  split
  · rw [closeBracket?_eq_some_iff]
    simp [balanced]
  · next hopen =>
      simp only [reduceCtorEq, false_iff, not_and]
      intro htext
      exact absurd htext (hopen _)

/-- A keyword and its body are recognised exactly when the bracket behind it closes last. -/
theorem unwrapGeneric?_eq_some_iff :
    unwrapGeneric? keyword text = some body ↔
      text = generic keyword body ∧ balanced body = true := by
  have hopening : unwrapGeneric? keyword text = some body ↔
      ∃ after, dropKeyword? keyword text = some after ∧ openingBody? after = some (body, []) := by
    rw [← Option.bind_eq_some_iff]
    unfold unwrapGeneric?
    split
    · next found heq =>
        simp [heq]
    · next hother =>
        simp only [reduceCtorEq, false_iff]
        exact hother body
  simp only [hopening, dropKeyword?_eq_some_iff, openingBody?_eq_some_iff]
  constructor
  · rintro ⟨after, rfl, rfl, hbody⟩
    exact ⟨rfl, hbody⟩
  · rintro ⟨rfl, hbody⟩
    exact ⟨_, rfl, rfl, hbody⟩

theorem unwrapGeneric?_of_ne {other : List Char} (hkeyword : '[' ∉ keyword)
    (hother : '[' ∉ other) (hne : keyword ≠ other) :
    unwrapGeneric? other (generic keyword body) = none := by
  refine Option.eq_none_iff_forall_ne_some.2 fun inner hinner => ?_
  exact hne (generic_inj hkeyword hother (unwrapGeneric?_eq_some_iff.1 hinner).1).1

end Text

end SlotGraph
