import Mathlib.Tactic.LinearCombination
import SlotGraph.Double.Shortest
import SlotGraph.Proofs.Double.Nearest

/-!
# The shortest decimal lies around its double

Every decimal that the search can give, on a grid or exact, is among the numbers around
the double it was searched for.
-/

namespace SlotGraph

namespace Double

def Decimal.value (d : Decimal) : ℚ :=
  d.digits * 10 ^ d.exponent

theorem ten_zpow (k : Int) : (10 : ℚ) ^ k = 2 ^ k * 5 ^ k := by
  rw [← mul_zpow]
  norm_num

theorem exact_value (x : Float) : (exact x).value = mantissa x * 2 ^ exponent x := by
  rw [exact, Decimal.value]
  split
  · next hwhole =>
      have hone : scale 1 2 (-exponent x) = 1 := by
        rw [scale, Int.toNat_of_nonpos (by omega)]
      simp only [zpow_zero, mul_one]
      rw [scale_eq_zpow_mul _ (by decide), hone]
      simp
  · next hfraction =>
      have hone : scale 1 5 (exponent x) = 1 := by
        rw [scale, Int.toNat_of_nonpos (by omega)]
      simp only
      rw [scale_eq_zpow_mul _ (by decide), neg_neg, hone, ten_zpow]
      have hfive : (5 : ℚ) ^ (-exponent x) * 5 ^ exponent x = 1 := by
        rw [← zpow_add₀ (by decide), neg_add_cancel, zpow_zero]
      push_cast
      linear_combination (mantissa x * 2 ^ exponent x : ℚ) * hfive

theorem stripZeros_value (steps : Nat) (d : Decimal) :
    (Decimal.stripZeros steps d).value = d.value := by
  induction steps generalizing d with
  | zero =>
      rfl
  | succ steps ih =>
      rw [Decimal.stripZeros]
      split
      · next hzero =>
          have hdigits : ((d.digits / 10 : Nat) : ℚ) * 10 = d.digits := by
            exact_mod_cast Nat.div_mul_cancel (Nat.dvd_of_mod_eq_zero hzero.2)
          rw [ih, Decimal.value, Decimal.value, ← hdigits, zpow_add_one₀ (by decide)]
          ring
      · rfl

/-! ## Comparing decimal and binary numbers -/

/-- Both sides of the comparison are scaled by the same positive number. -/
theorem exists_compareScaled_eq (a : Nat) (i : Int) (n : Nat) (j : Int) :
    ∃ left right unit : Nat, compareScaled a i n j = compare left right ∧ 0 < unit ∧
      (left : ℚ) = a * 10 ^ i * unit ∧ (right : ℚ) = n * 2 ^ j * unit := by
  refine ⟨_, _, scale 1 10 (-i) * scale 1 2 (-j), rfl,
    Nat.mul_pos (scale_one_pos (by decide) _) (scale_one_pos (by decide) _), ?_, ?_⟩
  · rw [scale_eq_mul, Nat.cast_mul, scale_eq_zpow_mul a (by decide)]
    push_cast
    ring
  · rw [scale_eq_mul, Nat.cast_mul, scale_eq_zpow_mul n (by decide)]
    push_cast
    ring

theorem compareScaled_eq_lt_iff {a n : Nat} {i j : Int} :
    compareScaled a i n j = .lt ↔ (a : ℚ) * 10 ^ i < n * 2 ^ j := by
  obtain ⟨left, right, unit, hcompare, hunit, hleft, hright⟩ := exists_compareScaled_eq a i n j
  have hpos : (0 : ℚ) < unit := Nat.cast_pos.2 hunit
  rw [hcompare, Nat.compare_eq_lt, ← mul_lt_mul_iff_left₀ hpos, ← hleft, ← hright, Nat.cast_lt]

theorem compareScaled_eq_gt_iff {a n : Nat} {i j : Int} :
    compareScaled a i n j = .gt ↔ (n : ℚ) * 2 ^ j < a * 10 ^ i := by
  obtain ⟨left, right, unit, hcompare, hunit, hleft, hright⟩ := exists_compareScaled_eq a i n j
  have hpos : (0 : ℚ) < unit := Nat.cast_pos.2 hunit
  rw [hcompare, Nat.compare_eq_gt, ← mul_lt_mul_iff_left₀ hpos, ← hleft, ← hright, Nat.cast_lt]

theorem compareScaled_eq_eq_iff {a n : Nat} {i j : Int} :
    compareScaled a i n j = .eq ↔ (a : ℚ) * 10 ^ i = n * 2 ^ j := by
  obtain ⟨left, right, unit, hcompare, hunit, hleft, hright⟩ := exists_compareScaled_eq a i n j
  have hne : (unit : ℚ) ≠ 0 := Nat.cast_ne_zero.2 hunit.ne'
  rw [hcompare, Nat.compare_eq_eq, ← mul_left_inj' hne, ← hleft, ← hright, Nat.cast_inj]

/-! ## What reads back -/

theorem zpow_sub_two (k : Int) : (2 : ℚ) ^ (k - 2) = 2 ^ k / 4 := by
  rw [zpow_sub₀ (by decide)]
  norm_num

theorem cast_below {x : Float} (hsome : magnitudeBits x ≠ 0) :
    ((4 * mantissa x - (if narrowBelow x then 1 else 2) : Nat) : ℚ) * 2 ^ (exponent x - 2) =
      (mantissa x - gapBelow x) * 2 ^ exponent x := by
  have hpos := mantissa_pos hsome
  rw [gapBelow, zpow_sub_two]
  split
  · rw [Nat.cast_sub (by omega)]
    push_cast
    ring
  · rw [Nat.cast_sub (by omega)]
    push_cast
    ring

theorem cast_above (x : Float) :
    ((4 * mantissa x + 2 : Nat) : ℚ) * 2 ^ (exponent x - 2) =
      (mantissa x + 1 / 2) * 2 ^ exponent x := by
  rw [zpow_sub_two]
  push_cast
  ring

theorem readsBackTo_iff {x : Float} (hsome : magnitudeBits x ≠ 0) (d : Decimal) :
    readsBackTo x d = true ↔ Around x d.value := by
  simp only [readsBackTo, Bool.and_eq_true, Bool.or_eq_true, beq_iff_eq,
    compareScaled_eq_lt_iff, compareScaled_eq_gt_iff, compareScaled_eq_eq_iff,
    cast_below hsome, cast_above]
  rw [← Decimal.value]
  constructor
  · rintro ⟨hlow, hhigh⟩
    refine ⟨?_, ?_, ?_⟩
    · exact hlow.elim le_of_lt fun heq => heq.2.ge
    · exact hhigh.elim le_of_lt fun heq => heq.2.le
    · rintro (heq | heq)
      · exact hlow.elim (fun hlt => absurd heq hlt.ne') And.left
      · exact hhigh.elim (fun hlt => absurd heq hlt.ne) And.left
  · rintro ⟨hlow, hhigh, htie⟩
    refine ⟨hlow.lt_or_eq.imp_right fun heq => ?_, hhigh.lt_or_eq.imp_right fun heq => ?_⟩
    · exact ⟨htie (Or.inl heq.symm), heq.symm⟩
    · exact ⟨htie (Or.inr heq), heq⟩

theorem around_exact (x : Float) : Around x (exact x).value := by
  have hunit := two_zpow_pos (exponent x)
  have hgap := gapBelow_pos x
  have hbelow : (mantissa x - gapBelow x) * 2 ^ exponent x < mantissa x * 2 ^ exponent x :=
    mul_lt_mul_of_pos_right (by linarith) hunit
  have habove : (mantissa x : ℚ) * 2 ^ exponent x < (mantissa x + 1 / 2) * 2 ^ exponent x :=
    mul_lt_mul_of_pos_right (by linarith) hunit
  rw [exact_value]
  refine ⟨hbelow.le, habove.le, ?_⟩
  rintro (heq | heq)
  · exact absurd heq hbelow.ne'
  · exact absurd heq habove.ne

theorem readsBackTo_of_onGrid? {x : Float} {k : Int} {d : Decimal} (h : onGrid? x k = some d) :
    readsBackTo x d = true := by
  simp only [onGrid?] at h
  split at h
  · next hfloor hceil =>
      obtain rfl := Option.some.inj h
      rw [nearer]
      split
      · exact hfloor
      · exact hceil
      · split
        · exact hfloor
        · exact hceil
  · next hfloor hceil =>
      obtain rfl := Option.some.inj h
      exact hfloor
  · next hfloor hceil =>
      obtain rfl := Option.some.inj h
      exact hceil
  · cases h

/-- The shortest decimal of a double lies around it. -/
theorem around_shortest {x : Float} (hsome : magnitudeBits x ≠ 0) :
    Around x (shortest x).value := by
  rw [shortest]
  simp only [stripZeros_value]
  generalize hfound : List.findSome? _ _ = found
  cases found with
  | none =>
      exact around_exact x
  | some d =>
      obtain ⟨n, -, hgrid⟩ := List.exists_of_findSome?_eq_some hfound
      exact (readsBackTo_iff hsome d).1 (readsBackTo_of_onGrid? hgrid)

end Double

end SlotGraph
