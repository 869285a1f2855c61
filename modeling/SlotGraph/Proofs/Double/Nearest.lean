import Mathlib.Algebra.Order.Field.Rat
import Mathlib.Data.Int.Log
import Mathlib.Data.Rat.Floor
import Mathlib.Tactic.FieldSimp
import Mathlib.Tactic.Linarith
import Mathlib.Tactic.Qify
import SlotGraph.Double.Rounding

/-!
# Rounding to the nearest double

The numbers around a finite double, up to halfway to its neighbours, are the ones whose
quotients round to the bits of this double.  Numbers are rational here, and powers of two
have exponents of either sign.
-/

namespace SlotGraph

/-! ## Scaled numbers -/

theorem scale_eq_mul (n base : Nat) (exponent : Int) :
    scale n base exponent = n * scale 1 base exponent := by
  rw [scale, scale, Nat.one_mul]

theorem scale_one_pos {base : Nat} (hbase : 0 < base) (exponent : Int) :
    0 < scale 1 base exponent := by
  rw [scale, Nat.one_mul]
  exact Nat.pow_pos hbase

theorem scale_pos {n base : Nat} (hn : 0 < n) (hbase : 0 < base) (exponent : Int) :
    0 < scale n base exponent := by
  rw [scale_eq_mul]
  exact Nat.mul_pos hn (scale_one_pos hbase exponent)

theorem cast_scale (n base : Nat) (exponent : Int) :
    (scale n base exponent : ℚ) = n * (base : ℚ) ^ exponent.toNat := by
  rw [scale, Nat.cast_mul]
  congr 1
  exact Nat.cast_pow base exponent.toNat

/-- What a power with a negative exponent lacks is the power with the opposite one. -/
theorem scale_eq_zpow_mul (n : Nat) {base : Nat} (hbase : 0 < base) (exponent : Int) :
    (scale n base exponent : ℚ) =
      n * (base : ℚ) ^ exponent * (scale 1 base (-exponent) : ℚ) := by
  have hne : (base : ℚ) ≠ 0 := Nat.cast_ne_zero.2 hbase.ne'
  rw [cast_scale, cast_scale, Nat.cast_one, one_mul, mul_assoc, ← zpow_natCast,
    ← zpow_natCast, ← zpow_add₀ hne]
  congr 2
  omega

theorem scale_div_scale (n d : Nat) {base : Nat} (hbase : 0 < base) (exponent : Int) :
    (scale n base exponent : ℚ) / (scale d base (-exponent) : ℚ) =
      n / d * (base : ℚ) ^ exponent := by
  have hpos : (scale 1 base (-exponent) : ℚ) ≠ 0 :=
    Nat.cast_ne_zero.2 (scale_one_pos hbase _).ne'
  rw [scale_eq_zpow_mul n hbase, scale_eq_mul d, Nat.cast_mul, mul_div_mul_right _ _ hpos]
  ring

/-- A quotient that is scaled the other way is divided by the power. -/
theorem scale_neg_div_scale (n d : Nat) {base : Nat} (hbase : 0 < base) (exponent : Int) :
    (scale n base (-exponent) : ℚ) / (scale d base exponent : ℚ) =
      n / d / (base : ℚ) ^ exponent := by
  have hquotient := scale_div_scale n d hbase (-exponent)
  rw [neg_neg, zpow_neg, ← div_eq_mul_inv] at hquotient
  exact hquotient

namespace Double

/-! ## Rounding to a natural number -/

/-- Whether a number rounds to a natural number: it is within a half, and a tie is even. -/
structure RoundsTo (u : ℚ) (n : Nat) : Prop where
  low : (n : ℚ) - 1 / 2 ≤ u
  high : u ≤ n + 1 / 2
  tie : u = n - 1 / 2 ∨ u = n + 1 / 2 → n % 2 = 0

/-- The bounds of rounding without fractions, in units of half the denominator. -/
theorem divEven_eq {num den n : Nat} (hden : 0 < den) (hlow : 2 * (den * n) ≤ 2 * num + den)
    (hhigh : 2 * num ≤ 2 * (den * n) + den)
    (htie : 2 * (den * n) = 2 * num + den ∨ 2 * num = 2 * (den * n) + den → n % 2 = 0) :
    divEven num den = n := by
  have hsplit := Nat.div_add_mod num den
  have hrest := Nat.mod_lt num hden
  have hceil : den * n < den * (num / den + 2) := by
    rw [Nat.mul_add]
    omega
  have hfloor : den * (num / den) < den * (n + 1) := by
    rw [Nat.mul_add]
    omega
  have hbelow := Nat.lt_of_mul_lt_mul_left hceil
  have habove := Nat.lt_of_mul_lt_mul_left hfloor
  have hcases : n = num / den ∨ n = num / den + 1 := by
    omega
  rw [divEven]
  rcases hcases with heq | heq
  · rw [← heq] at hsplit ⊢
    exact if_pos (by omega)
  · rw [heq, Nat.mul_add] at hlow htie
    rw [heq]
    exact if_neg (by omega)

theorem divEven_of_roundsTo {num den n : Nat} (hden : 0 < den)
    (h : RoundsTo ((num : ℚ) / den) n) : divEven num den = n := by
  obtain ⟨hlow, hhigh, htie⟩ := h
  have hpos : (0 : ℚ) < den := Nat.cast_pos.2 hden
  rw [le_div_iff₀ hpos] at hlow
  rw [div_le_iff₀ hpos] at hhigh
  rw [div_eq_iff hpos.ne', div_eq_iff hpos.ne'] at htie
  refine divEven_eq hden ?_ ?_ ?_
  · qify
    linarith
  · qify
    linarith
  · rintro (heq | heq) <;> qify at heq
    · exact htie (Or.inl (by linarith))
    · exact htie (Or.inr (by linarith))

/-! ## The exponent of the last bit -/

theorem two_zpow_pos (k : Int) : (0 : ℚ) < 2 ^ k :=
  zpow_pos (by decide) k

theorem scaledMantissa_of_roundsTo {num den n : Nat} (hden : 0 < den) {k : Int}
    (h : RoundsTo ((num : ℚ) / den / 2 ^ k) n) : scaledMantissa num den k = n := by
  refine divEven_of_roundsTo (scale_pos hden (by decide) k) ?_
  rw [scale_neg_div_scale num den (by decide)]
  exact h

theorem zpow_log2_le {n : Nat} (hn : n ≠ 0) : (2 : ℚ) ^ (n.log2 : Int) ≤ n := by
  rw [zpow_natCast]
  exact_mod_cast Nat.log2_self_le hn

theorem lt_zpow_log2 (n : Nat) : (n : ℚ) < 2 ^ (n.log2 + 1 : Int) := by
  have hlt : n < 2 ^ (n.log2 + 1) := Nat.lt_log2_self
  exact_mod_cast hlt

theorem le_log_iff {v : ℚ} (hv : 0 < v) {k : Int} : k ≤ Int.log 2 v ↔ (2 : ℚ) ^ k ≤ v :=
  (Int.zpow_le_iff_le_log (by decide) hv).symm

theorem log_lt_iff {v : ℚ} (hv : 0 < v) {k : Int} : Int.log 2 v < k ↔ v < (2 : ℚ) ^ k :=
  (Int.lt_zpow_iff_log_lt (by decide) hv).symm

/-- A power of two is compared with a quotient by scaling one part of the quotient. -/
theorem scale_le_scale_iff (num : Nat) {den : Nat} (hden : 0 < den) (k : Int) :
    scale den 2 k ≤ scale num 2 (-k) ↔ (2 : ℚ) ^ k ≤ num / den := by
  have hpos : (0 : ℚ) < scale den 2 k := Nat.cast_pos.2 (scale_pos hden (by decide) k)
  have hcast : scale den 2 k ≤ scale num 2 (-k) ↔
      (scale den 2 k : ℚ) ≤ (scale num 2 (-k) : ℚ) :=
    Nat.cast_le.symm
  rw [hcast, ← one_le_div hpos, scale_neg_div_scale num den (by decide)]
  exact one_le_div (two_zpow_pos k)

/-- The logarithms of its parts leave two candidates for the logarithm of a quotient. -/
theorem log_div_bounds {num den : Nat} (hnum : 0 < num) (hden : 0 < den) :
    (num.log2 : Int) - den.log2 - 1 ≤ Int.log 2 ((num : ℚ) / den) ∧
      Int.log 2 ((num : ℚ) / den) < (num.log2 : Int) - den.log2 + 1 := by
  have hpos : (0 : ℚ) < den := Nat.cast_pos.2 hden
  have hsome : (0 : ℚ) < num / den := div_pos (Nat.cast_pos.2 hnum) hpos
  rw [le_log_iff hsome, log_lt_iff hsome, le_div_iff₀ hpos, div_lt_iff₀ hpos]
  constructor
  · calc (2 : ℚ) ^ ((num.log2 : Int) - den.log2 - 1) * den
        ≤ 2 ^ ((num.log2 : Int) - den.log2 - 1) * 2 ^ (den.log2 + 1 : Int) :=
          mul_le_mul_of_nonneg_left (lt_zpow_log2 den).le (two_zpow_pos _).le
      _ = 2 ^ (num.log2 : Int) := by
          rw [← zpow_add₀ (by decide)]
          congr 1
          omega
      _ ≤ num := zpow_log2_le hnum.ne'
  · calc (num : ℚ) < 2 ^ (num.log2 + 1 : Int) := lt_zpow_log2 num
      _ = 2 ^ ((num.log2 : Int) - den.log2 + 1) * 2 ^ (den.log2 : Int) := by
          rw [← zpow_add₀ (by decide)]
          congr 1
          omega
      _ ≤ 2 ^ ((num.log2 : Int) - den.log2 + 1) * den :=
          mul_le_mul_of_nonneg_left (zpow_log2_le hden.ne') (two_zpow_pos _).le

/-- The last bit stands 52 places behind the first one, if there is room. -/
theorem lastBitExponent_eq {num den : Nat} (hnum : 0 < num) (hden : 0 < den) :
    lastBitExponent num den = max (Int.log 2 ((num : ℚ) / den) - 52) (-1074) := by
  have hsome : (0 : ℚ) < num / den := div_pos (Nat.cast_pos.2 hnum) (Nat.cast_pos.2 hden)
  have hbounds := log_div_bounds hnum hden
  have hfits := scale_le_scale_iff num hden (num.log2 - den.log2 : Int)
  rw [← le_log_iff hsome] at hfits
  simp only [lastBitExponent]
  rw [add_sub_cancel]
  split <;> omega

/-! ## The parts of a double -/

theorem magnitudeBits_lt {x : Float} (hfinite : isFinite x = true) :
    magnitudeBits x < infinityBits :=
  of_decide_eq_true hfinite

/-- A mantissa whose leading bit is implied adds this bit to the exponent field. -/
theorem magnitudeBits_eq (x : Float) :
    magnitudeBits x = (exponent x + 1074).toNat * 2 ^ 52 + mantissa x := by
  simp only [exponent, mantissa]
  split <;> omega

theorem le_exponent (x : Float) : -1074 ≤ exponent x := by
  simp only [exponent]
  omega

theorem exponent_le {x : Float} (hfinite : isFinite x = true) : exponent x ≤ 971 := by
  have hlt := magnitudeBits_lt hfinite
  simp only [infinityBits] at hlt
  simp only [exponent]
  omega

theorem mantissa_lt (x : Float) : mantissa x < 2 ^ 53 := by
  simp only [mantissa]
  split <;> omega

theorem le_mantissa {x : Float} (h : -1074 < exponent x) : 2 ^ 52 ≤ mantissa x := by
  simp only [exponent] at h
  simp only [mantissa]
  split <;> omega

theorem mantissa_pos {x : Float} (h : magnitudeBits x ≠ 0) : 0 < mantissa x := by
  simp only [mantissa]
  split <;> omega

theorem narrowBelow_iff (x : Float) :
    narrowBelow x = true ↔ mantissa x = 2 ^ 52 ∧ -1074 < exponent x := by
  simp only [narrowBelow, mantissa, exponent, Bool.and_eq_true, beq_iff_eq, decide_eq_true_eq]
  split <;> omega

/-! ## Rounding to a double -/

/-- How far the numbers around a double reach below it, in units of its last bit. -/
def gapBelow (x : Float) : ℚ :=
  if narrowBelow x then 1 / 4 else 1 / 2

/--
The numbers around a magnitude: from halfway to the next one below it up to halfway to
the next one above it.  The ends belong to the even mantissa.
-/
structure Around (x : Float) (v : ℚ) : Prop where
  low : (mantissa x - gapBelow x) * 2 ^ exponent x ≤ v
  high : v ≤ (mantissa x + 1 / 2) * 2 ^ exponent x
  tie : v = (mantissa x - gapBelow x) * 2 ^ exponent x ∨
    v = (mantissa x + 1 / 2) * 2 ^ exponent x → mantissa x % 2 = 0

theorem gapBelow_pos (x : Float) : 0 < gapBelow x := by
  rw [gapBelow]
  split <;> norm_num

theorem gapBelow_le (x : Float) : gapBelow x ≤ 1 / 2 := by
  rw [gapBelow]
  split <;> norm_num

namespace Around

variable {x : Float} {v : ℚ}

theorem pos (h : Around x v) (hsome : magnitudeBits x ≠ 0) : 0 < v := by
  have hmantissa : (1 : ℚ) ≤ mantissa x := by
    exact_mod_cast mantissa_pos hsome
  have hgap := gapBelow_le x
  exact lt_of_lt_of_le (mul_pos (by linarith) (two_zpow_pos _)) h.low

theorem log_lt (h : Around x v) (hpos : 0 < v) : Int.log 2 v < exponent x + 53 := by
  rw [log_lt_iff hpos, add_comm, zpow_add₀ (by decide)]
  refine lt_of_le_of_lt h.high (mul_lt_mul_of_pos_right ?_ (two_zpow_pos _))
  have hmantissa : (mantissa x : ℚ) + 1 ≤ 2 ^ 53 := by
    exact_mod_cast mantissa_lt x
  have hpower : (2 : ℚ) ^ (53 : Int) = 2 ^ 53 := by
    norm_num
  rw [hpower]
  linarith

theorem le_log (h : Around x v) (hsome : magnitudeBits x ≠ 0) : -1075 ≤ Int.log 2 v := by
  rw [le_log_iff (h.pos hsome)]
  have hmantissa : (1 : ℚ) ≤ mantissa x := by
    exact_mod_cast mantissa_pos hsome
  have hgap := gapBelow_le x
  calc (2 : ℚ) ^ (-1 + -1074 : Int) = 1 / 2 * 2 ^ (-1074 : Int) := by
        rw [zpow_add₀ (by decide), zpow_neg_one, one_div]
    _ ≤ 1 / 2 * 2 ^ exponent x :=
        mul_le_mul_of_nonneg_left (zpow_le_zpow_right₀ (by norm_num) (le_exponent x)) (by norm_num)
    _ ≤ (mantissa x - gapBelow x) * 2 ^ exponent x :=
        mul_le_mul_of_nonneg_right (by linarith) (two_zpow_pos _).le
    _ ≤ v := h.low

/-- In units of the last bit, the numbers around a double round to its mantissa. -/
theorem roundsTo (h : Around x v) : RoundsTo (v / 2 ^ exponent x) (mantissa x) := by
  have hpower := two_zpow_pos (exponent x)
  have hgap := gapBelow_le x
  have hlow : mantissa x - gapBelow x ≤ v / 2 ^ exponent x :=
    (le_div_iff₀ hpower).2 h.low
  refine ⟨by linarith, (div_le_iff₀ hpower).2 h.high, ?_⟩
  rintro (heq | heq)
  · refine h.tie (Or.inl ?_)
    rw [← div_eq_iff hpower.ne']
    linarith
  · exact h.tie (Or.inr ((div_eq_iff hpower.ne').1 heq))

/-- Only the least mantissa has numbers around it whose binade is the one below its own. -/
theorem mantissa_eq (h : Around x v) (hpos : 0 < v) (hnormal : -1074 < exponent x)
    (hlog : Int.log 2 v < exponent x + 52) : mantissa x = 2 ^ 52 := by
  rw [log_lt_iff hpos, add_comm, zpow_add₀ (by decide)] at hlog
  have hgap := gapBelow_le x
  have hlt := lt_of_mul_lt_mul_right (lt_of_le_of_lt h.low hlog) (two_zpow_pos _).le
  have hpower : (2 : ℚ) ^ (52 : Int) = 2 ^ 52 := by
    norm_num
  rw [hpower] at hlt
  have hmantissa : (mantissa x : ℚ) < 2 ^ 52 + 1 := by
    linarith
  exact Nat.le_antisymm (Nat.le_of_lt_succ (by exact_mod_cast hmantissa)) (le_mantissa hnormal)

/-- There the numbers round up to the mantissa that carries into the exponent field. -/
theorem roundsTo_carry (h : Around x v) (hpos : 0 < v) (hnormal : -1074 < exponent x)
    (hlog : Int.log 2 v < exponent x + 52) :
    exponent x + 51 ≤ Int.log 2 v ∧ RoundsTo (v / 2 ^ (exponent x - 1)) (2 ^ 53) := by
  have hmantissa := h.mantissa_eq hpos hnormal hlog
  have hgap : gapBelow x = 1 / 4 :=
    if_pos ((narrowBelow_iff x).2 ⟨hmantissa, hnormal⟩)
  have hlow := h.low
  rw [hmantissa, hgap] at hlow
  rw [log_lt_iff hpos, add_comm, zpow_add₀ (by decide)] at hlog
  rw [le_log_iff hpos, add_comm, zpow_add₀ (by decide), zpow_sub_one₀ (by decide)]
  have hunit := two_zpow_pos (exponent x)
  generalize (2 : ℚ) ^ exponent x = unit at *
  have hdouble : v / (unit * 2⁻¹) = 2 * v / unit := by
    field_simp
  rw [hdouble]
  norm_num at hlow hlog ⊢
  refine ⟨by linarith, ?_, ?_, fun _ => by decide⟩
  · rw [le_div_iff₀ hunit]
    push_cast
    linarith
  · rw [div_le_iff₀ hunit]
    push_cast
    linarith

end Around

/-- What lies around a finite double is rounded to its bits. -/
theorem quotientBits_of_around {x : Float} (hfinite : isFinite x = true)
    (hsome : magnitudeBits x ≠ 0) {num den : Nat} (hden : 0 < den)
    (h : Around x ((num : ℚ) / den)) : quotientBits num den = magnitudeBits x := by
  have hpos := h.pos hsome
  have hnum : 0 < num := by
    rcases Nat.eq_zero_or_pos num with rfl | hnum
    · simp at hpos
    · exact hnum
  have hbits := magnitudeBits_eq x
  have hleast := le_exponent x
  have hlog := h.log_lt hpos
  have hexponent := lastBitExponent_eq hnum hden
  have hrounded : (lastBitExponent num den + 1074).toNat * 2 ^ 52 +
      scaledMantissa num den (lastBitExponent num den) = magnitudeBits x := by
    by_cases hcarry : -1074 < exponent x ∧ Int.log 2 ((num : ℚ) / den) < exponent x + 52
    · have hmantissa := h.mantissa_eq hpos hcarry.1 hcarry.2
      obtain ⟨hbinade, hround⟩ := h.roundsTo_carry hpos hcarry.1 hcarry.2
      have hbelow : lastBitExponent num den = exponent x - 1 := by
        omega
      rw [hbelow, scaledMantissa_of_roundsTo hden hround]
      omega
    · have hsame : lastBitExponent num den = exponent x := by
        omega
      rw [hsame, scaledMantissa_of_roundsTo hden h.roundsTo, hbits]
  rw [quotientBits, if_neg (by omega)]
  simp only [hrounded]
  exact Nat.min_eq_left (magnitudeBits_lt hfinite).le

end Double

end SlotGraph
