import Mathlib
import SlotGraph.Proofs.Double.Shortest
import SlotGraph.Proofs.Json.Numbers

/-!
# Texts of doubles

The text of a finite double is read as this double.  It is the shortest decimal laid out
with a point, an exponent or both; the token read from it denotes this decimal, and what
lies around a double is rounded to it.
-/

namespace SlotGraph

/-! ## Scaled mantissas around a double -/

theorem Double.ofBits_magnitudeBits (x : Float) :
    Double.ofBits (Double.signBit x) (Double.magnitudeBits x) = x := by
  have hlt := x.toBits.toNat_lt
  have hbits : (if Double.signBit x then 2 ^ 63 + Double.magnitudeBits x
      else Double.magnitudeBits x) = x.toBits.toNat := by
    simp only [Double.signBit, Double.magnitudeBits, decide_eq_true_eq]
    split <;> omega
  rw [Double.ofBits, hbits, UInt64.ofNat_toNat, Float.ofBits_toBits]

namespace Text

/-- Nothing around a double is so small that its exponent settles it. -/
theorem exponent_ge_of_around {x : Float} {mantissa : Nat} {exponent : Int}
    (h : Double.Around x (mantissa * 10 ^ exponent)) (hsome : Double.magnitudeBits x ≠ 0) :
    -1100 - (mantissa.log2 + 1 : Nat) ≤ exponent := by
  by_contra hbelow
  have hfive : (5 : ℚ) ^ exponent ≤ 1 :=
    zpow_le_one_of_nonpos₀ (by norm_num) (by omega)
  have hsmall : (mantissa : ℚ) * 10 ^ exponent < 2 ^ (mantissa.log2 + 1 + exponent : Int) := by
    rw [Double.ten_zpow, zpow_add₀ (by norm_num)]
    calc (mantissa : ℚ) * (2 ^ exponent * 5 ^ exponent) ≤ mantissa * 2 ^ exponent :=
          mul_le_mul_of_nonneg_left
            (mul_le_of_le_one_right (Double.two_zpow_pos _).le hfive) (Nat.cast_nonneg _)
      _ < 2 ^ (mantissa.log2 + 1 : Int) * 2 ^ exponent :=
          mul_lt_mul_of_pos_right (Double.lt_zpow_log2 mantissa) (Double.two_zpow_pos _)
  rw [← Double.log_lt_iff (h.pos hsome)] at hsmall
  have hlog := h.le_log hsome
  omega

/-- Nothing around a finite double is so large that its exponent settles it. -/
theorem exponent_le_of_around {x : Float} {mantissa : Nat} {exponent : Int}
    (h : Double.Around x (mantissa * 10 ^ exponent)) (hfinite : Double.isFinite x = true)
    (hmantissa : mantissa ≠ 0) (hpos : (0 : ℚ) < mantissa * 10 ^ exponent) :
    exponent ≤ 1100 := by
  by_contra habove
  have hfive : (1 : ℚ) ≤ 5 ^ exponent :=
    one_le_zpow₀ (by norm_num) (by omega)
  have hone : (1 : ℚ) ≤ mantissa := by
    exact_mod_cast Nat.pos_of_ne_zero hmantissa
  have hlarge : (2 : ℚ) ^ exponent ≤ mantissa * 10 ^ exponent := by
    rw [Double.ten_zpow]
    calc (2 : ℚ) ^ exponent ≤ 2 ^ exponent * 5 ^ exponent :=
          le_mul_of_one_le_right (Double.two_zpow_pos _).le hfive
      _ ≤ mantissa * (2 ^ exponent * 5 ^ exponent) :=
          le_mul_of_one_le_left (by positivity) hone
  rw [← Double.le_log_iff hpos] at hlarge
  have hlog := h.log_lt hpos
  have hexponent := Double.exponent_le hfinite
  omega

/-- A mantissa and an exponent that denote a number around a double are read as it. -/
theorem scaledDouble_of_around {x : Float} (hfinite : Double.isFinite x = true)
    (hsome : Double.magnitudeBits x ≠ 0) {mantissa : Nat} {exponent : Int}
    (h : Double.Around x (mantissa * 10 ^ exponent)) :
    scaledDouble (Double.signBit x) 10 mantissa exponent = x := by
  have hpos := h.pos hsome
  have hmantissa : mantissa ≠ 0 := by
    rintro rfl
    simp at hpos
  have hlow := exponent_ge_of_around h hsome
  have hhigh := exponent_le_of_around h hfinite hmantissa hpos
  have hquotient := scale_div_scale mantissa 1 (by decide : 0 < 10) exponent
  rw [scaledDouble, if_neg (by omega), if_neg (by omega), Double.ofQuotient,
    Double.quotientBits_of_around hfinite hsome (scale_one_pos (by decide) _) ?_,
    Double.ofBits_magnitudeBits]
  rw [hquotient]
  simpa using h

/-! ## Digits one behind the other -/

theorem ofDigits_append (base : Nat) (xs ys : List Nat) :
    ofDigits base (xs ++ ys) = ofDigits base xs * base ^ ys.length + ofDigits base ys := by
  induction ys using List.reverseRecOn with
  | nil =>
      simp [ofDigits]
  | append_singleton ys y ih =>
      rw [← List.append_assoc]
      simp only [ofDigits, List.foldl_append, List.foldl_cons, List.foldl_nil] at ih ⊢
      rw [ih, List.length_append, List.length_singleton, Nat.pow_succ]
      ring

theorem ofDigits_zeros (base count : Nat) : ofDigits base (List.replicate count 0) = 0 := by
  induction count with
  | zero =>
      rfl
  | succ count ih =>
      rw [List.replicate_succ', ofDigits_append, ih]
      simp [ofDigits]

end Text

namespace Json

/-! ## Numerals -/

/-- The digits of a number that is written out, and the sign of its exponent. -/
structure Numeral where
  whole : List Nat
  fraction : Option (List Nat)
  exponent : Option (Bool × List Nat)

namespace Numeral

def fractionText (fraction : Option (List Nat)) : List Char :=
  match fraction with
  | none => []
  | some digits => '.' :: digits.map Nat.digitChar

def exponentText (exponent : Option (Bool × List Nat)) : List Char :=
  match exponent with
  | none => []
  | some (negative, digits) =>
      'e' :: (if negative then '-' else '+') :: digits.map Nat.digitChar

def text (n : Numeral) : List Char :=
  n.whole.map Nat.digitChar ++ fractionText n.fraction ++ exponentText n.exponent

def token (n : Numeral) (negative : Bool) : Token where
  negative := negative
  whole := n.whole
  fraction := n.fraction
  exponent := n.exponent.map fun (below, digits) =>
    if below then -(Text.ofDigits 10 digits : Int) else Text.ofDigits 10 digits

/-- Whether a reader takes the digits: there are some, and no needless zero leads them. -/
structure WellFormed (n : Numeral) : Prop where
  leading : ∃ first more, n.whole = first :: more ∧ (first = 0 → more = [])
  whole : ∀ d ∈ n.whole, d < 10
  fraction : ∀ digits ∈ n.fraction, digits ≠ [] ∧ ∀ d ∈ digits, d < 10
  exponent : ∀ part ∈ n.exponent, part.2 ≠ [] ∧ ∀ d ∈ part.2, d < 10

namespace WellFormed

variable {n : Numeral}

theorem readWhole_text (h : n.WellFormed) {rest : List Char}
    (hrest : ∀ c ∈ rest.head?, Text.digit? 10 c = none) :
    readWhole (n.whole.map Nat.digitChar ++ rest) = some (n.whole, rest) := by
  obtain ⟨first, more, hwhole, hzero⟩ := h.leading
  rw [readWhole, takeDigits_map_append h.whole hrest, hwhole]
  cases first with
  | zero =>
      rw [hzero rfl]
      rfl
  | succ first =>
      rfl

theorem exponentText_head (exponent : Option (Bool × List Nat)) :
    ∀ c ∈ (exponentText exponent).head?, Text.digit? 10 c = none ∧ c ≠ '.' := by
  cases exponent with
  | none =>
      simp [exponentText]
  | some part =>
      simp [exponentText, Text.digit?]

theorem fractionText_head (n : Numeral) :
    ∀ c ∈ (fractionText n.fraction ++ exponentText n.exponent).head?,
      Text.digit? 10 c = none := by
  cases n.fraction with
  | none =>
      exact fun c hc => (exponentText_head n.exponent c hc).1
  | some digits =>
      simp [fractionText, Text.digit?]

theorem readFraction_text (h : n.WellFormed) :
    readFraction (fractionText n.fraction ++ exponentText n.exponent) =
      some (n.fraction, exponentText n.exponent) := by
  have hmark := exponentText_head n.exponent
  cases hfraction : n.fraction with
  | none =>
      rw [fractionText, List.nil_append]
      revert hmark
      cases exponentText n.exponent with
      | nil =>
          exact fun _ => rfl
      | cons c more =>
          exact fun hmark => readFraction_of_ne (hmark c rfl).2 more
  | some digits =>
      obtain ⟨hsome, hsmall⟩ := h.fraction digits hfraction
      rw [fractionText, List.cons_append, readFraction,
        takeDigits_map_append hsmall fun c hc => (hmark c hc).1]
      cases digits with
      | nil =>
          exact absurd rfl hsome
      | cons d digits =>
          rfl

theorem readExponent_text (h : n.WellFormed) (negative : Bool) :
    readExponent (exponentText n.exponent) = some ((n.token negative).exponent, []) := by
  rw [token]
  cases hexponent : n.exponent with
  | none =>
      rfl
  | some part =>
      obtain ⟨below, digits⟩ := part
      obtain ⟨hsome, hsmall⟩ := h.exponent (below, digits) hexponent
      have hsign : Text.takeSign ((if below then '-' else '+') :: digits.map Nat.digitChar) =
          (below, digits.map Nat.digitChar) := by
        cases below <;> rfl
      rw [exponentText, readExponent, if_pos (Or.inl rfl), hsign]
      simp only [takeDigits_map hsmall]
      cases digits with
      | nil =>
          exact absurd rfl hsome
      | cons d digits =>
          rfl

theorem readUnsigned_text (h : n.WellFormed) (negative : Bool) :
    readUnsigned negative n.text = some (n.token negative, []) := by
  refine readUnsigned_eq_some_iff.2
    ⟨_, _, ?_, h.readFraction_text, h.readExponent_text negative, rfl⟩
  rw [text, List.append_assoc]
  exact h.readWhole_text (fractionText_head n)

end WellFormed

end Numeral

/-! ## Layouts of a decimal -/

/-- The number that a token denotes, its sign aside. -/
def Token.size (token : Token) : ℚ :=
  Text.ofDigits 10 (token.whole ++ token.fraction.getD []) *
    10 ^ (token.exponent.getD 0 - (token.fraction.getD []).length)

theorem digitChar_zero : Nat.digitChar 0 = '0' :=
  rfl

namespace Numeral

/-- Digits with the point behind the first `count` of them, filled up with zeros. -/
def pointed (digits : List Nat) (count : Nat) : Numeral where
  whole := digits.take count ++ List.replicate (count - digits.length) 0
  fraction := some (if (digits.drop count).isEmpty then [0] else digits.drop count)
  exponent := none

theorem withPoint_map (digits : List Nat) (count : Nat) :
    withPoint (digits.map Nat.digitChar) count = (pointed digits count).text := by
  simp only [withPoint, text, pointed, fractionText, exponentText, List.append_nil,
    List.map_append, List.map_take, List.map_replicate, List.length_map, digitChar_zero]
  congr 2
  rw [← List.map_drop, List.isEmpty_map]
  split <;> rfl

theorem wellFormed_pointed {first count : Nat} {more : List Nat}
    (hdigits : ∀ d ∈ first :: more, d < 10) (hzero : first = 0 → count = 0) :
    (pointed (first :: more) (count + 1)).WellFormed where
  leading := by
    refine ⟨first, more.take count ++ List.replicate (count - more.length) 0, ?_, fun hfirst => ?_⟩
    · simp [pointed]
    · simp [hzero hfirst]
  whole := by
    intro d hd
    simp only [pointed, List.mem_append, List.mem_replicate] at hd
    rcases hd with htaken | ⟨-, rfl⟩
    · exact hdigits d (List.mem_of_mem_take htaken)
    · decide
  fraction := by
    rintro fraction hfraction
    obtain rfl := Option.some.inj hfraction
    split
    · simp
    · next hsome =>
        exact ⟨fun hnil => hsome (List.isEmpty_iff.2 hnil),
          fun d hd => hdigits d (List.mem_of_mem_drop hd)⟩
  exponent := by
    simp [pointed]

theorem size_pointed (digits : List Nat) (count : Nat) (negative : Bool) :
    ((pointed digits count).token negative).size =
      Text.ofDigits 10 digits * 10 ^ ((count : Int) - digits.length) := by
  simp only [Token.size, token, pointed, Option.getD_some, Option.map_none, Option.getD_none]
  by_cases hall : digits.length ≤ count
  · rw [if_pos (by simpa using hall), List.take_of_length_le hall,
      Text.ofDigits_append, Text.ofDigits_append, Text.ofDigits_zeros, ← Nat.cast_sub hall,
      zpow_natCast]
    simp [Text.ofDigits]
  · rw [if_neg (by simpa using hall), Nat.sub_eq_zero_of_le (by omega), List.replicate_zero,
      List.append_nil, List.take_append_drop, List.length_drop]
    congr 2
    omega

/-- Digits in scientific form, where `size` are the digits of the exponent. -/
def spread (layout : FloatLayout) (first : Nat) (more : List Nat) (exponent : Int)
    (size : List Nat) : Numeral where
  whole := [first]
  fraction := if more.isEmpty then none else some more
  exponent := some (decide (exponent < 0),
    List.replicate (layout.exponentDigits - size.length) 0 ++ size)

theorem scientific_map (layout : FloatLayout) (first : Nat) (more : List Nat) {exponent : Int}
    {size : List Nat} (hsize : Nat.toDigits 10 exponent.natAbs = size.map Nat.digitChar) :
    scientific layout ((first :: more).map Nat.digitChar) exponent =
      (spread layout first more exponent size).text := by
  simp only [scientific, text, spread, exponentText, hsize, List.map_append,
    List.map_replicate, List.length_map, digitChar_zero, List.map_cons, List.map_nil,
    List.take_succ_cons, List.take_zero, List.drop_succ_cons, List.drop_zero,
    List.isEmpty_map, decide_eq_true_eq]
  congr 2
  cases more <;> rfl

theorem wellFormed_spread {layout : FloatLayout} {first : Nat} {more : List Nat}
    {exponent : Int} {size : List Nat} (hdigits : ∀ d ∈ first :: more, d < 10)
    (hsize : ∀ d ∈ size, d < 10) (hsome : size ≠ []) :
    (spread layout first more exponent size).WellFormed where
  leading := ⟨first, [], rfl, fun _ => rfl⟩
  whole := by
    intro d hd
    exact hdigits d (List.mem_cons.2 (Or.inl (List.mem_singleton.1 hd)))
  fraction := by
    intro fraction hfraction
    simp only [spread, Option.mem_def, Option.ite_none_left_eq_some, List.isEmpty_iff,
      Option.some.injEq] at hfraction
    obtain ⟨hmore, rfl⟩ := hfraction
    exact ⟨hmore, fun d hd => hdigits d (List.mem_cons_of_mem first hd)⟩
  exponent := by
    rintro part hpart
    obtain rfl := Option.some.inj hpart
    refine ⟨by simp [hsome], fun d hd => ?_⟩
    rcases List.mem_append.1 hd with hzero | hmem
    · rw [List.eq_of_mem_replicate hzero]
      decide
    · exact hsize d hmem

theorem size_spread {layout : FloatLayout} {first : Nat} {more : List Nat} {exponent : Int}
    {size : List Nat} (hsize : Text.ofDigits 10 size = exponent.natAbs) (negative : Bool) :
    ((spread layout first more exponent size).token negative).size =
      Text.ofDigits 10 (first :: more) * 10 ^ (exponent - more.length) := by
  have hexponent : (if exponent < 0 then -(exponent.natAbs : Int) else exponent.natAbs) =
      exponent := by
    split <;> omega
  have hfraction : (if more.isEmpty then none else some more).getD [] = more := by
    cases more <;> rfl
  simp only [Token.size, token, spread, Option.map_some, Option.getD_some, hfraction,
    Text.ofDigits_append, Text.ofDigits_zeros, hsize, Nat.zero_mul, Nat.zero_add,
    decide_eq_true_eq, hexponent, List.singleton_append]

end Numeral

theorem exists_numeral (layout : FloatLayout) {d : Double.Decimal} (hsome : d.digits ≠ 0) :
    ∃ n : Numeral, n.WellFormed ∧ decimalText layout d = n.text ∧
      (n.fraction.isSome || n.exponent.isSome) = true ∧
      ∀ negative, (n.token negative).size = d.value := by
  obtain ⟨first, more, hdigits, hsmall, hvalue, hzero⟩ := exists_digits d.digits
  have hfirst : first ≠ 0 := by
    rintro rfl
    rw [hzero rfl] at hvalue
    exact hsome hvalue.symm
  simp only [decimalText, hdigits, List.length_map, List.length_cons]
  generalize hexponent : d.exponent + ((more.length + 1 : Nat) : Int) - 1 = exponent
  rw [Double.Decimal.value, ← hvalue]
  split
  · -- the exponent is written out
    obtain ⟨top, rest, hsize, hsmallSize, hvalueSize, -⟩ := exists_digits exponent.natAbs
    refine ⟨_, Numeral.wellFormed_spread hsmall hsmallSize (List.cons_ne_nil _ _),
      Numeral.scientific_map layout first more hsize, ?_, fun negative => ?_⟩
    · simp [Numeral.spread]
    · rw [Numeral.size_spread hvalueSize]
      congr 2
      omega
  · split
    · -- zeros fill the places behind the point
      have htext : '0' :: (List.replicate (-exponent - 1).toNat '0' ++
          (first :: more).map Nat.digitChar) =
          (0 :: (List.replicate (-exponent - 1).toNat 0 ++ first :: more)).map Nat.digitChar := by
        simp only [List.map_cons, List.map_append, List.map_replicate, digitChar_zero]
      rw [htext, Numeral.withPoint_map]
      refine ⟨_, Numeral.wellFormed_pointed ?_ fun _ => rfl, rfl, rfl, fun negative => ?_⟩
      · intro digit hdigit
        simp only [List.mem_cons, List.mem_append, List.mem_replicate] at hdigit
        rcases hdigit with rfl | ⟨-, rfl⟩ | hmem
        · decide
        · decide
        · exact hsmall digit (List.mem_cons.2 hmem)
      · rw [Numeral.size_pointed, ← List.cons_append, ← List.replicate_succ,
          Text.ofDigits_append, Text.ofDigits_zeros, Nat.zero_mul, Nat.zero_add]
        congr 2
        simp only [List.length_append, List.length_replicate, List.length_cons]
        omega
    · -- the point stands among the digits or behind them
      obtain ⟨count, hcount⟩ : ∃ count, (exponent + 1).toNat = count + 1 :=
        ⟨exponent.toNat, by omega⟩
      rw [hcount, Numeral.withPoint_map]
      refine ⟨_, Numeral.wellFormed_pointed hsmall fun hnone => absurd hnone hfirst, rfl, rfl,
        fun negative => ?_⟩
      rw [Numeral.size_pointed, List.length_cons]
      congr 2
      omega

/-! ## What a double is read from -/

/-- A token of the sign of a double that denotes a number around it is this double. -/
theorem Token.float?_of_around {token : Token} {x : Float} (hfinite : Double.isFinite x = true)
    (hsome : Double.magnitudeBits x ≠ 0) (hsign : token.negative = Double.signBit x)
    (h : Double.Around x token.size) : token.float? = some (.float x) := by
  simp only [Token.float?]
  rw [hsign, Text.scaledDouble_of_around hfinite hsome h, if_pos hfinite]

theorem Token.value?_of_float? {token : Token} {x : Float}
    (hform : (token.fraction.isSome || token.exponent.isSome) = true)
    (hfloat : token.float? = some (.float x)) : token.value? = some (.float x) := by
  rw [Token.value?, if_pos hform, hfloat]

theorem Token.float?_of_zero {token : Token} {x : Float} (hzero : Double.magnitudeBits x = 0)
    (hsign : token.negative = Double.signBit x)
    (h : Text.ofDigits 10 (token.whole ++ token.fraction.getD []) = 0) :
    token.float? = some (.float x) := by
  have hfinite : Double.isFinite x = true := by
    simp [Double.isFinite, hzero, Double.infinityBits]
  have hx := Double.ofBits_magnitudeBits x
  rw [hzero] at hx
  simp only [Token.float?]
  rw [h, hsign, Text.scaledDouble, if_pos (Or.inl rfl), hx, if_pos hfinite]

theorem Numeral.WellFormed.readsNumber_text {n : Numeral} (h : n.WellFormed) {negative : Bool}
    {value : Json} (hvalue : (n.token negative).value? = some value) :
    ReadsNumber (if negative then '-' :: n.text else n.text) value := by
  have hread := h.readUnsigned_text negative
  refine ⟨n.token negative, ?_, hvalue⟩
  cases negative with
  | true =>
      exact hread
  | false =>
      obtain ⟨first, more, hwhole, -⟩ := h.leading
      have hfirst : first < 10 := h.whole first (by rw [hwhole]; exact List.mem_cons_self)
      rw [Numeral.text, hwhole, List.map_cons, List.cons_append, List.cons_append] at hread ⊢
      exact (readToken_plain (digitChar_ne_minus hfirst) _).trans hread

theorem Numeral.wellFormed_zero : (⟨[0], some [0], none⟩ : Numeral).WellFormed where
  leading := ⟨0, [], rfl, fun _ => rfl⟩
  whole := by simp
  fraction := by simp
  exponent := by simp

theorem readsNumber_floatText {x : Float} (hfinite : Double.isFinite x = true) :
    ReadsNumber (floatText x).toList (.float x) := by
  simp only [floatText, hfinite, Bool.not_true, Bool.false_eq_true, if_false,
    String.toList_ofList]
  by_cases hsome : Double.magnitudeBits x = 0
  · rw [if_pos hsome]
    exact Numeral.wellFormed_zero.readsNumber_text
      (Token.value?_of_float? rfl (Token.float?_of_zero hsome rfl rfl))
  · have haround := Double.around_shortest hsome
    have hdigits : (Double.shortest x).digits ≠ 0 := by
      intro hnone
      have hpos := haround.pos hsome
      rw [Double.Decimal.value, hnone] at hpos
      simp at hpos
    obtain ⟨n, hform, htext, hparts, hsize⟩ := exists_numeral floatLayout hdigits
    rw [if_neg hsome, htext]
    refine hform.readsNumber_text (Token.value?_of_float? ?_ ?_)
    · simpa [Numeral.token] using hparts
    · refine Token.float?_of_around hfinite hsome rfl ?_
      rw [hsize]
      exact haround

example : floatText 0.1 = "0.1" ∧ floatText 2.5e-7 = "2.5e-07" := by
  decide +kernel

end Json

end SlotGraph
