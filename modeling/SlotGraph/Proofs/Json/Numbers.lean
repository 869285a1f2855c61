import Mathlib.Data.List.Basic
import Mathlib.Tactic.Linarith
import SlotGraph.Json.Printer
import SlotGraph.Json.Reader

/-!
# Number tokens

A number token ends where something follows that no number goes on with, and the
token that the decimal digits of an integer make is that integer again.
-/

namespace SlotGraph

theorem Text.toString_injective {m n : Nat} (h : toString m = toString n) : m = n := by
  have hdigits := congrArg String.toList h
  rw [Nat.toString_eq_repr, Nat.toString_eq_repr, Nat.toList_repr, Nat.toList_repr] at hdigits
  have hvalue := congrArg (Nat.ofDigitChars 10 · 0) hdigits
  simpa using hvalue

namespace Json

/-! ## Tokens before other text -/

/-- Whether no number goes on with this text. -/
def EndsNumber (rest : List Char) : Prop :=
  ∀ c ∈ rest.head?, Text.digit? 10 c = none ∧ c ≠ '.' ∧ c ≠ 'e' ∧ c ≠ 'E'

theorem takeDigits_of_ends {rest : List Char} (h : EndsNumber rest) :
    Text.takeDigits 10 rest = ([], rest) := by
  cases rest with
  | nil =>
      rfl
  | cons c tail =>
      rw [Text.takeDigits, (h c rfl).1]

theorem takeDigits_append {rest : List Char} (h : EndsNumber rest) (text : List Char) :
    Text.takeDigits 10 (text ++ rest) =
      ((Text.takeDigits 10 text).1, (Text.takeDigits 10 text).2 ++ rest) := by
  induction text with
  | nil =>
      exact takeDigits_of_ends h
  | cons c tail ih =>
      rw [List.cons_append, Text.takeDigits, Text.takeDigits]
      cases Text.digit? 10 c with
      | none =>
          rfl
      | some d =>
          simp only [ih]

theorem readWhole_append {text tail rest : List Char} {digits : List Nat} (h : EndsNumber rest)
    (hread : readWhole text = some (digits, tail)) :
    readWhole (text ++ rest) = some (digits, tail ++ rest) := by
  unfold readWhole at hread ⊢
  rw [takeDigits_append h]
  rcases htake : Text.takeDigits 10 text with ⟨taken, left⟩
  rw [htake] at hread
  match taken, hread with
  | [0], hread =>
      obtain ⟨rfl, rfl⟩ := Prod.mk.inj (Option.some.inj hread)
      rfl
  | (d + 1) :: more, hread =>
      obtain ⟨rfl, rfl⟩ := Prod.mk.inj (Option.some.inj hread)
      rfl

theorem readFraction_of_ne {c : Char} (h : c ≠ '.') (more : List Char) :
    readFraction (c :: more) = some (none, c :: more) := by
  unfold readFraction
  split
  · next heq =>
      exact absurd (List.cons.inj heq).1 h
  · rfl

theorem readFraction_append {text tail rest : List Char} {fraction : Option (List Nat)}
    (h : EndsNumber rest) (hread : readFraction text = some (fraction, tail)) :
    readFraction (text ++ rest) = some (fraction, tail ++ rest) := by
  cases text with
  | nil =>
      obtain ⟨rfl, rfl⟩ := Prod.mk.inj (Option.some.inj hread)
      cases rest with
      | nil =>
          rfl
      | cons c more =>
          exact readFraction_of_ne (h c rfl).2.1 more
  | cons c more =>
      by_cases hpoint : c = '.'
      · subst hpoint
        rw [List.cons_append]
        unfold readFraction at hread ⊢
        simp only at hread ⊢
        rw [takeDigits_append h]
        rcases htake : Text.takeDigits 10 more with ⟨taken, left⟩
        rw [htake] at hread
        cases taken with
        | nil =>
            simp at hread
        | cons d digits =>
            obtain ⟨rfl, rfl⟩ := Prod.mk.inj (Option.some.inj hread)
            rfl
      · rw [readFraction_of_ne hpoint] at hread
        rw [List.cons_append, readFraction_of_ne hpoint]
        obtain ⟨rfl, rfl⟩ := Prod.mk.inj (Option.some.inj hread)
        rfl

theorem takeSign_append {text : List Char} (htext : text ≠ []) (rest : List Char) :
    Text.takeSign (text ++ rest) =
      ((Text.takeSign text).1, (Text.takeSign text).2 ++ rest) := by
  cases text with
  | nil =>
      exact absurd rfl htext
  | cons c tail =>
      rw [List.cons_append]
      unfold Text.takeSign
      split
      · next heq =>
          obtain ⟨rfl, rfl⟩ := List.cons.inj heq
          rfl
      · next heq =>
          obtain ⟨rfl, rfl⟩ := List.cons.inj heq
          rfl
      · next hminus hplus =>
          split
          · next heq =>
              exact absurd (by rw [(List.cons.inj heq).1]) (hminus (tail ++ rest))
          · next heq =>
              exact absurd (by rw [(List.cons.inj heq).1]) (hplus (tail ++ rest))
          · rfl

theorem readExponent_append {text tail rest : List Char} {exponent : Option Int}
    (h : EndsNumber rest) (hread : readExponent text = some (exponent, tail)) :
    readExponent (text ++ rest) = some (exponent, tail ++ rest) := by
  cases text with
  | nil =>
      obtain ⟨rfl, rfl⟩ := Prod.mk.inj (Option.some.inj hread)
      cases rest with
      | nil =>
          rfl
      | cons c more =>
          have hmark : ¬ (c = 'e' ∨ c = 'E') := not_or.2 (h c rfl).2.2
          rw [List.nil_append, readExponent, if_neg hmark]
  | cons c more =>
      rw [List.cons_append]
      rw [readExponent] at hread ⊢
      split at hread
      · next hmark =>
          have hmore : more ≠ [] := by
            rintro rfl
            simp [Text.takeSign, Text.takeDigits] at hread
          rw [if_pos hmark]
          simp only [takeSign_append hmore, takeDigits_append h] at hread ⊢
          rcases htake : Text.takeDigits 10 (Text.takeSign more).2 with ⟨taken, left⟩
          rw [htake] at hread
          cases taken with
          | nil =>
              simp at hread
          | cons d digits =>
              obtain ⟨rfl, rfl⟩ := Prod.mk.inj (Option.some.inj hread)
              rfl
      · next hmark =>
          rw [if_neg hmark]
          obtain ⟨rfl, rfl⟩ := Prod.mk.inj (Option.some.inj hread)
          rfl

def readUnsigned (negative : Bool) (text : List Char) : Option (Token × List Char) := do
  let (whole, rest) ← readWhole text
  let (fraction, rest) ← readFraction rest
  let (exponent, rest) ← readExponent rest
  return (⟨negative, whole, fraction, exponent⟩, rest)

theorem readToken_plain {c : Char} (h : c ≠ '-') (text : List Char) :
    readToken (c :: text) = readUnsigned false (c :: text) := by
  unfold readToken
  split
  next negative body heq =>
    split at heq
    · next hminus =>
        exact absurd (List.cons.inj hminus).1 h
    · obtain ⟨rfl, rfl⟩ := Prod.mk.inj heq
      rfl

theorem readUnsigned_eq_some_iff {negative : Bool} {text tail : List Char} {token : Token} :
    readUnsigned negative text = some (token, tail) ↔
      ∃ afterWhole afterFraction, readWhole text = some (token.whole, afterWhole) ∧
        readFraction afterWhole = some (token.fraction, afterFraction) ∧
        readExponent afterFraction = some (token.exponent, tail) ∧
        token.negative = negative := by
  simp only [readUnsigned, Option.bind_eq_bind, Option.pure_def, Option.bind_eq_some_iff]
  constructor
  · rintro ⟨⟨whole, afterWhole⟩, hwhole, ⟨fraction, afterFraction⟩, hfraction,
      ⟨exponent, afterExponent⟩, hexponent, hresult⟩
    obtain ⟨rfl, rfl⟩ := Prod.mk.inj (Option.some.inj hresult)
    exact ⟨afterWhole, afterFraction, hwhole, hfraction, hexponent, rfl⟩
  · rintro ⟨afterWhole, afterFraction, hwhole, hfraction, hexponent, rfl⟩
    exact ⟨_, hwhole, _, hfraction, _, hexponent, rfl⟩

theorem readToken_append {text tail rest : List Char} {token : Token} (h : EndsNumber rest)
    (hread : readToken text = some (token, tail)) :
    readToken (text ++ rest) = some (token, tail ++ rest) := by
  have hbody : ∀ negative body, readUnsigned negative body = some (token, tail) →
      readUnsigned negative (body ++ rest) = some (token, tail ++ rest) := by
    intro negative body hbody
    obtain ⟨afterWhole, afterFraction, hwhole, hfraction, hexponent, hsign⟩ :=
      readUnsigned_eq_some_iff.1 hbody
    exact readUnsigned_eq_some_iff.2 ⟨afterWhole ++ rest, afterFraction ++ rest,
      readWhole_append h hwhole, readFraction_append h hfraction,
      readExponent_append h hexponent, hsign⟩
  cases text with
  | nil =>
      simp [readToken, readWhole, Text.takeDigits] at hread
  | cons c more =>
      by_cases hminus : c = '-'
      · subst hminus
        exact hbody true more hread
      · rw [readToken_plain hminus] at hread
        rw [List.cons_append, readToken_plain hminus]
        exact hbody false (c :: more) hread

theorem readToken_head {text tail : List Char} {token : Token}
    (hread : readToken text = some (token, tail)) :
    ∃ c more, text = c :: more ∧ (c = '-' ∨ (Text.digit? 10 c).isSome) := by
  cases text with
  | nil =>
      simp [readToken, readWhole, Text.takeDigits] at hread
  | cons c more =>
      refine ⟨c, more, rfl, or_iff_not_imp_left.2 fun hminus => ?_⟩
      rw [readToken_plain hminus] at hread
      obtain ⟨afterWhole, -, hwhole, -⟩ := readUnsigned_eq_some_iff.1 hread
      rw [readWhole, Text.takeDigits] at hwhole
      cases hdigit : Text.digit? 10 c with
      | none =>
          simp [hdigit] at hwhole
      | some d =>
          rfl

/-! ## Tokens of integers -/

theorem digit?_digitChar {base d : Nat} (hbase : base ≤ 16) (hd : d < base) :
    Text.digit? base (Nat.digitChar d) = some d := by
  have hall : ∀ d < 16, ∀ base ≤ 16, d < base →
      Text.digit? base (Nat.digitChar d) = some d := by
    decide
  exact hall d (by omega) base hbase hd

theorem digitChar_ne_minus {d : Nat} (hd : d < 10) : Nat.digitChar d ≠ '-' := by
  intro hminus
  have hdigit := digit?_digitChar (by decide) hd
  rw [hminus] at hdigit
  simp [Text.digit?] at hdigit

/-- The digits of a number denote it, and the first of them is zero only alone. -/
theorem exists_digits (n : Nat) :
    ∃ first digits, Nat.toDigits 10 n = (first :: digits).map Nat.digitChar ∧
      (∀ d ∈ first :: digits, d < 10) ∧ Text.ofDigits 10 (first :: digits) = n ∧
      (first = 0 → digits = []) := by
  induction n using Nat.strongRecOn with
  | ind n ih =>
      rw [Nat.toDigits_eq_if (by decide)]
      split
      · next hlt =>
          refine ⟨n, [], rfl, ?_, ?_, fun _ => rfl⟩
          · simpa using hlt
          · simp [Text.ofDigits]
      · next hle =>
          obtain ⟨first, digits, hdigits, hsmall, hvalue, hzero⟩ := ih (n / 10) (by omega)
          refine ⟨first, digits ++ [n % 10], ?_, ?_, ?_, fun hfirst => ?_⟩
          · rw [hdigits]
            simp
          · intro d hd
            rw [← List.cons_append, List.mem_append, List.mem_singleton] at hd
            rcases hd with hold | rfl
            · exact hsmall d hold
            · omega
          · rw [Text.ofDigits] at hvalue
            rw [← List.cons_append, Text.ofDigits, List.foldl_append, hvalue]
            simp only [List.foldl_cons, List.foldl_nil]
            omega
          · rw [hfirst, hzero hfirst] at hvalue
            simp [Text.ofDigits] at hvalue
            omega

theorem takeDigits_map_append {digits : List Nat} (hdigits : ∀ d ∈ digits, d < 10)
    {rest : List Char} (hrest : ∀ c ∈ rest.head?, Text.digit? 10 c = none) :
    Text.takeDigits 10 (digits.map Nat.digitChar ++ rest) = (digits, rest) := by
  induction digits with
  | nil =>
      cases rest with
      | nil =>
          rfl
      | cons c tail =>
          rw [List.map_nil, List.nil_append, Text.takeDigits, hrest c rfl]
  | cons d digits ih =>
      rw [List.map_cons, List.cons_append, Text.takeDigits,
        digit?_digitChar (by decide) (hdigits d List.mem_cons_self),
        ih fun other hother => hdigits other (List.mem_cons_of_mem _ hother)]

theorem takeDigits_map {digits : List Nat} (h : ∀ d ∈ digits, d < 10) :
    Text.takeDigits 10 (digits.map Nat.digitChar) = (digits, []) := by
  rw [← List.append_nil (digits.map Nat.digitChar), takeDigits_map_append h (by simp)]

/-- The decimal digits of a number are read as a token of this number. -/
theorem readUnsigned_toDigits (negative : Bool) (n : Nat) :
    ∃ digits, readUnsigned negative (Nat.toDigits 10 n) =
      some (⟨negative, digits, none, none⟩, []) ∧ Text.ofDigits 10 digits = n := by
  obtain ⟨first, digits, hdigits, hsmall, hvalue, hzero⟩ := exists_digits n
  refine ⟨first :: digits, readUnsigned_eq_some_iff.2 ⟨[], [], ?_, rfl, rfl, rfl⟩, hvalue⟩
  rw [hdigits, readWhole, takeDigits_map hsmall]
  match first, digits, hzero with
  | 0, digits, hzero =>
      rw [hzero rfl]
      rfl
  | first + 1, digits, _ =>
      rfl

def ReadsNumber (text : List Char) (value : Json) : Prop :=
  ∃ token, readToken text = some (token, []) ∧ token.value? = some value

/-- An integer that fits is read back from its text. -/
theorem readsNumber_int {n : Int} (hlow : -2 ^ 63 ≤ n) (hhigh : n < 2 ^ 64) :
    ReadsNumber (toString n).toList (.int n) := by
  rw [Int.toString_eq_repr, Int.repr_eq_if]
  split
  · next hnonneg =>
      obtain ⟨digits, hread, hvalue⟩ := readUnsigned_toDigits false n.toNat
      obtain ⟨first, more, hdigits, hsmall, -⟩ := exists_digits n.toNat
      refine ⟨⟨false, digits, none, none⟩, ?_, ?_⟩
      · rw [Nat.toList_repr]
        rw [hdigits, List.map_cons] at hread ⊢
        rw [readToken_plain (digitChar_ne_minus (hsmall first List.mem_cons_self)), hread]
      · have hfits : n.toNat < 2 ^ 64 := by
          omega
        have hback : (n.toNat : Int) = n := Int.toNat_of_nonneg hnonneg
        rw [Token.value?]
        simp only [Option.isSome_none, Bool.or_self, Bool.false_eq_true, if_false, hvalue]
        rw [if_pos hfits, hback]
  · next hneg =>
      obtain ⟨digits, hread, hvalue⟩ := readUnsigned_toDigits true (-n).toNat
      refine ⟨⟨true, digits, none, none⟩, ?_, ?_⟩
      · rw [String.toList_append, Nat.toList_repr]
        exact hread
      · have hfits : (-n).toNat ≤ 2 ^ 63 := by
          omega
        have hsome : (-n).toNat ≠ 0 := by
          omega
        have hback : -((-n).toNat : Int) = n := by
          omega
        rw [Token.value?]
        simp only [Option.isSome_none, Bool.or_self, Bool.false_eq_true, if_false, if_true,
          hvalue]
        rw [if_neg hsome, if_pos hfits, hback]

end Json

end SlotGraph
