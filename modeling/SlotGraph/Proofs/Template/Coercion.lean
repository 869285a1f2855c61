import SlotGraph.Json.Reader
import SlotGraph.Template.Coercion

/-!
# Values of the kind that a slot asks for

A value reaches a slot or a value node in any form, as text too, and is coerced to the kind
asked for when it is used.  What comes out is of that kind and is its own coercion, but for
one case: text is read as JSON where a collection is asked for, and whatever it spells out
is handed on, a scalar as well.  A slot and a value node make the same of a value, unless an
optional slot is left out for it.
-/

namespace SlotGraph

namespace Json

theorem string?_eq_some_iff {value : Json} {text : String} :
    value.string? = some text ↔ value = .str text := by
  cases value <;> simp [string?]

/-! ## No text spells itself out -/

theorem length_lt_of_readHex4 {text rest : List Char} {unit : Nat}
    (h : readHex4 text = some (unit, rest)) : rest.length < text.length := by
  unfold readHex4 at h
  split at h
  · obtain ⟨digits, -, heq⟩ := Option.bind_eq_some_iff.1 h
    cases heq
    simp only [List.length_cons]
    omega
  · cases h

theorem length_lt_of_readUnicode {text rest : List Char} {c : Char}
    (h : readUnicode text = some (c, rest)) : rest.length < text.length := by
  obtain ⟨⟨unit, behind⟩, hunit, hrest⟩ := Option.bind_eq_some_iff.1 h
  have hbehind := length_lt_of_readHex4 hunit
  dsimp only at hrest
  split at hrest
  · split at hrest
    · obtain ⟨⟨low, last⟩, hlow, hpair⟩ := Option.bind_eq_some_iff.1 hrest
      have hlast := length_lt_of_readHex4 hlow
      simp only [List.length_cons] at hbehind
      dsimp only at hpair
      split at hpair
      · obtain ⟨-, rfl⟩ := Prod.mk.inj (Option.some.inj hpair)
        omega
      · cases hpair
    · cases hrest
  · split at hrest
    · cases hrest
    · cases hrest
      exact hbehind

theorem length_lt_of_readEscape {text rest : List Char} {c : Char}
    (h : readEscape text = some (c, rest)) : rest.length < text.length := by
  unfold readEscape at h
  split at h
  case h_9 more =>
    exact Nat.lt_succ_of_lt (length_lt_of_readUnicode h)
  case h_10 =>
    cases h
  all_goals
    cases h
    exact Nat.lt_succ_self _

/-- Each character of a string takes at least one of its text, and the closing quote one more. -/
theorem length_lt_of_readCharacters {limit : Nat} {done text rest : List Char} {s : String}
    (h : readCharacters limit done text = some (s, rest)) :
    s.length + rest.length < done.length + text.length := by
  induction limit generalizing done text with
  | zero =>
      cases h
  | succ limit ih =>
      cases text with
      | nil =>
          cases h
      | cons c text =>
          rw [readCharacters] at h
          split at h
          · cases h
            simp
          · split at h
            · obtain ⟨⟨plain, behind⟩, hplain, hrest⟩ := Option.bind_eq_some_iff.1 h
              have hbehind := length_lt_of_readEscape hplain
              have hlater := ih hrest
              simp only [List.length_cons] at hlater ⊢
              omega
            · split at h
              · cases h
              · have hlater := ih h
                simp only [List.length_cons] at hlater ⊢
                omega

theorem Token.value?_ne_str (token : Token) (s : String) : token.value? ≠ some (.str s) := by
  have hfloat : token.float? ≠ some (.str s) := by
    simp only [Token.float?]
    split <;> simp
  simp only [Token.value?]
  repeat' split
  all_goals first | exact hfloat | simp

theorem length_lt_of_readValue {limit : Nat} {text rest : List Char} {s : String}
    (h : readValue (limit + 1) text = some (.str s, rest)) : s.length < text.length := by
  rw [readValue.eq_def] at h
  dsimp only at h
  split at h
  case h_4 more =>
    obtain ⟨⟨read, behind⟩, hread, heq⟩ := Option.map_eq_some_iff.1 h
    cases heq
    have hlength := length_lt_of_readCharacters hread
    simp only [List.length_nil, List.length_cons] at hlength ⊢
    omega
  case h_5 | h_6 =>
    split at h
    · cases h
    · obtain ⟨pair, -, heq⟩ := Option.map_eq_some_iff.1 h
      cases heq
  case h_7 =>
    obtain ⟨⟨token, behind⟩, -, hvalue⟩ := Option.bind_eq_some_iff.1 h
    obtain ⟨number, hnumber, heq⟩ := Option.map_eq_some_iff.1 hvalue
    cases heq
    exact absurd hnumber (token.value?_ne_str s)
  all_goals
    cases h

theorem length_dropMark_le (text : List Char) : (dropMark text).length ≤ text.length := by
  unfold dropMark
  split
  · exact Nat.le_succ _
  · exact Nat.le_refl _

theorem parse?_ne_self (text : String) : parse? text ≠ some (.str text) := by
  intro h
  simp only [parse?] at h
  split at h
  case h_1 value rest hread =>
    split at h
    · cases h
      have hbody : (skipSpace (dropMark text.toList)).length ≤ text.length :=
        Nat.le_trans (List.dropWhile_sublist _).length_le (length_dropMark_le _)
      exact absurd (length_lt_of_readValue hread) (Nat.not_lt.2 hbody)
    · cases h
  case h_2 =>
    cases h

end Json

namespace NativeKind

/-! ## The kind of a value -/

/-- Whether a value is of a kind; a slot for text takes every value but `null`. -/
def holds : NativeKind → Json → Bool
  | .string, value => !value.isNull
  | .integer, value => value.integer?.isSome
  | .float, .float _ => true
  | .boolean, .bool _ => true
  | .float, _ | .boolean, _ => false
  | .dict, value | .list, value | .set, value | .tuple, value => value.isStructured

/-- The scalar that a text spells out where a collection is asked for. -/
def scalarRead? (kind : NativeKind) (value : Json) : Option Json :=
  if kind.isCollection then
    (value.string?.bind Json.parse?).filter fun read => !read.isStructured
  else
    none

/-- The ways to coerce a value: in a required slot, in an optional one, and in a value node. -/
def coercions (kind : NativeKind) : List (Json → Option Json) :=
  [kind.coerceInput? false, kind.coerceInput? true, fun value => some (kind.coerceProperty value)]

theorem eq_of_mem_coercions {kind : NativeKind} {coerce : Json → Option Json}
    (h : coerce ∈ kind.coercions) :
    (∃ optional, coerce = kind.coerceInput? optional) ∨
      coerce = fun value => some (kind.coerceProperty value) := by
  simp only [coercions, List.mem_cons, List.not_mem_nil, or_false] at h
  obtain rfl | rfl | rfl := h
  · exact Or.inl ⟨false, rfl⟩
  · exact Or.inl ⟨true, rfl⟩
  · exact Or.inr rfl

/-- What a kind other than the boolean one makes of a value that is not empty. -/
def convert (kind : NativeKind) (value : Json) : Json :=
  match kind with
  | .integer => toInteger value
  | .float => toFloat value
  | .string | .boolean => value
  | .dict | .list | .set | .tuple => kind.toCollection value

theorem convert_of_isCollection {kind : NativeKind} (hkind : kind.isCollection = true)
    (value : Json) : kind.convert value = kind.toCollection value := by
  cases kind <;> first | rfl | cases hkind

theorem coerceInput?_of_not_blank {kind : NativeKind} (hkind : kind ≠ .boolean)
    (optional : Bool) {value : Json} (hblank : isBlankValue value = false) :
    kind.coerceInput? optional value = some (kind.convert value) := by
  cases kind with
  | boolean =>
      exact absurd rfl hkind
  | _ =>
      show (if isBlankValue value = true then _ else _) = _
      rw [hblank]
      rfl

theorem coerceProperty_of_not_blank {kind : NativeKind} (hkind : kind ≠ .boolean) {value : Json}
    (hblank : isBlankValue value = false) : kind.coerceProperty value = kind.convert value := by
  unfold coerceProperty
  rw [if_neg hkind, hblank, if_neg Bool.false_ne_true]
  cases kind with
  | boolean =>
      exact absurd rfl hkind
  | _ =>
      rfl

theorem coerceInput?_of_ne {kind : NativeKind} (hkind : kind ≠ .boolean) (optional : Bool)
    (value : Json) :
    kind.coerceInput? optional value =
      if isBlankValue value then (if optional then none else some kind.zero)
      else some (kind.convert value) := by
  split
  · cases kind <;> first | exact absurd rfl hkind | exact if_pos ‹_›
  · exact coerceInput?_of_not_blank hkind optional (Bool.eq_false_iff.2 ‹_›)

/-- What a value node makes of a value, apart from a boolean one. -/
theorem coerceProperty_of_ne {kind : NativeKind} (hkind : kind ≠ .boolean) (value : Json) :
    kind.coerceProperty value =
      if isBlankValue value then kind.zero else kind.convert value := by
  split
  · unfold coerceProperty
    rw [if_neg hkind, if_pos ‹_›]
  · exact coerceProperty_of_not_blank hkind (Bool.eq_false_iff.2 ‹_›)

/-- Apart from the boolean kind, coercions differ in what they make of an empty value. -/
theorem exists_coercion_eq {kind : NativeKind} (hkind : kind ≠ .boolean)
    {coerce : Json → Option Json} (hcoerce : coerce ∈ kind.coercions) :
    ∃ empty, (empty = none ∨ empty = some kind.zero) ∧ ∀ value,
      coerce value = if isBlankValue value then empty else some (kind.convert value) := by
  rcases eq_of_mem_coercions hcoerce with ⟨optional, rfl⟩ | rfl
  · refine ⟨_, ?_, coerceInput?_of_ne hkind optional⟩
    cases optional <;> simp
  · refine ⟨_, Or.inr rfl, fun value => ?_⟩
    show some (kind.coerceProperty value) = _
    rw [coerceProperty_of_ne hkind, apply_ite some]

theorem coerceInput?_boolean (optional : Bool) {value : Json}
    (hvalue : ∀ b, value ≠ .bool b) (htext : value.string? ≠ some "true") :
    boolean.coerceInput? optional value = if optional then none else some (.bool false) := by
  cases value with
  | bool b =>
      exact absurd rfl (hvalue b)
  | _ =>
      exact (if_neg htext : ite _ (some (Json.bool true))
        (if optional then none else some (Json.bool false)) = _)

theorem exists_bool_of_coerceInput? {optional : Bool} {value result : Json}
    (h : boolean.coerceInput? optional value = some result) : ∃ b, result = .bool b := by
  by_cases hvalue : ∃ b, value = .bool b
  · obtain ⟨b, rfl⟩ := hvalue
    exact ⟨b, (Option.some.inj h).symm⟩
  · by_cases htext : value.string? = some "true"
    · cases value with
      | str text =>
          exact ⟨true, (Option.some.inj ((if_pos htext).symm.trans h)).symm⟩
      | _ =>
          cases htext
    · rw [coerceInput?_boolean optional (not_exists.1 hvalue) htext] at h
      split at h
      · cases h
      · exact ⟨false, (Option.some.inj h).symm⟩

theorem exists_of_boolean_coercion {coerce : Json → Option Json}
    (hcoerce : coerce ∈ boolean.coercions) {value result : Json} (h : coerce value = some result) :
    ∃ b, result = .bool b ∧ coerce result = some result := by
  rcases eq_of_mem_coercions hcoerce with ⟨optional, rfl⟩ | rfl
  · obtain ⟨b, rfl⟩ := exists_bool_of_coerceInput? h
    exact ⟨b, rfl, rfl⟩
  · rw [← Option.some.inj h]
    cases value <;> exact ⟨_, rfl, rfl⟩

theorem holds_zero (kind : NativeKind) : kind.holds kind.zero = true := by
  cases kind <;> rfl

theorem scalarRead?_of_blank (kind : NativeKind) {value : Json}
    (hblank : isBlankValue value = true) : kind.scalarRead? value = none := by
  have hunread : value.string?.bind Json.parse? = none := by
    cases value with
    | str text =>
        obtain rfl := eq_of_beq hblank
        rfl
    | _ =>
        rfl
  rw [scalarRead?, hunread]
  split <;> rfl

theorem isStructured_emptyCollection (kind : NativeKind) :
    kind.emptyCollection.isStructured = true := by
  cases kind <;> rfl

theorem isStructured_toCollection_iff {kind : NativeKind} (hkind : kind.isCollection = true)
    (value : Json) :
    (kind.toCollection value).isStructured = true ↔ kind.scalarRead? value = none := by
  have hempty := isStructured_emptyCollection kind
  rw [scalarRead?, if_pos hkind]
  cases value with
  | str text =>
      show ((Json.parse? text).getD _).isStructured = true ↔ (Json.parse? text).filter _ = none
      cases Json.parse? text with
      | none =>
          exact iff_of_true hempty rfl
      | some read =>
          simp [Option.filter_eq_none_iff]
  | arr | obj =>
      exact iff_of_true rfl rfl
  | _ =>
      exact iff_of_true hempty rfl

/-- What is made of a value that is not empty is of the kind, except for a scalar spelled out. -/
theorem holds_convert_iff {kind : NativeKind} (hkind : kind ≠ .boolean) {value : Json}
    (hblank : isBlankValue value = false) :
    kind.holds (kind.convert value) = true ↔ kind.scalarRead? value = none := by
  cases kind with
  | boolean =>
      exact absurd rfl hkind
  | string =>
      refine iff_of_true ?_ rfl
      cases value <;> first | rfl | cases hblank
  | integer | float =>
      refine iff_of_true ?_ rfl
      cases value <;> rfl
  | dict | list | set | tuple =>
      exact isStructured_toCollection_iff rfl value

theorem convert_of_scalarRead? {kind : NativeKind} {value scalar : Json}
    (h : kind.scalarRead? value = some scalar) : kind.convert value = scalar := by
  unfold scalarRead? at h
  split at h
  case isFalse =>
    cases h
  case isTrue hkind =>
    obtain ⟨hread, -⟩ := Option.filter_eq_some_iff.1 h
    obtain ⟨text, htext, hscalar⟩ := Option.bind_eq_some_iff.1 hread
    cases value with
    | str =>
        cases htext
        rw [convert_of_isCollection hkind, toCollection, hscalar, Option.getD_some]
    | _ =>
        cases htext

theorem convert_eq_self_iff {kind : NativeKind} (hkind : kind ≠ .boolean) {value : Json}
    (hblank : isBlankValue value = false) :
    kind.convert value = value ↔ kind.holds value = true := by
  cases kind with
  | boolean =>
      exact absurd rfl hkind
  | string =>
      refine iff_of_true rfl ?_
      cases value <;> first | rfl | cases hblank
  | integer =>
      cases value <;> simp [convert, toInteger, holds, Json.integer?]
  | float =>
      cases value <;> simp [convert, toFloat, holds]
  | dict | list | set | tuple =>
      cases value with
      | str text =>
          refine iff_of_false (fun hself => ?_) Bool.false_ne_true
          change (Json.parse? text).getD _ = .str text at hself
          cases hread : Json.parse? text with
          | none =>
              rw [hread] at hself
              cases hself
          | some read =>
              rw [hread, Option.getD_some] at hself
              exact Json.parse?_ne_self text (hself ▸ hread)
      | _ =>
          simp [convert, toCollection, emptyCollection, Json.emptyArray, Json.emptyObject, holds,
            Json.isStructured]

theorem not_holds_convert_of_blank {kind : NativeKind} (hkind : kind ≠ .boolean) {value : Json}
    (hblank : isBlankValue value = false) (hempty : isBlankValue (kind.convert value) = true) :
    kind.holds (kind.convert value) = false := by
  cases kind with
  | boolean =>
      exact absurd rfl hkind
  | string =>
      exact absurd (hblank.symm.trans hempty) Bool.false_ne_true
  | integer | float =>
      cases value <;> cases hempty
  | dict | list | set | tuple =>
      revert hempty
      show isBlankValue (toCollection _ value) = true → (toCollection _ value).isStructured = false
      cases toCollection _ value <;> first | exact fun _ => rfl | exact nofun

section Coercions

variable {kind : NativeKind} {coerce : Json → Option Json} {value result : Json}

/-- Coercing again changes nothing exactly if the result is of the kind. -/
theorem coercion_self_iff (hkind : kind ≠ .boolean) (hcoerce : coerce ∈ kind.coercions)
    (h : coerce value = some result) :
    coerce result = some result ↔ kind.holds result = true := by
  obtain ⟨empty, hempty, heq⟩ := exists_coercion_eq hkind hcoerce
  cases hresult : isBlankValue result with
  | false =>
      rw [heq result, hresult, if_neg Bool.false_ne_true, Option.some.injEq]
      exact convert_eq_self_iff hkind hresult
  | true =>
      rw [heq result, if_pos hresult]
      constructor
      · intro hkept
        obtain rfl : result = kind.zero := by
          rcases hempty with hnone | hzero
          · cases hnone.symm.trans hkept
          · exact Option.some.inj (hkept.symm.trans hzero)
        exact holds_zero kind
      · intro hholds
        rw [heq value] at h
        split at h
        case isTrue =>
          exact h
        case isFalse hvalue =>
          rw [← Option.some.inj h] at hresult hholds
          have hnot := not_holds_convert_of_blank hkind (Bool.eq_false_iff.2 hvalue) hresult
          exact absurd (hnot.symm.trans hholds) Bool.false_ne_true

/-- A coercion misses the kind exactly if it hands on a scalar that the text spells out. -/
theorem coercion_holds_iff (hkind : kind ≠ .boolean) (hcoerce : coerce ∈ kind.coercions)
    (h : coerce value = some result) :
    (kind.holds result = true ↔ kind.scalarRead? value = none) ∧
      ∀ scalar, kind.scalarRead? value = some scalar → result = scalar := by
  obtain ⟨empty, hempty, heq⟩ := exists_coercion_eq hkind hcoerce
  rw [heq value] at h
  split at h
  case isTrue hblank =>
    have hunread := scalarRead?_of_blank kind hblank
    have hzero : result = kind.zero := by
      rcases hempty with rfl | rfl
      · cases h
      · exact (Option.some.inj h).symm
    refine ⟨iff_of_true (hzero ▸ holds_zero kind) hunread, fun scalar hscalar => ?_⟩
    cases hunread.symm.trans hscalar
  case isFalse hblank =>
    obtain rfl := Option.some.inj h
    exact ⟨holds_convert_iff hkind (Bool.eq_false_iff.2 hblank),
      fun scalar hscalar => convert_of_scalarRead? hscalar⟩

end Coercions

/--
Whatever is given for a slot or a value node, what is made of it is of the kind asked for, and
stays what it is when it is coerced again.  The exception is a text that spells out a scalar
where a collection is asked for: that scalar is handed on, and does not stay.
-/
theorem coerced_of_kind_iff {kind : NativeKind} {coerce : Json → Option Json}
    (hcoerce : coerce ∈ kind.coercions) {value result : Json} (h : coerce value = some result) :
    (kind.holds result = true ↔ kind.scalarRead? value = none) ∧
      (coerce result = some result ↔ kind.scalarRead? value = none) ∧
      ∀ scalar, kind.scalarRead? value = some scalar → result = scalar := by
  by_cases hkind : kind = .boolean
  · subst hkind
    obtain ⟨b, rfl, hstays⟩ := exists_of_boolean_coercion hcoerce h
    exact ⟨iff_of_true rfl rfl, iff_of_true hstays rfl, nofun⟩
  · obtain ⟨hholds, hscalar⟩ := coercion_holds_iff hkind hcoerce h
    exact ⟨hholds, (coercion_self_iff hkind hcoerce h).trans hholds, hscalar⟩

/-- An array that is spelled out is taken; the number five is handed on in place of a list. -/
theorem coerced_of_kind_iff_list :
    NativeKind.list.coerceInput? false (.str "[5]") = some (.arr [.int 5]) ∧
      NativeKind.list.coerceInput? false (.arr [.int 5]) = some (.arr [.int 5]) ∧
      NativeKind.list.holds (.arr [.int 5]) = true ∧
      NativeKind.list.coerceInput? false (.str "5") = some (.int 5) ∧
      NativeKind.list.coerceInput? false (.int 5) ≠ some (.int 5) ∧
      NativeKind.list.holds (.int 5) = false := by
  have hlist : NativeKind.list.coerceInput? false (.str "[5]") = some (.arr [.int 5]) := rfl
  have hnumber : NativeKind.list.coerceInput? false (.str "5") = some (.int 5) := rfl
  have hcoerce : NativeKind.list.coerceInput? false ∈ NativeKind.list.coercions :=
    List.mem_cons_self
  have hunread : NativeKind.list.scalarRead? (.str "[5]") = none := rfl
  have hread : NativeKind.list.scalarRead? (.str "5") = some (.int 5) := rfl
  obtain ⟨hholds, hstays, -⟩ := coerced_of_kind_iff hcoerce hlist
  obtain ⟨hmisses, hmoves, -⟩ := coerced_of_kind_iff hcoerce hnumber
  rw [hread] at hmisses hmoves
  refine ⟨hlist, hstays.2 hunread, hholds.2 hunread, hnumber, ?_, ?_⟩
  · exact fun hkept => nomatch hmoves.1 hkept
  · exact Bool.eq_false_iff.2 fun hheld => nomatch hmisses.1 hheld

/-! ## What a slot takes and what a value node puts out -/

/--
Whether an optional slot is left out for a value: it is for an empty one, and a boolean slot is
for all but booleans and the text `true`.
-/
def LeftOut (kind : NativeKind) (value : Json) : Prop :=
  value = .null ∨ value = .str "" ∨
    kind = .boolean ∧ (∀ b, value ≠ .bool b) ∧ value ≠ .str "true"

section Slots

variable {kind : NativeKind} {optional : Bool} {value : Json}

theorem isBlankValue_iff : isBlankValue value = true ↔ value = .null ∨ value = .str "" := by
  cases value <;> simp [isBlankValue]

theorem LeftOut.of_blank (h : isBlankValue value = true) : kind.LeftOut value :=
  (isBlankValue_iff.1 h).elim Or.inl fun htext => Or.inr (Or.inl htext)

theorem LeftOut.unclear (h : boolean.LeftOut value) :
    (∀ b, value ≠ .bool b) ∧ value ≠ .str "true" := by
  rcases h with rfl | rfl | ⟨-, h⟩
  · simp
  · simp
  · exact h

theorem LeftOut.isBlankValue (hkind : kind ≠ .boolean) (h : kind.LeftOut value) :
    isBlankValue value = true := by
  rcases h with rfl | rfl | ⟨hboolean, -⟩
  · rfl
  · rfl
  · exact absurd hboolean hkind

theorem coerceInput?_of_leftOut (h : kind.LeftOut value) : kind.coerceInput? true value = none := by
  by_cases hkind : kind = .boolean
  · subst hkind
    obtain ⟨hvalue, htext⟩ := h.unclear
    exact coerceInput?_boolean true hvalue (mt Json.string?_eq_some_iff.1 htext)
  · rw [coerceInput?_of_ne hkind, if_pos (h.isBlankValue hkind)]
    rfl

theorem coerceProperty_boolean (hvalue : ∀ b, value ≠ .bool b) (htext : value ≠ .str "true") :
    boolean.coerceProperty value = .bool false := by
  cases value with
  | bool b =>
      exact absurd rfl (hvalue b)
  | str text =>
      have hother : (text == "true") = false :=
        beq_eq_false_iff_ne.2 fun heq => htext (heq ▸ rfl)
      exact congrArg Json.bool hother
  | _ =>
      rfl

/-- Unless it is left out, a slot makes of a value what a value node makes of it. -/
theorem coerceInput?_of_kept (h : optional = true → ¬ kind.LeftOut value) :
    kind.coerceInput? optional value = some (kind.coerceProperty value) := by
  by_cases hkind : kind = .boolean
  · subst hkind
    by_cases hbool : ∃ b, value = .bool b
    · obtain ⟨b, rfl⟩ := hbool
      rfl
    · by_cases htext : value = .str "true"
      · subst htext
        rfl
      · have hvalue := not_exists.1 hbool
        have hrequired : optional = false :=
          Bool.eq_false_iff.2 fun hoptional =>
            h hoptional (Or.inr (Or.inr ⟨rfl, hvalue, htext⟩))
        rw [coerceInput?_boolean optional hvalue (mt Json.string?_eq_some_iff.1 htext), hrequired,
          coerceProperty_boolean hvalue htext]
        rfl
  · rw [coerceInput?_of_ne hkind, coerceProperty_of_ne hkind]
    split
    case isTrue hblank =>
      exact if_neg fun hoptional => h hoptional (LeftOut.of_blank hblank)
    case isFalse =>
      rfl

end Slots

/--
A value that is typed into a required slot counts as what a value node puts out for it, and so
it does in an optional slot, unless the slot is left out for it.
-/
theorem coercions_agree (kind : NativeKind) (value : Json) :
    kind.coerceInput? false value = some (kind.coerceProperty value) ∧
      (kind.coerceInput? true value = none ↔ kind.LeftOut value) ∧
      (kind.coerceInput? true value = none ∨
        kind.coerceInput? true value = some (kind.coerceProperty value)) := by
  have hrequired : kind.coerceInput? false value = some (kind.coerceProperty value) :=
    coerceInput?_of_kept nofun
  by_cases hleft : kind.LeftOut value
  · have hnone := coerceInput?_of_leftOut hleft
    exact ⟨hrequired, iff_of_true hnone hleft, Or.inl hnone⟩
  · have hsome : kind.coerceInput? true value = some (kind.coerceProperty value) :=
      coerceInput?_of_kept fun _ => hleft
    have hkept : kind.coerceInput? true value ≠ none := fun hnone => nomatch hsome.symm.trans hnone
    exact ⟨hrequired, iff_of_false hkept hleft, Or.inr hsome⟩

/-- To a boolean slot `yes` is no boolean: it counts as false, or the slot is left out. -/
example : boolean.coerceInput? false (.str "yes") = some (boolean.coerceProperty (.str "yes")) ∧
    boolean.coerceProperty (.str "yes") = .bool false ∧
    boolean.coerceInput? true (.str "yes") = none :=
  ⟨rfl, rfl, rfl⟩

end NativeKind

end SlotGraph
