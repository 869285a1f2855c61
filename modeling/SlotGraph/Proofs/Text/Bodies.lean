import SlotGraph.Proofs.Text.Balance

/-!
# Bodies of brackets

The bracket at a byte offset is closed by the first bracket in front of which the text behind
it is balanced.  A text is a keyword and its body exactly if the bracket behind the keyword
closes at the end of the text, which the numbers of bytes tell.
-/

namespace SlotGraph

namespace Text

variable {offset : Nat} {keyword text body rest : List Char}

/-! ## Bytes -/

/-- The number of bytes of a text in its UTF-8 form. -/
def byteLength : List Char → Nat
  | [] => 0
  | c :: rest => c.utf8Size + byteLength rest

@[simp] theorem byteLength_nil : byteLength [] = 0 :=
  rfl

@[simp] theorem byteLength_cons (c : Char) (text : List Char) :
    byteLength (c :: text) = c.utf8Size + byteLength text :=
  rfl

@[simp] theorem byteLength_append (front back : List Char) :
    byteLength (front ++ back) = byteLength front + byteLength back := by
  induction front with
  | nil =>
      simp
  | cons c front ih =>
      simp [ih, Nat.add_assoc]

theorem byteLength_eq_zero_iff : byteLength text = 0 ↔ text = [] := by
  cases text with
  | nil =>
      simp
  | cons c text =>
      have hpos := c.utf8Size_pos
      simp only [byteLength_cons, reduceCtorEq, iff_false]
      omega

/-- Two texts at the front of a third are the same if they have as many bytes. -/
theorem eq_of_prefix_of_byteLength {front other : List Char} (hfront : front <+: text)
    (hother : other <+: text) (hlength : byteLength front = byteLength other) : front = other := by
  rcases List.prefix_or_prefix_of_prefix hfront hother with ⟨more, rfl⟩ | ⟨more, rfl⟩
  all_goals
    rw [byteLength_append] at hlength
    have hmore : more = [] := byteLength_eq_zero_iff.1 (by omega)
    simp [hmore]

/-! ## The bracket at an offset -/

theorem dropBytes?_eq_some_iff :
    dropBytes? offset text = some rest ↔
      ∃ front, text = front ++ rest ∧ byteLength front = offset := by
  fun_induction dropBytes? offset text with
  | case1 text =>
      simp [byteLength_eq_zero_iff]
  | case2 offset =>
      simp only [reduceCtorEq, false_iff, not_exists, not_and]
      rintro front hnil hlength
      obtain ⟨rfl, rfl⟩ := List.append_eq_nil_iff.1 hnil.symm
      simp at hlength
  | case3 offset c more hfits ih =>
      rw [ih]
      clear ih
      constructor
      · rintro ⟨front, rfl, hlength⟩
        refine ⟨c :: front, rfl, ?_⟩
        rw [byteLength_cons]
        omega
      · rintro ⟨front, htext, hlength⟩
        cases front with
        | nil =>
            simp at hlength
        | cons first front =>
            obtain ⟨rfl, rfl⟩ := List.cons.inj htext
            rw [byteLength_cons] at hlength
            exact ⟨front, rfl, by omega⟩
  | case4 offset c more hinside =>
      simp only [reduceCtorEq, false_iff, not_exists, not_and]
      rintro front htext hlength
      cases front with
      | nil =>
          simp at hlength
      | cons first front =>
          obtain ⟨rfl, rfl⟩ := List.cons.inj htext
          rw [byteLength_cons] at hlength
          omega

theorem generic_append (keyword body back : List Char) :
    generic keyword body ++ back = keyword ++ '[' :: (body ++ ']' :: back) := by
  simp [generic]

theorem bracketBody?_eq_some_iff :
    bracketBody? offset text = some body ↔
      ∃ front back, text = generic front body ++ back ∧ byteLength front = offset ∧
        balanced body = true := by
  simp only [bracketBody?, Option.map_eq_some_iff, Option.bind_eq_some_iff,
    dropBytes?_eq_some_iff]
  constructor
  · rintro ⟨⟨found, back⟩, ⟨rest, ⟨front, rfl, hlength⟩, hopening⟩, rfl⟩
    obtain ⟨rfl, hbody⟩ := openingBody?_eq_some_iff.1 hopening
    exact ⟨front, back, (generic_append _ _ _).symm, hlength, hbody⟩
  · rintro ⟨front, back, rfl, hlength, hbody⟩
    refine ⟨(body, back), ⟨'[' :: (body ++ ']' :: back), ⟨front, ?_, hlength⟩, ?_⟩, rfl⟩
    · exact generic_append front body back
    · exact openingBody?_eq_some_iff.2 ⟨rfl, hbody⟩

/-! ## A keyword in front of the bracket -/

@[simp] theorem byteLength_generic (keyword body : List Char) :
    byteLength (generic keyword body) = byteLength keyword + byteLength body + 2 := by
  have hopen : '['.utf8Size = 1 := rfl
  have hclose : ']'.utf8Size = 1 := rfl
  simp only [generic, byteLength_append, byteLength_cons, byteLength_nil, hopen, hclose]
  omega

/--
A keyword and its body are recognised by their lengths: the keyword is in front, and with it and
two brackets the body found at its end makes up all of the text.
-/
theorem unwrapGeneric?_eq_filter (keyword text : List Char) :
    unwrapGeneric? keyword text =
      (bracketBody? (byteLength keyword) text).filter fun body =>
        keyword.isPrefixOf text &&
          byteLength body + byteLength keyword + 2 == byteLength text := by
  ext body
  simp only [Option.filter_eq_some_iff, unwrapGeneric?_eq_some_iff, bracketBody?_eq_some_iff,
    Bool.and_eq_true, List.isPrefixOf_iff_prefix, beq_iff_eq]
  constructor
  · rintro ⟨rfl, hbody⟩
    refine ⟨⟨keyword, [], by simp, rfl, hbody⟩, List.prefix_append _ _, ?_⟩
    rw [byteLength_generic]
    omega
  · rintro ⟨⟨front, back, rfl, hlength, hbody⟩, hkeyword, htotal⟩
    obtain rfl : front = keyword := by
      refine eq_of_prefix_of_byteLength ?_ hkeyword hlength
      exact (List.prefix_append _ _).trans (List.prefix_append _ _)
    have hback : back = [] := by
      rw [byteLength_append, byteLength_generic] at htotal
      exact byteLength_eq_zero_iff.1 (by omega)
    rw [hback, List.append_nil]
    exact ⟨rfl, hbody⟩

/--
A text is recognised exactly if it is the keyword and one pair of brackets around a body in
which brackets pair up, and then with that body.  In `List[A]|List[B]` the bracket behind the
keyword has such a body, but it closes too early.
-/
theorem unwrapGeneric?_recognises (keyword text : List Char) :
    (∀ body, unwrapGeneric? keyword text = some body ↔
        text = generic keyword body ∧ Paired body) ∧
      (unwrapGeneric? keyword text = none ↔
        ∀ body, text = generic keyword body → ¬ Paired body) ∧
      ∀ body back, text = generic keyword body ++ back → Paired body → back ≠ [] →
        bracketBody? (byteLength keyword) text = some body ∧
          unwrapGeneric? keyword text = none := by
  have hfound : ∀ body, unwrapGeneric? keyword text = some body ↔
      text = generic keyword body ∧ Paired body := fun body => by
    rw [unwrapGeneric?_eq_some_iff, balanced_iff_paired]
  refine ⟨hfound, ?_, ?_⟩
  · simp only [Option.eq_none_iff_forall_ne_some, ne_eq, hfound, not_and]
  · rintro body back rfl hbody hback
    have hbracket : bracketBody? (byteLength keyword) (generic keyword body ++ back) = some body :=
      bracketBody?_eq_some_iff.2 ⟨keyword, back, rfl, rfl, balanced_iff_paired.2 hbody⟩
    have hmore : byteLength back ≠ 0 := mt byteLength_eq_zero_iff.1 hback
    have htotal : byteLength body + byteLength keyword + 2 ≠
        byteLength (generic keyword body ++ back) := by
      rw [byteLength_append, byteLength_generic]
      omega
    rw [unwrapGeneric?_eq_filter, hbracket, Option.filter_some, beq_eq_false_iff_ne.2 htotal,
      Bool.and_false]
    exact ⟨rfl, rfl⟩

theorem unwrapGeneric?_recognises_list :
    unwrapGeneric? "List".toList "List[Set[A]|Set[B]]".toList = some "Set[A]|Set[B]".toList ∧
      unwrapGeneric? "List".toList "List[A]]|List[[B]".toList = none ∧
      bracketBody? 4 "List[A]|List[B]".toList = some "A".toList ∧
      unwrapGeneric? "List".toList "List[A]|List[B]".toList = none := by
  obtain ⟨hfound, -, -⟩ := unwrapGeneric?_recognises "List".toList "List[Set[A]|Set[B]]".toList
  obtain ⟨-, -, hcrossed⟩ := unwrapGeneric?_recognises "List".toList "List[A]]|List[[B]".toList
  obtain ⟨-, -, hearly⟩ := unwrapGeneric?_recognises "List".toList "List[A]|List[B]".toList
  obtain ⟨hbody, hnone⟩ := hearly "A".toList "|List[B]".toList (by decide) (by decide) (by decide)
  exact ⟨(hfound _).2 ⟨by decide, by decide⟩,
    (hcrossed "A".toList "]|List[[B]".toList (by decide) (by decide) (by decide)).2, hbody, hnone⟩

end Text

end SlotGraph
