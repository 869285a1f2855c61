import SlotGraph.Proofs.Text.Pieces

/-!
# Joining and cutting

Texts are joined with a separator between them, and a text is cut at the separators that no
bracket encloses.  Where each text begins and ends with something to be seen, closes the
brackets that it opens and keeps separators inside of them, cutting undoes joining.
-/

namespace SlotGraph

namespace Text

open TypeExpr (joinWith)

variable {separator : Char} {text : List Char}

/-! ## The top level -/

/-- A character is nowhere at the top level if in front of each of its places the numbers of
brackets that open and that close differ. -/
theorem containsAt_eq_false_iff (hplain : depthChange separator = 0) {depth : Int} :
    containsAt separator depth text = false ↔
      ∀ front back, text = front ++ separator :: back →
        depth + (front.count '[' - front.count ']') ≠ 0 := by
  induction text generalizing depth with
  | nil =>
      simp [containsAt]
  | cons c rest ih =>
      simp only [containsAt, Bool.or_eq_false_iff, decide_eq_false_iff_not, ih]
      constructor
      · rintro ⟨hhere, hlater⟩ front back htext
        cases front with
        | nil =>
            obtain ⟨rfl, rfl⟩ := List.cons.inj htext
            rw [hplain] at hhere
            simpa using hhere
        | cons first front =>
            obtain ⟨rfl, rfl⟩ := List.cons.inj htext
            have hrest := hlater front back rfl
            rwa [count_cons_brackets, ← Int.add_assoc]
      · intro h
        refine ⟨?_, fun front back hrest => ?_⟩
        · rintro ⟨rfl, hzero⟩
          refine h [] rest rfl ?_
          rw [hplain] at hzero
          simpa using hzero
        · have hlater := h (c :: front) back (hrest ▸ rfl)
          rwa [count_cons_brackets, ← Int.add_assoc] at hlater

theorem containsTop_eq_false_iff (hplain : depthChange separator = 0) :
    containsTop separator text = false ↔
      ∀ front back, text = front ++ separator :: back → front.count '[' ≠ front.count ']' := by
  rw [containsTop, containsAt_eq_false_iff hplain]
  refine forall₃_congr fun front back _ => ?_
  omega

/-! ## Texts that can be joined -/

/-- Whether a text can stand between two separators. -/
structure Joinable (separator : Char) (text : List Char) : Prop where
  ne_nil : text ≠ []
  front : ∀ c ∈ text.head?, isBlank c = false
  back : ∀ c ∈ text.getLast?, isBlank c = false
  paired : Paired text
  /-- Where the separator stands, brackets are open. -/
  enclosed : ∀ before behind, text = before ++ separator :: behind →
    before.count '[' ≠ before.count ']'

namespace Joinable

theorem balanced (h : Joinable separator text) : Text.balanced text = true :=
  balanced_iff_paired.2 h.paired

theorem containsTop_eq (hplain : depthChange separator = 0) (h : Joinable separator text) :
    containsTop separator text = false :=
  (containsTop_eq_false_iff hplain).2 h.enclosed

theorem splitTop_eq (hplain : depthChange separator = 0) (h : Joinable separator text) :
    splitTop separator text = [text] :=
  splitTop_of_containsTop (trim_eq_self h.front h.back) h.ne_nil (h.containsTop_eq hplain)

end Joinable

/-- Whether a text can stand between two separators is told by looking through it. -/
theorem joinable_iff (hplain : depthChange separator = 0) :
    Joinable separator text ↔
      text ≠ [] ∧ text.head?.all (fun c => !isBlank c) = true ∧
        text.getLast?.all (fun c => !isBlank c) = true ∧ balanced text = true ∧
        containsTop separator text = false := by
  have hends : ∀ found : Option Char, found.all (fun c => !isBlank c) = true ↔
      ∀ c ∈ found, isBlank c = false := fun found => by
    simp only [Option.all_eq_true, Bool.not_eq_true', Option.mem_def]
  rw [hends, hends, balanced_iff_paired, containsTop_eq_false_iff hplain]
  constructor
  · exact fun h => ⟨h.ne_nil, h.front, h.back, h.paired, h.enclosed⟩
  · exact fun ⟨hne, hfront, hback, hpaired, henclosed⟩ =>
      ⟨hne, hfront, hback, hpaired, henclosed⟩

/-! ## Cutting what was joined -/

/-- Texts without a separator at the top level are joined to one that has it as soon as there
are two of them. -/
theorem containsTop_joinWith_iff (hplain : depthChange separator = 0) {texts : List (List Char)}
    (hbalanced : ∀ text ∈ texts, balanced text = true)
    (hnone : ∀ text ∈ texts, containsTop separator text = false) :
    containsTop separator (joinWith separator texts) = true ↔ 2 ≤ texts.length := by
  match texts with
  | [] =>
      simp [joinWith, containsTop, containsAt]
  | [text] =>
      simp [joinWith, hnone text List.mem_cons_self]
  | first :: second :: rest =>
      refine iff_of_true ?_ (by simp)
      exact containsTop_joinWith_self hplain rest (hbalanced first List.mem_cons_self)

/--
Texts that are joined are found again when the joined text is cut, and that text has a
separator at its top level exactly if there were two texts at least.
-/
theorem splitTop_joined {texts : List (List Char)} (hopen : separator ≠ '[')
    (hclose : separator ≠ ']') (h : ∀ text ∈ texts, Joinable separator text) :
    splitTop separator (joinWith separator texts) = texts ∧
      (containsTop separator (joinWith separator texts) = true ↔ 2 ≤ texts.length) := by
  have hplain : depthChange separator = 0 := depthChange_of_ne hopen hclose
  have hbalanced : ∀ text ∈ texts, balanced text = true := fun text htext => (h text htext).balanced
  constructor
  · exact splitTop_joinWith_self hplain hbalanced fun text htext => (h text htext).splitTop_eq hplain
  · exact containsTop_joinWith_iff hplain hbalanced fun text htext =>
      (h text htext).containsTop_eq hplain

/-- Commas and blanks inside of a text stay in it. -/
theorem splitTop_joined_arguments :
    splitTop ',' "Dict[str, Tool],List[A]|Set[B,C],x y".toList =
        ["Dict[str, Tool]".toList, "List[A]|Set[B,C]".toList, "x y".toList] ∧
      containsTop ',' "Dict[str, Tool],List[A]|Set[B,C],x y".toList = true := by
  have hplain : depthChange ',' = 0 := by
    decide
  have hjoinable : ∀ text ∈ ["Dict[str, Tool]".toList, "List[A]|Set[B,C]".toList, "x y".toList],
      Joinable ',' text := by
    simp only [joinable_iff hplain]
    decide +kernel
  obtain ⟨hparts, htop⟩ := splitTop_joined (by decide) (by decide) hjoinable
  have hjoined : joinWith ','
      ["Dict[str, Tool]".toList, "List[A]|Set[B,C]".toList, "x y".toList] =
        "Dict[str, Tool],List[A]|Set[B,C],x y".toList := by
    decide +kernel
  rw [hjoined] at hparts htop
  exact ⟨hparts, htop.2 (by decide)⟩

end Text

end SlotGraph
