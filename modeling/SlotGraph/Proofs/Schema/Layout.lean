import Mathlib.Logic.Relation
import SlotGraph.Proofs.Schema.Composition

/-!
# Layout of a source

Blank lines, comments, blanks behind a line and a line feed at the end carry nothing: a
source that differs from another one in these alone declares the same classes, and the same
lines of it are passed over, under other numbers.
-/

namespace SlotGraph

/-- An issue without the number of the line that it is about. -/
def Issue.unnumbered : Issue → Issue
  | .skippedLine _ text => .skippedLine 0 text
  | issue => issue

namespace Schema

/-- Whether a line is blank, or a comment behind any number of blanks. -/
def IsLayout (line : List Char) : Prop :=
  (∀ c ∈ line, Text.isBlank c = true) ∨
    ∃ blanks comment, line = blanks ++ '#' :: comment ∧ ∀ c ∈ blanks, Text.isBlank c = true

/-- Whether the second source is the first one with one piece of layout more.  A line has no
line feed, so the line put in and the blanks put behind one have none either. -/
inductive Relaid : String → String → Prop where
  /-- A blank line or a comment is put in somewhere. -/
  | insert {source other : String} (before after : List (List Char)) (line : List Char)
      (hline : IsLayout line) (hsource : lines source.toList = before ++ after)
      (hother : lines other.toList = before ++ line :: after) : Relaid source other
  /-- Blanks are put behind some line. -/
  | append {source other : String} (before after : List (List Char)) (line blanks : List Char)
      (hblanks : ∀ c ∈ blanks, Text.isBlank c = true)
      (hsource : lines source.toList = before ++ line :: after)
      (hother : lines other.toList = before ++ (line ++ blanks) :: after) : Relaid source other
  /-- The last line is ended. -/
  | finish (source : String) : Relaid source (source ++ "\n")

/-! ## Lines that differ in layout -/

theorem classify_of_isLayout {line : List Char} (h : IsLayout line) :
    Line.classify line = .blank := by
  refine classify_of_not_isStatement ?_
  rcases h with hblank | ⟨blanks, comment, rfl, hblanks⟩
  · have hnil : Text.trim line = [] := Text.trim_append_blanks hblank []
    rw [isStatement, hnil]
    rfl
  · rw [isStatement, Text.trim_blanks_append hblanks, Text.head?_trim_cons rfl]
    rfl

/-- What a line is does not depend on the blanks behind it: its first character is looked at
only where there is something else in it. -/
theorem classify_append_blanks (line : List Char) {blanks : List Char}
    (h : ∀ c ∈ blanks, Text.isBlank c = true) :
    Line.classify (line ++ blanks) = Line.classify line := by
  have htrim : Text.trim (line ++ blanks) = Text.trim line := Text.trim_append_blanks h line
  by_cases hempty : Text.trim line = []
  · have hnone : ∀ raw, Text.trim raw = [] → Line.classify raw = .blank := fun raw hraw =>
      classify_of_not_isStatement (by rw [isStatement, hraw]; rfl)
    rw [hnone line hempty, hnone _ (htrim.trans hempty)]
  · have hne : line ≠ [] := by
      rintro rfl
      exact hempty rfl
    have hhead : (dropReturn (line ++ blanks)).head? = (dropReturn line).head? := by
      rw [head?_dropReturn hempty, head?_dropReturn (htrim ▸ hempty),
        List.head?_append_of_ne_nil _ hne]
    simp only [Line.classify, trim_dropReturn, htrim, hhead]

/-! ## Readings that differ in layout -/

namespace Reading

/-- Whether two readings have come equally far, but for the numbers of the lines that were
passed over. -/
structure Alike (state other : Reading) : Prop where
  classes : other.classes = state.classes
  current : other.current = state.current
  issues : other.issues.map Issue.unnumbered = state.issues.map Issue.unnumbered

namespace Alike

variable {state other : Reading}

protected theorem refl (state : Reading) : Alike state state :=
  ⟨rfl, rfl, rfl⟩

theorem close (h : Alike state other) : Alike state.close other.close := by
  unfold Reading.close
  rw [h.current]
  cases state.current with
  | none =>
      exact h
  | some cls =>
      exact ⟨by rw [h.classes], rfl, h.issues⟩

theorem step (h : Alike state other) (number own : Nat) (line : Line) :
    Alike (state.step number line) (other.step own line) := by
  cases line with
  | blank | plain =>
      exact h
  | header name =>
      exact ⟨h.close.classes, rfl, h.close.issues⟩
  | outside =>
      exact h.close
  | member declared =>
      exact ⟨h.classes, by simp [Reading.step, h.current], h.issues⟩
  | unreadable text =>
      rw [Reading.step, Reading.step, h.current]
      split
      · refine ⟨h.classes, rfl, ?_⟩
        rw [List.map_append, List.map_append, h.issues]
        rfl
      · exact h

theorem run (h : Alike state other) (number own : Nat) (source : List (List Char)) :
    Alike (state.run number source) (other.run own source) := by
  induction source generalizing state other number own with
  | nil =>
      exact h
  | cons raw rest ih =>
      exact ih (h.step number own (Line.classify raw)) (number + 1) (own + 1)

end Alike

theorem alike_insert (before after : List (List Char)) {line : List Char} (h : IsLayout line) :
    Alike (start.run 1 (before ++ after)) (start.run 1 (before ++ line :: after)) := by
  rw [run_append, run_append, run, classify_of_isLayout h]
  exact (Alike.refl _).run _ _ after

theorem run_append_blanks (before after : List (List Char)) (line : List Char)
    {blanks : List Char} (h : ∀ c ∈ blanks, Text.isBlank c = true) :
    start.run 1 (before ++ (line ++ blanks) :: after) =
      start.run 1 (before ++ line :: after) := by
  rw [run_append, run_append, run, run, classify_append_blanks line h]

theorem alike_of_relaid {source other : String} (h : Relaid source other) :
    Alike (start.run 1 (lines source.toList)) (start.run 1 (lines other.toList)) := by
  cases h with
  | insert before after line hline hsource hother =>
      rw [hsource, hother]
      exact alike_insert before after hline
  | append before after line blanks hblanks hsource hother =>
      rw [hsource, hother, run_append_blanks before after line hblanks]
      exact .refl _
  | finish =>
      -- The text behind the line feed is one more line, and a blank one.
      have hlines : lines (source ++ "\n").toList = lines source.toList ++ [[]] := by
        rw [String.toList_append]
        exact lines_append source.toList []
      have hinsert : Alike (start.run 1 (lines source.toList ++ []))
          (start.run 1 (lines source.toList ++ [[]])) :=
        alike_insert _ [] (.inl (by simp))
      rwa [List.append_nil, ← hlines] at hinsert

end Reading

/--
Sources that come from one another by putting in and taking out blank lines, comments,
blanks behind lines and a last line feed declare the same classes, and the same lines of
them are passed over.
-/
theorem parseClasses_relaid {source other : String} (h : Relation.EqvGen Relaid source other) :
    (parseClasses other).1 = (parseClasses source).1 ∧
      (parseClasses other).2.map Issue.unnumbered =
        (parseClasses source).2.map Issue.unnumbered := by
  induction h with
  | rel source other hrelaid =>
      have halike := (Reading.alike_of_relaid hrelaid).close
      exact ⟨halike.classes, halike.issues⟩
  | refl source =>
      exact ⟨rfl, rfl⟩
  | symm source other _ ih =>
      exact ⟨ih.1.symm, ih.2.symm⟩
  | trans source between other _ _ ihfirst ihsecond =>
      exact ⟨ihsecond.1.trans ihfirst.1, ihsecond.2.trans ihfirst.2⟩

/-- A blank line is taken out of a class body, a comment put in, a carriage return put behind
the header, and the line feed at the end taken away. -/
theorem parseClasses_relaid_body :
    Relation.EqvGen Relaid "class A:\n\n  a: int\n  b: List[\n"
        "class A:\r\n  # note\n  a: int\n  b: List[" ∧
      (parseClasses "class A:\r\n  # note\n  a: int\n  b: List[").1 =
        [⟨"A", [⟨"a", .named "int", "int", ""⟩]⟩] ∧
      (parseClasses "class A:\r\n  # note\n  a: int\n  b: List[").2.map Issue.unnumbered =
        [.skippedLine 0 "b: List["] := by
  have hblank : Relaid "class A:\n  a: int\n  b: List[" "class A:\n\n  a: int\n  b: List[" :=
    .insert ["class A:".toList] ["  a: int".toList, "  b: List[".toList] [] (.inl (by simp))
      (by decide) (by decide)
  have hcomment : Relaid "class A:\n  a: int\n  b: List["
      "class A:\n  # note\n  a: int\n  b: List[" :=
    .insert ["class A:".toList] ["  a: int".toList, "  b: List[".toList] "  # note".toList
      (.inr ⟨[' ', ' '], " note".toList, by decide, List.all_eq_true.1 rfl⟩) (by decide) (by decide)
  have hreturn : Relaid "class A:\n  # note\n  a: int\n  b: List["
      "class A:\r\n  # note\n  a: int\n  b: List[" :=
    .append [] ["  # note".toList, "  a: int".toList, "  b: List[".toList] "class A:".toList
      ['\r'] (List.all_eq_true.1 rfl) (by decide) (by decide)
  have hfinish : Relaid "class A:\n\n  a: int\n  b: List[" "class A:\n\n  a: int\n  b: List[\n" :=
    .finish _
  have hchain : Relation.EqvGen Relaid "class A:\n\n  a: int\n  b: List[\n"
      "class A:\r\n  # note\n  a: int\n  b: List[" :=
    ((((Relation.EqvGen.rel _ _ hblank).trans _ _ _ (.rel _ _ hfinish)).symm _ _).trans _ _ _
      (.rel _ _ hcomment)).trans _ _ _ (.rel _ _ hreturn)
  refine ⟨hchain, (parseClasses_relaid hchain).1.trans ?_,
    (parseClasses_relaid hchain).2.trans ?_⟩
  · with_unfolding_all rfl
  · with_unfolding_all rfl

end Schema

end SlotGraph
