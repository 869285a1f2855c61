import SlotGraph.Proofs.Schema.Declared
import SlotGraph.Proofs.Text.Pieces

/-!
# Sources one behind the other

A source that ends whatever class is open when it begins is read on its own: put behind
another one, its classes replace those of their names and stand behind the rest.
-/

namespace SlotGraph

namespace Schema

/-! ## Overriding classes -/

/-- A class takes the place of the one of its name, or stands behind all others. -/
def override (classes : List SchemaClass) (cls : SchemaClass) : List SchemaClass :=
  if cls.name ∈ classes.map SchemaClass.name then
    classes.map fun existing => if existing.name = cls.name then cls else existing
  else
    classes ++ [cls]

theorem declare_of_fresh {classes : List SchemaClass} {cls : SchemaClass}
    (h : cls.name ∉ classes.map SchemaClass.name) : declare classes cls = classes ++ [cls] := by
  induction classes with
  | nil =>
      rfl
  | cons existing rest ih =>
      rw [List.map_cons, List.mem_cons, not_or] at h
      rw [declare, if_neg (Ne.symm h.1), ih h.2, List.cons_append]

/-- Among classes of distinct names there is only one to replace. -/
theorem declare_of_declared {classes : List SchemaClass} {cls : SchemaClass}
    (h : (classes.map SchemaClass.name).Nodup)
    (hdeclared : cls.name ∈ classes.map SchemaClass.name) :
    declare classes cls =
      classes.map fun existing => if existing.name = cls.name then cls else existing := by
  induction classes with
  | nil =>
      simp at hdeclared
  | cons existing rest ih =>
      rw [List.map_cons, List.nodup_cons] at h
      by_cases hname : existing.name = cls.name
      · have hothers : ∀ other ∈ rest, (if other.name = cls.name then cls else other) = other :=
          fun other hother => if_neg fun hsame =>
            h.1 (by rw [hname, ← hsame]; exact List.mem_map_of_mem hother)
        rw [declare, if_pos hname, List.map_cons, if_pos hname, List.map_congr_left hothers,
          List.map_id']
      · have hrest : cls.name ∈ rest.map SchemaClass.name := by
          simpa [Ne.symm hname] using hdeclared
        rw [declare, if_neg hname, List.map_cons, if_neg hname, ih h.2 hrest]

theorem declare_eq_override {classes : List SchemaClass} {cls : SchemaClass}
    (h : (classes.map SchemaClass.name).Nodup) : declare classes cls = override classes cls := by
  rw [override]
  split
  · next hdeclared =>
      exact declare_of_declared h hdeclared
  · next hfresh =>
      exact declare_of_fresh hfresh

theorem nodup_names_declare {classes : List SchemaClass} {cls : SchemaClass}
    (h : (classes.map SchemaClass.name).Nodup) :
    ((declare classes cls).map SchemaClass.name).Nodup := by
  rw [names_declare]
  split
  · exact h
  · next hfresh =>
      exact List.nodup_append.2 ⟨h, List.nodup_singleton _,
        fun a ha b hb hab => hfresh (by rwa [← List.mem_singleton.1 hb, ← hab])⟩

theorem foldl_declare_eq_override {classes later : List SchemaClass}
    (h : (classes.map SchemaClass.name).Nodup) :
    later.foldl declare classes = later.foldl override classes := by
  induction later generalizing classes with
  | nil =>
      rfl
  | cons cls rest ih =>
      rw [List.foldl_cons, List.foldl_cons, ← declare_eq_override h]
      exact ih (nodup_names_declare h)

theorem declare_declare_of_name_eq {classes : List SchemaClass} {first second : SchemaClass}
    (h : first.name = second.name) :
    declare (declare classes first) second = declare classes second := by
  induction classes with
  | nil =>
      simp [declare, h]
  | cons existing rest ih =>
      by_cases hname : existing.name = second.name
      · simp [declare, h, hname]
      · simp [declare, h, hname, ih]

/-- A class that is already declared may be replaced before another one is declared. -/
theorem declare_declare_comm {classes : List SchemaClass} {first second : SchemaClass}
    (hdeclared : second.name ∈ classes.map SchemaClass.name) (hne : first.name ≠ second.name) :
    declare (declare classes first) second = declare (declare classes second) first := by
  induction classes with
  | nil =>
      simp at hdeclared
  | cons existing rest ih =>
      by_cases hsecond : existing.name = second.name
      · simp [declare, hsecond, Ne.symm hne]
      · have hrest : second.name ∈ rest.map SchemaClass.name := by
          simpa [Ne.symm hsecond] using hdeclared
        by_cases hfirst : existing.name = first.name
        · simp [declare, hfirst, hne]
        · simp [declare, hsecond, hfirst, ih hrest]

theorem declare_foldl_declare {classes later : List SchemaClass} {cls : SchemaClass}
    (hdeclared : cls.name ∈ classes.map SchemaClass.name)
    (hfresh : cls.name ∉ later.map SchemaClass.name) :
    declare (later.foldl declare classes) cls = later.foldl declare (declare classes cls) := by
  induction later generalizing classes with
  | nil =>
      rfl
  | cons first rest ih =>
      rw [List.map_cons, List.mem_cons, not_or] at hfresh
      have hstays : cls.name ∈ (declare classes first).map SchemaClass.name := by
        rw [names_declare]
        split
        · exact hdeclared
        · exact List.mem_append_left _ hdeclared
      rw [List.foldl_cons, List.foldl_cons, ih hstays hfresh.2,
        declare_declare_comm hdeclared (Ne.symm hfresh.1)]

/-- Declaring among the later classes first comes to the same as declaring at the end. -/
theorem foldl_declare_declare {classes later : List SchemaClass} {cls : SchemaClass}
    (h : (later.map SchemaClass.name).Nodup) :
    (declare later cls).foldl declare classes =
      declare (later.foldl declare classes) cls := by
  induction later generalizing classes with
  | nil =>
      rfl
  | cons first rest ih =>
      rw [List.map_cons, List.nodup_cons] at h
      rw [declare]
      split
      · next hname =>
          have hdeclared : cls.name ∈ (declare classes first).map SchemaClass.name := by
            rw [names_declare, hname]
            split
            · assumption
            · simp
          rw [List.foldl_cons, List.foldl_cons, declare_foldl_declare hdeclared (hname ▸ h.1),
            declare_declare_of_name_eq hname]
      · rw [List.foldl_cons, List.foldl_cons, ih h.2]

/-! ## Lines -/

theorem lines_ne_nil (text : List Char) : lines text ≠ [] := by
  cases text with
  | nil =>
      simp [lines]
  | cons c rest =>
      rw [lines]
      split
      · simp
      · cases lines rest <;> simp [Text.consFirst]

/-- A line feed ends the last line of what stands before it. -/
theorem lines_append (first second : List Char) :
    lines (first ++ '\n' :: second) = lines first ++ lines second := by
  induction first with
  | nil =>
      simp [lines]
  | cons c rest ih =>
      rw [List.cons_append, lines, lines, ih]
      split
      · rfl
      · exact Text.consFirst_append c (lines_ne_nil rest)

/-- Whether a line is neither blank nor a comment. -/
def isStatement (raw : List Char) : Bool :=
  (Text.trim raw).head?.any fun c => c != '#'

/-- Whether the first statement of a source is the header of a class or stands in column
zero. -/
def OpensAfresh (source : String) : Prop :=
  ∀ raw ∈ (lines source.toList).find? isStatement,
    (headerName? (Text.trim raw)).isSome = true ∨ ¬ raw.head?.any Text.isBlank = true

instance (source : String) : Decidable (OpensAfresh source) :=
  inferInstanceAs (Decidable (∀ raw ∈ (lines source.toList).find? isStatement, _))

theorem dropReturn_cases (raw : List Char) :
    ∃ body, dropReturn raw = body ∧ (raw = body ∨ raw = body ++ ['\r']) := by
  refine ⟨_, rfl, ?_⟩
  rw [dropReturn]
  split
  · next hlast =>
      exact .inr (List.dropLast_append_getLast? _ hlast).symm
  · exact .inl rfl

theorem trim_append_return (text : List Char) : Text.trim (text ++ ['\r']) = Text.trim text :=
  Text.trim_append_blanks (List.all_eq_true.1 rfl) text

theorem trim_dropReturn (raw : List Char) : Text.trim (dropReturn raw) = Text.trim raw := by
  obtain ⟨body, hbody, rfl | rfl⟩ := dropReturn_cases raw
  · rw [hbody]
  · rw [hbody, trim_append_return]

theorem head?_dropReturn {raw : List Char} (h : Text.trim raw ≠ []) :
    (dropReturn raw).head? = raw.head? := by
  obtain ⟨body, hbody, rfl | rfl⟩ := dropReturn_cases raw
  · rw [hbody]
  · have hne : body ≠ [] := by
      rintro rfl
      exact h (trim_append_return [])
    rw [hbody, List.head?_append_of_ne_nil _ hne]

theorem classify_of_not_isStatement {raw : List Char} (h : isStatement raw = false) :
    Line.classify raw = .blank := by
  simp only [Line.classify, trim_dropReturn]
  cases htrim : Text.trim raw with
  | nil =>
      rfl
  | cons c rest =>
      obtain rfl : c = '#' := by
        simpa [isStatement, htrim] using h
      rfl

/-- The header of a class and a statement in column zero both end the class being read. -/
theorem classify_of_opens {raw : List Char} (h : isStatement raw = true)
    (hopens : (headerName? (Text.trim raw)).isSome = true ∨
      ¬ raw.head?.any Text.isBlank = true) :
    Line.classify raw = .outside ∨ ∃ name, Line.classify raw = .header name := by
  have hne : Text.trim raw ≠ [] := by
    intro hnil
    rw [isStatement, hnil] at h
    exact absurd h (by decide)
  simp only [Line.classify, trim_dropReturn, head?_dropReturn hne]
  split
  · next hnil =>
      exact absurd hnil hne
  · next hcomment =>
      rw [isStatement, hcomment] at h
      exact absurd h (by simp)
  · split
    · exact .inr ⟨_, rfl⟩
    · next hheader =>
        rw [hheader] at hopens
        exact .inl (if_pos (by simpa using hopens))

/-! ## One source behind another -/

namespace Reading

/-- Whether a reading of two sources, the second of which is read on its own beside it, has
the classes of the second over those that the first one left. -/
structure Behind (base : List SchemaClass) (whole part : Reading) : Prop where
  distinct : (part.classes.map SchemaClass.name).Nodup
  classes : whole.classes = part.classes.foldl declare base
  current : whole.current = part.current

theorem close_classes (state : Reading) :
    state.close.classes = state.current.elim state.classes (declare state.classes) := by
  rw [close]
  cases state.current <;> rfl

@[simp] theorem close_current (state : Reading) : state.close.current = none := by
  rw [close]
  cases hcurrent : state.current with
  | none =>
      exact hcurrent
  | some cls =>
      rfl

theorem run_append (state : Reading) (number : Nat) (first second : List (List Char)) :
    state.run number (first ++ second) =
      (state.run number first).run (number + first.length) second := by
  induction first generalizing state number with
  | nil =>
      rfl
  | cons raw rest ih =>
      rw [List.cons_append, run, run, ih, List.length_cons, Nat.add_right_comm, Nat.add_assoc]

namespace Behind

variable {base : List SchemaClass} {whole part : Reading}

theorem close (h : Behind base whole part) : Behind base whole.close part.close where
  distinct := by
    rw [close_classes]
    cases part.current with
    | none =>
        exact h.distinct
    | some cls =>
        exact nodup_names_declare h.distinct
  classes := by
    rw [close_classes, close_classes, h.current, h.classes]
    cases part.current with
    | none =>
        rfl
    | some cls =>
        exact (foldl_declare_declare h.distinct).symm
  current := by
    rw [close_current, close_current]

theorem step (h : Behind base whole part) (number own : Nat) (line : Line) :
    Behind base (whole.step number line) (part.step own line) := by
  cases line with
  | blank | plain =>
      exact h
  | header name =>
      exact ⟨h.close.distinct, h.close.classes, rfl⟩
  | outside =>
      exact h.close
  | member declared =>
      exact ⟨h.distinct, h.classes, by simp [Reading.step, h.current]⟩
  | unreadable text =>
      rw [Reading.step, Reading.step, h.current]
      split
      · exact ⟨h.distinct, h.classes, rfl⟩
      · exact h

theorem run (h : Behind base whole part) (number own : Nat) (source : List (List Char)) :
    Behind base (whole.run number source) (part.run own source) := by
  induction source generalizing whole part number own with
  | nil =>
      exact h
  | cons raw rest ih =>
      exact ih (h.step number own (Line.classify raw)) (number + 1) (own + 1)

end Behind

/-- Whatever class is open, a source that opens afresh is read behind the classes so far. -/
theorem behind_of_opens (state : Reading) (number own : Nat) {source : List (List Char)}
    (h : ∀ raw ∈ source.find? isStatement,
      (headerName? (Text.trim raw)).isSome = true ∨ ¬ raw.head?.any Text.isBlank = true) :
    Behind state.close.classes (state.run number source).close
      (start.run own source).close := by
  have hclosed : Behind state.close.classes state.close start.close :=
    ⟨List.nodup_nil, rfl, close_current state⟩
  induction source generalizing number own with
  | nil =>
      exact hclosed
  | cons raw rest ih =>
      rw [run, run]
      cases hstatement : isStatement raw with
      | false =>
          rw [classify_of_not_isStatement hstatement]
          rw [List.find?_cons, hstatement] at h
          exact ih (number + 1) (own + 1) h
      | true =>
          rw [List.find?_cons, hstatement] at h
          refine (Behind.run ?_ (number + 1) (own + 1) rest).close
          rcases classify_of_opens hstatement (h raw rfl) with houtside | ⟨name, hheader⟩
          · rw [houtside]
            exact hclosed
          · rw [hheader]
            exact ⟨hclosed.distinct, hclosed.classes, rfl⟩

end Reading

/--
A source that opens afresh, put behind another one, declares its classes over the other's.
No source declares two classes of one name.
-/
theorem parseClasses_append :
    (∀ first second : String, OpensAfresh second →
      (parseClasses (first ++ "\n" ++ second)).1 =
        (parseClasses second).1.foldl override (parseClasses first).1) ∧
    ∀ source : String, ((parseClasses source).1.map SchemaClass.name).Nodup := by
  refine ⟨fun first second hopens => ?_, fun source => (parseClasses_named source).1⟩
  have htext : (first ++ "\n" ++ second).toList = first.toList ++ '\n' :: second.toList := by
    simp
  rw [← foldl_declare_eq_override (parseClasses_named first).1]
  simp only [parseClasses, htext, lines_append, Reading.run_append]
  exact (Reading.behind_of_opens _ _ 1 hopens).classes

/-- The second source replaces a class of the first one in place and adds another. -/
theorem parseClasses_append_redeclared :
    OpensAfresh "# later\nclass A:\n  a: int\nclass C:\n" ∧
      (parseClasses ("class A:\n  b: str\nclass B:" ++ "\n" ++
        "# later\nclass A:\n  a: int\nclass C:\n")).1 =
          [⟨"A", [⟨"a", .named "int", "int", ""⟩]⟩, ⟨"B", []⟩, ⟨"C", []⟩] := by
  have hopens : OpensAfresh "# later\nclass A:\n  a: int\nclass C:\n" := by
    with_unfolding_all decide
  refine ⟨hopens, (parseClasses_append.1 _ _ hopens).trans ?_⟩
  with_unfolding_all rfl

end Schema

end SlotGraph
