import Mathlib.Data.List.Nodup
import SlotGraph.Proofs.Json.Members
import SlotGraph.Session

/-!
# Declared classes

What is known of the classes of an accepted schema: no two share a name, none is
without one or longer than its source, and the classes that fields and document keys
refer to are among them.
-/

namespace SlotGraph

namespace Text

/-- Whether a name is an identifier, as far as the characters that it is made of go. -/
def IsIdentifier (name : String) : Prop :=
  name ≠ "" ∧ ∀ c ∈ name.toList, continuesIdentifier c

instance (name : String) : Decidable (IsIdentifier name) :=
  inferInstanceAs (Decidable (_ ∧ _))

theorem isIdentifier_of_take {text name rest : List Char}
    (h : takeIdentifier? text = some (name, rest)) : IsIdentifier (String.ofList name) := by
  cases text with
  | nil =>
      simp [takeIdentifier?] at h
  | cons c tail =>
      rw [takeIdentifier?] at h
      split at h
      · next hopens =>
          obtain ⟨rfl, -⟩ := Prod.mk.inj (Option.some.inj h)
          have hfirst : continuesIdentifier c := by
            rw [opensIdentifier, Bool.or_eq_true] at hopens
            rw [continuesIdentifier, Char.isAlphanum, Bool.or_eq_true, Bool.or_eq_true]
            exact hopens.imp_left .inl
          refine ⟨by simp, fun d hd => ?_⟩
          rcases List.mem_cons.1 (String.toList_ofList ▸ hd) with rfl | hlater
          · exact hfirst
          · exact List.all_eq_true.1 List.all_takeWhile d hlater
      · simp at h

end Text

namespace SchemaClass

theorem declared_iff {classes : List SchemaClass} {name : String} :
    declared classes name = true ↔ ∃ cls ∈ classes, cls.name = name := by
  simp [declared]

/-- Among classes of distinct names each is found under its own. -/
theorem find?_eq_some_iff {classes : List SchemaClass}
    (h : (classes.map SchemaClass.name).Nodup) {name : String} {cls : SchemaClass} :
    find? classes name = some cls ↔ cls ∈ classes ∧ cls.name = name := by
  refine ⟨fun hfind => ⟨List.mem_of_find?_eq_some hfind, by simpa using List.find?_some hfind⟩,
    ?_⟩
  rintro ⟨hmem, rfl⟩
  exact find?_of_nodup_map h hmem

end SchemaClass

namespace Schema

/-- A declared root class is found under its own name, which is not empty. -/
theorem of_rootClass? {schema : Schema} {cls : SchemaClass}
    (h : schema.rootClass? = some cls) :
    cls ∈ schema.classes ∧ schema.findClass? cls.name = some cls ∧
      cls.name = schema.rootType ∧ schema.rootType ≠ "" := by
  rw [rootClass?] at h
  split at h
  · simp at h
  · next hnamed =>
      have hname : cls.name = schema.rootType := by
        simpa using List.find?_some h
      exact ⟨List.mem_of_find?_eq_some h, hname ▸ h, hname, hnamed⟩

/-! ## Reading a source -/

theorem names_declare (classes : List SchemaClass) (cls : SchemaClass) :
    (declare classes cls).map SchemaClass.name =
      if cls.name ∈ classes.map SchemaClass.name then classes.map SchemaClass.name
      else classes.map SchemaClass.name ++ [cls.name] := by
  induction classes with
  | nil =>
      rfl
  | cons existing rest ih =>
      rw [declare]
      by_cases hname : existing.name = cls.name
      · simp [hname]
      · rw [if_neg hname, List.map_cons, ih]
        by_cases hrest : cls.name ∈ rest.map SchemaClass.name
        · simp [hrest]
        · simp [hrest, Ne.symm hname]

theorem isIdentifier_of_headerName? {line : List Char} {name : String}
    (h : headerName? line = some name) : Text.IsIdentifier name := by
  unfold headerName? at h
  split at h
  · split at h
    · split at h
      · next identifier rest hidentifier =>
          have hname : String.ofList identifier = name := by
            split at h
            · exact Option.some.inj h
            · exact Option.some.inj h
            · simp at h
          exact hname ▸ Text.isIdentifier_of_take hidentifier
      · simp at h
    · simp at h
  · simp at h

theorem classify_header {raw : List Char} {name : String}
    (h : Line.classify raw = .header name) : Text.IsIdentifier name := by
  unfold Line.classify at h
  simp only at h
  split at h
  · simp at h
  · simp at h
  · split at h
    · next found hfound =>
        rw [← Line.header.inj h]
        exact isIdentifier_of_headerName? hfound
    · split at h
      · simp at h
      · split at h
        · simp at h
        · split at h <;> simp at h

/-- Whether the classes read so far are named by identifiers, and distinct ones. -/
structure Reading.Named (state : Reading) : Prop where
  distinct : (state.classes.map SchemaClass.name).Nodup
  classes : ∀ cls ∈ state.classes, Text.IsIdentifier cls.name
  current : ∀ cls ∈ state.current, Text.IsIdentifier cls.name

theorem Reading.Named.close {state : Reading} (h : state.Named) : state.close.Named := by
  unfold Reading.close
  split
  · next cls hcurrent =>
      have hname : Text.IsIdentifier cls.name := h.current cls hcurrent
      refine ⟨?_, fun other hother => ?_, by simp⟩
      · rw [names_declare]
        split
        · exact h.distinct
        · next hfresh =>
            exact List.nodup_append.2 ⟨h.distinct, List.nodup_singleton _,
              fun a ha b hb hab => hfresh (by rwa [← List.mem_singleton.1 hb, ← hab])⟩
      · have hnamed : other.name ∈ (declare state.classes cls).map SchemaClass.name :=
          List.mem_map_of_mem hother
        rw [names_declare] at hnamed
        have hold : other.name ∈ state.classes.map SchemaClass.name →
            Text.IsIdentifier other.name := by
          intro hmem
          obtain ⟨same, hsame, heq⟩ := List.mem_map.1 hmem
          rw [← heq]
          exact h.classes same hsame
        split at hnamed
        · exact hold hnamed
        · rcases List.mem_append.1 hnamed with hmem | hnew
          · exact hold hmem
          · rwa [List.mem_singleton.1 hnew]
  · exact h

theorem Reading.Named.step {state : Reading} (h : state.Named) (number : Nat) {line : Line}
    (hline : ∀ name, line = .header name → Text.IsIdentifier name) :
    (state.step number line).Named := by
  cases line with
  | blank =>
      exact h
  | plain =>
      exact h
  | header name =>
      exact ⟨h.close.distinct, h.close.classes, by simpa [Reading.step] using hline name rfl⟩
  | outside =>
      exact h.close
  | member declared =>
      refine ⟨h.distinct, h.classes, fun cls hcls => ?_⟩
      obtain ⟨old, hold, rfl⟩ := Option.map_eq_some_iff.1 hcls
      exact h.current old hold
  | unreadable text =>
      rw [Reading.step]
      split
      · exact ⟨h.distinct, h.classes, h.current⟩
      · exact h

theorem Reading.Named.run {state : Reading} (h : state.Named) (number : Nat)
    (source : List (List Char)) : (state.run number source).Named := by
  induction source generalizing state number with
  | nil =>
      exact h
  | cons raw rest ih =>
      exact ih (h.step number fun _ hheader => classify_header hheader) (number + 1)

theorem parseClasses_named (source : String) :
    ((parseClasses source).1.map SchemaClass.name).Nodup ∧
      ∀ cls ∈ (parseClasses source).1, Text.IsIdentifier cls.name := by
  have hstart : Reading.start.Named :=
    ⟨List.nodup_nil, by simp [Reading.start], by simp [Reading.start]⟩
  have hfinal := (hstart.run 1 (lines source.toList)).close
  exact ⟨hfinal.distinct, hfinal.classes⟩

/-! ## The lengths of classes -/

theorem mem_declare {classes : List SchemaClass} {cls other : SchemaClass}
    (h : other ∈ declare classes cls) : other = cls ∨ other ∈ classes := by
  induction classes with
  | nil =>
      exact .inl (List.mem_singleton.1 h)
  | cons existing rest ih =>
      rw [declare] at h
      split at h
      · exact (List.mem_cons.1 h).imp_right (List.mem_cons_of_mem existing)
      · rcases List.mem_cons.1 h with rfl | hlater
        · exact .inr List.mem_cons_self
        · exact (ih hlater).imp_right (List.mem_cons_of_mem existing)

/-- Whether no class read so far has more fields than some number. -/
def Reading.Within (bound : Nat) (state : Reading) : Prop :=
  (∀ cls ∈ state.classes, cls.fields.length ≤ bound) ∧
    ∀ cls ∈ state.current, cls.fields.length ≤ bound

theorem Reading.Within.mono {bound more : Nat} {state : Reading} (h : state.Within bound)
    (hmore : bound ≤ more) : state.Within more :=
  ⟨fun cls hcls => Nat.le_trans (h.1 cls hcls) hmore,
    fun cls hcls => Nat.le_trans (h.2 cls hcls) hmore⟩

theorem Reading.Within.close {bound : Nat} {state : Reading} (h : state.Within bound) :
    state.close.Within bound := by
  unfold Reading.close
  split
  · next cls hcurrent =>
      refine ⟨fun other hother => ?_, by simp⟩
      rcases mem_declare hother with rfl | hold
      · exact h.2 other hcurrent
      · exact h.1 other hold
  · exact h

/-- One line adds at most one field to a class. -/
theorem Reading.Within.step {bound : Nat} {state : Reading} (h : state.Within bound)
    (number : Nat) (line : Line) : (state.step number line).Within (bound + 1) := by
  cases line with
  | blank | plain =>
      exact h.mono (Nat.le_succ bound)
  | header name =>
      exact ⟨(h.close.mono (Nat.le_succ bound)).1, by simp [Reading.step]⟩
  | outside =>
      exact h.close.mono (Nat.le_succ bound)
  | member declared =>
      refine ⟨(h.mono (Nat.le_succ bound)).1, fun cls hcls => ?_⟩
      obtain ⟨old, hold, rfl⟩ := Option.map_eq_some_iff.1 hcls
      simpa using h.2 old hold
  | unreadable text =>
      rw [Reading.step]
      split
      · exact h.mono (Nat.le_succ bound)
      · exact h.mono (Nat.le_succ bound)

theorem Reading.Within.run {bound : Nat} {state : Reading} (h : state.Within bound)
    (number : Nat) (source : List (List Char)) :
    (state.run number source).Within (bound + source.length) := by
  induction source generalizing bound state number with
  | nil =>
      exact h
  | cons raw rest ih =>
      rw [List.length_cons, Nat.add_comm rest.length 1, ← Nat.add_assoc]
      exact ih (h.step number (Line.classify raw)) (number + 1)

theorem length_lines (text : List Char) : (lines text).length ≤ text.length + 1 := by
  induction text with
  | nil =>
      exact Nat.le_refl 1
  | cons c rest ih =>
      rw [lines]
      split
      · exact Nat.succ_le_succ ih
      · cases hlines : lines rest with
        | nil =>
            exact Nat.succ_le_succ (Nat.zero_le _)
        | cons first others =>
            rw [hlines] at ih
            exact Nat.le_trans ih (Nat.le_succ _)

theorem length_fields_le {source : String} {cls : SchemaClass}
    (h : cls ∈ (parseClasses source).1) : cls.fields.length ≤ source.length + 1 := by
  have hstart : Reading.start.Within 0 := by
    simp [Reading.Within, Reading.start]
  have hfields := (hstart.run 1 (lines source.toList)).close.1 cls h
  rw [Nat.zero_add] at hfields
  exact Nat.le_trans hfields (length_lines source.toList)

/-! ## Accepted schemas -/

theorem readSchema_eq_ok {s : Session} {name source indexType rootType : String}
    {schema : Schema} (h : (s.readSchema name source indexType rootType).2 = .ok schema) :
    name ≠ "" ∧ name ≠ NodeTemplate.nativeSchema ∧ s.findSchema? name = none ∧
      (rootType ≠ "" → SchemaClass.declared (parseClasses source).1 rootType = true) ∧
      ∃ indexType, schema = ofClasses name indexType rootType (parseClasses source).1 := by
  unfold Session.readSchema at h
  split at h
  · simp at h
  · next hname =>
      split at h
      · simp at h
      · next hreserved =>
          split at h
          · simp at h
          · next hfree =>
              simp only at h
              split at h
              · simp at h
              · split at h
                · simp at h
                · next hroot =>
                    rw [not_and, Bool.not_eq_true', Bool.not_eq_false] at hroot
                    exact ⟨hname, hreserved, by simpa using hfree, hroot, _,
                      (Except.ok.inj h).symm⟩

/-- Whether some session accepts some source as this schema. -/
def Accepted (schema : Schema) : Prop :=
  ∃ (s : Session) (name source indexType rootType : String),
    (s.readSchema name source indexType rootType).2 = .ok schema

/-- A fresh session accepts every source with classes, the root among them. -/
theorem accepted_ofClasses {name source indexType rootType : String}
    {classes : List SchemaClass} (hread : (parseClasses source).1 = classes) (hname : name ≠ "")
    (hreserved : name ≠ NodeTemplate.nativeSchema) (hindex : indexType ≠ "")
    (hclasses : classes ≠ [])
    (hroot : rootType ≠ "" → SchemaClass.declared classes rootType = true) :
    (ofClasses name indexType rootType classes).Accepted := by
  subst hread
  refine ⟨Session.start ImportLayout.standard, name, source, indexType, rootType, ?_⟩
  have hfree : ((Session.start ImportLayout.standard).findSchema? name).isSome = false := rfl
  have hrooted : ¬ (rootType ≠ "" ∧
      (!SchemaClass.declared (parseClasses source).1 rootType) = true) := by
    rintro ⟨hnamed, hmissing⟩
    rw [hroot hnamed] at hmissing
    exact absurd hmissing (by decide)
  rw [Session.readSchema, if_neg hname, if_neg hreserved, if_neg (by simp [hfree])]
  simp only [List.isEmpty_iff, if_neg hclasses, if_neg hrooted, if_neg hindex]

/-- What acceptance says about a schema. -/
structure Declares (schema : Schema) : Prop where
  distinct : (schema.classes.map SchemaClass.name).Nodup
  named : ∀ cls ∈ schema.classes, cls.name ≠ ""
  root : schema.rootType ≠ "" → ∃ cls ∈ schema.classes, cls.name = schema.rootType
  mapping : schema.mapping =
    FieldMapping.build schema.classes schema.rootType schema.indexType

theorem Accepted.declares {schema : Schema} (h : schema.Accepted) : schema.Declares := by
  obtain ⟨s, name, source, indexType, rootType, hread⟩ := h
  obtain ⟨hdistinct, hnamed⟩ := parseClasses_named source
  obtain ⟨-, -, -, hroot, _, rfl⟩ := readSchema_eq_ok hread
  exact ⟨hdistinct, fun cls hcls => (hnamed cls hcls).1,
    fun hrooted => SchemaClass.declared_iff.1 (hroot hrooted), rfl⟩

theorem Accepted.findClass?_eq_some_iff {schema : Schema} (h : schema.Accepted) {name : String}
    {cls : SchemaClass} :
    schema.findClass? name = some cls ↔ cls ∈ schema.classes ∧ cls.name = name :=
  SchemaClass.find?_eq_some_iff h.declares.distinct

theorem Accepted.isIdentifier {schema : Schema} (h : schema.Accepted) :
    ∀ cls ∈ schema.classes, Text.IsIdentifier cls.name := by
  obtain ⟨s, name, source, indexType, rootType, hread⟩ := h
  obtain ⟨-, -, -, -, _, rfl⟩ := readSchema_eq_ok hread
  exact (parseClasses_named source).2

end Schema

end SlotGraph
