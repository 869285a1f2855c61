import SlotGraph.Proofs.Schema.Declared
import SlotGraph.Proofs.TypeExpr.Reading

/-!
# The types of declared fields

What holds of every field that some line declares holds of all fields of an accepted schema.
So the type of each of them is what the text that stands there reads as.
-/

namespace SlotGraph

namespace Schema

variable {holds : Field → Prop} {state : Reading}

theorem reads_of_field? {line : List Char} {field : Field} (h : field? line = some field) :
    TypeExpr.Reads field.rawType.toList field.type := by
  unfold field? at h
  split at h
  · split at h
    · obtain ⟨type, htype, rfl⟩ := Option.map_eq_some_iff.1 h
      rw [String.toList_ofList]
      exact TypeExpr.reads_of_ofText? htype
    · cases h
  · cases h

theorem classify_member {raw : List Char} {field : Field}
    (h : Line.classify raw = .member field) : ∃ line, field? line = some field := by
  unfold Line.classify at h
  simp only at h
  split at h
  · cases h
  · cases h
  · split at h
    · cases h
    · split at h
      · cases h
      · split at h
        · cases h
        · split at h
          · next declared hdeclared =>
              exact ⟨_, Line.member.inj h ▸ hdeclared⟩
          · cases h

def Reading.EachField (holds : Field → Prop) (state : Reading) : Prop :=
  (∀ cls ∈ state.classes, ∀ field ∈ cls.fields, holds field) ∧
    ∀ cls ∈ state.current, ∀ field ∈ cls.fields, holds field

theorem Reading.EachField.close (h : state.EachField holds) : state.close.EachField holds := by
  unfold Reading.close
  split
  · next cls hcurrent =>
      refine ⟨fun other hother => ?_, by simp⟩
      rcases mem_declare hother with rfl | hold
      · exact h.2 other hcurrent
      · exact h.1 other hold
  · exact h

theorem Reading.EachField.step (h : state.EachField holds) (number : Nat) {line : Line}
    (hline : ∀ field, line = .member field → holds field) :
    (state.step number line).EachField holds := by
  cases line with
  | blank | plain =>
      exact h
  | header name =>
      exact ⟨h.close.1, by simp [Reading.step]⟩
  | outside =>
      exact h.close
  | member declared =>
      refine ⟨h.1, fun cls hcls field hfield => ?_⟩
      obtain ⟨old, hold, rfl⟩ := Option.map_eq_some_iff.1 hcls
      rcases List.mem_append.1 hfield with hearlier | hnew
      · exact h.2 old hold field hearlier
      · rw [List.mem_singleton.1 hnew]
        exact hline declared rfl
  | unreadable text =>
      rw [Reading.step]
      split
      · exact h
      · exact h

theorem Reading.EachField.run (h : state.EachField holds) (number : Nat)
    (source : List (List Char))
    (hline : ∀ line field, field? line = some field → holds field) :
    (state.run number source).EachField holds := by
  induction source generalizing state number with
  | nil =>
      exact h
  | cons raw rest ih =>
      refine ih (h.step number fun field hfield => ?_) (number + 1)
      obtain ⟨line, hdeclared⟩ := classify_member hfield
      exact hline line field hdeclared

theorem eachField_parseClasses (source : String)
    (hline : ∀ line field, field? line = some field → holds field) :
    ∀ cls ∈ (parseClasses source).1, ∀ field ∈ cls.fields, holds field := by
  have hstart : Reading.start.EachField holds := by
    simp [Reading.EachField, Reading.start]
  exact (hstart.run 1 (lines source.toList) hline).close.1

theorem Accepted.reads {schema : Schema} (h : schema.Accepted) {cls : SchemaClass}
    (hcls : cls ∈ schema.classes) {field : Field} (hfield : field ∈ cls.fields) :
    TypeExpr.Reads field.rawType.toList field.type := by
  obtain ⟨s, name, source, indexType, rootType, hread⟩ := h
  obtain ⟨-, -, -, -, _, rfl⟩ := readSchema_eq_ok hread
  exact eachField_parseClasses source (fun _ _ => reads_of_field?) cls hcls field hfield

end Schema

end SlotGraph
