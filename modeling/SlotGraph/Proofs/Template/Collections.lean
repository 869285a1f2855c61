import SlotGraph.Proofs.Graph.Content
import SlotGraph.Proofs.Schema.Templates

/-!
# The slots of collections

What a collection is held as is decided twice: by the form of its elements, for a slot that
collects links, and by the names in the type text, for one that holds a value.  Where the
text names no declared class both agree, unless an element is a union, or a blank sets a
name apart inside the arguments of a dictionary.
-/

namespace SlotGraph

namespace TypeExpr

/-! ## The names in a text -/

/-- A character that belongs to no identifier and is no dot. -/
def breaksIdentifier (c : Char) : Bool :=
  c != '.' && !Text.continuesIdentifier c

/-- What breaks identifiers cuts a text in two, each part with identifiers of its own. -/
theorem identifiersFrom_append {c : Char} (hc : breaksIdentifier c = true)
    (word front rest : List Char) :
    identifiersFrom word (front ++ c :: rest) =
      identifiersFrom word front ++ identifiersFrom [] rest := by
  obtain ⟨hdot, hplain⟩ : (c == '.') = false ∧ Text.continuesIdentifier c = false := by
    simpa [breaksIdentifier] using hc
  induction front generalizing word with
  | nil =>
      show (if c == '.' then _ else if Text.continuesIdentifier c then _ else _) = _
      rw [hdot, hplain]
      rfl
  | cons first front ih =>
      rw [List.cons_append, identifiersFrom, identifiersFrom]
      split
      · exact ih []
      · split
        · exact ih (first :: word)
        · rw [ih [], List.cons_append]

theorem mentionsClass_append {c : Char} (hc : breaksIdentifier c = true)
    (classes : List SchemaClass) (front rest : List Char) :
    mentionsClass classes (front ++ c :: rest) =
      (mentionsClass classes front || mentionsClass classes rest) := by
  rw [mentionsClass, identifiersFrom_append hc, List.any_append]
  rfl

variable {classes : List SchemaClass}

/-- What is named inside a wrapper is named by the whole text. -/
theorem mentionsClass_of_enclose {wrapper : Wrapper} {inner : List Char}
    (h : mentionsClass classes (wrapper.enclose inner) = false) :
    mentionsClass classes inner = false := by
  rw [Wrapper.enclose, mentionsClass_append rfl, Bool.or_eq_false_iff] at h
  have hbody := h.2
  have hcut : ∃ c rest, breaksIdentifier c = true ∧
      inner ++ wrapper.suffix ++ [']'] = inner ++ c :: rest := by
    cases wrapper with
    | tuple =>
        exact ⟨',', _, rfl, List.append_assoc _ _ _⟩
    | optional | list | set =>
        exact ⟨']', [], rfl, congrArg (· ++ [']']) (List.append_nil inner)⟩
  obtain ⟨c, rest, hc, htext⟩ := hcut
  rw [htext, mentionsClass_append hc, Bool.or_eq_false_iff] at hbody
  exact hbody.1

theorem mentionsClass_required {type : TypeExpr}
    (h : mentionsClass classes type.sourceText = false) :
    mentionsClass classes type.required.sourceText = false := by
  unfold required
  split
  · exact mentionsClass_of_enclose h
  · exact h

/-! ## The slot of a collection -/

def collection? (type : TypeExpr) : Option NativeKind :=
  match type.required with
  | .wrapped wrapper _ => collectionKind? wrapper
  | .dict _ => some .dict
  | _ => none

/--
Whether a collection holds no references: its elements are no unions, and the arguments of a
dictionary name no declared class, as they were written.
-/
def isPlain (classes : List SchemaClass) (type : TypeExpr) : Bool :=
  match type.required with
  | .wrapped _ inner => !inner.required.isUnion
  | .dict arguments => !mentionsClass classes arguments.toList
  | _ => true

theorem collection?_cases {type : TypeExpr} {kind : NativeKind}
    (h : type.collection? = some kind) :
    (∃ wrapper inner, type.required = .wrapped wrapper inner ∧
      collectionKind? wrapper = some kind) ∨
    ∃ arguments, type.required = .dict arguments ∧ kind = .dict := by
  unfold collection? at h
  split at h
  case h_1 wrapper inner hrequired =>
    exact Or.inl ⟨wrapper, inner, hrequired, h⟩
  case h_2 arguments hrequired =>
    exact Or.inr ⟨arguments, hrequired, (Option.some.inj h).symm⟩
  case h_3 =>
    cases h

theorem isCollection_of_collection? {type : TypeExpr} {kind : NativeKind}
    (h : type.collection? = some kind) : kind.isCollection = true := by
  rcases collection?_cases h with ⟨wrapper, inner, -, hwrapper⟩ | ⟨arguments, -, rfl⟩
  · cases wrapper <;> cases hwrapper <;> rfl
  · rfl

theorem intake_wrapped {type inner : TypeExpr} {wrapper : Wrapper} {kind : NativeKind}
    (hrequired : type.required = .wrapped wrapper inner)
    (hkind : collectionKind? wrapper = some kind) (indexType : String)
    (classes : List SchemaClass) :
    type.intake indexType classes false =
      if inner.required.isUnion then .many false
      else .single (if mentionsClass classes inner.sourceText then none else some kind) := by
  rw [← hkind, intake, collectsLinks, nativeKind?, hrequired]
  cases wrapper with
  | optional =>
      cases hkind
  | list | set | tuple =>
      simp only [Bool.false_and, Bool.or_false]
      rfl

theorem intake_dict {type : TypeExpr} {arguments : String}
    (hrequired : type.required = .dict arguments) (indexType : String)
    (classes : List SchemaClass) (inRoot : Bool) :
    type.intake indexType classes inRoot =
      if dictOfUnion classes arguments then .many true
      else .single (if mentionsClass classes arguments.toList then none else some .dict) := by
  rw [intake, collectsLinks, nativeKind?, hrequired]
  rfl

/-- A slot of a collection, outside the root, holds a value if the collection is plain. -/
theorem native?_intake {type : TypeExpr} {kind : NativeKind}
    (hkind : type.collection? = some kind)
    (hunnamed : mentionsClass classes type.sourceText = false) (indexType : String) :
    (type.intake indexType classes false).native? =
      if type.isPlain classes then some kind else none := by
  rcases collection?_cases hkind with ⟨wrapper, inner, hrequired, hwrapper⟩ |
    ⟨arguments, hrequired, rfl⟩
  · have hplain : type.isPlain classes = !inner.required.isUnion := by
      rw [isPlain, hrequired]
    have hnames := mentionsClass_required hunnamed
    rw [hrequired] at hnames
    rw [intake_wrapped hrequired hwrapper, mentionsClass_of_enclose hnames, hplain]
    cases inner.required.isUnion <;> rfl
  · have hplain : type.isPlain classes = !mentionsClass classes arguments.toList := by
      rw [isPlain, hrequired]
    rw [intake_dict hrequired, dictOfUnion, hplain]
    cases mentionsClass classes arguments.toList
    · rw [Bool.and_false]
      rfl
    · rw [Bool.and_true]
      split <;> rfl

end TypeExpr

theorem Intake.eq_single_iff {intake : Intake} {kind : NativeKind} :
    intake = .single (some kind) ↔ intake.native? = some kind := by
  cases intake with
  | single native =>
      rw [Intake.single.injEq]
      rfl
  | many keyed =>
      exact iff_of_false nofun nofun

theorem Schema.native?_inputOf {schema : Schema} {cls : SchemaClass} {field : Field}
    {kind : NativeKind} (hroot : schema.isRoot cls = false)
    (hkind : field.type.collection? = some kind)
    (hunnamed : TypeExpr.mentionsClass schema.classes field.type.sourceText = false) :
    (schema.inputOf cls field).intake.native? =
      if field.type.isPlain schema.classes then some kind else none := by
  have hintake := TypeExpr.native?_intake hkind hunnamed schema.indexType
  rwa [← hroot] at hintake

end SlotGraph
