import SlotGraph.Proofs.Schema.Declared
import SlotGraph.Proofs.Template.Collections
import SlotGraph.Proofs.TypeExpr.LinkType

/-!
# Values and references

Which class a field refers to is read off the tree of its type, while whether it holds a
value is decided by the names in a text: the source of a part of the tree, or the arguments
of a dictionary as they were written.  Whatever class the tree refers to, the text names it.
So a field that refers to a class holds no value, unless that class has the name of a kind of
value itself.
-/

namespace SlotGraph

namespace TypeExpr

open Text (IsIdentifier generic)

variable {classes : List SchemaClass} {indexType name : String} {text : List Char}

/-! ## Texts that name a class -/

theorem identifiersFrom_of_continues (h : ∀ c ∈ text, Text.continuesIdentifier c = true)
    (word : List Char) : identifiersFrom word text = [word.reverse ++ text] := by
  induction text generalizing word with
  | nil =>
      rw [identifiersFrom, List.append_nil]
  | cons c rest ih =>
      obtain ⟨hc, hrest⟩ := List.forall_mem_cons.1 h
      have hdot : ¬ (c == '.') = true := by
        rw [beq_iff_eq]
        rintro rfl
        exact absurd hc (by decide)
      rw [identifiersFrom, if_neg hdot, if_pos hc, ih hrest, List.reverse_cons,
        List.append_assoc, List.singleton_append]

theorem mentionsClass_name (hident : IsIdentifier name)
    (hdeclared : SchemaClass.declared classes name = true) :
    mentionsClass classes name.toList = true := by
  have hne : name.toList ≠ [] := by
    simpa using hident.1
  rw [mentionsClass, identifiersFrom_of_continues hident.2]
  simp [hne, hdeclared]

theorem breaksIdentifier_of_isBlank {c : Char} (h : Text.isBlank c = true) :
    breaksIdentifier c = true := by
  have hdot : c ≠ '.' := by
    rintro rfl
    exact absurd h (by decide)
  have hplain : Text.continuesIdentifier c = false := by
    by_contra hc
    rw [Text.isBlank_of_continuesIdentifier (by simpa using hc)] at h
    cases h
  simp [breaksIdentifier, hdot, hplain]

theorem mentionsClass_cons {c : Char} (hc : breaksIdentifier c = true) (rest : List Char) :
    mentionsClass classes (c :: rest) = mentionsClass classes rest :=
  mentionsClass_append hc classes [] rest

theorem mentionsClass_append_blanks {blanks : List Char}
    (h : ∀ c ∈ blanks, Text.isBlank c = true) :
    mentionsClass classes (text ++ blanks) = mentionsClass classes text := by
  cases blanks with
  | nil =>
      rw [List.append_nil]
  | cons c rest =>
      obtain ⟨hc, hrest⟩ := List.forall_mem_cons.1 h
      have hnone : mentionsClass classes rest = false := by
        clear h hc
        induction rest with
        | nil =>
            rfl
        | cons c rest ih =>
            obtain ⟨hc, hrest⟩ := List.forall_mem_cons.1 hrest
            rw [mentionsClass_cons (breaksIdentifier_of_isBlank hc), ih hrest]
      rw [mentionsClass_append (breaksIdentifier_of_isBlank hc), hnone, Bool.or_false]

theorem mentionsClass_trimStart :
    mentionsClass classes (Text.trimStart text) = mentionsClass classes text := by
  induction text with
  | nil =>
      rfl
  | cons c rest ih =>
      rw [Text.trimStart, List.dropWhile_cons]
      split
      · next hblank =>
          rw [mentionsClass_cons (breaksIdentifier_of_isBlank hblank)]
          exact ih
      · rfl

/-- Blanks at the ends of a text are part of no name. -/
theorem mentionsClass_trim :
    mentionsClass classes (Text.trim text) = mentionsClass classes text := by
  have hparts := List.takeWhile_append_dropWhile (p := Text.isBlank)
    (l := (Text.trimStart text).reverse)
  have hsplit := congrArg List.reverse hparts
  rw [List.reverse_append, List.reverse_reverse] at hsplit
  have hstart : mentionsClass classes (Text.trimStart text) = mentionsClass classes text :=
    mentionsClass_trimStart
  rw [← hstart, ← hsplit]
  refine (mentionsClass_append_blanks fun c hc => ?_).symm
  exact List.mem_takeWhile_imp (List.mem_reverse.1 hc)

theorem mentionsClass_joinWith {separator : Char} (hseparator : breaksIdentifier separator = true)
    {texts : List (List Char)} :
    mentionsClass classes (joinWith separator texts) = texts.any (mentionsClass classes) := by
  induction texts with
  | nil =>
      rfl
  | cons first rest ih =>
      by_cases hrest : rest = []
      · simp [hrest, joinWith]
      · rw [Text.joinWith_cons _ _ hrest, mentionsClass_append hseparator, ih, List.any_cons]

theorem mentionsClass_generic (keyword body : List Char)
    (h : mentionsClass classes body = true) :
    mentionsClass classes (generic keyword body) = true := by
  rw [generic, mentionsClass_append rfl, mentionsClass_append rfl, h, Bool.true_or, Bool.or_true]

theorem mentionsClass_of_mem_splitTop {separator : Char} {part : List Char}
    (hseparator : breaksIdentifier separator = true)
    (hpart : part ∈ Text.splitTop separator text) (h : mentionsClass classes part = true) :
    mentionsClass classes text = true := by
  obtain ⟨⟨piece, hpiece, rfl⟩, -⟩ := Text.mem_splitTop.1 hpart
  rw [← Text.joinWith_pieces separator 0 text, mentionsClass_joinWith hseparator]
  exact List.any_eq_true.2 ⟨piece, hpiece, mentionsClass_trim.symm.trans h⟩

/-! ## Names in a type -/

/-- Whether a name stands in a type, outside the arguments of a dictionary. -/
inductive Names : TypeExpr → String → Prop where
  | named (name : String) : Names (.named name) name
  | wrapped {wrapper : Wrapper} {inner : TypeExpr} {name : String} :
      Names inner name → Names (.wrapped wrapper inner) name
  | union {alternatives : List TypeExpr} {alternative : TypeExpr} {name : String} :
      alternative ∈ alternatives → Names alternative name → Names (.union alternatives) name

theorem Names.of_required {type : TypeExpr} (h : Names type.required name) : Names type name := by
  unfold required at h
  split at h
  · exact .wrapped h
  · exact h

theorem RefersTo.names {type : TypeExpr} (h : RefersTo indexType type name) : Names type name := by
  cases h with
  | named name =>
      exact .named name
  | union hmem hname hne =>
      refine .union hmem ?_
      rcases eq_of_required_name? hname with rfl | rfl
      · exact .named name
      · exact .wrapped (.named name)

section

variable (hident : IsIdentifier name) (hdeclared : SchemaClass.declared classes name = true)

include hident hdeclared

theorem Names.mentioned_source {type : TypeExpr} (h : Names type name) :
    mentionsClass classes type.sourceText = true := by
  induction h with
  | named name =>
      have hblankless : Text.Blankless name.toList :=
        fun c hc => Text.isBlank_of_continuesIdentifier (hident.2 c hc)
      rw [sourceText, hblankless.compact_eq]
      exact mentionsClass_name hident hdeclared
  | @wrapped wrapper inner name _ ih =>
      rw [sourceText]
      by_contra hnone
      have hinner := mentionsClass_of_enclose (Bool.eq_false_iff.2 hnone)
      rw [ih hident hdeclared] at hinner
      cases hinner
  | @union alternatives alternative name hmem _ ih =>
      rw [sourceText_union]
      refine mentionsClass_generic _ _ ?_
      rw [mentionsClass_joinWith rfl, List.any_map]
      exact List.any_eq_true.2 ⟨alternative, hmem, ih hident hdeclared⟩

theorem Names.mentioned {type : TypeExpr} (h : Names type name) (hreads : Reads text type) :
    mentionsClass classes text = true := by
  -- A keyword form names what its body does.
  have hform : ∀ {text body : List Char} {form : Form},
      formOf? (Text.trim text) = some (form, body) → mentionsClass classes body = true →
        mentionsClass classes text = true := by
    intro text body form hform hbody
    obtain ⟨keyword, -, htext, -⟩ := formOf?_eq_some_iff.1 hform
    rw [← mentionsClass_trim, htext]
    exact mentionsClass_generic keyword body hbody
  induction hreads with
  | named =>
      cases h
      have hname := mentionsClass_name hident hdeclared
      rwa [String.toList_ofList, mentionsClass_trim] at hname
  | dict =>
      cases h
  | union hunion hne hlength hparts ih =>
      cases h with
      | union hmem hnames =>
          obtain ⟨part, hpair⟩ := exists_mem_zip hlength hmem
          exact hform hunion (mentionsClass_of_mem_splitTop rfl (List.of_mem_zip hpair).1
            (ih part _ hpair hnames))
  | tuple htuple hparts hinner ih =>
      cases h with
      | wrapped hnames =>
          exact hform htuple (mentionsClass_of_mem_splitTop rfl
            (hparts ▸ List.mem_cons_self) (ih hnames))
  | wrapped hwrapper hbody hinner ih =>
      cases h with
      | wrapped hnames =>
          exact hform hbody (ih hnames)

end

/-! ## Types that hold values -/

/-- The names of the types whose values a slot can hold. -/
def nativeNames (indexType : String) : List String :=
  ["str", "string", "int", "integer", "Index", "bool", "float", indexType]

theorem isSome_primitiveKind? :
    (primitiveKind? indexType name).isSome ↔ name ∈ nativeNames indexType := by
  unfold primitiveKind?
  simp only [Bool.or_eq_true, beq_iff_eq, nativeNames, List.mem_cons, List.not_mem_nil, or_false]
  split_ifs <;> grind

/-- A type that refers to a class holds no value, if the class has no name of such a type. -/
theorem nativeKind?_eq_none {type : TypeExpr} (hident : IsIdentifier name)
    (hname : name ∉ nativeNames indexType)
    (hmodel : type.modelClass? indexType classes = some name) :
    type.nativeKind? indexType classes = none := by
  obtain ⟨element, helement, hrefers, hdeclared⟩ := refersTo_of_modelClass? hmodel
  have hnames : Names element name := hrefers.names.of_required
  rw [element?] at helement
  rw [nativeKind?]
  cases hrequired : type.required with
  | named other =>
      -- A plain name is no part of a text that is scanned, so here the name itself has to do.
      rw [hrequired] at helement
      cases helement
      cases hnames
      rw [← Option.not_isSome_iff_eq_none, isSome_primitiveKind?]
      exact hname
  | wrapped wrapper inner =>
      cases wrapper with
      | optional =>
          exact ite_self none
      | list | set | tuple =>
          rw [hrequired] at helement
          cases helement
          exact if_pos (hnames.mentioned_source hident hdeclared)
  | dict arguments =>
      rw [hrequired] at helement
      obtain ⟨part, hpart, hread⟩ : ∃ part ∈ Text.splitTop ',' arguments.toList,
          ofText? part = some element := by
        dsimp only [dictValue?] at helement
        split at helement
        · next first value rest hparts =>
            exact ⟨value, hparts ▸ List.mem_cons_of_mem first List.mem_cons_self, helement⟩
        · cases helement
      refine if_pos (mentionsClass_of_mem_splitTop rfl hpart ?_)
      exact hnames.mentioned hident hdeclared (reads_of_ofText? hread)
  | union alternatives =>
      rw [hrequired] at helement
      cases helement
      exact if_pos (hnames.mentioned_source hident hdeclared)

end TypeExpr

namespace Schema

/-- Whether no class has a name of a type whose values a slot can hold. -/
def ApartFromValues (schema : Schema) : Prop :=
  ∀ cls ∈ schema.classes, cls.name ∉ TypeExpr.nativeNames schema.indexType

variable {schema : Schema}

theorem ApartFromValues.nativeKind?_eq_none (h : schema.ApartFromValues)
    (hident : ∀ cls ∈ schema.classes, Text.IsIdentifier cls.name) {type : TypeExpr}
    (hmodel : (type.modelClass? schema.indexType schema.classes).isSome) :
    type.nativeKind? schema.indexType schema.classes = none := by
  obtain ⟨name, hname⟩ := Option.isSome_iff_exists.1 hmodel
  obtain ⟨_, -, -, hdeclared⟩ := TypeExpr.refersTo_of_modelClass? hname
  obtain ⟨cls, hcls, rfl⟩ : ∃ cls ∈ schema.classes, cls.name = name := by
    simpa [SchemaClass.declared] using hdeclared
  exact TypeExpr.nativeKind?_eq_none (hident cls hcls) (h cls hcls) hname

/-- A class with such a name is referred to by its name, which holds a value as well. -/
theorem exists_both_of_mem {cls : SchemaClass} (hcls : cls ∈ schema.classes)
    (hname : cls.name ∈ TypeExpr.nativeNames schema.indexType) :
    ((TypeExpr.named cls.name).modelClass? schema.indexType schema.classes).isSome ∧
      ((TypeExpr.named cls.name).nativeKind? schema.indexType schema.classes).isSome := by
  have hdeclared : SchemaClass.declared schema.classes cls.name = true :=
    List.any_eq_true.2 ⟨cls, hcls, beq_self_eq_true cls.name⟩
  refine ⟨?_, TypeExpr.isSome_primitiveKind?.2 hname⟩
  show (if SchemaClass.declared schema.classes cls.name then some cls.name else none).isSome
  rw [if_pos hdeclared]
  rfl

section

variable (hident : ∀ cls ∈ schema.classes, Text.IsIdentifier cls.name)

include hident

theorem apartFromValues_iff_types :
    schema.ApartFromValues ↔
      ∀ type : TypeExpr, (type.modelClass? schema.indexType schema.classes).isSome →
        type.nativeKind? schema.indexType schema.classes = none := by
  refine ⟨fun h _ => h.nativeKind?_eq_none hident, fun hnone cls hcls hname => ?_⟩
  obtain ⟨hmodel, hkind⟩ := exists_both_of_mem hcls hname
  rw [hnone _ hmodel] at hkind
  cases hkind

theorem apartFromValues_iff_fields :
    schema.ApartFromValues ↔
      ∀ (field : Field) (inRoot : Bool), (schema.modelOf? field).isSome →
        (InputSpec.ofField schema inRoot field).intake.native? = none := by
  have hintake : ∀ (field : Field) (inRoot : Bool),
      (InputSpec.ofField schema inRoot field).intake =
        field.type.intake schema.indexType schema.classes inRoot := fun _ _ => rfl
  constructor
  · intro h field inRoot hmodel
    rw [hintake, TypeExpr.intake]
    split
    · rfl
    · exact h.nativeKind?_eq_none hident hmodel
  · intro hnone cls hcls hname
    obtain ⟨hmodel, hkind⟩ := exists_both_of_mem hcls hname
    have hheld : (TypeExpr.named cls.name).nativeKind? schema.indexType schema.classes = none :=
      hnone ⟨"", .named cls.name, "", ""⟩ false hmodel
    rw [hheld] at hkind
    cases hkind

end

def ofSource (source name indexType rootType : String) : Schema :=
  ofClasses name indexType rootType (parseClasses source).1

/--
Of the types over the classes of a source, those that refer to a class hold no value exactly
if no class has a name of a type whose values a slot can hold; and exactly then no field, in
the root or in any other class, both refers to a class and has a slot for a value.
-/
theorem apartFromValues_iff (source name indexType rootType : String) :
    ((ofSource source name indexType rootType).ApartFromValues ↔
      ∀ type : TypeExpr,
        (type.modelClass? indexType (ofSource source name indexType rootType).classes).isSome →
          type.nativeKind? indexType (ofSource source name indexType rootType).classes = none) ∧
    ((ofSource source name indexType rootType).ApartFromValues ↔
      ∀ (field : Field) (inRoot : Bool),
        ((ofSource source name indexType rootType).modelOf? field).isSome →
          (InputSpec.ofField (ofSource source name indexType rootType) inRoot
            field).intake.native? = none) := by
  have hident : ∀ cls ∈ (ofSource source name indexType rootType).classes,
      Text.IsIdentifier cls.name := (parseClasses_named source).2
  exact ⟨apartFromValues_iff_types hident, apartFromValues_iff_fields hident⟩

def partsSource : String :=
  "class Tool:\n  parts: Dict[str, Optional[Tool]]"

def partsField : Field :=
  ⟨"parts", .dict "str, Optional[Tool]", "Dict[str, Optional[Tool]]", ""⟩

/-- A class with the name of a type of values. -/
def mistakenSource : String :=
  "class str:\n  of: str"

theorem apartFromValues_iff_partsSource :
    ((ofSource partsSource "s" "Index" "").modelOf? partsField = some "Tool" ∧
      (InputSpec.ofField (ofSource partsSource "s" "Index" "") false
        partsField).intake.native? = none) ∧
    ¬ (ofSource mistakenSource "s" "Index" "").ApartFromValues := by
  have hparts : (parseClasses partsSource).1 = [⟨"Tool", [partsField]⟩] := by
    with_unfolding_all rfl
  have hmistaken : (parseClasses mistakenSource).1 =
      [⟨"str", [⟨"of", .named "str", "str", ""⟩]⟩] := by
    with_unfolding_all rfl
  have hapart : (ofSource partsSource "s" "Index" "").ApartFromValues := by
    show ∀ cls ∈ (parseClasses partsSource).1, _
    rw [hparts]
    decide
  have hmodel : (ofSource partsSource "s" "Index" "").modelOf? partsField = some "Tool" := by
    show partsField.type.modelClass? "Index" (parseClasses partsSource).1 = some "Tool"
    rw [hparts]
    decide +kernel
  refine ⟨⟨hmodel, ?_⟩, fun hmistakenApart => ?_⟩
  · exact (apartFromValues_iff partsSource "s" "Index" "").2.1 hapart partsField false
      (by rw [hmodel]; rfl)
  · have hnone := (apartFromValues_iff mistakenSource "s" "Index" "").1.1 hmistakenApart
      (.named "str")
    rw [ofSource, ofClasses, hmistaken] at hnone
    exact absurd (hnone rfl) (by decide)

end Schema

end SlotGraph
