import SlotGraph.Proofs.Graph.Evaluation
import SlotGraph.Proofs.Schema.Composition

/-!
# Names of fields

A class is what the lines under its last header declare, line by line: nothing is asked of
a field but that it can be read, so two lines may declare fields of one name.  Where they do
not, each slot of a node is found under the name of its field and its value stands under that
name; where they do, neither holds.
-/

namespace SlotGraph

namespace Schema

/-! ## The classes in a source -/

def member? (raw : List Char) : Option Field :=
  match Line.classify raw with
  | .member declared => some declared
  | _ => none

def endsBody (raw : List Char) : Bool :=
  match Line.classify raw with
  | .header _ | .outside => true
  | _ => false

/-- The lines up to the next one that ends a class body. -/
def bodyOf (source : List (List Char)) : List (List Char) :=
  source.takeWhile fun raw => !endsBody raw

/-- The classes that some lines declare, one for each header, in order. -/
def classesIn : List (List Char) → List SchemaClass
  | [] => []
  | raw :: rest =>
      match Line.classify raw with
      | .header name => ⟨name, (bodyOf rest).filterMap member?⟩ :: classesIn rest
      | _ => classesIn rest

/-- The class being read goes on to the end of its body, and the later ones follow. -/
theorem close_classes_run (state : Reading) (number : Nat) (source : List (List Char)) :
    (state.run number source).close.classes =
      (state.current.toList.map (fun cls : SchemaClass =>
          { cls with fields := cls.fields ++ (bodyOf source).filterMap member? }) ++
        classesIn source).foldl declare state.classes := by
  induction source generalizing state number with
  | nil =>
      rw [Reading.run, Reading.close_classes]
      cases state.current <;> simp [bodyOf, classesIn]
  | cons raw rest ih =>
      rw [Reading.run, ih]
      cases hline : Line.classify raw with
      | blank | plain =>
          simp [Reading.step, bodyOf, classesIn, endsBody, member?, hline]
      | header name =>
          rw [Reading.step, Reading.close_classes]
          cases state.current <;> simp [bodyOf, classesIn, endsBody, hline]
      | outside =>
          rw [Reading.step, Reading.close_classes, Reading.close_current]
          cases state.current <;> simp [bodyOf, classesIn, endsBody, hline]
      | member declared =>
          cases hcurrent : state.current <;>
            simp [Reading.step, bodyOf, classesIn, endsBody, member?, hline, hcurrent]
      | unreadable text =>
          rw [Reading.step]
          split <;> simp [bodyOf, classesIn, endsBody, member?, hline]

theorem parseClasses_eq_foldl (source : String) :
    (parseClasses source).1 = (classesIn (lines source.toList)).foldl declare [] :=
  close_classes_run Reading.start 1 (lines source.toList)

/-! ## The class that stands -/

theorem mem_declare_self (classes : List SchemaClass) (cls : SchemaClass) :
    cls ∈ declare classes cls := by
  induction classes with
  | nil =>
      exact List.mem_singleton_self cls
  | cons existing rest ih =>
      rw [declare]
      split
      · exact List.mem_cons_self
      · exact List.mem_cons_of_mem existing ih

theorem mem_declare_of_nodup {classes : List SchemaClass} {cls other : SchemaClass}
    (h : (classes.map SchemaClass.name).Nodup) (hother : other ∈ declare classes cls) :
    other = cls ∨ other ∈ classes ∧ other.name ≠ cls.name := by
  by_cases hname : other.name = cls.name
  · exact .inl (List.inj_on_of_nodup_map (nodup_names_declare h) hother
      (mem_declare_self classes cls) hname)
  · exact (mem_declare hother).imp_right fun hold => ⟨hold, hname⟩

/-- A class that stands after some declarations is the last one of its name. -/
theorem mem_foldl_declare {classes later : List SchemaClass} {cls : SchemaClass}
    (h : (classes.map SchemaClass.name).Nodup) (hcls : cls ∈ later.foldl declare classes) :
    cls ∈ classes ∧ cls.name ∉ later.map SchemaClass.name ∨
      ∃ front back, later = front ++ cls :: back ∧ cls.name ∉ back.map SchemaClass.name := by
  induction later generalizing classes with
  | nil =>
      exact .inl ⟨hcls, List.not_mem_nil⟩
  | cons first rest ih =>
      rcases ih (nodup_names_declare h) hcls with ⟨hdeclared, hfresh⟩ |
        ⟨front, back, rfl, hback⟩
      · rcases mem_declare_of_nodup h hdeclared with rfl | ⟨hold, hname⟩
        · exact .inr ⟨[], rest, rfl, hfresh⟩
        · exact .inl ⟨hold, List.not_mem_cons_of_ne_of_not_mem hname hfresh⟩
      · exact .inr ⟨first :: front, back, rfl, hback⟩

theorem exists_header_of_classesIn {source : List (List Char)} {front back : List SchemaClass}
    {cls : SchemaClass} (h : classesIn source = front ++ cls :: back) :
    ∃ before header rest, source = before ++ header :: rest ∧
      Line.classify header = .header cls.name ∧
      cls.fields = (bodyOf rest).filterMap member? ∧ classesIn rest = back := by
  induction source generalizing front with
  | nil =>
      simp [classesIn] at h
  | cons raw rest ih =>
      have hlater : ∀ {front}, classesIn rest = front ++ cls :: back →
          ∃ before header last, raw :: rest = before ++ header :: last ∧
            Line.classify header = .header cls.name ∧
            cls.fields = (bodyOf last).filterMap member? ∧ classesIn last = back := by
        intro front hrest
        obtain ⟨before, header, last, rfl, hfound⟩ := ih hrest
        exact ⟨raw :: before, header, last, rfl, hfound⟩
      rw [classesIn] at h
      split at h
      · next name hheader =>
          cases front with
          | nil =>
              obtain ⟨rfl, hback⟩ := List.cons.inj h
              exact ⟨[], raw, rest, rfl, hheader, rfl, hback⟩
          | cons first front =>
              exact hlater (List.cons.inj h).2
      · exact hlater h

theorem not_header_of_classesIn {source : List (List Char)} {name : String}
    (h : name ∉ (classesIn source).map SchemaClass.name) :
    ∀ line ∈ source, Line.classify line ≠ .header name := by
  induction source with
  | nil =>
      simp
  | cons raw rest ih =>
      rw [classesIn] at h
      split at h
      · next other hheader =>
          rw [List.map_cons, List.mem_cons, not_or] at h
          refine List.forall_mem_cons.2 ⟨fun hsame => h.1 ?_, ih h.2⟩
          exact (Line.header.inj (hheader.symm.trans hsame)).symm
      · next hother =>
          exact List.forall_mem_cons.2 ⟨hother name, ih h⟩

/--
Whether some lines are the body of the class of a name: what stands under the last header of
that name, up to the next line that ends a body.
-/
structure IsBody (source name : String) (body : List (List Char)) : Prop where
  stands : ∃ before header after, lines source.toList = before ++ header :: (body ++ after) ∧
    Line.classify header = .header name ∧
    (∀ line ∈ after.head?, endsBody line = true) ∧
    ∀ line ∈ body ++ after, Line.classify line ≠ .header name
  whole : ∀ line ∈ body, endsBody line = false

theorem exists_isBody {source : String} {cls : SchemaClass}
    (h : cls ∈ (parseClasses source).1) :
    ∃ body, IsBody source cls.name body ∧ cls.fields = body.filterMap member? := by
  rw [parseClasses_eq_foldl] at h
  have hnone : (([] : List SchemaClass).map SchemaClass.name).Nodup := List.nodup_nil
  obtain ⟨front, back, hclasses, hlast⟩ :=
    (mem_foldl_declare hnone h).resolve_left fun hold => absurd hold.1 List.not_mem_nil
  obtain ⟨before, header, rest, hlines, hheader, hfields, rfl⟩ :=
    exists_header_of_classesIn hclasses
  have hsplit : rest = bodyOf rest ++ rest.dropWhile fun raw => !endsBody raw :=
    List.takeWhile_append_dropWhile.symm
  refine ⟨bodyOf rest, ⟨⟨before, header, _, hlines.trans (by rw [← hsplit]), hheader, ?_, ?_⟩, ?_⟩,
    hfields⟩
  · intro line hline
    have hends := List.head?_dropWhile_not (fun raw => !endsBody raw) rest
    rw [hline] at hends
    simpa using hends
  · rw [← hsplit]
    exact not_header_of_classesIn hlast
  · intro line hline
    simpa using List.mem_takeWhile_imp hline

/-! ## Fields of one name -/

/-- Whether no two of some lines declare fields of one name. -/
def NamedApart (body : List (List Char)) : Prop :=
  body.Pairwise fun line later =>
    ∀ field ∈ member? line, ∀ other ∈ member? later, field.name ≠ other.name

theorem nodup_names_iff_namedApart (body : List (List Char)) :
    ((body.filterMap member?).map Field.name).Nodup ↔ NamedApart body := by
  rw [List.nodup_iff_pairwise_ne, List.pairwise_map, List.pairwise_filterMap]
  rfl

end Schema

namespace SchemaClass

def SlotsOf (cls : SchemaClass) (node : Node) : Prop :=
  node.inputs.map InputSlot.name = cls.fields.map Field.name

def SlotsFound (cls : SchemaClass) : Prop :=
  ∀ node, cls.SlotsOf node → ∀ slot input, node.inputs[slot]? = some input →
    node.inputIndex? input.name = some slot

/-- Whether the value of each slot of a node of a class stands under its name when the node is
evaluated, in whatever graph. -/
def SlotsRead (cls : SchemaClass) : Prop :=
  ∀ (g : Graph) (node : Node), cls.SlotsOf node → node.cell = none → ∀ input ∈ node.inputs,
    (g.nodeValue node).get? input.name = g.slotValue? input

def numberedSlot (number : Nat) (field : Field) : InputSlot :=
  { name := field.name
    type := ""
    linkType := ""
    optional := false
    feed := .single none (some ⟨.integer, .int number⟩) }

def numberedNode (fields : List Field) : Node :=
  { id := 1
    template := ⟨1, 1⟩
    schemaName := ""
    className := ""
    title := ""
    isRoot := false
    cell := none
    x := 0.0
    y := 0.0
    width := NodeSize.schemaWidth
    height := NodeSize.leastHeight
    inputs := fields.mapIdx numberedSlot
    outputs := [] }

variable {cls : SchemaClass}

theorem slotsOf_numberedNode (cls : SchemaClass) : cls.SlotsOf (numberedNode cls.fields) := by
  refine List.ext_getElem? fun slot => ?_
  simp only [numberedNode, List.getElem?_map, List.getElem?_mapIdx, Option.map_map]
  rfl

/-- Names are distinct if no two slots of some node of the class share one. -/
theorem nodup_of_slots {node : Node} (hslots : cls.SlotsOf node)
    (h : ∀ {slot other : Nat} {input further : InputSlot}, node.inputs[slot]? = some input →
      node.inputs[other]? = some further → input.name = further.name → slot = other) :
    (cls.fields.map Field.name).Nodup := by
  rw [← hslots, List.nodup_iff_getElem?_ne_getElem?]
  intro slot other hlt hbound hname
  rw [List.length_map] at hbound
  have hinput := List.getElem?_eq_getElem (Nat.lt_trans hlt hbound)
  have hother := List.getElem?_eq_getElem hbound
  rw [List.getElem?_map, List.getElem?_map, hinput, hother] at hname
  exact Nat.ne_of_lt hlt (h hinput hother (Option.some.inj hname))

theorem slotsFound_iff : cls.SlotsFound ↔ (cls.fields.map Field.name).Nodup := by
  constructor
  · intro hfound
    have hslots := slotsOf_numberedNode cls
    refine nodup_of_slots hslots fun hinput hother hname => ?_
    have hindex := hfound _ hslots _ _ hinput
    rw [hname, hfound _ hslots _ _ hother] at hindex
    exact (Option.some.inj hindex).symm
  · intro hdistinct node hslots slot input hinput
    rw [← hslots] at hdistinct
    obtain ⟨hbound, rfl⟩ := List.getElem?_eq_some_iff.1 hinput
    -- The search stops at the first slot of the name, and no earlier one has it.
    refine List.findIdx?_eq_some_iff_getElem.2 ⟨hbound, by simp, fun earlier hearlier => ?_⟩
    have hapart := (List.pairwise_iff_getElem.1 (List.pairwise_map.1 hdistinct)) earlier slot
      (Nat.lt_trans hearlier hbound) hbound hearlier
    simpa using hapart

theorem slotsRead_iff : cls.SlotsRead ↔ (cls.fields.map Field.name).Nodup := by
  constructor
  · intro hread
    have hslots := slotsOf_numberedNode cls
    have hvalue : ∀ {slot : Nat} {input : InputSlot},
        (numberedNode cls.fields).inputs[slot]? = some input → (Graph.empty.nodeValue
          (numberedNode cls.fields)).get? input.name = some (.scalar (.int slot)) := by
      intro slot input hinput
      rw [hread _ _ hslots rfl input (List.mem_of_getElem? hinput)]
      rw [numberedNode, List.getElem?_mapIdx] at hinput
      obtain ⟨field, -, rfl⟩ := Option.map_eq_some_iff.1 hinput
      rfl
    refine nodup_of_slots hslots fun hinput hother hname => ?_
    have hnumber := hvalue hinput
    rw [hname, hvalue hother] at hnumber
    simp only [Option.some.injEq, NodeValue.scalar.injEq, Json.int.injEq] at hnumber
    omega
  · intro hdistinct g node hslots hcell input hinput
    rw [← hslots] at hdistinct
    rw [Graph.nodeValue, hcell]
    show (g.slotMembers node.inputs).lookup input.name = _
    rw [g.slotMembers_eq hdistinct]
    exact Json.lookup_named hdistinct hinput

end SchemaClass

namespace Schema

/--
The fields of a class are those that its body declares, however they are named.  They have
distinct names exactly if no two lines of the body declare one name; and only then is each
slot of a node of the class found under its name, and its value under that name in what the
node evaluates to.
-/
theorem fieldNames_nodup_iff {source : String} {cls : SchemaClass}
    (h : cls ∈ (parseClasses source).1) :
    ∃ body, IsBody source cls.name body ∧ cls.fields = body.filterMap member? ∧
      ((cls.fields.map Field.name).Nodup ↔ NamedApart body) ∧
      (cls.SlotsFound ↔ NamedApart body) ∧ (cls.SlotsRead ↔ NamedApart body) := by
  obtain ⟨body, hbody, hfields⟩ := exists_isBody h
  have hnames : (cls.fields.map Field.name).Nodup ↔ NamedApart body := by
    rw [hfields]
    exact nodup_names_iff_namedApart body
  exact ⟨body, hbody, hfields, hnames, SchemaClass.slotsFound_iff.trans hnames,
    SchemaClass.slotsRead_iff.trans hnames⟩

/-- A class that declares a name twice, and one that did so until it was declared again. -/
def repeatingSource : String :=
  "class A:\n  x: str\n  x: int\nclass B:\n  y: str\n  y: str\nclass B:\n  y: str\n  z: int"

theorem fieldNames_nodup_iff_repeatingSource :
    ∃ once twice, (parseClasses repeatingSource).1 = [twice, once] ∧
      (twice.fields.map Field.name = ["x", "x"] ∧ ¬ twice.SlotsFound ∧ ¬ twice.SlotsRead) ∧
      once.fields.map Field.name = ["y", "z"] ∧ once.SlotsFound ∧ once.SlotsRead := by
  have hclasses : (parseClasses repeatingSource).1 =
      [ ⟨"A", [⟨"x", .named "str", "str", ""⟩, ⟨"x", .named "int", "int", ""⟩]⟩
      , ⟨"B", [⟨"y", .named "str", "str", ""⟩, ⟨"z", .named "int", "int", ""⟩]⟩ ] := by
    with_unfolding_all rfl
  refine ⟨_, _, hclasses, ⟨rfl, ?_⟩, rfl, ?_⟩
  · obtain ⟨body, -, -, hnames, hfound, hread⟩ :=
      fieldNames_nodup_iff (hclasses ▸ List.mem_cons_self)
    rw [hfound, hread, ← hnames]
    decide
  · obtain ⟨body, -, -, hnames, hfound, hread⟩ :=
      fieldNames_nodup_iff (hclasses ▸ List.mem_cons_of_mem _ (List.mem_singleton_self _))
    rw [hfound, hread, ← hnames]
    decide

end Schema

end SlotGraph
