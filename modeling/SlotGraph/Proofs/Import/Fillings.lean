import SlotGraph.Proofs.Import.Underway

/-!
# The slots that an import fills by links

The second and the third pass of an import, and every inline object on the way, fill the
slots of some node from the values of some object.  The calls that fill a slot which only
links feed are listed here in their order, each with the progress that it starts from.  All
of them find what they rely on: a node of a declared class with a slot for the field, a value
that is not null, and an embedding that goes as deep as the value.
-/

namespace SlotGraph

namespace Json

/-! ## Depths -/

theorem depth_le_of_mem_items {items : List Json} {item : Json} (h : item ∈ items) :
    item.depth ≤ depthItems items := by
  induction items with
  | nil =>
      exact absurd h List.not_mem_nil
  | cons first rest ih =>
      rw [depthItems]
      rcases List.mem_cons.1 h with rfl | hlater
      · omega
      · have hrest := ih hlater
        omega

theorem depth_le_of_mem_members {members : List (String × Json)} {member : String × Json}
    (h : member ∈ members) : member.2.depth ≤ depthMembers members := by
  induction members with
  | nil =>
      exact absurd h List.not_mem_nil
  | cons first rest ih =>
      obtain ⟨key, value⟩ := first
      rw [depthMembers]
      rcases List.mem_cons.1 h with rfl | hlater
      · show value.depth ≤ _
        omega
      · have hrest := ih hlater
        omega

theorem depth_lt_arr {items : List Json} {item : Json} (h : item ∈ items) :
    item.depth < (Json.arr items).depth :=
  Nat.lt_succ_of_le (depth_le_of_mem_items h)

theorem depth_lt_obj {members : List (String × Json)} {member : String × Json}
    (h : member ∈ members) : member.2.depth < (Json.obj members).depth :=
  Nat.lt_succ_of_le (depth_le_of_mem_members h)

theorem depth_lt_of_lookup {members : List (String × Json)} {key : String} {value : Json}
    (h : members.lookup key = some value) : value.depth < (Json.obj members).depth :=
  depth_lt_obj (mem_of_lookup h)

end Json

namespace Import

/-! ## The calls of an import -/

/--
A call that fills a slot by links: the node and the slot, the field and its value, how deep
inline objects may nest there, and how far the import had come.
-/
structure Filling where
  target : NodeId
  slot : Nat
  field : Field
  value : Json
  depth : Nat
  before : Progress

def Filling.after (setting : Setting) (groups : List Group) (call : Filling) : Progress :=
  fillSlot setting groups (embedAt setting groups call.depth) call.target call.slot call.field
    call.value call.before

/-- The calls that something leads to which is done for each of some things in turn. -/
def overEach {α : Type} (change : Progress → α → Progress)
    (calls : α → Progress → List Filling) : List α → Progress → List Filling
  | [], _ => []
  | x :: rest, p => calls x p ++ overEach change calls rest (change p x)

/-- The calls that making a node for an inline object leads to. -/
abbrev InlineFillings :=
  Field → List (String × Json) → Progress → List Filling

def elementFillings (inner : InlineFillings) (field : Field) (element : Json) (p : Progress) :
    List Filling :=
  match element with
  | .obj object => inner field object p
  | _ => []

section

variable (setting : Setting) (groups : List Group) (depth : Nat) (inner : InlineFillings)
  (id : NodeId)

def linkedFillings (slot : Nat) (field : Field) (value : Json) (p : Progress) : List Filling :=
  match value with
  | .arr elements =>
      overEach
        (fun p element => linkElement setting groups (embedAt setting groups depth) id slot field
          "" element p)
        (elementFillings inner field) elements p
  | .obj object =>
      if field.type.required.isDict then
        overEach
          (fun p entry => linkElement setting groups (embedAt setting groups depth) id slot field
            entry.1 entry.2 p)
          (fun entry => elementFillings inner field entry.2) object p
      else
        elementFillings inner field (.obj object) p
  | _ => []

def valueFillings (slot : Nat) (field : Field) (value : Option Json) (p : Progress) :
    List Filling :=
  match value with
  | some value =>
      if p.isNative id slot || value.isNull then []
      else
        ⟨id, slot, field, value, depth, p⟩ ::
          linkedFillings setting groups depth inner id slot field value p
  | none => []

def objectFillings (cls : SchemaClass) (source : List (String × Json)) (p : Progress) :
    List Filling :=
  overEach
    (fun p entry => fillValue setting groups (embedAt setting groups depth) id entry.2 entry.1
      (source.lookup entry.1.name) p)
    (fun entry => valueFillings setting groups depth inner id entry.2 entry.1
      (source.lookup entry.1.name))
    cls.fields.zipIdx p

def populateFillings (source : List (String × Json)) (p : Progress) : List Filling :=
  match (p.graph.findNode? id).bind fun node => setting.schema.findClass? node.className with
  | some cls => objectFillings setting groups depth inner id cls source p
  | none => []

/-- The calls that making a node for an inline object leads to, given those further inside. -/
def inlineFillingsWith : InlineFillings :=
  fun field object p =>
    match embeddedClass? setting.schema field object p with
    | (some className, p) =>
        match p.createNode setting className
            (setting.layout.embeddedX p.embedded) (setting.layout.embeddedY p.embedded) with
        | (some id, p) =>
            populateFillings setting groups depth inner id object
              { p with embedded := p.embedded + 1 }
        | (none, _) => []
    | (none, _) => []

end

/-- The calls that inline objects lead to which nest at most so deep. -/
def inlineFillings (setting : Setting) (groups : List Group) : Nat → InlineFillings
  | 0 => fun _ _ _ => []
  | depth + 1 =>
      inlineFillingsWith setting groups depth (inlineFillings setting groups depth)

section

variable (setting : Setting) (groups : List Group) (depth : Nat)

def populateElement (embed : Embed) (key : String) (p : Progress)
    (entry : (NodeId × Json) × Nat) : Progress :=
  match entry.1.2 with
  | .obj source => populate setting groups embed entry.1.1 source p
  | _ => p.report (.elementNotObject key entry.2)

def groupNodeFillings (entry : (NodeId × Json) × Nat) (p : Progress) : List Filling :=
  match entry.1.2 with
  | .obj source =>
      populateFillings setting groups depth (inlineFillings setting groups depth) entry.1.1 source p
  | _ => []

/-- The calls of the second pass. -/
def groupFillings (p : Progress) : List Filling :=
  overEach
    (fun p group => populateNodes setting groups (embedAt setting groups depth) group.key 0
      group.nodes p)
    (fun group => overEach (populateElement setting groups (embedAt setting groups depth) group.key)
      (groupNodeFillings setting groups depth) group.nodes.zipIdx)
    groups p

def rootSlotFillings (root : NodeId) (document : List (String × Json)) (entry : Field × Nat)
    (p : Progress) : List Filling :=
  match findGroup? groups entry.1.name with
  | some _ => []
  | none =>
      valueFillings setting groups depth (inlineFillings setting groups depth) root entry.2 entry.1
        (document.lookup entry.1.name) p

/-- The calls of the third pass. -/
def rootFillings (document : List (String × Json)) (p : Progress) : List Filling :=
  match setting.schema.rootClass? with
  | none => []
  | some cls =>
      match p.createNode setting cls.name setting.layout.rootX setting.layout.rowStartY with
      | (none, _) => []
      | (some root, p) =>
          overEach
            (fun p entry => fillRootSlot setting groups (embedAt setting groups depth) root entry.2
              entry.1 (document.lookup entry.1.name) p)
            (rootSlotFillings setting groups depth root document) cls.fields.zipIdx p

end

def afterFilling (setting : Setting) (g : Graph) (document : List (String × Json)) : Progress :=
  let groups := madeGroups setting g document
  populateGroups setting groups (embedAt setting groups (Json.obj document).depth)
    (afterGroups setting g document)

/-- All calls of an import that fill a slot by links. -/
def fillings (setting : Setting) (g : Graph) (document : List (String × Json)) : List Filling :=
  let groups := madeGroups setting g document
  let depth := (Json.obj document).depth
  groupFillings setting groups depth (afterGroups setting g document) ++
    rootFillings setting groups depth document (afterFilling setting g document)

variable {setting : Setting} {groups : List Group} {g : Graph} {p q p' : Progress}
  {document : List (String × Json)} {depth : Nat} {inner : InlineFillings} {id : NodeId}
  {slot : Nat} {cls : SchemaClass} {field : Field}

/-! ## Folds -/

theorem fillEach_eq_foldl (fill : Nat → Field → Progress → Progress) (slot : Nat)
    (fields : List Field) (p : Progress) :
    fillEach fill slot fields p =
      (fields.zipIdx slot).foldl (fun p entry => fill entry.2 entry.1 p) p := by
  induction fields generalizing slot p with
  | nil =>
      rfl
  | cons field rest ih =>
      rw [fillEach, ih, List.zipIdx_cons, List.foldl_cons]

theorem populateNodes_eq_foldl (embed : Embed) (key : String) (position : Nat)
    (nodes : List (NodeId × Json)) (p : Progress) :
    populateNodes setting groups embed key position nodes p =
      (nodes.zipIdx position).foldl (populateElement setting groups embed key) p := by
  induction nodes generalizing position p with
  | nil =>
      rfl
  | cons node rest ih =>
      obtain ⟨id, element⟩ := node
      rw [List.zipIdx_cons, List.foldl_cons, ← ih]
      cases element <;> rfl

theorem steps_populateElement {embed : Embed} (hembed : embed.TakesSteps setting) (key : String)
    (entry : (NodeId × Json) × Nat) (p : Progress) :
    Steps setting p (populateElement setting groups embed key p entry) := by
  unfold populateElement
  split
  · exact steps_populate hembed _ _ p
  · exact steps_report p _

/-! ## What the calls rely on -/

/-- Whether a call finds a slot of a declared class for its field, and a value to be linked. -/
structure Filling.Proper (setting : Setting) (call : Filling) : Prop where
  slot : ∃ cls ∈ setting.schema.classes,
    IsOf setting.schema call.before.graph call.target cls ∧
    cls.fields[call.slot]? = some call.field ∧
    (setting.schema.inputOf cls call.field).intake.native? = none
  given : call.value.isNull = false
  deep : call.value.depth ≤ call.depth

/--
Whether some calls are made on the way from one progress of an import to another, and find
what they rely on.
-/
def Between (setting : Setting) (groups : List Group) (g : Graph) (p p' : Progress)
    (calls : List Filling) : Prop :=
  ∀ call ∈ calls, call.Proper setting ∧ Underway setting groups g call.before ∧
    Steps setting p call.before ∧ Steps setting (call.after setting groups) p'

namespace Between

variable {calls calls' : List Filling}

theorem nil (p p' : Progress) : Between setting groups g p p' [] :=
  fun _ hcall => absurd hcall List.not_mem_nil

theorem widen (h : Between setting groups g p q calls) (hbefore : Steps setting p' p)
    {q' : Progress} (hafter : Steps setting q q') : Between setting groups g p' q' calls := by
  intro call hcall
  obtain ⟨hproper, hunderway, hfirst, hlast⟩ := h call hcall
  exact ⟨hproper, hunderway, hbefore.trans hfirst, hlast.trans hafter⟩

theorem append (h : Between setting groups g p p' calls)
    (h' : Between setting groups g p p' calls') :
    Between setting groups g p p' (calls ++ calls') := by
  intro call hcall
  rcases List.mem_append.1 hcall with hfirst | hsecond
  · exact h call hfirst
  · exact h' call hsecond

end Between

/-- What is done for each of some things in turn makes the calls that each of them leads to. -/
theorem between_overEach {α : Type} {change : Progress → α → Progress}
    {calls : α → Progress → List Filling} {xs : List α}
    (hsteps : ∀ x q, Steps setting q (change q x))
    (hone : ∀ x ∈ xs, ∀ q, Steps setting p q → Underway setting groups g q →
      Reaches g (change q x) → Between setting groups g q (change q x) (calls x q))
    (hp : Underway setting groups g p) (hreach : Reaches g (xs.foldl change p)) :
    Between setting groups g p (xs.foldl change p) (overEach change calls xs p) := by
  induction xs generalizing p with
  | nil =>
      exact .nil p p
  | cons x rest ih =>
      rw [List.foldl_cons] at hreach ⊢
      have hlater : Steps setting (change p x) (rest.foldl change (change p x)) :=
        steps_foldl (fun y _ q => hsteps y q) _
      have hreachFirst := hreach.back hlater
      have hfirst := hone x List.mem_cons_self p .refl hp hreachFirst
      have hrest := ih
        (fun y hy q hq => hone y (List.mem_cons_of_mem x hy) q ((hsteps x p).trans hq))
        (hp.steps (hsteps x p) hreachFirst) hreach
      exact (hfirst.widen .refl hlater).append (hrest.widen (hsteps x p) .refl)

/-! ## Slots -/

/-- Whether some calls are those that inline objects lead to which nest at most so deep. -/
def Covers (setting : Setting) (groups : List Group) (g : Graph) (depth : Nat)
    (inner : InlineFillings) : Prop :=
  ∀ field object p, Underway setting groups g p → (Json.obj object).depth ≤ depth →
    Reaches g (embedAt setting groups depth field object p).2 →
    Between setting groups g p (embedAt setting groups depth field object p).2
      (inner field object p)

theorem steps_linkEmbedded (setting : Setting) (groups : List Group) (embed : Embed)
    (id : NodeId) (slot : Nat) (field : Field) (key : String) (object : List (String × Json))
    (p : Progress) :
    Steps setting (embed field object p).2
      (linkElement setting groups embed id slot field key (.obj object) p) := by
  have hnumber : (Json.obj object).int64? = none := rfl
  simp only [linkElement, hnumber]
  split
  · next origin made hmade =>
      rw [hmade]
      exact steps_link made origin id slot key
  · next made hmade =>
      rw [hmade]

section

variable (hcovers : Covers setting groups g depth inner)

include hcovers

theorem between_linkElement (hp : Underway setting groups g p) {key : String} {element : Json}
    (hdeep : element.depth ≤ depth)
    (hreach : Reaches g (linkElement setting groups (embedAt setting groups depth) id slot field
      key element p)) :
    Between setting groups g p
      (linkElement setting groups (embedAt setting groups depth) id slot field key element p)
      (elementFillings inner field element p) := by
  cases element with
  | obj object =>
      have hlinked := steps_linkEmbedded setting groups (embedAt setting groups depth) id slot
        field key object p
      exact (hcovers field object p hp hdeep (hreach.back hlinked)).widen .refl hlinked
  | _ =>
      exact .nil _ _

theorem between_fillLinked (hp : Underway setting groups g p) {value : Json}
    (hdeep : value.depth ≤ depth)
    (hreach : Reaches g (fillLinked setting groups (embedAt setting groups depth) id slot field
      value p)) :
    Between setting groups g p
      (fillLinked setting groups (embedAt setting groups depth) id slot field value p)
      (linkedFillings setting groups depth inner id slot field value p) := by
  have hembed : Embed.TakesSteps setting (embedAt setting groups depth) := takesSteps_embedAt depth
  cases value with
  | arr elements =>
      refine between_overEach (fun element q => steps_linkElement hembed id slot field "" element q)
        (fun element helement q _ hq hqReach => ?_) hp hreach
      have hlt := Json.depth_lt_arr helement
      exact between_linkElement hcovers hq (by omega) hqReach
  | obj object =>
      rw [fillLinked] at hreach ⊢
      rw [linkedFillings]
      by_cases hdict : field.type.required.isDict = true
      · rw [if_pos hdict] at hreach ⊢
        rw [if_pos hdict]
        refine between_overEach
          (fun entry q => steps_linkElement hembed id slot field entry.1 entry.2 q)
          (fun entry hentry q _ hq hqReach => ?_) hp hreach
        have hlt := Json.depth_lt_obj hentry
        exact between_linkElement hcovers hq (by omega) hqReach
      · rw [if_neg hdict] at hreach ⊢
        rw [if_neg hdict]
        exact between_linkElement hcovers hp hdeep hreach
  | _ =>
      exact .nil _ _

/-- Filling a slot is a call of its own if its value is linked, and leads to those inside. -/
theorem between_fillValue (hp : Underway setting groups g p)
    (hcls : cls ∈ setting.schema.classes) (hnode : IsOf setting.schema p.graph id cls)
    (hfield : cls.fields[slot]? = some field) {value : Option Json}
    (hdeep : ∀ v, value = some v → v.depth ≤ depth)
    (hreach : Reaches g (fillValue setting groups (embedAt setting groups depth) id slot field
      value p)) :
    Between setting groups g p
      (fillValue setting groups (embedAt setting groups depth) id slot field value p)
      (valueFillings setting groups depth inner id slot field value p) := by
  cases value with
  | none =>
      exact .nil _ _
  | some value =>
      have hnative := isNative_eq (hnode.input_eq hfield)
      rw [fillValue] at hreach ⊢
      rw [valueFillings]
      by_cases hlinked : (p.isNative id slot || value.isNull) = true
      · rw [if_pos hlinked]
        exact .nil _ _
      · rw [if_neg hlinked]
        rw [Bool.or_eq_true, not_or, Bool.not_eq_true, Bool.not_eq_true] at hlinked
        obtain ⟨hlinkFed, hgiven⟩ := hlinked
        have hfill : fillSlot setting groups (embedAt setting groups depth) id slot field value p =
            fillLinked setting groups (embedAt setting groups depth) id slot field value p := by
          rw [fillSlot, if_neg (by simp [hlinkFed]), if_neg (by simp [hgiven])]
        intro call hcall
        rcases List.mem_cons.1 hcall with rfl | hinside
        · refine ⟨⟨⟨cls, hcls, hnode, hfield, ?_⟩, hgiven, hdeep value rfl⟩, hp, .refl, .refl⟩
          rw [hlinkFed] at hnative
          exact Option.not_isSome_iff_eq_none.1 (by simp [← hnative])
        · rw [hfill] at hreach ⊢
          exact between_fillLinked hcovers hp (hdeep value rfl) hreach call hinside

/-! ## Nodes -/

omit hcovers in
theorem populateFillings_eq (hnode : IsOf setting.schema p.graph id cls)
    (hfind : setting.schema.findClass? cls.name = some cls) (source : List (String × Json)) :
    populateFillings setting groups depth inner id source p =
      objectFillings setting groups depth inner id cls source p := by
  obtain ⟨template, hshape, htemplate⟩ := hnode
  obtain ⟨node, hnodeFind, rfl⟩ := Option.map_eq_some_iff.1 hshape
  have hname : node.className = cls.name := htemplate.className
  rw [populateFillings, hnodeFind, Option.bind_some, hname, hfind]

/-- A node of a class is filled from an object. -/
theorem between_populate (hp : Underway setting groups g p)
    (haccepted : setting.schema.Accepted) (hcls : cls ∈ setting.schema.classes)
    (hnode : IsOf setting.schema p.graph id cls) {source : List (String × Json)}
    (hdeep : (Json.obj source).depth ≤ depth + 1)
    (hreach : Reaches g (populate setting groups (embedAt setting groups depth) id source p)) :
    Between setting groups g p
      (populate setting groups (embedAt setting groups depth) id source p)
      (populateFillings setting groups depth inner id source p) := by
  have hfind := haccepted.findClass?_eq_some_iff.2 ⟨hcls, rfl⟩
  rw [populateFillings_eq hnode hfind]
  rw [populate_eq hnode hfind, fillFields_eq, fillEach_eq_foldl] at hreach ⊢
  have hembed : Embed.TakesSteps setting (embedAt setting groups depth) := takesSteps_embedAt depth
  refine between_overEach
    (fun entry q => steps_fillValue hembed id entry.2 entry.1 (source.lookup entry.1.name) q)
    (fun entry hentry q hsteps hq hqReach => ?_) hp hreach
  have hfield : cls.fields[entry.2]? = some entry.1 :=
    List.mk_mem_zipIdx_iff_getElem?.1 hentry
  refine between_fillValue hcovers hq hcls (hnode.steps hsteps) hfield (fun v hv => ?_) hqReach
  have hlt := Json.depth_lt_of_lookup hv
  omega

end

/-! ## Inline objects -/

/-- Whether a node of a declared class has joined on the way from one progress to another. -/
structure Joins (setting : Setting) (groups : List Group) (g : Graph) (p q : Progress)
    (id : NodeId) (cls : SchemaClass) : Prop where
  declared : cls ∈ setting.schema.classes
  steps : Steps setting p q
  underway : Underway setting groups g q
  node : IsOf setting.schema q.graph id cls

theorem joins_createNode (hserves : setting.registry.Serves setting.schema)
    (hp : Underway setting groups g p) (hcls : cls ∈ setting.schema.classes) (x y : Float)
    (hreach : ∀ id q, p.createNode setting cls.name x y = (some id, q) → Reaches g q) :
    ∃ id q, p.createNode setting cls.name x y = (some id, q) ∧
      Joins setting groups g p q id cls := by
  obtain ⟨template, hfind, htemplate, hcreate⟩ := createNode_eq hserves p hcls x y
  have hmade := hreach _ _ hcreate
  have hsteps : Steps setting p _ := .single (.create p cls.name template x y hfind)
  exact ⟨_, _, hcreate, hcls, hsteps, hp.steps hsteps hmade, hp.isOf_addNode hfind htemplate hmade⟩

theorem Joins.count (h : Joins setting groups g p q id cls) :
    Joins setting groups g p { q with embedded := q.embedded + 1 } id cls where
  declared := h.declared
  steps := h.steps.tail (.embed q)
  underway := ⟨⟨h.underway.counted.wellFormed, h.underway.counted.nodes,
    h.underway.counted.links⟩, h.underway.stocked⟩
  node := h.node

/--
An inline object either finds no class, which is reported, or becomes a node of a declared
class, that of its field if the field refers to one, and is filled.
-/
theorem embedWith_cases (hserves : setting.registry.Serves setting.schema) {embed : Embed}
    (hembed : embed.TakesSteps setting) (depth : Nat) (inner : InlineFillings) (field : Field)
    (object : List (String × Json)) (hp : Underway setting groups g p)
    (hreach : Reaches g (embedWith setting groups embed field object p).2) :
    (setting.schema.modelOf? field = none ∧
      embedWith setting groups embed field object p =
        (none, p.report (.noFittingClass field.name)) ∧
      inlineFillingsWith setting groups depth inner field object p = []) ∨
    ∃ cls id q, Joins setting groups g p q id cls ∧
      (∀ className, setting.schema.modelOf? field = some className → cls.name = className) ∧
      embedWith setting groups embed field object p =
        (some id, populate setting groups embed id object q) ∧
      inlineFillingsWith setting groups depth inner field object p =
        populateFillings setting groups depth inner id object q := by
  obtain ⟨issues, hclass⟩ := embeddedClass?_eq setting.schema field object p
  cases hname : (setting.schema.modelOf? field).or
      (classesCovering setting.schema object).head? with
  | none =>
      obtain ⟨hmodel, hcovering⟩ := Option.or_eq_none_iff.1 hname
      have hnone : embeddedClass? setting.schema field object p =
          (none, p.report (.noFittingClass field.name)) := by
        rw [embeddedClass?, hmodel, List.head?_eq_none_iff.1 hcovering]
      refine .inl ⟨hmodel, ?_, ?_⟩
      · rw [embedWith, hnone]
      · rw [inlineFillingsWith, hnone]
  | some className =>
      obtain ⟨cls, -, hcls, rfl⟩ := findClass?_of_inline hname
      rw [hname] at hclass
      have hreported : Underway setting groups g { p with issues := p.issues ++ issues } :=
        ⟨⟨hp.counted.wellFormed, hp.counted.nodes, hp.counted.links⟩, hp.stocked⟩
      obtain ⟨id, q, hcreate, hjoins⟩ := joins_createNode hserves hreported hcls
        (setting.layout.embeddedX p.embedded) (setting.layout.embeddedY p.embedded)
        fun id q hcreate => by
          rw [embedWith, hclass] at hreach
          simp only [hcreate] at hreach
          have hfilled := hreach.back (steps_populate hembed id object
            { q with embedded := q.embedded + 1 })
          exact hfilled
      refine .inr ⟨cls, id, { q with embedded := q.embedded + 1 },
        ⟨hcls, .head (.report p issues) hjoins.count.steps, hjoins.count.underway, hjoins.node⟩,
        fun model hmodel => ?_, ?_, ?_⟩
      · rw [hmodel, Option.some_or] at hname
        exact (Option.some.inj hname).symm
      · rw [embedWith, hclass]
        simp only [hcreate]
      · rw [inlineFillingsWith, hclass]
        simp only [hcreate]

/-- By induction on how deep objects nest, the calls for inline objects are made on the way. -/
theorem covers_inlineFillings (haccepted : setting.schema.Accepted)
    (hserves : setting.registry.Serves setting.schema) (depth : Nat) :
    Covers setting groups g depth (inlineFillings setting groups depth) := by
  induction depth with
  | zero =>
      exact fun _ _ _ _ _ _ => .nil _ _
  | succ depth ih =>
      intro field object p hp hdeep hreach
      have hembed : Embed.TakesSteps setting (embedAt setting groups depth) :=
        takesSteps_embedAt depth
      rw [embedAt] at hreach ⊢
      rw [inlineFillings]
      rcases embedWith_cases hserves hembed depth (inlineFillings setting groups depth) field object
        hp hreach with ⟨-, -, hcalls⟩ | ⟨cls, id, q, hjoins, -, hmade, hcalls⟩
      · rw [hcalls]
        exact .nil _ _
      · rw [hmade] at hreach ⊢
        rw [hcalls]
        exact (between_populate ih hjoins.underway haccepted hjoins.declared hjoins.node hdeep
          hreach).widen hjoins.steps .refl

/-! ## The passes -/

section

variable (haccepted : setting.schema.Accepted)
  (hserves : setting.registry.Serves setting.schema)

include haccepted hserves

theorem between_groupFillings (hp : Underway setting groups g p)
    (hdeep : ∀ group ∈ groups, ∀ node ∈ group.nodes, node.2.depth ≤ depth)
    (hreach : Reaches g (populateGroups setting groups (embedAt setting groups depth) p)) :
    Between setting groups g p (populateGroups setting groups (embedAt setting groups depth) p)
      (groupFillings setting groups depth p) := by
  have hembed : Embed.TakesSteps setting (embedAt setting groups depth) := takesSteps_embedAt depth
  have hcovers : Covers setting groups g depth (inlineFillings setting groups depth) :=
    covers_inlineFillings haccepted hserves depth
  refine between_overEach (fun group q => steps_populateNodes hembed group.key 0 group.nodes q)
    (fun group hgroup q _ hq hqReach => ?_) hp hreach
  rw [populateNodes_eq_foldl] at hqReach ⊢
  refine between_overEach (fun entry q => steps_populateElement hembed group.key entry q)
    (fun entry hentry r _ hr hrReach => ?_) hq hqReach
  obtain ⟨⟨id, element⟩, position⟩ := entry
  have hmember : (id, element) ∈ group.nodes := List.fst_mem_of_mem_zipIdx hentry
  have hle : element.depth ≤ depth := hdeep group hgroup _ hmember
  obtain ⟨cls, hcls, -, hnodes⟩ := hr.stocked group hgroup
  have hnode := hnodes id (List.mem_map_of_mem hmember)
  cases element with
  | obj source =>
      exact between_populate hcovers hr haccepted hcls hnode (by omega) hrReach
  | _ =>
      exact .nil _ _

theorem between_fillRootSlot (hp : Underway setting groups g p)
    (hcls : cls ∈ setting.schema.classes) (hnode : IsOf setting.schema p.graph id cls)
    (hfield : cls.fields[slot]? = some field) (hdeep : (Json.obj document).depth ≤ depth)
    (hreach : Reaches g (fillRootSlot setting groups (embedAt setting groups depth) id slot field
      (document.lookup field.name) p)) :
    Between setting groups g p
      (fillRootSlot setting groups (embedAt setting groups depth) id slot field
        (document.lookup field.name) p)
      (rootSlotFillings setting groups depth id document (field, slot) p) := by
  have hcovers : Covers setting groups g depth (inlineFillings setting groups depth) :=
    covers_inlineFillings haccepted hserves depth
  unfold fillRootSlot at hreach ⊢
  unfold rootSlotFillings
  cases hgroup : findGroup? groups field.name with
  | some group =>
      exact .nil _ _
  | none =>
      simp only [hgroup] at hreach ⊢
      refine between_fillValue hcovers hp hcls hnode hfield (fun v hv => ?_) hreach
      have hlt := Json.depth_lt_of_lookup hv
      omega

theorem between_fillRoot (hp : Underway setting groups g p)
    (hcls : cls ∈ setting.schema.classes) (hnode : IsOf setting.schema p.graph id cls)
    (hdeep : (Json.obj document).depth ≤ depth)
    (hreach : Reaches g (fillRoot setting groups (embedAt setting groups depth) id document 0
      cls.fields p)) :
    Between setting groups g p
      (fillRoot setting groups (embedAt setting groups depth) id document 0 cls.fields p)
      (overEach
        (fun p entry => fillRootSlot setting groups (embedAt setting groups depth) id entry.2
          entry.1 (document.lookup entry.1.name) p)
        (rootSlotFillings setting groups depth id document) cls.fields.zipIdx p) := by
  have hembed : Embed.TakesSteps setting (embedAt setting groups depth) := takesSteps_embedAt depth
  rw [fillRoot_eq, fillEach_eq_foldl] at hreach ⊢
  refine between_overEach
    (fun entry q => steps_fillRootSlot hembed id entry.2 entry.1 (document.lookup entry.1.name) q)
    (fun entry hentry q hsteps hq hqReach => ?_) hp hreach
  exact between_fillRootSlot haccepted hserves hq hcls (hnode.steps hsteps)
    (List.mk_mem_zipIdx_iff_getElem?.1 hentry) hdeep hqReach

theorem between_rootFillings (hp : Underway setting groups g p) {loose : List String}
    (hdeep : (Json.obj document).depth ≤ depth)
    (hreach : Reaches g (createRoot setting groups (embedAt setting groups depth) loose document
      p).2) :
    Between setting groups g p
      (createRoot setting groups (embedAt setting groups depth) loose document p).2
      (rootFillings setting groups depth document p) := by
  have hembed : Embed.TakesSteps setting (embedAt setting groups depth) := takesSteps_embedAt depth
  unfold createRoot at hreach ⊢
  unfold rootFillings
  cases hroot : setting.schema.rootClass? with
  | none =>
      exact .nil _ _
  | some cls =>
      have hcls := (Schema.of_rootClass? hroot).1
      simp only [hroot] at hreach ⊢
      have hend : ∀ id q, p.createNode setting cls.name setting.layout.rootX
          setting.layout.rowStartY = (some id, q) →
          Reaches g (fillRoot setting groups (embedAt setting groups depth) id document 0
            cls.fields q) := by
        intro id q hcreate
        simp only [hcreate] at hreach
        exact hreach.back (steps_reports setting Issue.strayRootKey _ _)
      obtain ⟨id, q, hcreate, hjoins⟩ := joins_createNode hserves hp hcls setting.layout.rootX
        setting.layout.rowStartY fun id q hcreate =>
          (hend id q hcreate).back (steps_fillRoot hembed id document 0 cls.fields q)
      simp only [hcreate]
      exact (between_fillRoot haccepted hserves hjoins.underway hcls hjoins.node hdeep
        (hend id q hcreate)).widen hjoins.steps (steps_reports setting Issue.strayRootKey _ _)

omit haccepted hserves in
/-- The element that a node of a group stands for lies in the document. -/
theorem depth_of_plan (hplan : groups.map Group.plan = planned setting.schema document)
    {group : Group} (hgroup : group ∈ groups) {node : NodeId × Json}
    (hnode : node ∈ group.nodes) : node.2.depth ≤ (Json.obj document).depth := by
  obtain ⟨value, hvalue, hplanned⟩ := mem_planned.1
    (hplan ▸ List.mem_map_of_mem hgroup : group.plan ∈ planned setting.schema document)
  obtain ⟨-, -, -, helements⟩ := of_groupElements? hplanned
  have hmember : node.2 ∈ group.nodes.map Prod.snd := List.mem_map_of_mem hnode
  have hvalueDepth : value.depth < (Json.obj document).depth := Json.depth_lt_obj hvalue
  cases value with
  | arr items =>
      cases helements
      have hitem := Json.depth_lt_arr hmember
      omega
  | obj members =>
      have hsingle : [Json.obj members] = group.nodes.map Prod.snd := Option.some.inj helements
      rw [← hsingle, List.mem_singleton] at hmember
      rw [hmember]
      omega
  | _ =>
      cases helements

/-- The passes of an import lead from its groups over their filling to its end. -/
theorem underway_passes (hg : g.WellFormed) (hreach : Reaches g (run setting g document).2) :
    Underway setting (madeGroups setting g document) g (afterGroups setting g document) ∧
      Steps setting (afterGroups setting g document) (afterFilling setting g document) ∧
      Underway setting (madeGroups setting g document) g (afterFilling setting g document) ∧
      Steps setting (afterFilling setting g document) (run setting g document).2 := by
  have hembed : Embed.TakesSteps setting
      (embedAt setting (madeGroups setting g document) (Json.obj document).depth) :=
    takesSteps_embedAt _
  have hfilled : Steps setting (afterGroups setting g document)
      (afterFilling setting g document) :=
    steps_populateGroups hembed (afterGroups setting g document)
  have hroot : Steps setting (afterFilling setting g document) (run setting g document).2 :=
    steps_createRoot hembed _ document _
  have hreachFilled := hreach.back hroot
  have hmade := underway_afterGroups haccepted hserves hg (hreachFilled.back hfilled)
  exact ⟨hmade, hfilled, hmade.steps hfilled hreachFilled, hroot⟩

/-- The calls of an import are made on its way, once the groups are made. -/
theorem between_fillings (hg : g.WellFormed) (hreach : Reaches g (run setting g document).2) :
    Between setting (madeGroups setting g document) g (afterGroups setting g document)
      (run setting g document).2 (fillings setting g document) := by
  obtain ⟨hplan, -⟩ := plan_madeGroups haccepted hserves g document
  obtain ⟨hmade, hfilled, hpopulated, hroot⟩ := underway_passes haccepted hserves hg hreach
  have hgroups := between_groupFillings haccepted hserves hmade
    (fun group hgroup node hnode => depth_of_plan hplan hgroup hnode) (hreach.back hroot)
  have hlast := between_rootFillings haccepted hserves hpopulated
    (Nat.le_refl (Json.obj document).depth) hreach
  exact (hgroups.widen .refl hroot).append (hlast.widen hfilled .refl)

end

end Import

end SlotGraph
