import SlotGraph.Proofs.Config.Natives
import SlotGraph.Proofs.Import.Roster
import SlotGraph.Proofs.Template.Collections

/-!
# Importing collections

An array or object that a document gives for a plain collection is put into the slot of the
field as its text, and nothing else is done with it: it is never read as references.  So it
stands there in the end of the import, and the slot puts out what was given.
-/

namespace SlotGraph

namespace Import

variable {setting : Setting} {groups : List Group} {p : Progress}
  {id : NodeId} {slot : Nat} {value : Json} {kind : NativeKind}

/--
Whether an array or object is stored in a native slot as its text, and nothing else is done.
What the slot puts out is the array or object again.
-/
structure Stores (kind : NativeKind) (id : NodeId) (slot : Nat) (value : Json)
    (p q : Progress) : Prop where
  fills : Fills id slot ⟨p.graph.sources id slot, some (.str value.render)⟩ p q
  issues : q.issues = p.issues
  links : q.links = p.links
  embedded : q.embedded = p.embedded
  putsOut : value.Canonical → ∀ optional,
    kind.coerceInput? optional (.str value.render) = some value

theorem stores_setNative (hkind : kind.isCollection = true)
    (hheld : (p.graph.held? id slot).isSome = true) (hvalue : value.isStructured = true) :
    Stores kind id slot value p (p.setNative id slot (nativeForm value)) where
  fills := by
    obtain ⟨held, hheld⟩ := Option.isSome_iff_exists.1 hheld
    have hset := fills_setNative p id slot (nativeForm value)
    have htext : nativeForm value = .str value.render := if_pos hvalue
    rw [hheld, htext] at hset
    rwa [htext]
  issues := rfl
  links := rfl
  embedded := rfl
  putsOut hcanonical optional :=
    Build.coerceInput?_text hkind optional hcanonical hvalue

/-- Whether the slot of a field holds an array or object that an object gives for it, as text. -/
def HoldsAsText (g : Graph) (id : NodeId) (cls : SchemaClass) (field : Field)
    (source : List (String × Json)) : Prop :=
  ∀ position value, cls.fields[position]? = some field →
    source.lookup field.name = some value → value.isStructured = true →
    g.content id position = ⟨[], some (.str value.render)⟩

theorem ObjectFilled.holdsAsText {g : Graph} {cls : SchemaClass} {field : Field}
    {source : List (String × Json)} (h : ObjectFilled setting groups g id cls source)
    (hnative : (setting.schema.inputOf cls field).intake.native? = some kind) :
    HoldsAsText g id cls field source := by
  intro position value hfield hgiven hvalue
  have hsome : (setting.schema.inputOf cls field).intake.native?.isSome = true := by
    rw [hnative]
    rfl
  rw [h position field hfield fun v _ => Or.inl hsome, hgiven, filledContent, if_pos hsome,
    nativeForm, if_pos hvalue]

/--
Outside the root, a slot of a collection whose type names no declared class holds a value of
its kind exactly if the collection is plain.  An array or object that is given for the field
is then stored, whatever the import has done before, and otherwise read as references.  So
in the end of an import, what plain collections were given stands in their slots.
-/
theorem collection_held_iff {cls : SchemaClass} {field : Field}
    (hroot : setting.schema.isRoot cls = false) (hkind : field.type.collection? = some kind)
    (hunnamed : TypeExpr.mentionsClass setting.schema.classes field.type.sourceText = false) :
    ((setting.schema.inputOf cls field).intake = .single (some kind) ↔
      field.type.isPlain setting.schema.classes = true) ∧
    (∀ {groups : List Group} {embed : Embed} {p : Progress} {id : NodeId} {slot : Nat}
      {value : Json},
      (p.graph.shape? id).bind (·.inputs[slot]?) = some (setting.schema.inputOf cls field) →
      value.isStructured = true →
      if field.type.isPlain setting.schema.classes then
        Stores kind id slot value p (fillSlot setting groups embed id slot field value p)
      else
        fillSlot setting groups embed id slot field value p =
          fillLinked setting groups embed id slot field value p) ∧
    ∀ {document : List (String × Json)}, setting.schema.Accepted →
      setting.registry.Serves setting.schema → (run setting Graph.empty document).2.Fits →
      ∃ before after,
        Roster setting document (madeGroups setting Graph.empty document)
          (run setting Graph.empty document).1.root (run setting Graph.empty document).2.graph
          before after ∧
        (field.type.isPlain setting.schema.classes = true →
          ∀ entry ∈ before ++ after.tail,
            setting.schema.findClass? entry.2.className = some cls →
            ∀ source, entry.2.element = .obj source →
              HoldsAsText (run setting Graph.empty document).2.graph entry.1 cls field source) := by
  have hnative := Schema.native?_inputOf hroot hkind hunnamed
  refine ⟨?_, fun {groups embed p id slot value} hinput hvalue => ?_,
    fun haccepted hserves hfits => ?_⟩
  · rw [Intake.eq_single_iff, hnative]
    cases field.type.isPlain setting.schema.classes <;> simp
  · have hheld := Graph.isSome_held? hinput
    rw [fillSlot, isNative_eq hinput, hnative]
    rw [hnative] at hheld
    cases hplain : field.type.isPlain setting.schema.classes with
    | true =>
        rw [hplain] at hheld
        exact stores_setNative (TypeExpr.isCollection_of_collection? hkind) hheld hvalue
    | false =>
        have hnull : value.isNull = false := by
          cases value <;> first | rfl | cases hvalue
        rw [hnull]
        rfl
  · obtain ⟨before, after, hroster⟩ := roster_run haccepted hserves hfits
    refine ⟨before, after, hroster, fun hplain entry hentry hcls source hsource => ?_⟩
    rw [if_pos hplain] at hnative
    obtain ⟨found, hfound, hfilled⟩ := hroster.settled entry hentry
    obtain rfl := Option.some.inj (hfound.symm.trans hcls)
    exact (hfilled source hsource).holdsAsText hnative

/-! ## A catalogue -/

def tagsField : Field :=
  ⟨"tags", .wrapped .list (.named "str"), "List[str]", ""⟩

/-- A list whose elements are a union of plain types. -/
def sizesField : Field :=
  ⟨"sizes", .wrapped .list (.union [.named "int", .named "str"]), "List[Union[int, str]]", ""⟩

/-- A dictionary with a blank inside the name of its values. -/
def pricesField : Field :=
  ⟨"prices", .dict "str, To ol", "Dict[str, To ol]", ""⟩

def catalogueItem : SchemaClass :=
  ⟨"Item", [tagsField, sizesField, pricesField]⟩

def catalogue : Schema :=
  Schema.ofClasses "s" "Index" "" [⟨"To", [⟨"n", .named "int", "int", ""⟩]⟩, catalogueItem]

def catalogueSource : String :=
  "class To:\n  n: int\nclass Item:\n  tags: List[str]\n  sizes: List[Union[int, str]]\n" ++
  "  prices: Dict[str, To ol]\n"

set_option maxRecDepth 4000 in
theorem accepted_catalogue : catalogue.Accepted := by
  have hread : (Schema.parseClasses catalogueSource).1 = catalogue.classes := by
    with_unfolding_all rfl
  exact Schema.accepted_ofClasses hread (by decide) (by decide) (by decide) (by decide)
    fun hroot => absurd rfl hroot

def catalogueSetting : Setting :=
  ⟨catalogue, Registry.initial.add catalogue 1, ImportLayout.standard⟩

theorem serves_catalogue : catalogueSetting.registry.Serves catalogue :=
  Registry.serves_add (by decide) (by decide)

def catalogueDocument : List (String × Json) :=
  [ ("items", .arr [.obj
      [ ("prices", .obj [("a", .int 2)])
      , ("sizes", .arr [.int 1])
      , ("tags", .arr [.str "a"]) ]]) ]

def catalogueStart : Progress :=
  .start (Graph.empty.addNode (NodeTemplate.ofClass catalogue 1 2 catalogueItem) 0 0).2

/-- The tags of an item are stored; its sizes are read as references. -/
theorem collection_held_iff_catalogue :
    catalogue.isRoot catalogueItem = false ∧
    (TypeExpr.mentionsClass catalogue.classes tagsField.type.sourceText = false ∧
      (catalogue.inputOf catalogueItem tagsField).intake = .single (some .list) ∧
      Stores .list 1 0 (.arr [.str "a"]) catalogueStart
        (fillSlot catalogueSetting [] (embedAt catalogueSetting [] 0) 1 0 tagsField
          (.arr [.str "a"]) catalogueStart)) ∧
    (TypeExpr.mentionsClass catalogue.classes sizesField.type.sourceText = false ∧
      (catalogue.inputOf catalogueItem sizesField).intake ≠ .single (some .list) ∧
      fillSlot catalogueSetting [] (embedAt catalogueSetting [] 0) 1 1 sizesField
          (.arr [.int 1]) catalogueStart =
        fillLinked catalogueSetting [] (embedAt catalogueSetting [] 0) 1 1 sizesField
          (.arr [.int 1]) catalogueStart) ∧
    ∃ before after,
      Roster catalogueSetting catalogueDocument
        (madeGroups catalogueSetting Graph.empty catalogueDocument)
        (run catalogueSetting Graph.empty catalogueDocument).1.root
        (run catalogueSetting Graph.empty catalogueDocument).2.graph before after ∧
      ∀ entry ∈ before ++ after.tail, catalogue.findClass? entry.2.className = some catalogueItem →
        ∀ source, entry.2.element = .obj source →
          HoldsAsText (run catalogueSetting Graph.empty catalogueDocument).2.graph entry.1
            catalogueItem tagsField source := by
  have hroot : catalogueSetting.schema.isRoot catalogueItem = false := by
    decide
  have htags : TypeExpr.mentionsClass catalogueSetting.schema.classes
      tagsField.type.sourceText = false := by
    decide
  have hsizes : TypeExpr.mentionsClass catalogueSetting.schema.classes
      sizesField.type.sourceText = false := by
    decide
  have htagsKind : tagsField.type.collection? = some .list := rfl
  have hsizesKind : sizesField.type.collection? = some .list := rfl
  have hfits : (run catalogueSetting Graph.empty catalogueDocument).2.Fits :=
    ⟨by decide +kernel, by decide +kernel⟩
  obtain ⟨htagsHeld, htagsFill, htagsRun⟩ := collection_held_iff hroot htagsKind htags
  obtain ⟨hsizesHeld, hsizesFill, -⟩ := collection_held_iff hroot hsizesKind hsizes
  have hplain : tagsField.type.isPlain catalogueSetting.schema.classes = true := by
    decide
  have hsizesNot : (catalogue.inputOf catalogueItem sizesField).intake ≠ .single (some .list) :=
    fun hheld => absurd (hsizesHeld.1 hheld) (by decide)
  obtain ⟨before, after, hroster, hkept⟩ := htagsRun accepted_catalogue serves_catalogue hfits
  exact ⟨hroot, ⟨htags, htagsHeld.2 hplain, htagsFill rfl rfl⟩,
    ⟨hsizes, hsizesNot, hsizesFill rfl rfl⟩, before, after, hroster, hkept hplain⟩

/--
Two collections that name no class and hold no value of their kind: a list of a union of
plain types collects links, and in the arguments of a dictionary a name is seen that a blank
sets apart.  What is given for them is read as references.
-/
theorem not_collection_held_catalogue :
    catalogue.Accepted ∧ catalogueItem ∈ catalogue.classes ∧
    catalogue.isRoot catalogueItem = false ∧
    (∀ field ∈ [sizesField, pricesField], field ∈ catalogueItem.fields ∧
      TypeExpr.mentionsClass catalogue.classes field.type.sourceText = false) ∧
    (sizesField.type.collection? = some .list ∧
      (catalogue.inputOf catalogueItem sizesField).intake = .many false) ∧
    (pricesField.type.collection? = some .dict ∧
      (catalogue.inputOf catalogueItem pricesField).intake = .single none) ∧
    (run catalogueSetting Graph.empty catalogueDocument).2.issues =
      [.indexOutOfRange 1 "sizes", .indexOutOfRange 2 "prices"] := by
  have hnames : ∀ field ∈ [sizesField, pricesField],
      TypeExpr.mentionsClass catalogue.classes field.type.sourceText = false := by
    decide
  refine ⟨accepted_catalogue, List.mem_cons_of_mem _ List.mem_cons_self, by decide,
    fun field hfield => ⟨List.mem_cons_of_mem _ hfield, hnames field hfield⟩, ⟨rfl, by decide⟩,
    ⟨rfl, by decide⟩, ?_⟩
  with_unfolding_all rfl

end Import

end SlotGraph
