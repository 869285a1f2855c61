import SlotGraph.Proofs.Import.Additions
import SlotGraph.Proofs.Import.Coverage

/-!
# Indices are kept

In every call of an import that fills a slot by links, an integer that counts an element
leads to the node of the element, and any other one is reported.  The node of an element is
numbered by the position of the element, and a link from it is written as this number.
-/

namespace SlotGraph

namespace Import

/-- Whether each part begins where the one before it ended, from one progress to another. -/
inductive Chained : Progress → List Part → Progress → Prop
  | nil (p : Progress) : Chained p [] p
  | cons (part : Part) {rest : List Part} {q : Progress} (h : Chained part.after rest q) :
      Chained part.before (part :: rest) q

/--
Whether a call takes place in an import as it is listed: it is made once the groups are made,
its parts are about all elements of its value and lead from its beginning to its end, and from
there the import goes on to its own end.
-/
structure Filling.TakesPlace (setting : Setting) (g : Graph) (document : List (String × Json))
    (call : Filling) : Prop where
  begins : Steps setting (afterGroups setting g document) call.before
  whole : (call.parts setting (madeGroups setting g document)).map
    (fun part => (part.key, part.element)) = entriesOf call.field call.value
  chained : Chained call.before (call.parts setting (madeGroups setting g document))
    (call.after setting (madeGroups setting g document))
  goesOn : Steps setting (call.after setting (madeGroups setting g document))
    (run setting g document).2

/--
What becomes of the positions of the elements of a document in the calls of an import and in
the graph that it leaves.  A key of the document counts where it makes a group: it is that of
a class beside the root, and an array or an object stands under it.
-/
structure KeepsIndices (setting : Setting) (g : Graph) (document : List (String × Json)) :
    Prop where
  /-- Each element under a key that makes a group has a node. -/
  elements : ∀ key, (nodesUnder (madeGroups setting g document) key).map Prod.snd =
    elementsMade setting.schema document key
  /-- In the group of its class these nodes come first, before embedded ones. -/
  leading : ∀ key value className elements, document.lookup key = some value →
    groupElements? setting.schema key value = some (className, elements) →
    ∃ later, ((run setting g document).2.graph.group setting.schema className).map Node.id =
      (nodesUnder (madeGroups setting g document) key).map Prod.fst ++ later
  /-- The index of such a node is the position of its element. -/
  numbered : ∀ key (index : Nat) made,
    (nodesUnder (madeGroups setting g document) key)[index]? = some made →
    (run setting g document).2.graph.groupIndex? setting.schema made.1 = some index
  /-- No slot that links feed is left out. -/
  complete : Complete setting g document
  /-- The calls that fill these slots are made as they are listed. -/
  made : ∀ call ∈ fillings setting g document, call.TakesPlace setting g document
  /-- An integer that counts an element under the key of its field's class leads to its node. -/
  resolved : ∀ call ∈ fillings setting g document, ∀ className,
    setting.schema.modelOf? call.field = some className →
    ∀ part ∈ call.parts setting (madeGroups setting g document), ∀ n,
    part.element.integer? = some n → 0 ≤ n →
    n < (elementsMade setting.schema document (setting.schema.keyOfClass className)).length →
    ∃ made, (nodesUnder (madeGroups setting g document)
        (setting.schema.keyOfClass className))[n.toNat]? = some made ∧
      part.after = part.before.link made.1 call.target call.slot part.key
  /-- Any other integer that a document can have is reported, and nothing else happens. -/
  unresolved : ∀ call ∈ fillings setting g document, ∀ className,
    setting.schema.modelOf? call.field = some className →
    ∀ part ∈ call.parts setting (madeGroups setting g document), ∀ n,
    part.element.integer? = some n → -2 ^ 63 ≤ n → n < 2 ^ 64 →
    ¬ (0 ≤ n ∧ n < (elementsMade setting.schema document
      (setting.schema.keyOfClass className)).length) →
    part.after = part.before.report (.indexOutOfRange (n.bmod (2 ^ 64)) call.field.name)
  /-- So is each integer where a field refers to no class. -/
  unclassed : ∀ call ∈ fillings setting g document,
    setting.schema.modelOf? call.field = none →
    ∀ part ∈ call.parts setting (madeGroups setting g document), ∀ n,
    part.element.integer? = some n →
    part.after = part.before.report (.indexOutOfRange (n.bmod (2 ^ 64)) call.field.name)
  /-- A live link from the node of an element is written as the position of the element. -/
  written : ∀ key (index : Nat) made,
    (nodesUnder (madeGroups setting g document) key)[index]? = some made →
    ∀ link ∈ (run setting g document).2.graph.links, link.origin = made.1 →
    ∀ cls ∈ setting.schema.classes, (cls.fields.map Field.name).Nodup →
    ∀ node ∈ (run setting g document).2.graph.nodes, link.target = node.id →
    Graph.belongsTo setting.schema node = true → node.className = cls.name →
    ∀ input field, node.inputs[link.targetSlot]? = some input →
    cls.fields[link.targetSlot]? = some field →
      (∀ held native, input.feed = .single held native →
        (Build.entry (run setting g document).2.graph setting.schema node).get? field.name =
          some (.int index)) ∧
      (∀ ids (position : Nat), input.feed = .many false ids →
        ids[position]? = some link.id →
        ∃ items,
          (Build.entry (run setting g document).2.graph setting.schema node).get? field.name =
            some (.arr items) ∧
          items[position]? = some (.int index))

variable {setting : Setting} {groups : List Group} {g : Graph} {p : Progress}
  {document : List (String × Json)} {call : Filling} {part : Part}

/-! ## The calls of an import -/

theorem chained_partsFrom (answer : Progress → String × Json → Progress)
    (entries : List (String × Json)) (p : Progress) :
    Chained p (partsFrom answer entries p) (entries.foldl answer p) := by
  induction entries generalizing p with
  | nil =>
      exact .nil p
  | cons entry rest ih =>
      exact .cons ⟨entry.1, entry.2, p, answer p entry⟩ (ih (answer p entry))

theorem takesPlace_of_mem (haccepted : setting.schema.Accepted)
    (hserves : setting.registry.Serves setting.schema) (hg : g.WellFormed)
    (hreach : Reaches g (run setting g document).2) (hcall : call ∈ fillings setting g document) :
    call.TakesPlace setting g document := by
  obtain ⟨hproper, -, hfirst, hlast⟩ := between_fillings haccepted hserves hg hreach call hcall
  refine ⟨hfirst, map_partsFrom _ _ call.before, ?_, hlast⟩
  rw [Filling.after_eq_foldl _ hproper]
  exact chained_partsFrom _ _ call.before

/-! ## Integers in them -/

/-- For an integer that finds a node the link from the node is asked for. -/
theorem part_resolved (hpart : part ∈ call.parts setting groups) {index : Int}
    (hnumber : part.element.int64? = some index) {origin : NodeId}
    (hresolve : resolve? setting.schema groups call.field index = some origin) :
    part.after = part.before.link origin call.target call.slot part.key := by
  rw [part_number hpart hnumber, linkIndex, hresolve]

/-- An integer that finds none is reported, and nothing else happens. -/
theorem part_unresolved (hpart : part ∈ call.parts setting groups) {n : Int}
    (hn : part.element.integer? = some n)
    (hresolve : resolve? setting.schema groups call.field (n.bmod (2 ^ 64)) = none) :
    part.after = part.before.report (.indexOutOfRange (n.bmod (2 ^ 64)) call.field.name) := by
  have hnumber : part.element.int64? = some (n.bmod (2 ^ 64)) := by
    rw [Json.int64?, hn, Option.map_some]
  rw [part_number hpart hnumber, linkIndex, hresolve]

/-! ## Whole imports -/

/--
An import into a well-formed graph without nodes of the schema keeps the indices of the
elements of its document, as long as the counters have the numbers that it draws.
-/
theorem keepsIndices_run (haccepted : setting.schema.Accepted)
    (hserves : setting.registry.Serves setting.schema) (hwf : g.WellFormed)
    (hforeign : ∀ node ∈ g.nodes, Graph.belongsTo setting.schema node = false)
    (hkeys : (document.map Prod.fst).Nodup)
    (hfits : (Edit.importConfig setting (.obj document)).Fits g) :
    KeepsIndices setting g document := by
  have hdone : (run setting g document).2.graph.WellFormed := hwf.apply hfits
  have hplan := (plan_madeGroups haccepted hserves g document).1
  have hreach := reaches_of_fits hfits
  refine
    { elements := elements_of_plan hkeys hplan
      leading := fun key value className elements =>
        leading_run haccepted hserves hkeys hforeign
      numbered := ?_
      complete := complete_fillings haccepted hserves hwf hreach
      made := fun call => takesPlace_of_mem haccepted hserves hwf hreach
      resolved := ?_
      unresolved := fun call _ className hmodel part hpart n hn hlow hhigh hout =>
        part_unresolved hpart hn (resolve?_of_uncounted hkeys hplan hmodel hlow hhigh hout)
      unclassed := fun call _ hmodel part hpart n hn =>
        part_unresolved hpart hn (resolve?_of_unclassed hmodel _)
      written := ?_ }
  · intro key index made hmade
    obtain ⟨className, node, hnode, hid⟩ := placed_run haccepted hserves hkeys hforeign hmade
    rw [← hid]
    exact hdone.groupIndex?_eq hnode
  · intro call _ className hmodel part hpart n hn hlow hhigh
    obtain ⟨index, made, rfl, hmade, hnumber, hresolve⟩ := exists_nodesUnder hkeys hplan hmodel
      (length_elementsMade_le haccepted hserves hkeys hwf hfits _) hn hlow hhigh
    exact ⟨made, hmade, part_resolved hpart hnumber hresolve⟩
  · intro key index made hmade link hlink horigin cls hcls hfields node hnode htarget hbelongs
      hname input field hinput hfield
    obtain ⟨className, origin, hplace, hid⟩ :=
      placed_run haccepted hserves hkeys hforeign hmade
    have hresolve : Build.resolve (run setting g document).2.graph setting.schema link.origin =
        .int index := by
      rw [horigin, ← hid]
      exact Build.resolve_eq hdone hplace
    have htemplate := template_of_run hserves hforeign hnode hbelongs hcls hname
    have hcell := Graph.cell_eq_none htemplate
    have hslots : node.inputs.map InputSlot.name = cls.fields.map Field.name :=
      node.names_shape.symm.trans htemplate.names_inputs
    have hnames : (node.inputs.map InputSlot.name).Nodup := hslots ▸ hfields
    have hfieldName : input.name = field.name := by
      have hslot := congrArg (fun names : List String => names[link.targetSlot]?) hslots
      simpa [hinput, hfield] using hslot
    rw [← hfieldName, ← hresolve]
    exact ⟨fun held native hfeed =>
        Build.get?_entry_of_single hdone hnode hcell hnames hlink htarget hinput hfeed,
      fun ids position hfeed hposition =>
        Build.get?_entry_of_many hdone hnode hcell hnames hlink hinput hfeed hposition⟩

/-- The schema of tools that list others as parts and name others as spares. -/
def depot : Schema :=
  Schema.ofClasses "s" "Index" "App"
    [ ⟨"Tool",
        [ ⟨"parts", .wrapped .list (.union [.named "Tool", .named "Index"]),
            "List[Union[Tool, Index]]", ""⟩
        , ⟨"spares", .dict "str, Union[Tool, Index]", "Dict[str, Union[Tool, Index]]", ""⟩ ]⟩
    , ⟨"App", [⟨"tools", .wrapped .list (.named "Tool"), "List[Tool]", ""⟩]⟩ ]

def depotSource : String :=
  "class Tool:\n  parts: List[Union[Tool, Index]]\n" ++
  "  spares: Dict[str, Union[Tool, Index]]\nclass App:\n  tools: List[Tool]\n"

set_option maxRecDepth 4000 in
theorem accepted_depot : depot.Accepted := by
  have hread : (Schema.parseClasses depotSource).1 = depot.classes := by
    with_unfolding_all rfl
  exact Schema.accepted_ofClasses hread (by decide) (by decide) (by decide) (by decide)
    fun _ => by decide

def depotSetting : Setting :=
  ⟨depot, Registry.initial.add depot 1, ImportLayout.standard⟩

theorem serves_depot : depotSetting.registry.Serves depot :=
  Registry.serves_add (by decide) (by decide)

/-- Two tools, the first with integers in an array and under keys and with a third inside. -/
def depotDocument : List (String × Json) :=
  [("tools", .arr
    [ .obj
        [ ("parts", .arr [.int 1, .int 2, .obj [("parts", .arr [.int 0])], .int (-1)])
        , ("spares", .obj [("axe", .int 0), ("saw", .int (2 ^ 64 - 1))]) ]
    , .obj [] ])]

def valueGraph : Graph :=
  Edit.run Graph.empty [.addNode (.ofValue 1 "String" "str" .string) 0.0 0.0]

/--
Of the three tools the embedded one has the last index, but `2` counts no element.  Beside each
element stand the links and the issues that its part adds; below are the tools as written.
-/
theorem keepsIndices_run_depot :
    depot.Accepted ∧ depotSetting.registry.Serves depot ∧ valueGraph.WellFormed ∧
    (∀ node ∈ valueGraph.nodes, Graph.belongsTo depot node = false) ∧
    (depotDocument.map Prod.fst).Nodup ∧
    (Edit.importConfig depotSetting (.obj depotDocument)).Fits valueGraph ∧
    KeepsIndices depotSetting valueGraph depotDocument ∧
    ((run depotSetting valueGraph depotDocument).2.graph.group depot "Tool").map Node.id =
      [2, 3, 4] ∧
    ((fillings depotSetting valueGraph depotDocument).flatMap fun call =>
      (call.parts depotSetting (madeGroups depotSetting valueGraph depotDocument)).map
        fun part => (call.target, part.element.integer?, part.after.links - part.before.links,
          part.after.issues.length - part.before.issues.length)) =
      [ (2, some 1, 1, 0), (2, some 2, 0, 1), (2, none, 2, 0), (2, some (-1), 0, 1)
      , (4, some 0, 1, 0), (2, some 0, 1, 0), (2, some (2 ^ 64 - 1), 0, 1) ] ∧
    (run depotSetting valueGraph depotDocument).2.issues.map Issue.kind =
      [.unresolvedReference, .unresolvedReference, .unresolvedReference] ∧
    (((run depotSetting valueGraph depotDocument).2.graph.group depot "Tool").map fun node =>
      (Build.entry (run depotSetting valueGraph depotDocument).2.graph depot node).render) =
      [ "\x7b\"parts\":[1,2],\"spares\":\x7b\"axe\":0\x7d\x7d"
      , "\x7b\"parts\":[],\"spares\":\x7b\x7d\x7d"
      , "\x7b\"parts\":[0],\"spares\":\x7b\x7d\x7d" ] := by
  have hwf : valueGraph.WellFormed :=
    Graph.WellFormed.empty.run ⟨by decide +kernel, trivial⟩
  have hforeign : ∀ node ∈ valueGraph.nodes, Graph.belongsTo depot node = false := by
    decide +kernel
  have hfits : (Edit.importConfig depotSetting (.obj depotDocument)).Fits valueGraph := by
    decide +kernel
  exact ⟨accepted_depot, serves_depot, hwf, hforeign, by decide, hfits,
    keepsIndices_run accepted_depot serves_depot hwf hforeign (by decide) hfits,
    by decide +kernel, by decide +kernel, by decide +kernel, by decide +kernel⟩

/-- A member that refers to the first root, and a root under the key of its class. -/
def rootedDocument : List (String × Json) :=
  [ ("apps", .arr [.obj []])
  , ("tools", .arr [.obj [("parent", .int 0)]]) ]

/--
The elements under the key of the root class make no nodes, so an integer that counts one
of them leads nowhere: only the link from the member to the root is made.
-/
theorem not_resolved_household :
    household.Accepted ∧ householdSetting.registry.Serves household ∧
    Graph.empty.WellFormed ∧ (rootedDocument.map Prod.fst).Nodup ∧
    (Edit.importConfig householdSetting (.obj rootedDocument)).Fits Graph.empty ∧
    household.modelOf? parentField = some "App" ∧ household.keyOfClass "App" = "apps" ∧
    (elementsOf household rootedDocument "App").length = 1 ∧
    resolve? household (madeGroups householdSetting Graph.empty rootedDocument) parentField 0 =
      none ∧
    (run householdSetting Graph.empty rootedDocument).2.graph.links.map
      (fun link => (link.origin, link.target)) = [(1, 2)] ∧
    (run householdSetting Graph.empty rootedDocument).2.issues.map Issue.kind =
      [.unresolvedReference, .unknownNodeType] := by
  refine ⟨accepted_household, serves_household, Graph.WellFormed.empty, ?_⟩
  decide +kernel

end Import

end SlotGraph
