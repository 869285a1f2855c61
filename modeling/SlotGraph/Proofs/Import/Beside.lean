import SlotGraph.Proofs.Graph.Beside
import SlotGraph.Proofs.Import.Flat

/-!
# Imports beside a graph

An import never looks at the nodes and links that a graph had before: it finds and changes
those of its own alone.  So it does in a graph what it does in the empty one, under numbers
that go on from those of the graph.  Each function of the import is followed through both
runs side by side, as far as the counters have the numbers that it draws.
-/

namespace SlotGraph

namespace Import

variable {g : Graph} {setting : Setting} {groups : List Group} {embed embed' : Embed}
  {made : Nat} {p p' q q' : Progress}

/-! ## Two runs -/

/-- What an import into the empty graph has done, beside a graph. -/
def Progress.beside (q : Progress) (g : Graph) : Progress :=
  { q with graph := g.beside q.graph }

def Summary.shift (d : Int) (summary : Summary) : Summary :=
  { summary with root := summary.root.map (· + d) }

/-- Whether the counters of a graph have the numbers that an import drew from them. -/
def Reaches (g : Graph) (p : Progress) : Prop :=
  g.lastNode + p.graph.nodes.length ≤ Graph.lastId + g.nodes.length ∧
    g.lastLink + p.links ≤ Graph.lastId

/-- What was drawn in the end had been there at every moment before. -/
theorem Reaches.back (h : Reaches g p') (hsteps : Steps setting p p') : Reaches g p := by
  obtain ⟨hnodes, hlinks⟩ := hsteps.mono
  obtain ⟨hnodes', hlinks'⟩ := h
  exact ⟨by lia, by lia⟩

theorem Reaches.beside (h : Reaches g (q.beside g)) :
    g.lastNode + q.graph.nodes.length ≤ Graph.lastId ∧ g.lastLink + q.links ≤ Graph.lastId := by
  obtain ⟨hnodes, hlinks⟩ := h
  simp only [Progress.beside, Graph.beside, List.length_append, List.length_map] at hnodes hlinks
  exact ⟨by lia, hlinks⟩

/--
How far an import into the empty graph has come: the graph is well formed and counted, and
its nodes are the embedded ones and so many others.
-/
structure Tallied (made : Nat) (q : Progress) : Prop where
  counted : Counted Graph.empty q
  nodes : q.graph.nodes.length = made + q.embedded

namespace Tallied

theorem start : Tallied 0 (Progress.start Graph.empty) :=
  ⟨Counted.start Graph.WellFormed.empty, rfl⟩

theorem wellFormed (h : Tallied made q) : q.graph.WellFormed :=
  h.counted.wellFormed

theorem lastNode (h : Tallied made q) : q.graph.lastNode = q.graph.nodes.length := by
  have hcount := h.counted.nodes
  simp only [Graph.empty, List.length_nil] at hcount
  lia

theorem lastLink (h : Tallied made q) : q.graph.lastLink = q.links :=
  h.counted.links.trans (Int.zero_add _)

theorem reported (h : Tallied made q) (issues : List Issue) :
    Tallied made { q with issues := issues } :=
  ⟨⟨h.wellFormed, h.counted.nodes, h.counted.links⟩, h.nodes⟩

theorem steps {made' : Nat} (h : Tallied made q) (hg : g.WellFormed)
    (hsteps : Steps setting q q') (hreach : Reaches g (q'.beside g))
    (hnodes : q'.graph.nodes.length = made' + q'.embedded) : Tallied made' q' := by
  obtain ⟨hroomNode, hroomLink⟩ := hreach.beside
  obtain ⟨hlastNode, hlastLink⟩ := hg.counters_nonneg
  have hstartNode : Graph.empty.lastNode = 0 := rfl
  have hstartLink : Graph.empty.lastLink = 0 := rfl
  exact ⟨h.counted.steps hsteps (by lia) (by lia), hnodes⟩

/-- Steps that make no node and count none. -/
theorem kept (h : Tallied made q) (hg : g.WellFormed) (hsteps : Steps setting q q')
    (hreach : Reaches g (q'.beside g)) (hshapes : q'.graph.shapes = q.graph.shapes)
    (hembedded : q'.embedded = q.embedded) : Tallied made q' := by
  refine h.steps hg hsteps hreach ?_
  rw [Graph.length_nodes_of_shapes hshapes, h.nodes, hembedded]

end Tallied

/--
Whether a change that an import makes in a graph is one that it makes in the empty graph,
as long as the counters have the numbers for it.
-/
structure Mirrors (setting : Setting) (g : Graph) (change' change : Progress → Progress) :
    Prop where
  steps : ∀ p, Steps setting p (change' p)
  carried : ∀ {made q}, Tallied made q → Reaches g (change' (q.beside g)) →
    change' (q.beside g) = (change q).beside g ∧ Tallied made (change q)

namespace Mirrors

variable {change change' next next' : Progress → Progress}

theorem refl : Mirrors setting g (fun p => p) fun p => p :=
  ⟨fun _ => .refl, fun hq _ => ⟨rfl, hq⟩⟩

theorem comp (h : Mirrors setting g change' change) (hnext : Mirrors setting g next' next) :
    Mirrors setting g (fun p => next' (change' p)) fun p => next (change p) := by
  refine ⟨fun p => (h.steps p).trans (hnext.steps (change' p)), fun {made q} hq hreach => ?_⟩
  obtain ⟨hsame, htallied⟩ := h.carried hq (hreach.back (hnext.steps _))
  have hcarried := hnext.carried htallied
  rw [← hsame] at hcarried
  exact hcarried hreach

/-- What is done may depend on something that looks the same in both graphs. -/
theorem seeing {α : Type} (see' see : Progress → α) {f f' : α → Progress → Progress}
    (hsee : ∀ q, see' (q.beside g) = see q) (h : ∀ a, Mirrors setting g (f' a) (f a)) :
    Mirrors setting g (fun p => f' (see' p) p) fun p => f (see p) p := by
  refine ⟨fun p => (h (see' p)).steps p, fun {made q} hq hreach => ?_⟩
  simp only [hsee] at hreach ⊢
  exact (h (see q)).carried hq hreach

theorem foldl {α : Type} {f f' : Progress → α → Progress} {xs : List α}
    (hone : ∀ x ∈ xs, Mirrors setting g (f' · x) (f · x)) :
    Mirrors setting g (xs.foldl f') (xs.foldl f) := by
  induction xs with
  | nil =>
      exact refl
  | cons x rest ih =>
      exact (hone x List.mem_cons_self).comp
        (ih fun y hy => hone y (List.mem_cons_of_mem x hy))

theorem fillEach {fill fill' : Nat → Field → Progress → Progress}
    (hfill : ∀ slot field, Mirrors setting g (fill' slot field) (fill slot field)) (slot : Nat)
    (fields : List Field) :
    Mirrors setting g (Import.fillEach fill' slot fields) (Import.fillEach fill slot fields) := by
  induction fields generalizing slot with
  | nil =>
      exact refl
  | cons field rest ih =>
      exact (hfill slot field).comp (ih (slot + 1))

end Mirrors

/-- The result of an import into a graph that goes with that of one into the empty graph. -/
structure Carried {α : Type} (g : Graph) (carry : α → α) (made : Nat)
    (result' result : α × Progress) : Prop where
  value : result'.1 = carry result.1
  progress : result'.2 = result.2.beside g
  tallied : Tallied made result.2

theorem Carried.eq {α : Type} {carry : α → α} {result' result : α × Progress}
    (h : Carried g carry made result' result) : result' = (carry result.1, result.2.beside g) :=
  Prod.ext h.value h.progress

/-- Whether inline objects become the same nodes in a graph as in the empty one. -/
structure Embed.Mirrors (setting : Setting) (g : Graph) (embed' embed : Embed) : Prop where
  steps : embed'.TakesSteps setting
  carried : ∀ field object {made q}, Tallied made q →
    Reaches g (embed' field object (q.beside g)).2 →
    Carried g (Option.map (· + g.lastNode)) made (embed' field object (q.beside g))
      (embed field object q)
  numbered : ∀ field object {made q}, Tallied made q →
    Reaches g (embed' field object (q.beside g)).2 →
    ∀ id, (embed field object q).1 = some id → 0 < id

def Group.shift (d : Int) (group : Group) : Group :=
  { group with nodes := group.nodes.map fun node => (node.1 + d, node.2) }

def Numbered (groups : List Group) : Prop :=
  ∀ group ∈ groups, ∀ id ∈ group.nodes.map Prod.fst, 0 < id

/-! ## Elementary functions -/

theorem mirrors_report (issue : Issue) :
    Mirrors setting g (·.report issue) (·.report issue) :=
  ⟨fun p => steps_report p issue, fun hq _ => ⟨rfl, hq.reported _⟩⟩

theorem createNode_beside (hg : g.WellFormed) (hq : Tallied made q) (className : String)
    (x y : Float) (hreach : Reaches g ((q.beside g).createNode setting className x y).2) :
    Carried g (Option.map (· + g.lastNode))
        (made + (q.createNode setting className x y).1.toList.length)
        ((q.beside g).createNode setting className x y) (q.createNode setting className x y) ∧
      ∀ id, (q.createNode setting className x y).1 = some id → 0 < id := by
  have hsteps : Steps setting q (q.createNode setting className x y).2 :=
    steps_createNode q className x y
  unfold Progress.createNode at hreach hsteps ⊢
  cases hfind : setting.registry.find? setting.schema.name className with
  | none =>
      exact ⟨⟨rfl, rfl, hq.reported _⟩, fun id hid => by simp at hid⟩
  | some template =>
      simp only [hfind] at hreach hsteps ⊢
      have hlast := hg.counters_nonneg.1
      have hlast' := hq.wellFormed.counters_nonneg.1
      have hroom : g.lastNode + q.graph.lastNode < Graph.lastId := by
        have hnodes := hreach.1
        simp only [Progress.beside, Graph.addNode, Graph.beside, List.length_append,
          List.length_map, List.length_singleton] at hnodes
        have hcount := hq.lastNode
        lia
      have hmade := Graph.addNode_beside hlast hlast' hroom template x y
      have hnext : (q.graph.addNode template x y).1 = q.graph.lastNode + 1 :=
        Graph.nextId_eq hlast' (by lia)
      simp only [Progress.beside, hmade] at hreach ⊢
      refine ⟨⟨rfl, rfl, hq.steps hg hsteps hreach ?_⟩, ?_⟩
      · have hcount := hq.nodes
        simp only [Graph.addNode, List.length_append, List.length_singleton,
          Option.toList_some]
        lia
      · intro id hid
        obtain rfl := Option.some.inj hid
        rw [hnext]
        lia

theorem link_beside (hg : g.WellFormed) (hq : Tallied made q) {origin target : NodeId}
    (ho : 0 < origin) (ht : 0 < target) {slot : Nat} {key : String}
    (hreach : Reaches g ((q.beside g).link (origin + g.lastNode) (target + g.lastNode) slot key)) :
    (q.beside g).link (origin + g.lastNode) (target + g.lastNode) slot key =
      (q.link origin target slot key).beside g := by
  unfold Progress.link at hreach ⊢
  cases hconnect : q.graph.connect origin 0 target slot with
  | error fault =>
      have hrefused := hg.connect_beside_error ho ht hconnect
      simp only [Progress.beside, hrefused]
  | ok pair =>
      obtain ⟨id, h⟩ := pair
      obtain ⟨id', h', hmade, hcarried⟩ := hg.connect_beside_ok hq.wellFormed ho ht hconnect
      simp only [Progress.beside, hmade] at hreach ⊢
      have hroom : g.lastLink + q.graph.lastLink < Graph.lastId := by
        have hlinks := hreach.2
        have hlast := hq.lastLink
        simp only at hlinks
        lia
      obtain ⟨rfl, rfl⟩ := hcarried hroom
      have hid : 0 < id := by
        obtain ⟨-, -, -, -, -, -, -, -, -, rfl, -⟩ := Graph.connect_eq_ok_iff.1 hconnect
        have hlast := hg.counters_nonneg.2
        have hlast' := hq.wellFormed.counters_nonneg.2
        rw [Graph.nextId_eq hlast' (by lia)]
        lia
      have hkeyed : ((g.beside h).setKey? (id + g.lastLink) key).getD (g.beside h) =
          g.beside ((h.setKey? id key).getD h) := by
        rw [hg.setKey?_beside h hid]
        cases h.setKey? id key <;> rfl
      split
      · rfl
      · rw [hkeyed]

theorem shapes_link (q : Progress) (origin target : NodeId) (slot : Nat) (key : String) :
    (q.link origin target slot key).graph.shapes = q.graph.shapes := by
  unfold Progress.link
  split
  · next link graph hconnect =>
      exact Graph.shapes_connectKeyed hconnect key
  · rfl

theorem embedded_link (q : Progress) (origin target : NodeId) (slot : Nat) (key : String) :
    (q.link origin target slot key).embedded = q.embedded := by
  unfold Progress.link
  split <;> rfl

theorem mirrors_link (hg : g.WellFormed) {origin target : NodeId} (ho : 0 < origin)
    (ht : 0 < target) (slot : Nat) (key : String) :
    Mirrors setting g (·.link (origin + g.lastNode) (target + g.lastNode) slot key)
      (·.link origin target slot key) := by
  refine ⟨fun p => steps_link p _ _ slot key, fun {made q} hq hreach => ?_⟩
  have hsame := link_beside hg hq ho ht hreach
  have hsteps : Steps setting q (q.link origin target slot key) :=
    steps_link q origin target slot key
  exact ⟨hsame, hq.kept hg hsteps (hsame ▸ hreach)
    (shapes_link q origin target slot key) (embedded_link q origin target slot key)⟩

variable {id : NodeId}

theorem shapes_setNative (q : Progress) (id : NodeId) (slot : Nat) (value : Json) :
    (q.setNative id slot value).graph.shapes = q.graph.shapes := by
  unfold Progress.setNative
  cases hset : q.graph.setNative? id slot value with
  | none =>
      rfl
  | some graph =>
      exact Graph.shapes_setNative hset

theorem mirrors_setNative (hg : g.WellFormed) (hid : 0 < id) (slot : Nat) (value : Json) :
    Mirrors setting g (·.setNative (id + g.lastNode) slot value) (·.setNative id slot value) := by
  refine ⟨fun p => steps_setNative p _ slot value, fun {made q} hq hreach => ?_⟩
  have hsame : (q.beside g).setNative (id + g.lastNode) slot value =
      (q.setNative id slot value).beside g := by
    unfold Progress.setNative Progress.beside
    simp only [hg.setNative?_beside q.graph hid]
    cases q.graph.setNative? id slot value <;> rfl
  have hsteps : Steps setting q (q.setNative id slot value) :=
    steps_setNative q id slot value
  exact ⟨hsame, hq.kept hg hsteps (hsame ▸ hreach) (shapes_setNative q id slot value) rfl⟩

theorem isNative_beside (hg : g.WellFormed) (hid : 0 < id) (q : Progress) (slot : Nat) :
    (q.beside g).isNative (id + g.lastNode) slot = q.isNative id slot := by
  rw [Progress.isNative, Progress.isNative, Progress.beside, hg.findNode?_beside q.graph hid,
    Option.bind_map]
  congr 1
  exact Option.bind_congr fun node _ => node.nativeAt?_shift g.past slot

theorem inputs_beside (hg : g.WellFormed) (hid : 0 < id) (q : Progress) (slot : Nat) :
    ((q.beside g).graph.findNode? (id + g.lastNode)).bind (·.inputs[slot]?) =
      ((q.graph.findNode? id).bind (·.inputs[slot]?)).map (InputSlot.shift g.lastLink) := by
  rw [Progress.beside, hg.findNode?_beside q.graph hid, Option.bind_map, Option.map_bind]
  exact Option.bind_congr fun node _ => List.getElem?_map

theorem mirrors_clearMissing (hg : g.WellFormed) (hid : 0 < id) (slot : Nat) :
    Mirrors setting g (·.clearMissing (id + g.lastNode) slot) (·.clearMissing id slot) := by
  refine ⟨fun p => steps_clearMissing p _ slot, fun {made q} hq hreach => ?_⟩
  unfold Progress.clearMissing at hreach ⊢
  rw [inputs_beside hg hid] at hreach ⊢
  generalize (q.graph.findNode? id).bind (·.inputs[slot]?) = found at hreach ⊢
  cases found with
  | none =>
      exact ⟨rfl, hq⟩
  | some input =>
      simp only [Option.map_some, InputSlot.shift, Feed.native?_shift] at hreach ⊢
      generalize (input.optional && input.feed.native?.isSome) = clears at hreach ⊢
      cases clears with
      | true =>
          have hset : Mirrors setting g _ _ := mirrors_setNative hg hid slot .null
          exact hset.carried hq hreach
      | false =>
          exact ⟨rfl, hq⟩

/-! ## Slots -/

theorem Group.node?_shift (d : Int) (group : Group) (position : Nat) :
    (group.shift d).node? position = (group.node? position).map (· + d) := by
  rw [node?, node?, shift, List.getElem?_map, Option.map_map, Option.map_map]
  rfl

theorem findGroup?_shift (d : Int) (groups : List Group) (key : String) :
    findGroup? (groups.map (Group.shift d)) key = (findGroup? groups key).map (Group.shift d) := by
  rw [findGroup?, findGroup?, List.find?_map]
  rfl

theorem resolve?_shift (d : Int) (schema : Schema) (groups : List Group) (field : Field)
    (index : Int) :
    resolve? schema (groups.map (Group.shift d)) field index =
      (resolve? schema groups field index).map (· + d) := by
  unfold resolve?
  cases schema.modelOf? field with
  | none =>
      rfl
  | some className =>
      have hkeyed : ((findGroup? (groups.map (Group.shift d))
            (schema.keyOfClass className)).bind (·.node? index.toNat)) =
          ((findGroup? groups (schema.keyOfClass className)).bind
            (·.node? index.toNat)).map (· + d) := by
        rw [findGroup?_shift, Option.bind_map, Option.map_bind]
        exact Option.bind_congr fun group _ => group.node?_shift d index.toNat
      have hany : ((groups.map (Group.shift d)).findSome? fun group =>
            if group.className == className then group.node? index.toNat else none) =
          (groups.findSome? fun group =>
            if group.className == className then group.node? index.toNat else none).map
              (· + d) := by
        rw [List.findSome?_map, List.map_findSome?]
        congr 1
        funext group
        rw [Function.comp, Function.comp, Group.node?_shift]
        show (if (group.className == className) = true then _ else _) = _
        split <;> rfl
      dsimp only
      split
      · rfl
      · rw [Option.orElse_eq_orElse, Option.orElse_eq_or, Option.orElse_eq_or, hkeyed, hany,
          Option.map_or]

theorem mirrors_linkIndex (hg : g.WellFormed) (hgroups : Numbered groups) (hid : 0 < id)
    (slot : Nat) (field : Field) (index : Int) (key : String) :
    Mirrors setting g
      (linkIndex setting (groups.map (Group.shift g.lastNode)) (id + g.lastNode) slot field index
        key)
      (linkIndex setting groups id slot field index key) := by
  unfold linkIndex
  rw [resolve?_shift]
  cases horigin : resolve? setting.schema groups field index with
  | none =>
      exact mirrors_report _
  | some origin =>
      obtain ⟨group, hgroup, hmem⟩ := resolve?_mem horigin
      exact mirrors_link hg (hgroups group hgroup origin hmem) hid slot key

/-- An inline object becomes a node, and something is done with this. -/
theorem mirrors_embed (hembed : Embed.Mirrors setting g embed' embed) (field : Field)
    (object : List (String × Json)) {next next' : NodeId → Progress → Progress}
    (hsteps : ∀ origin p, Steps setting p (next' origin p))
    (hnext : ∀ origin, 0 < origin →
      Mirrors setting g (next' (origin + g.lastNode)) (next origin)) :
    Mirrors setting g
      (fun p => match embed' field object p with
        | (some origin, p) => next' origin p
        | (none, p) => p)
      (fun p => match embed field object p with
        | (some origin, p) => next origin p
        | (none, p) => p) := by
  have hafter : ∀ p, Steps setting (embed' field object p).2
      (match embed' field object p with
        | (some origin, p) => next' origin p
        | (none, p) => p) := by
    intro p
    split
    · next origin made hmade =>
        rw [hmade]
        exact hsteps origin made
    · next made hmade =>
        rw [hmade]
  refine ⟨fun p => (hembed.steps field object p).trans (hafter p), fun {made q} hq hreach => ?_⟩
  have hcarried := hembed.carried field object hq (hreach.back (hafter (q.beside g)))
  have hnumbered := hembed.numbered field object hq (hreach.back (hafter (q.beside g)))
  have htallied := hcarried.tallied
  simp only [hcarried.eq] at hreach ⊢
  generalize embed field object q = result at hnumbered htallied hreach ⊢
  obtain ⟨origin, next⟩ := result
  cases origin with
  | none =>
      exact ⟨rfl, htallied⟩
  | some origin =>
      exact (hnext origin (hnumbered origin rfl)).carried htallied hreach

theorem mirrors_linkElement (hg : g.WellFormed) (hgroups : Numbered groups)
    (hembed : Embed.Mirrors setting g embed' embed) (hid : 0 < id) (slot : Nat) (field : Field)
    (key : String) (element : Json) :
    Mirrors setting g
      (linkElement setting (groups.map (Group.shift g.lastNode)) embed' (id + g.lastNode) slot
        field key element)
      (linkElement setting groups embed id slot field key element) := by
  unfold linkElement
  cases element.int64? with
  | some index =>
      exact mirrors_linkIndex hg hgroups hid slot field index key
  | none =>
      cases element with
      | obj object =>
          exact mirrors_embed hembed field object
            (fun origin p => steps_link p origin (id + g.lastNode) slot key)
            fun origin horigin => mirrors_link hg horigin hid slot key
      | _ =>
          exact mirrors_report _

theorem mirrors_fillLinked (hg : g.WellFormed) (hgroups : Numbered groups)
    (hembed : Embed.Mirrors setting g embed' embed) (hid : 0 < id) (slot : Nat) (field : Field)
    (value : Json) :
    Mirrors setting g
      (fillLinked setting (groups.map (Group.shift g.lastNode)) embed' (id + g.lastNode) slot
        field value)
      (fillLinked setting groups embed id slot field value) := by
  have helement : ∀ key element, Mirrors setting g _ _ := fun key element =>
    mirrors_linkElement hg hgroups hembed hid slot field key element
  unfold fillLinked
  cases value with
  | arr elements =>
      exact Mirrors.foldl fun element _ => helement "" element
  | obj object =>
      dsimp only
      split
      · exact Mirrors.foldl fun entry _ => helement entry.1 entry.2
      · exact helement "" (.obj object)
  | _ =>
      dsimp only
      split
      · exact mirrors_linkIndex hg hgroups hid slot field _ ""
      · exact mirrors_report _

theorem mirrors_fillSlot (hg : g.WellFormed) (hgroups : Numbered groups)
    (hembed : Embed.Mirrors setting g embed' embed) (hid : 0 < id) (slot : Nat) (field : Field)
    (value : Json) :
    Mirrors setting g
      (fillSlot setting (groups.map (Group.shift g.lastNode)) embed' (id + g.lastNode) slot field
        value)
      (fillSlot setting groups embed id slot field value) := by
  have hchosen : ∀ native : Bool, Mirrors setting g
      (fun p =>
        if native then p.setNative (id + g.lastNode) slot (nativeForm value)
        else if value.isNull then p
        else fillLinked setting (groups.map (Group.shift g.lastNode)) embed' (id + g.lastNode)
          slot field value p)
      (fun p =>
        if native then p.setNative id slot (nativeForm value)
        else if value.isNull then p
        else fillLinked setting groups embed id slot field value p) := by
    intro native
    cases native with
    | true =>
        exact mirrors_setNative hg hid slot (nativeForm value)
    | false =>
        cases value.isNull with
        | true =>
            exact Mirrors.refl
        | false =>
            exact mirrors_fillLinked hg hgroups hembed hid slot field value
  exact Mirrors.seeing (·.isNative (id + g.lastNode) slot) (·.isNative id slot)
    (fun q => isNative_beside hg hid q slot) hchosen

theorem mirrors_fillValue (hg : g.WellFormed) (hgroups : Numbered groups)
    (hembed : Embed.Mirrors setting g embed' embed) (hid : 0 < id) (slot : Nat) (field : Field)
    (value : Option Json) :
    Mirrors setting g
      (fillValue setting (groups.map (Group.shift g.lastNode)) embed' (id + g.lastNode) slot field
        value)
      (fillValue setting groups embed id slot field value) := by
  cases value with
  | some value =>
      exact mirrors_fillSlot hg hgroups hembed hid slot field value
  | none =>
      exact mirrors_clearMissing hg hid slot

theorem mirrors_fillFields (hg : g.WellFormed) (hgroups : Numbered groups)
    (hembed : Embed.Mirrors setting g embed' embed) (hid : 0 < id)
    (source : List (String × Json)) (fields : List Field) :
    Mirrors setting g
      (fillFields setting (groups.map (Group.shift g.lastNode)) embed' (id + g.lastNode) source 0
        fields)
      (fillFields setting groups embed id source 0 fields) := by
  rw [funext (fillFields_eq _ source 0 fields), funext (fillFields_eq _ source 0 fields)]
  exact Mirrors.fillEach (fun slot field =>
    mirrors_fillValue hg hgroups hembed hid slot field (source.lookup field.name)) 0 fields

/-! ## Nodes -/

theorem mirrors_populate (hg : g.WellFormed) (hgroups : Numbered groups)
    (hembed : Embed.Mirrors setting g embed' embed) (hid : 0 < id)
    (source : List (String × Json)) :
    Mirrors setting g
      (populate setting (groups.map (Group.shift g.lastNode)) embed' (id + g.lastNode) source)
      (populate setting groups embed id source) := by
  refine ⟨steps_populate hembed.steps _ source, fun {made q} hq hreach => ?_⟩
  have hclass : (((q.beside g).graph.findNode? (id + g.lastNode)).bind fun node =>
        setting.schema.findClass? node.className) =
      (q.graph.findNode? id).bind fun node => setting.schema.findClass? node.className := by
    rw [Progress.beside, hg.findNode?_beside q.graph hid, Option.bind_map]
    rfl
  unfold populate at hreach ⊢
  rw [hclass] at hreach ⊢
  generalize ((q.graph.findNode? id).bind fun node =>
    setting.schema.findClass? node.className) = found at hreach ⊢
  cases found with
  | none =>
      exact ⟨rfl, hq⟩
  | some cls =>
      exact (mirrors_fillFields hg hgroups hembed hid source cls.fields).carried hq hreach

theorem embeddedClass?_beside (g : Graph) (schema : Schema) (field : Field)
    (object : List (String × Json)) (hq : Tallied made q) :
    Carried g (fun cls => cls) made (embeddedClass? schema field object (q.beside g))
      (embeddedClass? schema field object q) := by
  unfold embeddedClass?
  split
  · exact ⟨rfl, rfl, hq⟩
  · split
    · exact ⟨rfl, rfl, hq.reported _⟩
    · exact ⟨rfl, rfl, hq.reported _⟩

def thenFill (fill : NodeId → Progress → Progress) :
    Option NodeId × Progress → Option NodeId × Progress
  | (some id, p) => (some id, fill id p)
  | (none, p) => (none, p)

theorem steps_thenFill {fill : NodeId → Progress → Progress}
    (hsteps : ∀ id p, Steps setting p (fill id p)) (result : Option NodeId × Progress) :
    Steps setting result.2 (thenFill fill result).2 := by
  obtain ⟨node, p⟩ := result
  cases node with
  | none =>
      exact .refl
  | some id =>
      exact hsteps id p

theorem thenFill_beside (hg : g.WellFormed) (hq : Tallied made q) (count : Nat)
    (fill' fill : NodeId → Progress → Progress)
    (hsteps : ∀ id p, Steps setting p (fill' id p))
    (hfill : ∀ id, 0 < id → ∀ {q}, Tallied (made + 1) q →
      Reaches g (fill' (id + g.lastNode) (q.beside g)) →
      fill' (id + g.lastNode) (q.beside g) = (fill id q).beside g ∧
        Tallied (made + count) (fill id q))
    {className : String} {x y : Float}
    (hreach : Reaches g
      (thenFill fill' ((q.beside g).createNode setting className x y)).2) :
    Carried g (Option.map (· + g.lastNode))
        (made + (thenFill fill (q.createNode setting className x y)).1.toList.length * count)
        (thenFill fill' ((q.beside g).createNode setting className x y))
        (thenFill fill (q.createNode setting className x y)) ∧
      ∀ id, (thenFill fill (q.createNode setting className x y)).1 = some id → 0 < id := by
  have hafter := steps_thenFill hsteps ((q.beside g).createNode setting className x y)
  obtain ⟨hcreated, hnumbered⟩ := createNode_beside hg hq className x y (hreach.back hafter)
  have htallied := hcreated.tallied
  simp only [hcreated.eq] at hreach ⊢
  generalize q.createNode setting className x y = result at hnumbered htallied hreach ⊢
  obtain ⟨node, created⟩ := result
  cases node with
  | none =>
      exact ⟨⟨rfl, rfl, by simpa [thenFill] using htallied⟩, hnumbered⟩
  | some id =>
      obtain ⟨hsame, hfilled⟩ := hfill id (hnumbered id rfl) htallied hreach
      exact ⟨⟨rfl, hsame, by simpa [thenFill] using hfilled⟩, hnumbered⟩

theorem embedWith_eq (field : Field) (object : List (String × Json)) (p : Progress) :
    embedWith setting groups embed field object p =
      match embeddedClass? setting.schema field object p with
      | (some className, p) =>
          thenFill
            (fun id p => populate setting groups embed id object
              { p with embedded := p.embedded + 1 })
            (p.createNode setting className
              (setting.layout.embeddedX p.embedded) (setting.layout.embeddedY p.embedded))
      | (none, p) => (none, p) := by
  rw [embedWith]
  rcases embeddedClass? setting.schema field object p with ⟨cls, chosen⟩
  cases cls with
  | none =>
      rfl
  | some className =>
      dsimp only
      rcases chosen.createNode setting className _ _ with ⟨node, created⟩
      cases node <;> rfl

theorem mirrors_embedWith (hg : g.WellFormed) (hgroups : Numbered groups)
    (hembed : Embed.Mirrors setting g embed' embed) :
    Embed.Mirrors setting g
      (embedWith setting (groups.map (Group.shift g.lastNode)) embed')
      (embedWith setting groups embed) := by
  have hmade : ∀ field object {made q}, Tallied made q →
      Reaches g (embedWith setting (groups.map (Group.shift g.lastNode)) embed' field object
        (q.beside g)).2 →
      Carried g (Option.map (· + g.lastNode)) made
        (embedWith setting (groups.map (Group.shift g.lastNode)) embed' field object (q.beside g))
        (embedWith setting groups embed field object q) ∧
      ∀ id, (embedWith setting groups embed field object q).1 = some id → 0 < id := by
    intro field object made q hq hreach
    have hclass := embeddedClass?_beside g setting.schema field object hq
    have htallied := hclass.tallied
    rw [embedWith_eq] at hreach ⊢
    rw [embedWith_eq]
    simp only [hclass.eq] at hreach ⊢
    generalize embeddedClass? setting.schema field object q = result at htallied hreach ⊢
    obtain ⟨cls, chosen⟩ := result
    cases cls with
    | none =>
        exact ⟨⟨rfl, rfl, htallied⟩, fun id hid => by simp at hid⟩
    | some className =>
        refine thenFill_beside hg htallied 0 _ _ (fun id p => ?_)
          (fun id hid {q} hq hreach => ?_) hreach
        · exact (Relation.ReflTransGen.single (.embed p)).trans
            (steps_populate hembed.steps id object _)
        · have hcounted : Tallied made { q with embedded := q.embedded + 1 } :=
            ⟨⟨hq.wellFormed, hq.counted.nodes, hq.counted.links⟩,
              hq.nodes.trans (Nat.add_right_comm made 1 q.embedded)⟩
          exact (mirrors_populate hg hgroups hembed hid object).carried hcounted hreach
  exact ⟨takesSteps_embedWith hembed.steps, fun field object _ _ hq hreach =>
    (hmade field object hq hreach).1, fun field object _ _ hq hreach =>
    (hmade field object hq hreach).2⟩

theorem mirrors_embedAt (hg : g.WellFormed) (hgroups : Numbered groups) (depth : Nat) :
    Embed.Mirrors setting g
      (embedAt setting (groups.map (Group.shift g.lastNode)) depth)
      (embedAt setting groups depth) := by
  induction depth with
  | zero =>
      exact ⟨takesSteps_embedAt 0, fun _ _ _ _ hq _ => ⟨rfl, rfl, hq⟩,
        fun _ _ _ _ _ _ id hid => by simp [embedAt] at hid⟩
  | succ depth ih =>
      exact mirrors_embedWith hg hgroups ih

/-! ## The three passes -/

theorem mirrors_populateNodes (hg : g.WellFormed) (hgroups : Numbered groups)
    (hembed : Embed.Mirrors setting g embed' embed) (key : String) (position : Nat)
    {nodes : List (NodeId × Json)} (hnodes : ∀ id ∈ nodes.map Prod.fst, 0 < id) :
    Mirrors setting g
      (populateNodes setting (groups.map (Group.shift g.lastNode)) embed' key position
        (nodes.map fun node => (node.1 + g.lastNode, node.2)))
      (populateNodes setting groups embed key position nodes) := by
  induction nodes generalizing position with
  | nil =>
      exact Mirrors.refl
  | cons node rest ih =>
      obtain ⟨id, element⟩ := node
      obtain ⟨hid, hrest⟩ := List.forall_mem_cons.1 hnodes
      cases element with
      | obj source =>
          exact (mirrors_populate hg hgroups hembed hid source).comp (ih (position + 1) hrest)
      | _ =>
          exact (mirrors_report (.elementNotObject key position)).comp (ih (position + 1) hrest)

theorem mirrors_populateGroups (hg : g.WellFormed) (hgroups : Numbered groups)
    (hembed : Embed.Mirrors setting g embed' embed) :
    Mirrors setting g
      (populateGroups setting (groups.map (Group.shift g.lastNode)) embed')
      (populateGroups setting groups embed) := by
  unfold populateGroups
  simp only [List.foldl_map]
  exact Mirrors.foldl fun group hgroup =>
    mirrors_populateNodes hg hgroups hembed group.key 0 (hgroups group hgroup)

theorem mirrors_linkGroup (hg : g.WellFormed) {root : NodeId} (hroot : 0 < root) (slot : Nat)
    {group : Group} (hgroup : ∀ id ∈ group.nodes.map Prod.fst, 0 < id) :
    Mirrors setting g
      (linkGroup (root + g.lastNode) slot (group.shift g.lastNode))
      (linkGroup root slot group) := by
  have hchosen : ∀ collects : Bool, Mirrors setting g
      (fun p =>
        (if collects then (group.shift g.lastNode).nodes
          else (group.shift g.lastNode).nodes.take 1).foldl
          (fun p member => p.link member.1 (root + g.lastNode) slot "") p)
      (fun p =>
        (if collects then group.nodes else group.nodes.take 1).foldl
          (fun p member => p.link member.1 root slot "") p) := by
    have hmembers : ∀ {members : List (NodeId × Json)}, members ⊆ group.nodes →
        Mirrors setting g
          (fun p => (members.map fun node => (node.1 + g.lastNode, node.2)).foldl
            (fun p member => p.link member.1 (root + g.lastNode) slot "") p)
          (fun p => members.foldl (fun p member => p.link member.1 root slot "") p) := by
      intro members hsub
      simp only [List.foldl_map]
      exact Mirrors.foldl fun member hmember =>
        mirrors_link hg (hgroup _ (List.mem_map_of_mem (hsub hmember))) hroot slot ""
    intro collects
    cases collects with
    | true =>
        exact hmembers (List.Subset.refl _)
    | false =>
        have hfirst := hmembers (List.take_subset 1 group.nodes)
        rw [List.map_take] at hfirst
        exact hfirst
  refine Mirrors.seeing
    (fun p => ((p.graph.findNode? (root + g.lastNode)).bind fun node =>
      node.inputs[slot]?).any (·.feed.collects))
    (fun p => ((p.graph.findNode? root).bind fun node => node.inputs[slot]?).any
      (·.feed.collects)) (fun q => ?_) hchosen
  have hinput := inputs_beside hg hroot q slot
  rw [hinput, Option.any_map]
  congr 1
  funext input
  exact input.feed.collects_shift g.lastLink

theorem mirrors_fillRoot (hg : g.WellFormed) (hgroups : Numbered groups)
    (hembed : Embed.Mirrors setting g embed' embed) {root : NodeId} (hroot : 0 < root)
    (document : List (String × Json)) (fields : List Field) :
    Mirrors setting g
      (fillRoot setting (groups.map (Group.shift g.lastNode)) embed' (root + g.lastNode) document
        0 fields)
      (fillRoot setting groups embed root document 0 fields) := by
  rw [funext (fillRoot_eq _ document 0 fields), funext (fillRoot_eq _ document 0 fields)]
  refine Mirrors.fillEach (fun slot field => ?_) 0 fields
  unfold fillRootSlot
  rw [findGroup?_shift]
  cases hfind : findGroup? groups field.name with
  | none =>
      exact mirrors_fillValue hg hgroups hembed hroot slot field (document.lookup field.name)
  | some group =>
      exact mirrors_linkGroup hg hroot slot (hgroups group (List.mem_of_find?_eq_some hfind))

theorem hasSlot_beside (hg : g.WellFormed) (h : Graph) {id : NodeId} (hid : 0 < id)
    (key : String) : hasSlot (g.beside h) (id + g.lastNode) key = hasSlot h id key := by
  have hindex : ∀ node : Node,
      (node.shift g.past).inputIndex? key = node.inputIndex? key := by
    intro node
    rw [Node.inputIndex?, Node.inputIndex?, Node.shift, List.findIdx?_map]
    rfl
  rw [hasSlot, hasSlot, hg.findNode?_beside h hid, Option.any_map]
  congr 1
  funext node
  exact congrArg Option.isSome (hindex node)

/-- The first pass makes the same groups beside a graph. -/
theorem createElements_beside (hg : g.WellFormed) (className : String) (x : Float) (row : Nat)
    (elements : List Json) (hq : Tallied made q)
    (hreach : Reaches g (createElements setting className x row elements (q.beside g)).2) :
    Carried g (List.map fun node => (node.1 + g.lastNode, node.2))
        (made + (createElements setting className x row elements q).1.length)
        (createElements setting className x row elements (q.beside g))
        (createElements setting className x row elements q) ∧
      ∀ id ∈ (createElements setting className x row elements q).1.map Prod.fst, 0 < id := by
  induction elements generalizing row made q with
  | nil =>
      exact ⟨⟨rfl, rfl, hq⟩, fun id hid => by simp [createElements] at hid⟩
  | cons element rest ih =>
      have hafter : Steps setting
          ((q.beside g).createNode setting className x (setting.layout.rowY row)).2
          (createElements setting className x row (element :: rest) (q.beside g)).2 := by
        rw [createElements]
        rcases (q.beside g).createNode setting className x _ with ⟨node, created⟩
        cases node with
        | none =>
            exact .refl
        | some id =>
            exact steps_createElements className x (row + 1) rest created
      obtain ⟨hcreated, hnumbered⟩ :=
        createNode_beside hg hq className x (setting.layout.rowY row) (hreach.back hafter)
      have htallied := hcreated.tallied
      rw [createElements] at hreach ⊢
      rw [createElements]
      simp only [hcreated.eq] at hreach ⊢
      generalize q.createNode setting className x (setting.layout.rowY row) = result
        at hnumbered htallied hreach ⊢
      obtain ⟨node, created⟩ := result
      cases node with
      | none =>
          exact ⟨⟨rfl, rfl, htallied⟩, fun id hid => by simp at hid⟩
      | some id =>
          obtain ⟨hrest, hrestNumbered⟩ := ih (row + 1) htallied hreach
          refine ⟨⟨?_, hrest.progress, ?_⟩, ?_⟩
          · exact congrArg (List.cons (id + g.lastNode, element)) hrest.value
          · have hcount := hrest.tallied
            rw [Option.toList_some, List.length_singleton, Nat.add_right_comm] at hcount
            exact hcount
          · exact List.forall_mem_cons.2 ⟨hnumbered id rfl, hrestNumbered⟩

theorem createGroups_beside (hg : g.WellFormed) (x : Float) (document : List (String × Json))
    (hq : Tallied made q)
    (hreach : Reaches g (createGroups setting x document (q.beside g)).2.2) :
    createGroups setting x document (q.beside g) =
        ((createGroups setting x document q).1.map (Group.shift g.lastNode),
          (createGroups setting x document q).2.1,
          (createGroups setting x document q).2.2.beside g) ∧
      Tallied (made + groupNodeCount (createGroups setting x document q).1)
        (createGroups setting x document q).2.2 ∧
      Numbered (createGroups setting x document q).1 := by
  induction document generalizing x made q with
  | nil =>
      exact ⟨rfl, hq, fun group hgroup => absurd hgroup List.not_mem_nil⟩
  | cons member rest ih =>
      obtain ⟨key, value⟩ := member
      rw [createGroups] at hreach ⊢
      rw [createGroups]
      cases hgroup : groupElements? setting.schema key value with
      | none =>
          simp only [hgroup] at hreach ⊢
          obtain ⟨hsame, htallied, hnumbered⟩ := ih x hq hreach
          rw [hsame]
          exact ⟨rfl, htallied, hnumbered⟩
      | some found =>
          obtain ⟨className, elements⟩ := found
          simp only [hgroup] at hreach ⊢
          obtain ⟨hfirst, hfirstNumbered⟩ :=
            createElements_beside hg className x 0 elements hq
              (hreach.back (steps_createGroups _ rest _))
          simp only [hfirst.eq] at hreach ⊢
          obtain ⟨hsame, htallied, hnumbered⟩ :=
            ih (x + setting.layout.columnSpacing) hfirst.tallied hreach
          rw [hsame]
          refine ⟨rfl, ?_, List.forall_mem_cons.2 ⟨hfirstNumbered, hnumbered⟩⟩
          rw [groupNodeCount, List.flatMap_cons, List.length_append, ← Nat.add_assoc]
          exact htallied

def reportStray (loose : List String) (root : NodeId) (p : Progress) : Progress :=
  (loose.filter fun key => !hasSlot p.graph root key).foldl
    (fun p key => p.report (.strayRootKey key)) p

theorem createRoot_eq (loose : List String) (document : List (String × Json)) (p : Progress) :
    createRoot setting groups embed loose document p =
      match setting.schema.rootClass? with
      | none => (none, loose.foldl (fun p key => p.report (.strayKey key)) p)
      | some cls =>
          thenFill
            (fun root p =>
              reportStray loose root
                (fillRoot setting groups embed root document 0 cls.fields p))
            (p.createNode setting cls.name setting.layout.rootX setting.layout.rowStartY) := by
  rw [createRoot]
  cases setting.schema.rootClass? with
  | none =>
      rfl
  | some cls =>
      dsimp only
      rcases p.createNode setting cls.name _ _ with ⟨node, created⟩
      cases node <;> rfl

theorem mirrors_reports (issue : String → Issue) (keys : List String) :
    Mirrors setting g (keys.foldl fun p key => p.report (issue key))
      (keys.foldl fun p key => p.report (issue key)) :=
  Mirrors.foldl fun key _ => mirrors_report (issue key)

theorem mirrors_reportStray (hg : g.WellFormed) (loose : List String) {root : NodeId}
    (hroot : 0 < root) :
    Mirrors setting g (reportStray loose (root + g.lastNode)) (reportStray loose root) := by
  refine Mirrors.seeing
    (fun p => loose.filter fun key => !hasSlot p.graph (root + g.lastNode) key)
    (fun p => loose.filter fun key => !hasSlot p.graph root key)
    (fun q => ?_) (mirrors_reports .strayRootKey)
  exact List.filter_congr fun key _ => congrArg not (hasSlot_beside hg q.graph hroot key)

/-- The third pass makes the same root beside a graph, and reports the same keys. -/
theorem createRoot_beside (hg : g.WellFormed) (hgroups : Numbered groups)
    (hembed : Embed.Mirrors setting g embed' embed) (loose : List String)
    (document : List (String × Json)) (hq : Tallied made q)
    (hreach : Reaches g (createRoot setting (groups.map (Group.shift g.lastNode)) embed' loose
      document (q.beside g)).2) :
    Carried g (Option.map (· + g.lastNode))
      (made + (createRoot setting groups embed loose document q).1.toList.length)
      (createRoot setting (groups.map (Group.shift g.lastNode)) embed' loose document (q.beside g))
      (createRoot setting groups embed loose document q) := by
  rw [createRoot_eq] at hreach ⊢
  rw [createRoot_eq]
  cases hroot : setting.schema.rootClass? with
  | none =>
      simp only [hroot] at hreach ⊢
      have hreports : Mirrors setting g _ _ := mirrors_reports .strayKey loose
      obtain ⟨hsame, htallied⟩ := hreports.carried hq hreach
      exact ⟨rfl, hsame, htallied⟩
  | some cls =>
      simp only [hroot] at hreach ⊢
      rw [← Nat.mul_one (Option.toList _).length]
      refine (thenFill_beside hg hq 1 _ _ (fun id p => ?_)
        (fun id hid {q} hq hreach => ?_) hreach).1
      · exact (steps_fillRoot hembed.steps id document 0 cls.fields p).trans
          (steps_reports setting _ _ _)
      · exact ((mirrors_fillRoot hg hgroups hembed hid document cls.fields).comp
          (mirrors_reportStray hg loose hid)).carried hq hreach

theorem fillAll_beside (hg : g.WellFormed) (hgroups : Numbered groups)
    (hembed : Embed.Mirrors setting g embed' embed) (loose : List String)
    (document : List (String × Json)) (hq : Tallied made q)
    (hreach : Reaches g
      (createRoot setting (groups.map (Group.shift g.lastNode)) embed' loose document
        (populateGroups setting (groups.map (Group.shift g.lastNode)) embed' (q.beside g))).2) :
    Carried g (Option.map (· + g.lastNode))
      (made + (createRoot setting groups embed loose document
        (populateGroups setting groups embed q)).1.toList.length)
      (createRoot setting (groups.map (Group.shift g.lastNode)) embed' loose document
        (populateGroups setting (groups.map (Group.shift g.lastNode)) embed' (q.beside g)))
      (createRoot setting groups embed loose document (populateGroups setting groups embed q)) := by
  obtain ⟨hsame, hfilled⟩ := (mirrors_populateGroups hg hgroups hembed).carried hq
    (hreach.back (steps_createRoot hembed.steps loose document _))
  rw [hsame] at hreach ⊢
  exact createRoot_beside hg hgroups hembed loose document hfilled hreach

/-- An import into a graph does there what it does in the empty one. -/
theorem run_beside (hg : g.WellFormed) (setting : Setting) (document : List (String × Json))
    (hreach : Reaches g (run setting g document).2) :
    run setting g document =
        ((run setting Graph.empty document).1.shift g.lastNode,
          (run setting Graph.empty document).2.beside g) ∧
      Tallied ((run setting Graph.empty document).1.groupNodes +
          (run setting Graph.empty document).1.root.toList.length)
        (run setting Graph.empty document).2 := by
  have hstart : Progress.start g = (Progress.start Graph.empty).beside g :=
    congrArg (fun graph => Progress.mk graph [] 0 0) (Graph.beside_empty g).symm
  have hreachGroups : Reaches g
      (createGroups setting setting.layout.columnStartX document (Progress.start g)).2.2 :=
    hreach.back ((steps_populateGroups (takesSteps_embedAt _) _).trans
      (steps_createRoot (takesSteps_embedAt _) _ document _))
  unfold run at hreach ⊢
  rw [hstart] at hreach hreachGroups ⊢
  obtain ⟨hsame, htallied, hnumbered⟩ :=
    createGroups_beside hg setting.layout.columnStartX document Tallied.start hreachGroups
  rw [hsame] at hreach ⊢
  rw [Nat.zero_add] at htallied
  generalize
    createGroups setting setting.layout.columnStartX document (Progress.start Graph.empty) =
      result at htallied hnumbered hreach ⊢
  obtain ⟨groups, loose, q⟩ := result
  have hfilled := fillAll_beside hg hnumbered (mirrors_embedAt hg hnumbered _) loose document
    htallied hreach
  dsimp only at hreach ⊢
  rw [hfilled.eq]
  have hcount : groupNodeCount (groups.map (Group.shift g.lastNode)) = groupNodeCount groups := by
    simp [groupNodeCount, List.length_flatMap, Group.shift, Function.comp_def]
  rw [hcount]
  exact ⟨rfl, hfilled.tallied⟩

end Import

end SlotGraph
