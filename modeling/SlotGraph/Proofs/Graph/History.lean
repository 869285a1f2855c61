import SlotGraph.Proofs.Graph.Counters

/-!
# Numbers are never drawn twice

An edit such as an import or the loading of a document makes many moves, and between two of
them the graph has nodes and links that it may not have before or after the edit.  So a run
of edits is taken apart into its moves.  At every moment the counters are no lower than at
the moments before and bound all numbers in the graph, and a number that is drawn lies above
its counter.  So it is above every number that the graph has had so far, whether this was
drawn, restored or read from a document, and whether or not it was removed since.
-/

namespace SlotGraph

namespace Graph

/-- Whether neither counter of a graph is above that of a later one. -/
def CountersLe (g g' : Graph) : Prop :=
  g.lastNode ≤ g'.lastNode ∧ g.lastLink ≤ g'.lastLink

def BelowEnd (g : Graph) : Prop :=
  g.lastNode < lastId ∧ g.lastLink < lastId

instance (g : Graph) : Decidable g.BelowEnd :=
  inferInstanceAs (Decidable (_ ∧ _))

namespace CountersLe

variable {g g' g'' : Graph}

theorem of_eq (hnode : g'.lastNode = g.lastNode) (hlink : g'.lastLink = g.lastLink) :
    g.CountersLe g' :=
  ⟨Int.le_of_eq hnode.symm, Int.le_of_eq hlink.symm⟩

theorem refl (g : Graph) : g.CountersLe g :=
  of_eq rfl rfl

theorem trans (h : g.CountersLe g') (h' : g'.CountersLe g'') : g.CountersLe g'' :=
  ⟨Int.le_trans h.1 h'.1, Int.le_trans h.2 h'.2⟩

theorem raiseCounters (h : g.CountersLe g') (node : NodeId) (link : LinkId) :
    g.CountersLe (g'.raiseCounters node link) :=
  h.trans ⟨Int.le_max_left _ _, Int.le_max_left _ _⟩

theorem getD {result : Option Graph} (h : ∀ g', result = some g' → g.CountersLe g') :
    g.CountersLe (result.getD g) := by
  cases result with
  | none =>
      exact refl g
  | some g' =>
      exact h g' rfl

theorem restoreNode (g : Graph) (node : Node) :
    g.CountersLe ((g.restoreNode? node).getD g) := by
  refine getD fun g' hrestore => ?_
  unfold restoreNode? at hrestore
  split at hrestore
  · simp at hrestore
  · cases hrestore
    exact (refl g).raiseCounters node.id 0

end CountersLe

end Graph

/-- What a host can do to a graph, nodes of its own making included. -/
inductive Operation where
  | edit (change : Edit)
  | restoreNode (node : Node)

namespace Operation

def apply (g : Graph) : Operation → Graph
  | .edit change => change.apply g
  | .restoreNode node => (g.restoreNode? node).getD g

def run (g : Graph) (ops : List Operation) : Graph :=
  ops.foldl apply g

theorem run_cons (g : Graph) (op : Operation) (rest : List Operation) :
    run g (op :: rest) = run (op.apply g) rest :=
  rfl

theorem run_append (g : Graph) (first rest : List Operation) :
    run g (first ++ rest) = run (run g first) rest :=
  List.foldl_append

def elementary : Operation → Bool
  | .edit (.clearInput ..) | .edit (.clearCollected _) | .edit (.build _)
  | .edit (.importConfig ..) | .edit (.load ..) => false
  | _ => true

/-- Whether a move is one that operations are made of when they are no single moves. -/
inductive Inner : Operation → Prop where
  | clear : Inner (.edit .clear)
  | removeLink (id : LinkId) : Inner (.edit (.removeLink id))
  | evaluate (id : NodeId) : Inner (.edit (.evaluate id))
  | addNode (template : NodeTemplate) (x y : Float) : Inner (.edit (.addNode template x y))
  | connect (origin : NodeId) (originSlot : Nat) (target : NodeId) (targetSlot : Nat) :
      Inner (.edit (.connect origin originSlot target targetSlot))
  | setKey (id : LinkId) (key : String) : Inner (.edit (.setKey id key))
  | setNative (id : NodeId) (slot : Nat) (value : Json) : Inner (.edit (.setNative id slot value))
  | restoreNode (template : NodeTemplate) (source : Json) :
      Inner (.restoreNode (Graph.nodeOfDocument template source))
  | restoreLink (source : Json) : Inner (.edit (.restoreLink (Graph.linkOfDocument source)))
  | raiseCounters (source : Json) (nodeKey linkKey : String) :
      Inner (.edit (.raiseCounters (source.int64At nodeKey) (source.int64At linkKey)))

def newNode? (g : Graph) : Operation → Option NodeId
  | .edit (.addNode template x y) => some (g.addNode template x y).1
  | _ => none

def newLink? (g : Graph) : Operation → Option LinkId
  | .edit (.connect origin originSlot target targetSlot) =>
      match g.connect origin originSlot target targetSlot with
      | .ok (id, _) => some id
      | .error _ => none
  | _ => none

def removals (ids : List LinkId) : List Operation :=
  ids.map fun id => .edit (.removeLink id)

def nodeOf? (registry : Registry) (source : Json) : Option Operation :=
  if source.isObject then
    (Graph.templateOf? registry source).map fun template =>
      .restoreNode (Graph.nodeOfDocument template source)
  else
    none

def linkOf? (source : Json) : Option Operation :=
  if source.isObject then some (.edit (.restoreLink (Graph.linkOfDocument source))) else none

def loading (registry : Registry) (source : Json) (nodes : List Json) : List Operation :=
  .edit .clear :: nodes.filterMap (nodeOf? registry) ++
    (((source.get? "links").bind Json.items?).getD []).filterMap linkOf? ++
    [.edit (.raiseCounters (source.int64At "last_node_id") (source.int64At "last_link_id"))]

end Operation

namespace Import

/-- The moves that take an import from one state to another, in order. -/
inductive Traced (setting : Setting) : Progress → List Operation → Progress → Prop where
  | done (p : Progress) : Traced setting p [] p
  /-- The graph stays as it is. -/
  | quiet {p q r : Progress} {moves : List Operation} :
      Step setting p q → q.graph = p.graph → Traced setting q moves r →
      Traced setting p moves r
  | create {p r : Progress} {moves : List Operation} (template : NodeTemplate) (x y : Float) :
      Traced setting { p with graph := (p.graph.addNode template x y).2 } moves r →
      Traced setting p (.edit (.addNode template x y) :: moves) r
  | link {p r : Progress} {moves : List Operation} {origin target : NodeId} {slot : Nat}
      {id : LinkId} {graph : Graph} (key : String) :
      p.graph.connect origin 0 target slot = .ok (id, graph) →
      Traced setting
        { p with
          graph := if key = "" then graph else (graph.setKey? id key).getD graph
          links := p.links + 1 } moves r →
      Traced setting p
        (.edit (.connect origin 0 target slot) ::
          (if key = "" then [] else [.edit (.setKey id key)]) ++ moves) r
  | setNative {p r : Progress} {moves : List Operation} {id : NodeId} {slot : Nat}
      {value : Json} {graph : Graph} :
      p.graph.setNative? id slot value = some graph →
      Traced setting { p with graph := graph } moves r →
      Traced setting p (.edit (.setNative id slot value) :: moves) r

end Import

namespace Operation

def Makes (g : Graph) (op : Operation) (moves : List Operation) : Prop :=
  match op with
  | .edit (.clearInput id slot) =>
      moves = removals ((((g.findNode? id).bind fun node => node.inputs[slot]?).map fun input =>
        input.feed.links).getD [])
  | .edit (.clearCollected id) =>
      moves = removals (((g.findNode? id).map fun node => node.inputs.flatMap fun input =>
        if input.feed.collects then input.feed.links else []).getD [])
  | .edit (.build schema) =>
      moves = (Build.ofGraph g schema).evaluated.map fun id => .edit (.evaluate id)
  | .edit (.importConfig setting (.obj members)) =>
      Import.Traced setting (Import.Progress.start g) moves (Import.run setting g members).2
  | .edit (.importConfig _ _) => moves = []
  | .edit (.load registry document) =>
      moves = (((document.get? "nodes").bind Json.items?).map
        (loading registry document)).getD []
  | op => moves = [op]

def MakesRun (g : Graph) : List Operation → List Operation → Prop
  | [], moves => moves = []
  | op :: rest, moves => ∃ first later, moves = first ++ later ∧ op.Makes g first ∧
      MakesRun (op.apply g) rest later

def moment (g : Graph) (moves : List Operation) (n : Nat) : Graph :=
  run g (moves.take n)

def Below (g : Graph) : List Operation → Prop
  | [] => g.BelowEnd
  | move :: rest => g.BelowEnd ∧ Below (move.apply g) rest

instance decidableBelow : (g : Graph) → (moves : List Operation) → Decidable (Below g moves)
  | g, [] => inferInstanceAs (Decidable g.BelowEnd)
  | g, move :: rest =>
      have := decidableBelow (move.apply g) rest
      inferInstanceAs (Decidable (g.BelowEnd ∧ Below (move.apply g) rest))

/-- Whether the counters only ever rise, and no move draws a number up to one that the graph
has at this or at an earlier moment. -/
structure NeverReuses (g : Graph) (moves : List Operation) : Prop where
  rising : ∀ {i j}, i ≤ j → (moment g moves i).CountersLe (moment g moves j)
  nodes : ∀ {i j move id}, i ≤ j → moves[j]? = some move →
    move.newNode? (moment g moves j) = some id →
    ∀ node ∈ (moment g moves i).nodes, node.id < id
  links : ∀ {i j move id}, i ≤ j → moves[j]? = some move →
    move.newLink? (moment g moves j) = some id →
    ∀ link ∈ (moment g moves i).links, link.id < id

/-! ## The moves of an operation -/

theorem run_removals (g : Graph) (ids : List LinkId) :
    run g (removals ids) = (g.clearLinks ids).2 := by
  rw [run, removals, List.foldl_map, Graph.clearLinks]
  refine (List.foldl_hom Prod.snd fun pair id => ?_ : List.foldl _ (Prod.snd (0, g)) ids = _)
  obtain ⟨count, h⟩ := pair
  rw [apply, Edit.apply]
  dsimp only
  cases h.removeLink? id <;> rfl

theorem run_evaluations (g : Graph) (ids : List NodeId) :
    run g (ids.map fun id => .edit (.evaluate id)) = ids.foldl Graph.remember g := by
  rw [run, List.foldl_map]
  rfl

theorem run_nodes (registry : Registry) (g : Graph) (sources : List Json) :
    run g (sources.filterMap (nodeOf? registry)) = (Graph.loadNodes registry g sources).1 := by
  induction sources generalizing g with
  | nil =>
      rfl
  | cons source rest ih =>
      rw [Graph.loadNodes, ← ih, List.filterMap_cons, nodeOf?, Graph.loadNode]
      cases hobject : source.isObject with
      | false =>
          rfl
      | true =>
          cases Graph.templateOf? registry source <;> rfl

theorem run_links (g : Graph) (sources : List Json) :
    run g (sources.filterMap linkOf?) = sources.foldl Graph.loadLink g := by
  induction sources generalizing g with
  | nil =>
      rfl
  | cons source rest ih =>
      rw [List.foldl_cons, ← ih, List.filterMap_cons, linkOf?, Graph.loadLink]
      cases source.isObject <;> rfl

theorem run_loading (registry : Registry) (g : Graph) (document : Json) :
    run g ((((document.get? "nodes").bind Json.items?).map (loading registry document)).getD []) =
      Edit.apply g (.load registry document) := by
  rw [Edit.apply, Graph.load?]
  cases (document.get? "nodes").bind Json.items? with
  | none =>
      rfl
  | some nodes =>
      rw [Option.map_some, Option.getD_some, loading, run_append, run_append, run_links,
        run_cons g, run_nodes]
      rfl

end Operation

namespace Import

variable {setting : Setting} {p q r : Progress}

theorem Traced.cons {moves : List Operation} (h : Step setting p q)
    (hrest : Traced setting q moves r) : ∃ first, Traced setting p (first ++ moves) r := by
  cases h with
  | report issues =>
      exact ⟨[], .quiet (.report p issues) rfl hrest⟩
  | embed =>
      exact ⟨[], .quiet (.embed p) rfl hrest⟩
  | create className template x y hfind =>
      exact ⟨[_], .create template x y hrest⟩
  | link origin target slot key id graph hconnect =>
      exact ⟨_ :: _, .link key hconnect hrest⟩
  | setNative id slot value graph hset =>
      exact ⟨[_], .setNative hset hrest⟩

theorem Steps.traced (h : Steps setting p r) : ∃ moves, Traced setting p moves r := by
  induction h using Relation.ReflTransGen.head_induction_on with
  | refl =>
      exact ⟨[], .done r⟩
  | head hstep _ ih =>
      obtain ⟨moves, hmoves⟩ := ih
      obtain ⟨first, hfirst⟩ := Traced.cons hstep hmoves
      exact ⟨first ++ moves, hfirst⟩

theorem Traced.run {moves : List Operation} (h : Traced setting p moves r) :
    Operation.run p.graph moves = r.graph := by
  induction h with
  | done p =>
      rfl
  | quiet _ hsame _ ih =>
      rw [← ih, hsame]
  | create template x y _ ih =>
      exact ih
  | @link p r moves origin target slot id graph key hconnect _ ih =>
      have hmade : (Operation.edit (.connect origin 0 target slot)).apply p.graph = graph := by
        rw [Operation.apply, Edit.apply, hconnect]
      rw [← ih, Operation.run_append, Operation.run_cons, hmade]
      split <;> rfl
  | @setNative p r moves id slot value graph hset _ ih =>
      have hmade : (Operation.edit (.setNative id slot value)).apply p.graph = graph := by
        rw [Operation.apply, Edit.apply, hset, Option.getD_some]
      rw [← ih, Operation.run_cons, hmade]

theorem Traced.inner {moves : List Operation} (h : Traced setting p moves r) :
    ∀ move ∈ moves, move.Inner := by
  induction h with
  | done p =>
      simp
  | quiet _ _ _ ih =>
      exact ih
  | create template x y _ ih =>
      exact List.forall_mem_cons.2 ⟨.addNode template x y, ih⟩
  | setNative _ _ ih =>
      exact List.forall_mem_cons.2 ⟨.setNative _ _ _, ih⟩
  | @link _ _ _ _ _ _ id _ key _ _ ih =>
      refine List.forall_mem_cons.2 ⟨.connect _ _ _ _, List.forall_mem_append.2 ⟨?_, ih⟩⟩
      split
      · simp
      · exact List.forall_mem_singleton.2 (.setKey id key)

end Import

namespace Operation

theorem Inner.elementary {move : Operation} (h : move.Inner) : move.elementary := by
  cases h <;> rfl

theorem exists_makes (g : Graph) (op : Operation) : ∃ moves, op.Makes g moves := by
  unfold Makes
  split
  case h_4 setting members => exact (Import.steps_run setting g members).traced
  all_goals exact ⟨_, rfl⟩

/-- The moves of an operation do what it does. -/
theorem Makes.run {g : Graph} {op : Operation} {moves : List Operation}
    (h : op.Makes g moves) : Operation.run g moves = op.apply g := by
  unfold Makes at h
  split at h
  case h_1 id slot =>
      rw [h, run_removals, apply, Edit.apply, Graph.clearInput]
      cases (g.findNode? id).bind fun node => node.inputs[slot]? <;> rfl
  case h_2 id =>
      rw [h, run_removals, apply, Edit.apply, Graph.clearCollected]
      cases g.findNode? id <;> rfl
  case h_3 schema =>
      rw [h, run_evaluations]
      rfl
  case h_4 setting members =>
      exact h.run
  case h_5 setting document hdocument =>
      rw [h]
      cases document with
      | obj members => exact absurd rfl (hdocument members)
      | _ => rfl
  case h_6 registry document =>
      rw [h]
      exact run_loading registry g document
  case h_7 =>
      rw [h]
      rfl

theorem inner_loading (registry : Registry) (document : Json) (nodes : List Json) :
    ∀ move ∈ loading registry document nodes, move.Inner := by
  intro move hmove
  simp only [loading, List.mem_append, List.mem_cons, List.mem_filterMap, List.not_mem_nil,
    or_false] at hmove
  rcases hmove with ((rfl | ⟨source, -, hsome⟩) | ⟨source, -, hsome⟩) | rfl
  · exact .clear
  · unfold nodeOf? at hsome
    split at hsome
    · obtain ⟨template, -, rfl⟩ := Option.map_eq_some_iff.1 hsome
      exact .restoreNode template source
    · simp at hsome
  · unfold linkOf? at hsome
    split at hsome
    · rw [← Option.some.inj hsome]
      exact .restoreLink source
    · simp at hsome
  · exact .raiseCounters document _ _

theorem Makes.inner_or {g : Graph} {op : Operation} {moves : List Operation}
    (h : op.Makes g moves) : (∀ move ∈ moves, move.Inner) ∨ op.elementary ∧ moves = [op] := by
  unfold Makes at h
  split at h
  case h_1 | h_2 =>
      refine .inl fun move hmove => ?_
      rw [h] at hmove
      obtain ⟨id, -, rfl⟩ := List.mem_map.1 hmove
      exact .removeLink id
  case h_3 =>
      refine .inl fun move hmove => ?_
      rw [h] at hmove
      obtain ⟨id, -, rfl⟩ := List.mem_map.1 hmove
      exact .evaluate id
  case h_4 setting members =>
      exact .inl h.inner
  case h_5 =>
      exact .inl (by simp [h])
  case h_6 registry document =>
      refine .inl ?_
      rw [h]
      cases (document.get? "nodes").bind Json.items? with
      | none =>
          simp
      | some nodes =>
          exact inner_loading registry document nodes
  case h_7 hinput hcollected hbuild _ himport hload =>
      refine .inr ⟨?_, h⟩
      unfold Operation.elementary
      split <;> simp_all

theorem Makes.elementary {g : Graph} {op : Operation} {moves : List Operation}
    (h : op.Makes g moves) : ∀ move ∈ moves, move.elementary := by
  rcases h.inner_or with hinner | ⟨hop, rfl⟩
  · exact fun move hmove => (hinner move hmove).elementary
  · exact List.forall_mem_singleton.2 hop

theorem exists_makesRun (g : Graph) (ops : List Operation) : ∃ moves, MakesRun g ops moves := by
  induction ops generalizing g with
  | nil =>
      exact ⟨[], rfl⟩
  | cons op rest ih =>
      obtain ⟨first, hfirst⟩ := exists_makes g op
      obtain ⟨later, hlater⟩ := ih (op.apply g)
      exact ⟨first ++ later, first, later, rfl, hfirst, hlater⟩

theorem MakesRun.run {g : Graph} {ops moves : List Operation} (h : MakesRun g ops moves) :
    run g moves = Operation.run g ops := by
  induction ops generalizing g moves with
  | nil =>
      rw [h]
  | cons op rest ih =>
      obtain ⟨first, later, rfl, hfirst, hlater⟩ := h
      rw [run_append, hfirst.run, ih hlater, run_cons]

theorem MakesRun.elementary {g : Graph} {ops moves : List Operation}
    (h : MakesRun g ops moves) : ∀ move ∈ moves, move.elementary := by
  induction ops generalizing g moves with
  | nil =>
      rw [h]
      simp
  | cons op rest ih =>
      obtain ⟨first, later, rfl, hfirst, hlater⟩ := h
      exact List.forall_mem_append.2 ⟨hfirst.elementary, ih hlater⟩

/-! ## One move -/

variable {g : Graph} {move : Operation}

/-- Whether the counters have a number left of each kind that a move draws. -/
structure HasRoom (g : Graph) (move : Operation) : Prop where
  node : (move.newNode? g).isSome → g.lastNode < Graph.lastId
  link : (move.newLink? g).isSome → g.lastLink < Graph.lastId

/-- A move that has room draws no more numbers than there are. -/
theorem fits_of_hasRoom {change : Edit} (hheld : g.Held)
    (helementary : (Operation.edit change).elementary) (hroom : HasRoom g (.edit change)) :
    change.Fits g := by
  obtain ⟨hnode, hlink⟩ := hheld
  cases change with
  | addNode template x y =>
      have hleft := hroom.node rfl
      constructor <;> simp only [Edit.draws] <;> lia
  | connect origin originSlot target targetSlot =>
      cases hconnect : g.connect origin originSlot target targetSlot with
      | error fault =>
          constructor <;> simp only [Edit.draws, hconnect] <;> lia
      | ok pair =>
          have hleft := hroom.link (by simp [newLink?, hconnect])
          constructor <;> simp only [Edit.draws, hconnect] <;> lia
  | importConfig setting document =>
      simp [elementary] at helementary
  | _ =>
      constructor <;> simp only [Edit.draws] <;> lia

/-- A move draws at most one number. -/
theorem fits_of_elementary {change : Edit} (h : (Operation.edit change).elementary)
    (hroom : g.BelowEnd) : change.Fits g :=
  fits_of_hasRoom ⟨Int.le_of_lt hroom.1, Int.le_of_lt hroom.2⟩ h
    ⟨fun _ => hroom.1, fun _ => hroom.2⟩

theorem eq_nextId_of_newNode {id : NodeId} (h : move.newNode? g = some id) :
    id = Graph.nextId g.lastNode ∧ (move.apply g).lastNode = id := by
  unfold newNode? at h
  split at h
  · cases h
    exact ⟨rfl, rfl⟩
  · simp at h

theorem eq_nextId_of_newLink {id : LinkId} (h : move.newLink? g = some id) :
    id = Graph.nextId g.lastLink ∧ (move.apply g).lastLink = id := by
  unfold newLink? at h
  split at h
  · split at h
    · next found next hconnect =>
        cases h
        obtain ⟨_, _, _, input, -, -, -, -, -, hid, -⟩ := Graph.connect_eq_ok_iff.1 hconnect
        refine ⟨hid, ?_⟩
        rw [apply, Edit.apply, hconnect]
        exact (Graph.counters_connect hconnect).2.trans hid.symm
    · simp at h
  · simp at h

theorem wellFormed_apply (h : g.WellFormed) (hmove : move.elementary) (hroom : g.BelowEnd) :
    (move.apply g).WellFormed := by
  cases move with
  | edit change =>
      exact h.apply (fits_of_elementary hmove hroom)
  | restoreNode node =>
      exact h.getD fun _ => h.restoreNode

theorem countersLe_apply (h : g.WellFormed) (hmove : move.elementary) (hroom : g.BelowEnd) :
    g.CountersLe (move.apply g) := by
  have hpos := h.counters_nonneg
  cases move with
  | restoreNode node =>
      exact .restoreNode g node
  | edit change =>
      cases change with
      | addNode template x y =>
          refine ⟨?_, Int.le_refl _⟩
          show g.lastNode ≤ Graph.nextId g.lastNode
          rw [Graph.nextId_eq hpos.1 hroom.1]
          lia
      | connect origin originSlot target targetSlot =>
          rw [apply, Edit.apply]
          split
          · next id next hconnect =>
              obtain ⟨hnode, hlink⟩ := Graph.counters_connect hconnect
              refine ⟨Int.le_of_eq hnode.symm, ?_⟩
              rw [hlink, Graph.nextId_eq hpos.2 hroom.2]
              lia
          · exact .refl g
      | removeNode id =>
          refine .getD fun g' hremove => ?_
          unfold Graph.removeNode? at hremove
          split at hremove
          · simp at hremove
          · cases hremove
            obtain ⟨hnode, hlink⟩ := g.counters_dropLinks (g.linksOf id)
            exact .of_eq hnode hlink
      | removeLink id =>
          refine .getD fun g' hremove => ?_
          simp only [Graph.removeLink?, Graph.disconnect?, Option.map_map,
            Option.map_eq_some_iff, Function.comp] at hremove
          obtain ⟨link, -, rfl⟩ := hremove
          exact .of_eq rfl rfl
      | setKey id key =>
          rw [apply, Edit.apply, Graph.setKey?_getD]
          exact .of_eq rfl rfl
      | setNative id slot value =>
          refine .getD fun g' hset => ?_
          rw [Graph.setNative?_eq_some hset]
          exact .of_eq rfl rfl
      | setProperty id value =>
          refine .getD fun g' hset => ?_
          unfold Graph.setProperty? at hset
          split at hset
          · cases hset
            exact .of_eq rfl rfl
          · simp at hset
      | clear =>
          exact .of_eq rfl rfl
      | restoreNode template id =>
          exact .restoreNode g _
      | restoreLink link =>
          refine .getD fun g' hrestore => ?_
          unfold Graph.restoreLink? at hrestore
          split at hrestore
          · simp at hrestore
          · obtain ⟨input, -, rfl⟩ := Option.map_eq_some_iff.1 hrestore
            obtain ⟨hnode, hlink⟩ := g.counters_dropLinks (Graph.displaced input)
            have hattached : g.CountersLe ((g.dropLinks (Graph.displaced input)).attach link) :=
              .of_eq hnode hlink
            exact hattached.raiseCounters 0 link.id
      | raiseCounters node link =>
          exact (Graph.CountersLe.refl g).raiseCounters node link
      | evaluate id =>
          rw [apply, Edit.apply, Graph.remember]
          split <;> exact .of_eq rfl rfl
      | _ =>
          simp [elementary] at hmove

/-- A number that is drawn lies above its counter. -/
theorem lt_newNode (h : g.WellFormed) (hroom : g.BelowEnd) {id : NodeId}
    (hnew : move.newNode? g = some id) : g.lastNode < id := by
  rw [(eq_nextId_of_newNode hnew).1, Graph.nextId_eq h.counters_nonneg.1 hroom.1]
  lia

theorem lt_newLink (h : g.WellFormed) (hroom : g.BelowEnd) {id : LinkId}
    (hnew : move.newLink? g = some id) : g.lastLink < id := by
  rw [(eq_nextId_of_newLink hnew).1, Graph.nextId_eq h.counters_nonneg.2 hroom.2]
  lia

/-! ## Runs of moves -/

variable {moves : List Operation}

theorem moment_succ (g : Graph) {n : Nat} (hmove : moves[n]? = some move) :
    moment g moves (n + 1) = move.apply (moment g moves n) := by
  rw [moment, List.take_add_one, hmove, run_append]
  rfl

theorem moment_of_none (g : Graph) {n : Nat} (h : moves[n]? = none) :
    moment g moves (n + 1) = moment g moves n := by
  rw [moment, List.take_add_one, h]
  exact congrArg (run g) (List.append_nil _)

theorem Below.moment (h : Below g moves) (n : Nat) : (moment g moves n).BelowEnd := by
  induction moves generalizing g n with
  | nil =>
      rw [Operation.moment, List.take_nil]
      exact h
  | cons move rest ih =>
      cases n with
      | zero =>
          exact h.1
      | succ n =>
          exact ih h.2 n

theorem wellFormed_moment (h : g.WellFormed) (hmoves : ∀ move ∈ moves, move.elementary)
    (hbelow : Below g moves) (n : Nat) : (moment g moves n).WellFormed := by
  induction n with
  | zero =>
      exact h
  | succ n ih =>
      cases hmove : moves[n]? with
      | none =>
          rwa [moment_of_none g hmove]
      | some move =>
          rw [moment_succ g hmove]
          exact wellFormed_apply ih (hmoves move (List.mem_of_getElem? hmove)) (hbelow.moment n)

theorem countersLe_moment (h : g.WellFormed) (hmoves : ∀ move ∈ moves, move.elementary)
    (hbelow : Below g moves) {i j : Nat} (hij : i ≤ j) :
    (moment g moves i).CountersLe (moment g moves j) := by
  induction hij with
  | refl =>
      exact .refl _
  | @step n _ ih =>
      cases hmove : moves[n]? with
      | none =>
          rwa [moment_of_none g hmove]
      | some move =>
          rw [moment_succ g hmove]
          exact ih.trans (countersLe_apply (wellFormed_moment h hmoves hbelow n)
            (hmoves move (List.mem_of_getElem? hmove)) (hbelow.moment n))

theorem neverReuses_of_below (h : g.WellFormed) (hmoves : ∀ move ∈ moves, move.elementary)
    (hbelow : Below g moves) : NeverReuses g moves where
  rising := countersLe_moment h hmoves hbelow
  nodes := by
    intro i j move id hij _ hnew node hnode
    have hcounted := ((wellFormed_moment h hmoves hbelow i).nodes_numbered node hnode).2
    have hdrawn := lt_newNode (wellFormed_moment h hmoves hbelow j) (hbelow.moment j) hnew
    exact Int.lt_of_le_of_lt (Int.le_trans hcounted (countersLe_moment h hmoves hbelow hij).1)
      hdrawn
  links := by
    intro i j move id hij _ hnew link hlink
    have hcounted := ((wellFormed_moment h hmoves hbelow i).links_numbered link hlink).2
    have hdrawn := lt_newLink (wellFormed_moment h hmoves hbelow j) (hbelow.moment j) hnew
    exact Int.lt_of_le_of_lt (Int.le_trans hcounted (countersLe_moment h hmoves hbelow hij).2)
      hdrawn

/--
Every run of operations can be taken apart into single moves with the same outcome; and
however it is, as long as the counters are below their end at every moment they only ever
rise, and each number that a move draws lies above all numbers that the graph has had at
any moment so far.
-/
theorem numbers_never_reused (h : g.WellFormed) (ops : List Operation) :
    (∃ moves, MakesRun g ops moves) ∧
      ∀ moves, MakesRun g ops moves →
        (∀ move ∈ moves, move.elementary) ∧ run g moves = run g ops ∧
          (Below g moves → NeverReuses g moves) :=
  ⟨exists_makesRun g ops, fun _ hmakes =>
    ⟨hmakes.elementary, hmakes.run, neverReuses_of_below h hmakes.elementary⟩⟩

/-- Two texts and a tool with room for one of them. -/
def crowdedNodes : List Json :=
  [ .obj [("id", .int 1), ("type", .str "Native.String")]
  , .obj [("id", .int 2), ("type", .str "Native.String")]
  , .obj [("id", .int 3), ("type", .str "s.Tool")] ]

/-- A document with these nodes, whose second link displaces the first one. -/
def crowdedDocument : Json :=
  .obj
    [ ("links", .arr
        [ .obj [("id", .int 7), ("origin_id", .int 1), ("target_id", .int 3)]
        , .obj [("id", .int 5), ("origin_id", .int 2), ("target_id", .int 3)] ])
    , ("nodes", .arr crowdedNodes) ]

def toolSetting : Import.Setting :=
  { schema := Schema.ofClasses "s" "Index" "" [⟨"Tool", [⟨"text", .named "str", "str", ""⟩]⟩]
    registry := ⟨NodeTemplate.valueTemplates ++ [Graph.toolTemplate]⟩
    layout := ImportLayout.standard }

/-- Loads this document, forgets all of it, and goes on with nodes of any origin. -/
def forgettingRun : List Operation :=
  [ .edit (.load toolSetting.registry crowdedDocument)
  , .edit .clear
  , .restoreNode (Node.ofTemplate Graph.textTemplate 2)
  , .edit (.importConfig toolSetting (.obj [("tools", .arr [.obj []])]))
  , .edit (.connect 2 0 4 0) ]

def forgettingMoves : List Operation :=
  loading toolSetting.registry crowdedDocument crowdedNodes ++
    [ .edit .clear
    , .restoreNode (Node.ofTemplate Graph.textTemplate 2)
    , .edit (.addNode Graph.toolTemplate ImportLayout.standard.columnStartX
        (ImportLayout.standard.rowY 0))
    , .edit (.connect 2 0 4 0) ]

theorem makesRun_forgettingRun : MakesRun Graph.empty forgettingRun forgettingMoves :=
  ⟨_, _, rfl, rfl, _, _, rfl, rfl, _, _, rfl, rfl,
    [_], [_], rfl, .create _ _ _ (.done _), _, _, rfl, rfl, rfl⟩

theorem numbers_never_reused_forgettingRun :
    Graph.empty.WellFormed ∧ MakesRun Graph.empty forgettingRun forgettingMoves ∧
      NeverReuses Graph.empty forgettingMoves ∧
      (moment Graph.empty forgettingMoves 5).links.map Link.id = [7] ∧
      (moment Graph.empty forgettingMoves 6).links.map Link.id = [5] ∧
      (run Graph.empty forgettingRun).links.map Link.id = [8] := by
  obtain ⟨-, hall⟩ := numbers_never_reused .empty forgettingRun
  obtain ⟨-, -, hsafe⟩ := hall forgettingMoves makesRun_forgettingRun
  refine ⟨.empty, makesRun_forgettingRun, hsafe ?_, ?_, ?_, ?_⟩
  all_goals decide +kernel

end Operation

end SlotGraph
