import SlotGraph.Proofs.Graph.History

/-!
# Numbers drawn after loading

Loading a document leaves each counter at the greatest of the number it was at, the number
that the document has for it and the numbers under which something was restored.  Nothing
keeps these from being the last number there is.  So what is added later gets the next
number, a positive one that is not in use, exactly as long as the counter of its kind has a
number left.
-/

namespace SlotGraph

namespace Graph

variable {g g' : Graph} {registry : Registry}

/-! ## What a document leaves in the counters -/

def itemsAt (source : Json) (key : String) : List Json :=
  ((source.get? key).bind Json.items?).getD []

def restoredLinks (g : Graph) : List Json → List LinkId
  | [] => []
  | source :: rest =>
      if source.isObject ∧ (g.restoreLink? (linkOfDocument source)).isSome then
        (linkOfDocument source).id :: restoredLinks (loadLink g source) rest
      else
        restoredLinks (loadLink g source) rest

def linksLoaded (registry : Registry) (g : Graph) (source : Json) : List LinkId :=
  restoredLinks (loadNodes registry g.clear (itemsAt source "nodes")).1 (itemsAt source "links")

/--
Whether each counter is at the greatest of the number it was at before a document was loaded,
the one that the document has for it, and those of the nodes, or of the links restored.
-/
structure CountedFrom (registry : Registry) (g : Graph) (source : Json) (loaded : Graph) :
    Prop where
  nodes : ∀ n, loaded.lastNode ≤ n ↔
    g.lastNode ≤ n ∧ source.int64At "last_node_id" ≤ n ∧ ∀ node ∈ loaded.nodes, node.id ≤ n
  links : ∀ n, loaded.lastLink ≤ n ↔
    g.lastLink ≤ n ∧ source.int64At "last_link_id" ≤ n ∧
      ∀ id ∈ linksLoaded registry g source, id ≤ n

theorem counters_restoreNode {node : Node} (h : g.WellFormed)
    (hrestore : g.restoreNode? node = some g') :
    g'.lastNode = max g.lastNode node.id ∧ g'.lastLink = g.lastLink := by
  unfold restoreNode? at hrestore
  split at hrestore
  · simp at hrestore
  · cases hrestore
    exact ⟨rfl, Int.max_eq_left h.counters_nonneg.2⟩

theorem nodes_restoreNode {node : Node} (hrestore : g.restoreNode? node = some g') :
    g'.nodes = g.nodes ++ [node.unlinked] := by
  unfold restoreNode? at hrestore
  split at hrestore
  · simp at hrestore
  · cases hrestore
    rfl

theorem counters_restoreLink {link : Link} (h : g.WellFormed)
    (hrestore : g.restoreLink? link = some g') :
    g'.lastNode = g.lastNode ∧ g'.lastLink = max g.lastLink link.id := by
  unfold restoreLink? at hrestore
  split at hrestore
  · simp at hrestore
  · obtain ⟨input, -, rfl⟩ := Option.map_eq_some_iff.1 hrestore
    obtain ⟨hnode, hlink⟩ := g.counters_dropLinks (displaced input)
    have hnonneg : max g.lastNode 0 = g.lastNode := Int.max_eq_left h.counters_nonneg.1
    exact ⟨(congrArg (max · 0) hnode).trans hnonneg, congrArg (max · link.id) hlink⟩

theorem nodeIds_restoreLink {link : Link} (hrestore : g.restoreLink? link = some g') :
    g'.nodes.map Node.id = g.nodes.map Node.id := by
  unfold restoreLink? at hrestore
  split at hrestore
  · simp at hrestore
  · obtain ⟨input, -, rfl⟩ := Option.map_eq_some_iff.1 hrestore
    have hshapes := g.shapes_dropLinks (displaced input)
    show (((g.dropLinks (displaced input)).attach link).nodes).map Node.id = _
    rw [nodeIds_attach, ← map_fst_shapes, hshapes, map_fst_shapes]

/-- Restored nodes raise the node counter to their numbers, and restore no link. -/
theorem counters_loadNodes (registry : Registry) (h : g.WellFormed) (hempty : g.nodes = [])
    (sources : List Json) (n : NodeId) :
    ((loadNodes registry g sources).1.lastNode ≤ n ↔
      g.lastNode ≤ n ∧ ∀ node ∈ (loadNodes registry g sources).1.nodes, node.id ≤ n) ∧
      (loadNodes registry g sources).1.lastLink = g.lastLink := by
  refine (loadNodes_induction (motive := fun g' => g'.WellFormed ∧
    (g'.lastNode ≤ n ↔ g.lastNode ≤ n ∧ ∀ node ∈ g'.nodes, node.id ≤ n) ∧
      g'.lastLink = g.lastLink) ⟨h, by simp [hempty], rfl⟩ ?_ sources).2
  rintro before after template source ⟨hwf, hnode, hlink⟩ - hrestore
  obtain ⟨hlastNode, hlastLink⟩ := counters_restoreNode hwf hrestore
  refine ⟨hwf.restoreNode hrestore, ?_, hlastLink.trans hlink⟩
  rw [hlastNode, nodes_restoreNode hrestore, Int.max_le, hnode, List.forall_mem_append,
    List.forall_mem_singleton, and_assoc]
  rfl

/-- Restored links raise the link counter to their numbers, and leave the nodes theirs. -/
theorem counters_loadLinks (h : g.WellFormed) (sources : List Json) (n : LinkId) :
    ((sources.foldl loadLink g).lastLink ≤ n ↔
      g.lastLink ≤ n ∧ ∀ id ∈ restoredLinks g sources, id ≤ n) ∧
      (sources.foldl loadLink g).lastNode = g.lastNode ∧
      (sources.foldl loadLink g).nodes.map Node.id = g.nodes.map Node.id := by
  induction sources generalizing g with
  | nil =>
      simp [restoredLinks]
  | cons source rest ih =>
      rw [List.foldl_cons, restoredLinks]
      cases hrestore : g.restoreLink? (linkOfDocument source) with
      | none =>
          have hsame : loadLink g source = g := by
            simp [loadLink, hrestore]
          simpa [hsame] using ih h
      | some next =>
          by_cases hobject : source.isObject
          · have hnext : loadLink g source = next := by
              simp [loadLink, hobject, hrestore]
            obtain ⟨hlastNode, hlastLink⟩ := counters_restoreLink h hrestore
            obtain ⟨hlink, hnode, hids⟩ := ih (h.restoreLink hrestore)
            rw [hnext, if_pos ⟨hobject, rfl⟩]
            refine ⟨?_, hnode.trans hlastNode, hids.trans (nodeIds_restoreLink hrestore)⟩
            rw [hlink, hlastLink, Int.max_le, List.forall_mem_cons, and_assoc]
          · have hsame : loadLink g source = g := by
              simp [loadLink, hobject]
            simpa [hsame, hobject] using ih h

theorem countedFrom_of_load (h : g.WellFormed) {source : Json} {loaded : Graph}
    {issues : List Issue} (hload : load? registry g source = some (loaded, issues)) :
    CountedFrom registry g source loaded := by
  obtain ⟨nodes, hnodes, hpair⟩ := Option.map_eq_some_iff.1 hload
  obtain ⟨rfl, -⟩ := Prod.mk.inj hpair
  have hitems : itemsAt source "nodes" = nodes := by
    rw [itemsAt, hnodes, Option.getD_some]
  have hwf := h.clear.loadNodes registry nodes
  have hrestored := counters_loadNodes registry h.clear rfl nodes
  have hlinked := counters_loadLinks hwf (itemsAt source "links")
  constructor
  · intro n
    obtain ⟨-, hnode, hids⟩ := hlinked n
    have hbound : ∀ nodes : List Node,
        (∀ node ∈ nodes, node.id ≤ n) ↔ ∀ id ∈ nodes.map Node.id, id ≤ n :=
      fun _ => forall_node_id_iff (P := (· ≤ n))
    show max ((itemsAt source "links").foldl loadLink _).lastNode _ ≤ n ↔ _ ∧ _ ∧
      ∀ node ∈ ((itemsAt source "links").foldl loadLink _).nodes, node.id ≤ n
    rw [Int.max_le, hnode, (hrestored n).1, hbound, hbound, hids, and_assoc,
      and_comm (b := source.int64At "last_node_id" ≤ n)]
    rfl
  · intro n
    show max ((itemsAt source "links").foldl loadLink _).lastLink _ ≤ n ↔ _
    rw [Int.max_le, (hlinked n).1, (hrestored n).2, linksLoaded, hitems, and_assoc,
      and_comm (b := source.int64At "last_link_id" ≤ n)]
    rfl

end Graph

namespace Operation

variable {g : Graph} {move : Operation}

/-! ## One draw -/

def Signed : Operation → Prop
  | .edit change => change.Signed
  | .restoreNode node => node.id ≤ Graph.lastId

/-- Whether a number is the next one of a counter, a positive one that is not in use. -/
structure IsNext (last : Int) (used : List Int) (id : Int) : Prop where
  next : id = last + 1
  positive : 0 < id
  unused : id ∉ used

/-- Whether a number that a move draws is the next one of its counter, which is then at it. -/
structure DrawsNext (g : Graph) (move : Operation) : Prop where
  node : ∀ id ∈ move.newNode? g,
    IsNext g.lastNode (g.nodes.map Node.id) id ∧ (move.apply g).lastNode = id
  link : ∀ id ∈ move.newLink? g,
    IsNext g.lastLink (g.links.map Link.id) id ∧ (move.apply g).lastLink = id

/-- A counter that no number in use is above has a next one exactly if it has one left. -/
theorem isNext_nextId_iff {last : Int} {used : List Int} (hlow : 0 ≤ last)
    (hheld : last ≤ Graph.lastId) (hused : ∀ id ∈ used, id ≤ last) :
    IsNext last used (Graph.nextId last) ↔ last < Graph.lastId := by
  constructor
  · intro hnext
    refine Int.not_le.1 fun hend => ?_
    exact Int.lt_asymm hnext.positive (Graph.nextId_neg hheld hend)
  · intro hroom
    rw [Graph.nextId_eq hlow hroom]
    refine ⟨rfl, by omega, fun hmem => ?_⟩
    have hcounted := hused _ hmem
    omega

theorem drawsNext_iff_hasRoom (hwf : g.WellFormed) (hheld : g.Held) :
    DrawsNext g move ↔ HasRoom g move := by
  have hnode : ∀ id ∈ move.newNode? g,
      (IsNext g.lastNode (g.nodes.map Node.id) id ↔ g.lastNode < Graph.lastId) := by
    intro id hid
    rw [(eq_nextId_of_newNode hid).1]
    refine isNext_nextId_iff hwf.counters_nonneg.1 hheld.1 ?_
    exact List.forall_mem_map.2 fun node hmem => (hwf.nodes_numbered node hmem).2
  have hlink : ∀ id ∈ move.newLink? g,
      (IsNext g.lastLink (g.links.map Link.id) id ↔ g.lastLink < Graph.lastId) := by
    intro id hid
    rw [(eq_nextId_of_newLink hid).1]
    refine isNext_nextId_iff hwf.counters_nonneg.2 hheld.2 ?_
    exact List.forall_mem_map.2 fun link hmem => (hwf.links_numbered link hmem).2
  constructor
  · intro hdraws
    constructor
    · intro hsome
      obtain ⟨id, hid⟩ := Option.isSome_iff_exists.1 hsome
      exact (hnode id hid).1 (hdraws.node id hid).1
    · intro hsome
      obtain ⟨id, hid⟩ := Option.isSome_iff_exists.1 hsome
      exact (hlink id hid).1 (hdraws.link id hid).1
  · intro hroom
    constructor
    · intro id hid
      exact ⟨(hnode id hid).2 (hroom.node (Option.isSome_of_mem hid)),
        (eq_nextId_of_newNode hid).2⟩
    · intro id hid
      exact ⟨(hlink id hid).2 (hroom.link (Option.isSome_of_mem hid)),
        (eq_nextId_of_newLink hid).2⟩

theorem sound_apply (hwf : g.WellFormed) (hheld : g.Held) (helementary : move.elementary)
    (hsigned : move.Signed) (hroom : HasRoom g move) :
    (move.apply g).WellFormed ∧ (move.apply g).Held := by
  cases move with
  | edit change =>
      exact ⟨hwf.apply (fits_of_hasRoom hheld helementary hroom), hheld.apply hwf hsigned⟩
  | restoreNode node =>
      exact ⟨hwf.getD fun _ => hwf.restoreNode, hheld.getD fun _ => hheld.restoreNode hsigned⟩

/-! ## Runs of draws -/

/-- What a document hands over is read as signed 64-bit numbers. -/
theorem Inner.signed (h : move.Inner) : move.Signed := by
  cases h with
  | restoreNode template source =>
      rw [Signed, Graph.id_nodeOfDocument]
      exact Graph.int64At_le_lastId source "id"
  | restoreLink source =>
      exact Graph.int64At_le_lastId source "id"
  | raiseCounters source nodeKey linkKey =>
      exact ⟨Graph.int64At_le_lastId source nodeKey, Graph.int64At_le_lastId source linkKey⟩
  | _ =>
      trivial

/-- An operation that is handed signed 64-bit numbers hands no others to its moves. -/
theorem Makes.signed {op : Operation} {moves : List Operation} (h : op.Makes g moves)
    (hop : op.Signed) : ∀ move ∈ moves, move.Signed := by
  rcases h.inner_or with hinner | ⟨-, rfl⟩
  · exact fun move hmove => (hinner move hmove).signed
  · exact List.forall_mem_singleton.2 hop

theorem MakesRun.signed {ops moves : List Operation} (h : MakesRun g ops moves)
    (hops : ∀ op ∈ ops, op.Signed) : ∀ move ∈ moves, move.Signed := by
  induction ops generalizing g moves with
  | nil =>
      rw [h]
      simp
  | cons op rest ih =>
      obtain ⟨first, later, rfl, hfirst, hlater⟩ := h
      obtain ⟨hop, hrest⟩ := List.forall_mem_cons.1 hops
      exact List.forall_mem_append.2 ⟨hfirst.signed hop, ih hlater hrest⟩

variable {moves : List Operation}

theorem sound_moment (hwf : g.WellFormed) (hheld : g.Held)
    (helementary : ∀ move ∈ moves, move.elementary) (hsigned : ∀ move ∈ moves, move.Signed)
    {n : Nat} (hroom : ∀ m < n, ∀ move ∈ moves[m]?, HasRoom (moment g moves m) move) :
    (moment g moves n).WellFormed ∧ (moment g moves n).Held := by
  induction n with
  | zero =>
      exact ⟨hwf, hheld⟩
  | succ n ih =>
      obtain ⟨hroom, hlast⟩ := Nat.forall_lt_succ_right.1 hroom
      cases hmove : moves[n]? with
      | none =>
          rw [moment_of_none g hmove]
          exact ih hroom
      | some move =>
          have hmem := List.mem_of_getElem? hmove
          rw [moment_succ g hmove]
          exact sound_apply (ih hroom).1 (ih hroom).2 (helementary move hmem)
            (hsigned move hmem) (hlast move hmove)

/-- Each draw of a run is sound up to a moment exactly if each had room. -/
theorem drawsNext_moments_iff (hwf : g.WellFormed) (hheld : g.Held)
    (helementary : ∀ move ∈ moves, move.elementary) (hsigned : ∀ move ∈ moves, move.Signed)
    (n : Nat) :
    (∀ m < n, ∀ move ∈ moves[m]?, DrawsNext (moment g moves m) move) ↔
      ∀ m < n, ∀ move ∈ moves[m]?, HasRoom (moment g moves m) move := by
  induction n with
  | zero =>
      simp
  | succ n ih =>
      -- With room until now the graph is sound still, so this draw can be judged by itself.
      rw [Nat.forall_lt_succ_right, Nat.forall_lt_succ_right, ih]
      refine and_congr_right fun hroom => forall₂_congr fun move _ => ?_
      obtain ⟨hthen, hheldThen⟩ := sound_moment hwf hheld helementary hsigned hroom
      exact drawsNext_iff_hasRoom hthen hheldThen

/--
Once a document is loaded, each counter is at the greatest of the numbers that were counted,
read for it and restored, at most the last one there is.  Whatever is done to the graph from
then on, with signed 64-bit numbers handed over, what is added gets the next number of its
counter, a positive one that is not in use, up to any moment exactly if the counter had a
number left at each draw until then.
-/
theorem drawsNext_iff_hasRoom_of_load {registry : Registry} {source : Json} {loaded : Graph}
    {issues : List Issue} (hwf : g.WellFormed) (hheld : g.Held)
    (hload : Graph.load? registry g source = some (loaded, issues)) :
    Graph.CountedFrom registry g source loaded ∧ loaded.Held ∧
      ∀ ops, (∀ op ∈ ops, op.Signed) →
        (∃ moves, MakesRun loaded ops moves) ∧
          ∀ moves, MakesRun loaded ops moves → ∀ n,
            (∀ m < n, ∀ move ∈ moves[m]?, DrawsNext (moment loaded moves m) move) ↔
              ∀ m < n, ∀ move ∈ moves[m]?, HasRoom (moment loaded moves m) move := by
  have hloaded := hheld.load hload
  refine ⟨Graph.countedFrom_of_load hwf hload, hloaded, fun ops hops => ?_⟩
  refine ⟨exists_makesRun loaded ops, fun moves hmakes n => ?_⟩
  exact drawsNext_moments_iff (hwf.load hload) hloaded hmakes.elementary (hmakes.signed hops) n

/-- A text and a tool whose number is the last but one; no link is left to be drawn. -/
def brimmingDocument : Json :=
  .obj
    [ ("last_link_id", .int Graph.lastId)
    , ("nodes", .arr
        [ .obj [("id", .int 1), ("type", .str "Native.String")]
        , .obj [("id", .int (Graph.lastId - 1)), ("type", .str "s.Tool")] ]) ]

def brimmingGraph : Graph :=
  (Edit.load toolSetting.registry brimmingDocument).apply Graph.empty

/-- Adds a text, which gets the last number, and links the other one to the tool. -/
def brimmingRun : List Operation :=
  [ .edit (.addNode Graph.textTemplate 0.0 0.0)
  , .edit (.connect 1 0 (Graph.lastId - 1) 0) ]

theorem drawsNext_iff_hasRoom_of_load_brimmingRun :
    Graph.load? toolSetting.registry Graph.empty brimmingDocument = some (brimmingGraph, []) ∧
      DrawsNext brimmingGraph (.edit (.addNode Graph.textTemplate 0.0 0.0)) ∧
      ¬ DrawsNext (moment brimmingGraph brimmingRun 1)
        (.edit (.connect 1 0 (Graph.lastId - 1) 0)) := by
  have hload : Graph.load? toolSetting.registry Graph.empty brimmingDocument =
      some (brimmingGraph, []) := rfl
  obtain ⟨-, -, hruns⟩ := drawsNext_iff_hasRoom_of_load .empty .empty hload
  obtain ⟨-, hmoves⟩ := hruns brimmingRun (by simp [brimmingRun, Signed, Edit.Signed])
  have hiff := hmoves brimmingRun ⟨_, _, rfl, rfl, _, _, rfl, rfl, rfl⟩
  have hfirst : DrawsNext brimmingGraph (.edit (.addNode Graph.textTemplate 0.0 0.0)) := by
    refine (hiff 1).2 (fun m hm move hmove => ?_) 0 Nat.zero_lt_one _ rfl
    obtain rfl : m = 0 := by omega
    cases hmove
    exact ⟨fun _ => by decide +kernel, fun hnone => absurd hnone Bool.false_ne_true⟩
  refine ⟨hload, hfirst, fun hsecond => ?_⟩
  have hroom := (hiff 2).1 (fun m hm move hmove => ?_) 1 Nat.one_lt_two _ rfl
  · exact absurd (hroom.link (by decide +kernel)) (by decide +kernel)
  · obtain rfl | rfl : m = 0 ∨ m = 1 := by omega
    · cases hmove
      exact hfirst
    · cases hmove
      exact hsecond

end Operation

end SlotGraph
