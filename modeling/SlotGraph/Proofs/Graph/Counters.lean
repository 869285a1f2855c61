import SlotGraph.Proofs.Graph.Runs

/-!
# The end of the counters

Numbers are drawn without a look at how many are left.  As long as the numbers that
a host hands over are signed 64-bit ones, the counters stay among these too; but a
draw past the last of them wraps around to a negative number and breaks the graph.
So a run stays well formed exactly as long as the counters have what it draws.
-/

namespace SlotGraph

namespace Graph

/-- Counters that signed 64-bit numbers hold. -/
def Held (g : Graph) : Prop :=
  g.lastNode ≤ lastId ∧ g.lastLink ≤ lastId

theorem bmod_le_lastId (n : Int) : n.bmod (2 ^ 64) ≤ lastId := by
  have hlt := Int.bmod_lt (x := n) (m := 2 ^ 64) (by decide)
  unfold lastId
  omega

theorem int64At_le_lastId (source : Json) (key : String) : source.int64At key ≤ lastId := by
  unfold Json.int64At
  cases hvalue : (source.get? key).bind Json.int64? with
  | none =>
      decide
  | some n =>
      obtain ⟨value, -, hn⟩ := Option.bind_eq_some_iff.1 hvalue
      obtain ⟨m, -, rfl⟩ := Option.map_eq_some_iff.1 hn
      exact bmod_le_lastId m

/-- A number past the last one wraps around to a negative one. -/
theorem bmod_neg {n : Int} (hpast : lastId < n) (hnear : n ≤ lastId + lastId) :
    n.bmod (2 ^ 64) < 0 := by
  have hshift := Int.sub_bmod_right n (2 ^ 64)
  unfold lastId at hpast hnear
  rw [← hshift, Int.bmod_eq_of_le] <;> omega

/-- A counter at its end wraps around. -/
theorem nextId_neg {last : Int} (hheld : last ≤ lastId) (hend : lastId ≤ last) :
    nextId last < 0 := by
  refine bmod_neg (Int.lt_add_one_of_le hend) ?_
  unfold lastId at hheld ⊢
  omega

/-- A number that was drawn is not drawn next, even where the counter wraps around. -/
theorem ne_nextId {last drawn : Int} (hheld : last ≤ lastId) (hpositive : 0 < drawn)
    (hdrawn : drawn ≤ last) : drawn ≠ nextId last := by
  by_cases hroom : last < lastId
  · rw [nextId_eq (by omega) hroom]
    omega
  · have hwrapped := nextId_neg hheld (Int.not_lt.1 hroom)
    omega

theorem Held.empty : empty.Held :=
  ⟨by decide, by decide⟩

theorem Held.congr {g g' : Graph} (h : g.Held) (hnode : g'.lastNode = g.lastNode)
    (hlink : g'.lastLink = g.lastLink) : g'.Held :=
  ⟨hnode ▸ h.1, hlink ▸ h.2⟩

theorem Held.raiseCounters {g : Graph} (h : g.Held) {node : NodeId} {link : LinkId}
    (hnode : node ≤ lastId) (hlink : link ≤ lastId) : (g.raiseCounters node link).Held :=
  ⟨Int.max_le.2 ⟨h.1, hnode⟩, Int.max_le.2 ⟨h.2, hlink⟩⟩

theorem Held.dropLinks {g : Graph} (h : g.Held) (ids : List LinkId) : (g.dropLinks ids).Held :=
  h.congr (g.counters_dropLinks ids).1 (g.counters_dropLinks ids).2

theorem Held.removeLink {g g' : Graph} (h : g.Held) {id : LinkId}
    (hremove : g.removeLink? id = some g') : g'.Held := by
  simp only [removeLink?, disconnect?, Option.map_map, Option.map_eq_some_iff,
    Function.comp] at hremove
  obtain ⟨link, -, rfl⟩ := hremove
  exact h

theorem Held.clearLinks {g : Graph} (h : g.Held) (ids : List LinkId) :
    (g.clearLinks ids).2.Held :=
  clearLinks_induction h (fun hheld hremove => hheld.removeLink hremove) ids

theorem Held.restoreNode {g g' : Graph} (h : g.Held) {node : Node} (hid : node.id ≤ lastId)
    (hrestore : g.restoreNode? node = some g') : g'.Held := by
  unfold restoreNode? at hrestore
  split at hrestore
  · simp at hrestore
  · cases hrestore
    exact h.raiseCounters hid (by decide)

theorem Held.restoreLink {g g' : Graph} (h : g.Held) {link : Link} (hid : link.id ≤ lastId)
    (hrestore : g.restoreLink? link = some g') : g'.Held := by
  unfold restoreLink? at hrestore
  split at hrestore
  · simp at hrestore
  · obtain ⟨input, -, rfl⟩ := Option.map_eq_some_iff.1 hrestore
    exact ((h.dropLinks (displaced input)).congr rfl rfl).raiseCounters (by decide) hid

theorem Held.remember {g : Graph} (h : g.Held) (id : NodeId) : (g.remember id).Held := by
  unfold Graph.remember
  split <;> exact h

theorem Held.remembered {g : Graph} (h : g.Held) (build : Build) :
    (build.remembered g).Held := by
  unfold Build.remembered
  induction build.evaluated generalizing g with
  | nil =>
      exact h
  | cons id rest ih =>
      exact ih (h.remember id)

/-! ## Loading -/

theorem id_nodeOfDocument (template : NodeTemplate) (source : Json) :
    (nodeOfDocument template source).id = source.int64At "id" := by
  have hnatives : ∀ (entries : List (String × Json)) (node : Node),
      (applyNatives node entries).id = node.id := by
    intro entries
    induction entries with
    | nil =>
        exact fun _ => rfl
    | cons entry rest ih =>
        intro node
        obtain ⟨key, value⟩ := entry
        unfold applyNatives at ih ⊢
        rw [List.foldl_cons, ih]
        dsimp only
        split <;> rfl
  have hplacement : ∀ node : Node, (applyPlacement node source).id = node.id := by
    intro node
    unfold applyPlacement
    split <;> split <;> rfl
  have hproperty : ∀ node : Node, (applyProperty node source).id = node.id := by
    intro node
    unfold applyProperty
    split <;> rfl
  rw [nodeOfDocument, hproperty, hnatives, hplacement]
  rfl

theorem Held.loadNodes {g : Graph} (h : g.Held) (registry : Registry) (sources : List Json) :
    (Graph.loadNodes registry g sources).1.Held := by
  refine loadNodes_induction h (fun {_ _ template source} hheld _ hrestore => ?_) sources
  refine hheld.restoreNode ?_ hrestore
  rw [id_nodeOfDocument template source]
  exact int64At_le_lastId source "id"

theorem Held.loadLinks {g : Graph} (h : g.Held) (sources : List Json) :
    (sources.foldl Graph.loadLink g).Held :=
  loadLinks_induction h
    (fun {_ _ source} hheld => hheld.restoreLink (int64At_le_lastId source "id")) sources

theorem Held.load {g g' : Graph} (h : g.Held) {registry : Registry} {source : Json}
    {issues : List Issue} (hload : Graph.load? registry g source = some (g', issues)) :
    g'.Held := by
  obtain ⟨nodes, -, hpair⟩ := Option.map_eq_some_iff.1 hload
  obtain ⟨rfl, -⟩ := Prod.mk.inj hpair
  have hclear : g.clear.Held := h
  exact ((hclear.loadNodes registry nodes).loadLinks _).raiseCounters
    (int64At_le_lastId source "last_node_id") (int64At_le_lastId source "last_link_id")

end Graph

namespace Import

variable {setting : Setting} {p p' : Progress}

/-! ## Counting on during an import -/

/-- Counters that have counted on from those of `g`, around the end or not. -/
structure Drawn (g : Graph) (p : Progress) : Prop where
  nodes : p.graph.lastNode =
    (g.lastNode + (p.graph.nodes.length - g.nodes.length)).bmod (2 ^ 64)
  links : p.graph.lastLink = (g.lastLink + p.links).bmod (2 ^ 64)

theorem Drawn.start {g : Graph} (hwf : g.WellFormed) (h : g.Held) :
    Drawn g (Progress.start g) := by
  have hpos := hwf.counters_nonneg
  unfold Graph.Held Graph.lastId at h
  constructor
  · rw [Progress.start, Int.sub_self, Int.add_zero, Int.bmod_eq_of_le] <;> lia
  · rw [Progress.start, Int.bmod_eq_of_le] <;> lia

theorem Drawn.step {g : Graph} (hp : Drawn g p) (h : Step setting p p') : Drawn g p' := by
  obtain ⟨hnodes, hlinks⟩ := hp
  cases h with
  | report issues =>
      exact ⟨hnodes, hlinks⟩
  | embed =>
      exact ⟨hnodes, hlinks⟩
  | create className template x y hfind =>
      refine ⟨?_, hlinks⟩
      rw [Graph.addNode, Graph.nextId, hnodes, Int.bmod_add_bmod, List.length_append]
      simp only [List.length_singleton]
      lia
  | link origin target slot key id graph hconnect =>
      have hlength := Graph.length_nodes_of_shapes (Graph.shapes_connect hconnect)
      obtain ⟨hlastNode, hlastLink⟩ := Graph.counters_connect hconnect
      have hmade : Drawn g { p with graph := graph, links := p.links + 1 } := by
        constructor
        · rw [hlastNode, hlength, hnodes]
        · rw [hlastLink, Graph.nextId, hlinks, Int.bmod_add_bmod, Int.add_assoc]
          rfl
      split
      · exact hmade
      · rw [Graph.setKey?_getD]
        exact ⟨by simpa using hmade.nodes, hmade.links⟩
  | setNative id slot value graph hset =>
      have hlength := Graph.length_nodes_of_shapes (Graph.shapes_setNative hset)
      rw [Graph.setNative?_eq_some hset] at hlength ⊢
      exact ⟨by rw [hlength]; exact hnodes, hlinks⟩

theorem Drawn.steps {g : Graph} (hp : Drawn g p) (h : Steps setting p p') : Drawn g p' := by
  induction h with
  | refl =>
      exact hp
  | tail _ hstep ih =>
      exact ih.step hstep

end Import

namespace Edit

/-! ## Runs to the end of the counters -/

/-- Whether the numbers that an edit is handed are signed 64-bit ones. -/
def Signed : Edit → Prop
  | .restoreNode _ id => id ≤ Graph.lastId
  | .restoreLink link => link.id ≤ Graph.lastId
  | .raiseCounters node link => node ≤ Graph.lastId ∧ link ≤ Graph.lastId
  | _ => True

/-- Whether signed 64-bit numbers count what an edit draws, whatever was drawn before. -/
def Countable (g : Graph) (edit : Edit) : Prop :=
  ((edit.draws g).1 : Int) ≤ Graph.lastId ∧ ((edit.draws g).2 : Int) ≤ Graph.lastId

/-- Whether a run is handed and draws numbers of the signed 64-bit ones only. -/
def RunSigned (g : Graph) : List Edit → Prop
  | [] => True
  | edit :: rest => edit.Signed ∧ edit.Countable g ∧ RunSigned (edit.apply g) rest

end Edit

namespace Graph

theorem Held.getD {g : Graph} (h : g.Held) {result : Option Graph}
    (hresult : ∀ g', result = some g' → g'.Held) : (result.getD g).Held := by
  cases result with
  | none =>
      exact h
  | some g' =>
      exact hresult g' rfl

theorem Held.apply {g : Graph} (hwf : g.WellFormed) (h : g.Held) {edit : Edit}
    (hsigned : edit.Signed) : (edit.apply g).Held := by
  cases edit with
  | addNode template x y =>
      exact ⟨bmod_le_lastId _, h.2⟩
  | removeNode id =>
      refine h.getD fun g' hremove => ?_
      unfold removeNode? at hremove
      split at hremove
      · simp at hremove
      · cases hremove
        exact (h.dropLinks (g.linksOf id)).congr rfl rfl
  | connect origin originSlot target targetSlot =>
      rw [Edit.apply]
      split
      · next id next hconnect =>
          obtain ⟨hnode, hlink⟩ := counters_connect hconnect
          exact ⟨hnode ▸ h.1, hlink ▸ bmod_le_lastId _⟩
      · exact h
  | removeLink id =>
      exact h.getD fun _ => h.removeLink
  | setKey id key =>
      rw [Edit.apply, setKey?_getD]
      exact h
  | clearInput id slot =>
      rw [Edit.apply, Graph.clearInput]
      split
      · exact h.clearLinks _
      · exact h
  | clearCollected id =>
      rw [Edit.apply, Graph.clearCollected]
      split
      · exact h.clearLinks _
      · exact h
  | setNative id slot value =>
      refine h.getD fun g' hset => ?_
      rw [setNative?_eq_some hset]
      exact h
  | setProperty id value =>
      refine h.getD fun g' hset => ?_
      unfold setProperty? at hset
      split at hset
      · cases hset
        exact h
      · simp at hset
  | clear =>
      exact h
  | restoreNode template id =>
      exact h.getD fun _ => h.restoreNode hsigned
  | restoreLink link =>
      exact h.getD fun _ => h.restoreLink hsigned
  | raiseCounters node link =>
      exact h.raiseCounters hsigned.1 hsigned.2
  | evaluate id =>
      exact h.remember id
  | build schema =>
      exact h.remembered _
  | importConfig setting document =>
      cases document with
      | obj members =>
          have hdrawn := (Import.Drawn.start hwf h).steps (Import.steps_run setting g members)
          constructor
          · exact hdrawn.nodes ▸ bmod_le_lastId _
          · exact hdrawn.links ▸ bmod_le_lastId _
      | _ =>
          exact h
  | load registry document =>
      refine h.getD fun g' hresult => ?_
      obtain ⟨⟨next, issues⟩, hload, rfl⟩ := Option.map_eq_some_iff.1 hresult
      exact h.load hload

theorem Held.run {g : Graph} (h : g.Held) (hwf : g.WellFormed) {edits : List Edit}
    (hfits : Edit.RunFits g edits) (hsigned : ∀ edit ∈ edits, edit.Signed) :
    (Edit.run g edits).Held := by
  induction edits generalizing g with
  | nil =>
      exact h
  | cons edit rest ih =>
      exact ih (h.apply hwf (hsigned edit List.mem_cons_self)) (hwf.apply hfits.1) hfits.2
        fun other hother => hsigned other (List.mem_cons_of_mem edit hother)

/-- An edit that draws past the end of a counter leaves a counter negative. -/
theorem fits_of_counters_nonneg {g : Graph} (hwf : g.WellFormed) (h : g.Held) {edit : Edit}
    (hcountable : edit.Countable g)
    (hafter : 0 ≤ (edit.apply g).lastNode ∧ 0 ≤ (edit.apply g).lastLink) : edit.Fits g := by
  obtain ⟨hnodes, hlinks⟩ := hcountable
  have hheldNode := h.1
  have hheldLink := h.2
  -- A counter that has counted on by `n` and is not negative had `n` numbers left.
  have hroom : ∀ {last last' : Int} {n : Nat}, last ≤ lastId → (n : Int) ≤ lastId →
      last' = (last + n).bmod (2 ^ 64) → 0 ≤ last' → last + n ≤ lastId := by
    intro last last' n hlast hn hcount hnonneg
    refine Int.not_lt.1 fun hpast => ?_
    have hneg := bmod_neg hpast (Int.add_le_add hlast hn)
    exact Int.not_lt.2 hnonneg (hcount ▸ hneg)
  have hrest : edit.draws g = (0, 0) → edit.Fits g := by
    intro hdraws
    rw [Edit.Fits, hdraws]
    exact ⟨by simpa using hheldNode, by simpa using hheldLink⟩
  cases edit with
  | addNode template x y =>
      exact ⟨hroom hheldNode hnodes rfl hafter.1, by simpa [Edit.draws] using hheldLink⟩
  | connect origin originSlot target targetSlot =>
      cases hconnect : g.connect origin originSlot target targetSlot with
      | ok pair =>
          obtain ⟨id, next⟩ := pair
          obtain ⟨-, hlink⟩ := counters_connect hconnect
          rw [Edit.apply, hconnect] at hafter
          rw [Edit.draws, hconnect] at hlinks
          rw [Edit.Fits, Edit.draws, hconnect]
          exact ⟨by simpa using hheldNode, hroom hheldLink hlinks hlink hafter.2⟩
      | error fault =>
          exact hrest (by rw [Edit.draws, hconnect])
  | importConfig setting document =>
      cases document with
      | obj members =>
          have hsteps := Import.steps_run setting g members
          have hmono := hsteps.mono.1
          have hdrawn := (Import.Drawn.start hwf h).steps hsteps
          simp only [Edit.draws] at hnodes hlinks
          simp only [Import.Progress.start] at hmono
          refine ⟨hroom hheldNode hnodes ?_ hafter.1, hroom hheldLink hlinks ?_ hafter.2⟩
          · have hcount := Int.ofNat_sub hmono
            simp only [Edit.draws]
            rw [hcount]
            exact hdrawn.nodes
          · exact hdrawn.links
      | _ =>
          exact hrest rfl
  | _ =>
      exact hrest rfl

/-- A well-formed graph stays so throughout a run whose numbers the counters have. -/
theorem WellFormed.take {g : Graph} (h : g.WellFormed) {edits : List Edit}
    (hfits : Edit.RunFits g edits) (n : Nat) : (Edit.run g (edits.take n)).WellFormed := by
  induction edits generalizing g n with
  | nil =>
      simpa [Edit.run] using h
  | cons edit rest ih =>
      cases n with
      | zero =>
          exact h
      | succ n =>
          exact ih (h.apply hfits.1) hfits.2 n

/-- A run throughout which a graph stays well formed has its numbers left. -/
theorem runFits_of_take {g : Graph} (h : g.Held) {edits : List Edit}
    (hsigned : Edit.RunSigned g edits)
    (hwf : ∀ n, (Edit.run g (edits.take n)).WellFormed) : Edit.RunFits g edits := by
  induction edits generalizing g with
  | nil =>
      trivial
  | cons edit rest ih =>
      have hstart : g.WellFormed := hwf 0
      have hnext : (edit.apply g).WellFormed := by
        simpa [Edit.run] using hwf 1
      refine ⟨fits_of_counters_nonneg hstart h hsigned.2.1 hnext.counters_nonneg, ?_⟩
      exact ih (h.apply hstart hsigned.1) hsigned.2.2 fun n => hwf (n + 1)

/--
Starting from the empty graph, a run of edits keeps the graph well formed as long as
the counters have the numbers that it draws; and where all numbers handed over are
signed 64-bit ones, it does so in no other run.
-/
theorem wellFormed_throughout (edits : List Edit) :
    (Edit.RunFits empty edits → ∀ n, (Edit.run empty (edits.take n)).WellFormed) ∧
    (Edit.RunSigned empty edits →
      (∀ n, (Edit.run empty (edits.take n)).WellFormed) → Edit.RunFits empty edits) := by
  have hheld : empty.Held := ⟨by decide, by decide⟩
  exact ⟨fun hfits => WellFormed.empty.take hfits, runFits_of_take hheld⟩

def textTemplate : NodeTemplate :=
  .ofValue 1 "String" "str" .string

def toolTemplate : NodeTemplate :=
  { key := ⟨1, 1⟩
    schemaName := "s"
    className := "Tool"
    isRoot := false
    valueKind := none
    outputs := [⟨"self", "Tool"⟩]
    inputs := [⟨"text", "str", "str", false, .single (some .string)⟩]
    width := NodeSize.schemaWidth
    height := NodeSize.leastHeight }

/--
Links a text, takes it away with its node, and loads a document that leaves the
number of the next node past the end.
-/
def exhaustingRun : List Edit :=
  [ .addNode textTemplate 0.0 0.0
  , .restoreNode toolTemplate 2
  , .connect 1 0 2 0
  , .removeNode 1
  , .load Registry.initial (.obj [("last_node_id", .int lastId), ("nodes", .arr [])])
  , .addNode textTemplate 0.0 0.0 ]

theorem wellFormed_throughout_exhaustingRun :
    (∀ n, (Edit.run empty ((exhaustingRun.take 5).take n)).WellFormed) ∧
    ¬ ∀ n, (Edit.run empty (exhaustingRun.take n)).WellFormed := by
  constructor
  · refine (wellFormed_throughout (exhaustingRun.take 5)).1 ?_
    refine ⟨⟨?_, ?_⟩, ⟨?_, ?_⟩, ⟨?_, ?_⟩, ⟨?_, ?_⟩, ⟨?_, ?_⟩, trivial⟩ <;> decide
  · intro hwf
    have hsigned : Edit.RunSigned empty exhaustingRun := by
      have hnumber : (2 : Int) ≤ lastId := by
        decide
      refine ⟨trivial, ⟨?_, ?_⟩, hnumber, ⟨?_, ?_⟩, trivial, ⟨?_, ?_⟩, trivial, ⟨?_, ?_⟩, trivial,
        ⟨?_, ?_⟩, trivial, ⟨?_, ?_⟩, trivial⟩ <;> decide
    obtain ⟨-, -, -, -, -, ⟨hpast, -⟩, -⟩ := (wellFormed_throughout exhaustingRun).2 hsigned hwf
    revert hpast
    decide

end Graph

end SlotGraph
