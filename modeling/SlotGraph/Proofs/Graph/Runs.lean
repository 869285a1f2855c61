import SlotGraph.Config.Build
import SlotGraph.Graph.Document
import SlotGraph.Proofs.Graph.Edits
import SlotGraph.Proofs.Import.Steps

/-!
# Runs of edits

Whatever a host does to a graph, edit after edit, the graph stays well formed: the
three records of a link never part, whether links are made, displaced, restored
from a document or dropped with a node.  The one thing that is asked of a run is
that it never draws a number from a counter that is at its end; a draw past the
end breaks the graph at once.
-/

namespace SlotGraph

inductive Edit where
  | addNode (template : NodeTemplate) (x y : Float)
  | removeNode (id : NodeId)
  | connect (origin : NodeId) (originSlot : Nat) (target : NodeId) (targetSlot : Nat)
  | removeLink (id : LinkId)
  | setKey (id : LinkId) (key : String)
  | clearInput (id : NodeId) (slot : Nat)
  | clearCollected (id : NodeId)
  | setNative (id : NodeId) (slot : Nat) (value : Json)
  | setProperty (id : NodeId) (value : Json)
  | clear
  | restoreNode (template : NodeTemplate) (id : NodeId)
  | restoreLink (link : Link)
  | raiseCounters (node : NodeId) (link : LinkId)
  | evaluate (id : NodeId)
  | build (schema : Schema)
  | importConfig (setting : Import.Setting) (document : Json)
  | load (registry : Registry) (document : Json)

namespace Edit

/-- The graph after an edit; an edit that fails changes nothing. -/
def apply (g : Graph) : Edit → Graph
  | .addNode template x y => (g.addNode template x y).2
  | .removeNode id => (g.removeNode? id).getD g
  | .connect origin originSlot target targetSlot =>
      match g.connect origin originSlot target targetSlot with
      | .ok (_, next) => next
      | .error _ => g
  | .removeLink id => (g.removeLink? id).getD g
  | .setKey id key => (g.setKey? id key).getD g
  | .clearInput id slot => (g.clearInput id slot).2
  | .clearCollected id => (g.clearCollected id).2
  | .setNative id slot value => (g.setNative? id slot value).getD g
  | .setProperty id value => (g.setProperty? id value).getD g
  | .clear => g.clear
  | .restoreNode template id => (g.restoreNode? (Node.ofTemplate template id)).getD g
  | .restoreLink link => (g.restoreLink? link).getD g
  | .raiseCounters node link => g.raiseCounters node link
  | .evaluate id => g.remember id
  | .build schema => (Build.ofGraph g schema).remembered g
  | .importConfig setting document =>
      match document with
      | .obj members => (Import.run setting g members).2.graph
      | _ => g
  | .load registry document => ((Graph.load? registry g document).map Prod.fst).getD g

/-- How many node numbers and how many link numbers an edit draws from the counters. -/
def draws (g : Graph) : Edit → Nat × Nat
  | .addNode .. => (1, 0)
  | .connect origin originSlot target targetSlot =>
      match g.connect origin originSlot target targetSlot with
      | .ok _ => (0, 1)
      | .error _ => (0, 0)
  | .importConfig setting (.obj members) =>
      let (summary, done) := Import.run setting g members
      (done.graph.nodes.length - g.nodes.length, summary.links)
  | _ => (0, 0)

/-- Whether the counters have the numbers that an edit draws. -/
def Fits (g : Graph) (edit : Edit) : Prop :=
  g.lastNode + (edit.draws g).1 ≤ Graph.lastId ∧ g.lastLink + (edit.draws g).2 ≤ Graph.lastId

def run (g : Graph) (edits : List Edit) : Graph :=
  edits.foldl apply g

def RunFits (g : Graph) : List Edit → Prop
  | [] => True
  | edit :: rest => edit.Fits g ∧ RunFits (edit.apply g) rest

instance (g : Graph) (edit : Edit) : Decidable (edit.Fits g) :=
  inferInstanceAs (Decidable (_ ∧ _))

instance decidableRunFits : (g : Graph) → (edits : List Edit) → Decidable (RunFits g edits)
  | _, [] => .isTrue trivial
  | g, edit :: rest =>
      have := decidableRunFits (edit.apply g) rest
      inferInstanceAs (Decidable (edit.Fits g ∧ RunFits (edit.apply g) rest))

end Edit

namespace Import

/-! ## Steps of an import -/

variable {setting : Setting} {p p' : Progress}

/-- Nodes and links made are never taken back from the count. -/
theorem Step.mono (h : Step setting p p') :
    p.graph.nodes.length ≤ p'.graph.nodes.length ∧ p.links ≤ p'.links := by
  cases h with
  | report issues =>
      exact ⟨Nat.le_refl _, Nat.le_refl _⟩
  | create className template x y hfind =>
      simp [Graph.addNode]
  | embed =>
      exact ⟨Nat.le_refl _, Nat.le_refl _⟩
  | link origin target slot key id graph hconnect =>
      have hlength := Graph.length_nodes_of_shapes (Graph.shapes_connect hconnect)
      rw [Graph.setKey?_getD]
      split <;> exact ⟨Nat.le_of_eq hlength.symm, Nat.le_succ _⟩
  | setNative id slot value graph hset =>
      have hlength := Graph.length_nodes_of_shapes (Graph.shapes_setNative hset)
      exact ⟨Nat.le_of_eq hlength.symm, Nat.le_refl _⟩

/-- A well-formed graph whose counters stand as far above those of `g` as an import got. -/
structure Counted (g : Graph) (p : Progress) : Prop where
  wellFormed : p.graph.WellFormed
  nodes : p.graph.lastNode + g.nodes.length = g.lastNode + p.graph.nodes.length
  links : p.graph.lastLink = g.lastLink + p.links

theorem Counted.step {g : Graph} (hp : Counted g p) (h : Step setting p p')
    (hnodes : g.lastNode + p'.graph.nodes.length ≤ Graph.lastId + g.nodes.length)
    (hlinks : g.lastLink + p'.links ≤ Graph.lastId) : Counted g p' := by
  obtain ⟨hwf, hcountNodes, hcountLinks⟩ := hp
  cases h with
  | report issues =>
      exact ⟨hwf, hcountNodes, hcountLinks⟩
  | embed =>
      exact ⟨hwf, hcountNodes, hcountLinks⟩
  | create className template x y hfind =>
      have hlength : (p.graph.addNode template x y).2.nodes.length =
          p.graph.nodes.length + 1 := by
        simp [Graph.addNode]
      have hroom : p.graph.lastNode < Graph.lastId := by
        rw [hlength] at hnodes
        lia
      have hlast : (p.graph.addNode template x y).2.lastNode = p.graph.lastNode + 1 :=
        Graph.nextId_eq hwf.counters_nonneg.1 hroom
      refine ⟨hwf.addNode hroom template x y, ?_, hcountLinks⟩
      rw [hlast, hlength]
      lia
  | link origin target slot key id graph hconnect =>
      have hroom : p.graph.lastLink < Graph.lastId := by
        simp only at hlinks
        lia
      have hlength := Graph.length_nodes_of_shapes (Graph.shapes_connect hconnect)
      obtain ⟨hlastNode, hlastLink⟩ := Graph.counters_connect hconnect
      rw [Graph.nextId_eq hwf.counters_nonneg.2 hroom] at hlastLink
      have hmade : Counted g { p with graph := graph, links := p.links + 1 } := by
        refine ⟨hwf.connect hroom hconnect, ?_, ?_⟩
        · rw [hlastNode, hlength]
          exact hcountNodes
        · rw [hlastLink]
          lia
      split
      · exact hmade
      · refine ⟨hmade.wellFormed.setKey_getD id key, ?_, ?_⟩
        · simpa [Graph.setKey?_getD] using hmade.nodes
        · simpa [Graph.setKey?_getD] using hmade.links
  | setNative id slot value graph hset =>
      have hlength := Graph.length_nodes_of_shapes (Graph.shapes_setNative hset)
      refine ⟨hwf.setNative hset, ?_, ?_⟩
      · rw [hlength, Graph.setNative?_eq_some hset]
        exact hcountNodes
      · rw [Graph.setNative?_eq_some hset]
        exact hcountLinks

theorem Steps.mono (h : Steps setting p p') :
    p.graph.nodes.length ≤ p'.graph.nodes.length ∧ p.links ≤ p'.links := by
  induction h with
  | refl =>
      exact ⟨Nat.le_refl _, Nat.le_refl _⟩
  | tail _ hstep ih =>
      exact ⟨Nat.le_trans ih.1 hstep.mono.1, Nat.le_trans ih.2 hstep.mono.2⟩

/-- Steps whose numbers the counters have keep the graph well formed and counted. -/
theorem Counted.steps {g : Graph} (hp : Counted g p) (h : Steps setting p p')
    (hnodes : g.lastNode + p'.graph.nodes.length ≤ Graph.lastId + g.nodes.length)
    (hlinks : g.lastLink + p'.links ≤ Graph.lastId) : Counted g p' := by
  induction h with
  | refl =>
      exact hp
  | tail _ hstep ih =>
      have hmono := hstep.mono
      exact (ih (by lia) (by lia)).step hstep hnodes hlinks

theorem Counted.start {g : Graph} (h : g.WellFormed) : Counted g (Progress.start g) :=
  ⟨h, rfl, (Int.add_zero _).symm⟩

end Import

namespace Graph

/-! ## Whole edits -/

theorem WellFormed.remembered {g : Graph} (h : g.WellFormed) (build : Build) :
    (build.remembered g).WellFormed := by
  unfold Build.remembered
  induction build.evaluated generalizing g with
  | nil =>
      exact h
  | cons id rest ih =>
      exact ih (h.remember id)

theorem loadNodes_induction {motive : Graph → Prop} {g : Graph} (h : motive g)
    {registry : Registry}
    (hstep : ∀ {g g' : Graph} {template : NodeTemplate} {source : Json}, motive g →
      templateOf? registry source = some template →
      g.restoreNode? (nodeOfDocument template source) = some g' → motive g')
    (sources : List Json) : motive (Graph.loadNodes registry g sources).1 := by
  induction sources generalizing g with
  | nil =>
      exact h
  | cons source rest ih =>
      rw [Graph.loadNodes]
      refine ih ?_
      unfold Graph.loadNode
      split
      · exact h
      · cases htemplate : templateOf? registry source with
        | none =>
            exact h
        | some template =>
            cases hrestore : g.restoreNode? (nodeOfDocument template source) with
            | none =>
                simpa [hrestore] using h
            | some next =>
                simpa [hrestore] using hstep h htemplate hrestore

theorem loadLinks_induction {motive : Graph → Prop} {g : Graph} (h : motive g)
    (hstep : ∀ {g g' : Graph} {source : Json}, motive g →
      g.restoreLink? (linkOfDocument source) = some g' → motive g')
    (sources : List Json) : motive (sources.foldl Graph.loadLink g) := by
  refine List.foldlRecOn sources _ h fun g h source _ => ?_
  unfold Graph.loadLink
  split
  · cases hrestore : g.restoreLink? (linkOfDocument source) with
    | none =>
        exact h
    | some next =>
        exact hstep h hrestore
  · exact h

theorem WellFormed.loadNodes {g : Graph} (h : g.WellFormed) (registry : Registry)
    (sources : List Json) : (Graph.loadNodes registry g sources).1.WellFormed :=
  loadNodes_induction h (fun hwf _ hrestore => hwf.restoreNode hrestore) sources

theorem WellFormed.loadLinks {g : Graph} (h : g.WellFormed) (sources : List Json) :
    (sources.foldl Graph.loadLink g).WellFormed :=
  loadLinks_induction h (fun hwf hrestore => hwf.restoreLink hrestore) sources

theorem WellFormed.load {g g' : Graph} (h : g.WellFormed) {registry : Registry}
    {source : Json} {issues : List Issue}
    (hload : Graph.load? registry g source = some (g', issues)) : g'.WellFormed := by
  obtain ⟨nodes, -, hpair⟩ := Option.map_eq_some_iff.1 hload
  obtain ⟨rfl, -⟩ := Prod.mk.inj hpair
  exact ((h.clear.loadNodes registry nodes).loadLinks _).raiseCounters _ _

theorem WellFormed.getD {g : Graph} (h : g.WellFormed) {result : Option Graph}
    (hresult : ∀ g', result = some g' → g'.WellFormed) : (result.getD g).WellFormed := by
  cases result with
  | none =>
      exact h
  | some g' =>
      exact hresult g' rfl

theorem WellFormed.apply {g : Graph} (h : g.WellFormed) {edit : Edit} (hfits : edit.Fits g) :
    (edit.apply g).WellFormed := by
  cases edit with
  | addNode template x y =>
      exact h.addNode (Int.lt_of_add_one_le hfits.1) template x y
  | removeNode id =>
      exact h.getD fun _ => h.removeNode
  | connect origin originSlot target targetSlot =>
      rw [Edit.apply]
      split
      · next id next hconnect =>
          refine h.connect ?_ hconnect
          have hroom := hfits.2
          rw [Edit.draws, hconnect] at hroom
          exact Int.lt_of_add_one_le hroom
      · exact h
  | removeLink id =>
      exact h.getD fun _ => h.removeLink
  | setKey id key =>
      exact h.getD fun _ => h.setKey
  | clearInput id slot =>
      exact h.clearInput id slot
  | clearCollected id =>
      exact h.clearCollected id
  | setNative id slot value =>
      exact h.getD fun _ => h.setNative
  | setProperty id value =>
      exact h.getD fun _ => h.setProperty
  | clear =>
      exact h.clear
  | restoreNode template id =>
      exact h.getD fun _ => h.restoreNode
  | restoreLink link =>
      exact h.getD fun _ => h.restoreLink
  | raiseCounters node link =>
      exact h.raiseCounters node link
  | evaluate id =>
      exact h.remember id
  | build schema =>
      exact h.remembered _
  | importConfig setting document =>
      cases document with
      | obj members =>
          obtain ⟨hnodes, hlinks⟩ := hfits
          have hsteps := Import.steps_run setting g members
          have hmono := hsteps.mono.1
          simp only [Edit.draws] at hnodes hlinks
          refine ((Import.Counted.start h).steps hsteps ?_ hlinks).wellFormed
          simp only [Import.Progress.start] at hmono
          lia
      | _ =>
          exact h
  | load registry document =>
      refine h.getD fun g' hresult => ?_
      obtain ⟨⟨next, issues⟩, hload, rfl⟩ := Option.map_eq_some_iff.1 hresult
      exact h.load hload

theorem WellFormed.run {g : Graph} (h : g.WellFormed) {edits : List Edit}
    (hfits : Edit.RunFits g edits) : (Edit.run g edits).WellFormed := by
  induction edits generalizing g with
  | nil =>
      exact h
  | cons edit rest ih =>
      exact ih (h.apply hfits.1) hfits.2

end Graph

end SlotGraph
