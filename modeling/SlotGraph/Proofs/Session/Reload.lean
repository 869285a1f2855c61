import SlotGraph.Proofs.Config.Entries
import SlotGraph.Proofs.Config.Order
import SlotGraph.Proofs.Session.Reachable

/-!
# Loading what a session saves

A session that loads the document of its own graph gets this graph back, with all nodes,
links and counters, and reports nothing.  What the document does not say is in which order
a slot that collects many had its links: it has them by number afterwards.
-/

namespace SlotGraph

namespace Session

variable {s : Session}

/-- A build gives the document of the named schema, if it is registered. -/
theorem buildConfig_fst (s : Session) (name : String) :
    (s.buildConfig name).1 =
      (s.findSchema? name).map fun schema => (Build.ofGraph s.graph schema).config := by
  rw [buildConfig]
  cases s.findSchema? name <;> rfl

/-- A session reads the document of its graph back, into any graph that is not ahead of it. -/
theorem Sound.loadGraph_document (h : s.Sound) {base : Graph}
    (hbase : base = s.graph ∨ base = Graph.empty) :
    ∃ g', { s with graph := base }.loadGraph s.graph.document =
        (true, { s with graph := g' }) ∧ s.graph.Reloads g' := by
  obtain ⟨hwf, hlastNode, hlastLink⟩ : base.WellFormed ∧
      base.lastNode ≤ s.graph.lastNode ∧ base.lastLink ≤ s.graph.lastLink := by
    rcases hbase with rfl | rfl
    · exact ⟨h.wellFormed, le_refl _, le_refl _⟩
    · exact ⟨.empty, h.wellFormed.counters_nonneg.1, h.wellFormed.counters_nonneg.2⟩
  obtain ⟨g', hload, hreloads⟩ := h.storable.load hwf hlastNode hlastLink
  refine ⟨g', ?_, hreloads⟩
  rw [loadGraph, hload]
  simp [report]

/--
Loading the document of its graph, whether into this graph or into an empty one, succeeds
in every session that a host can reach, and reports nothing.  The graph then has the
same nodes, apart from the order of the links in their slots, the same links and the same
counters, and its document is the one that was loaded.
-/
theorem load_save_of_reachable (h : s.Reachable) {base : Graph}
    (hbase : base = s.graph ∨ base = Graph.empty) :
    ∃ g', { s with graph := base }.loadGraph s.graph.document =
        (true, { s with graph := g' }) ∧
      g'.nodes.map Node.bare = s.graph.nodes.map Node.bare ∧ g'.links = s.graph.links ∧
      g'.lastNode = s.graph.lastNode ∧ g'.lastLink = s.graph.lastLink ∧
      g'.document = s.graph.document := by
  obtain ⟨g', hload, hreloads⟩ := h.sound.loadGraph_document hbase
  exact ⟨g', hload, hreloads.nodes, hreloads.links, hreloads.lastNode, hreloads.lastLink,
    Graph.document_congr hreloads.nodes hreloads.links hreloads.lastNode hreloads.lastLink⟩

def taskSource : String :=
  "class Tool:\n  name: str\nclass Task:\n  tools: List[Union[Tool, Index]]\n"

/--
Two tools, one of them named, and a task; links come back into the slot of the task, the
later one first.
-/
def taskCalls : List Call :=
  [ .register "s" taskSource "" ""
  , .createNode "s" "Tool" 10.0 0.5
  , .createNode "s" "Tool" 10.0 250.0
  , .createNode "s" "Task" 400.0 0.5
  , .editGraph (.setNative 2 0 (.str "b"))
  , .editGraph (.restoreLink ⟨2, 2, 0, 3, 0, "Tool", "k"⟩)
  , .editGraph (.restoreLink ⟨1, 1, 0, 3, 0, "Tool", ""⟩) ]

def taskSession : Session :=
  (Session.start ImportLayout.standard).after taskCalls

theorem reachable_taskSession : taskSession.Reachable := by
  have hsource : taskSource.length < 2 ^ 64 := by
    decide +kernel
  have hsigned : (2 : Int) ≤ Graph.lastId ∧ (1 : Int) ≤ Graph.lastId := by
    decide
  refine (Reachable.start ImportLayout.standard).after
    ⟨⟨hsource, trivial⟩, ⟨trivial, ?_⟩, ⟨trivial, ?_⟩, ⟨trivial, ?_⟩, ⟨⟨trivial, trivial⟩, ?_⟩,
      ⟨⟨trivial, hsigned.1⟩, ?_⟩, ⟨⟨trivial, hsigned.2⟩, ?_⟩, trivial⟩
  all_goals decide +kernel

theorem load_save_taskSession :
    taskSession.Reachable ∧
    taskSession.graph.nodes.map Node.id = [1, 2, 3] ∧
    taskSession.graph.links.map Link.id = [1, 2] ∧
    ∃ g', { taskSession with graph := Graph.empty }.loadGraph taskSession.graph.document =
        (true, { taskSession with graph := g' }) ∧
      g'.document = taskSession.graph.document := by
  obtain ⟨g', hload, -, -, -, -, hdocument⟩ :=
    load_save_of_reachable reachable_taskSession (.inr rfl)
  exact ⟨reachable_taskSession, by decide +kernel, by decide +kernel, g', hload, hdocument⟩

/--
In every session that a host can reach, loading the document of its graph succeeds and
leaves each slot with the links that it had, by number; every schema is then built as
from the graph whose slots were sorted.  So the slots hold the lists that they had exactly
when these were by number, and then all documents are built as before.
-/
theorem reload_sorts_of_reachable (h : s.Reachable) :
    ∃ g', s.loadGraph s.graph.document = (true, { s with graph := g' }) ∧
      g'.inRows =
        s.graph.inRows.map (fun row => (row.1, row.2.map fun ids => ids.insertionSort (· ≤ ·))) ∧
      (g'.inRows = s.graph.inRows ↔ s.graph.InOrder) ∧
      (∀ name, ({ s with graph := g' }.buildConfig name).1 =
        ({ s with graph := s.graph.byNumber }.buildConfig name).1) ∧
      (s.graph.InOrder → ∀ name,
        ({ s with graph := g' }.buildConfig name).1 = (s.buildConfig name).1) := by
  obtain ⟨g', hload, hreloads⟩ := h.sound.loadGraph_document (.inl rfl)
  have hwf := h.sound.wellFormed
  have hinward := hreloads.inward_eq hwf
  have hrows : g'.inRows = s.graph.byNumber.inRows := by
    rw [← Graph.inRows_inward, hinward, Graph.inRows_inward]
  have hbuild : ∀ schema, Build.ofGraph g' schema = Build.ofGraph s.graph.byNumber schema := by
    intro schema
    rw [← Build.ofGraph_inward, hinward, Build.ofGraph_inward]
  have hconfig : ∀ name, ({ s with graph := g' }.buildConfig name).1 =
      ({ s with graph := s.graph.byNumber }.buildConfig name).1 := by
    intro name
    rw [buildConfig_fst, buildConfig_fst]
    exact Option.map_congr fun schema _ => congrArg Build.config (hbuild schema)
  refine ⟨g', hload, hrows.trans (Graph.inRows_byNumber _), ?_, hconfig, fun horder name => ?_⟩
  · rw [hrows]
    exact hwf.inRows_byNumber_iff
  · rw [hconfig, Graph.byNumber_of_inOrder horder]

def listedTools (config : Json) : Option (List (Option Int)) :=
  ((config.entryAt? "tasks" 0).bind fun task => (task.get? "tools").bind Json.items?).map
    (List.map Json.int64?)

/-- The task lists its tools in another order once its session was reloaded. -/
theorem reload_sorts_taskSession :
    taskSession.Reachable ∧ ¬ taskSession.graph.InOrder ∧
    (taskSession.buildConfig "s").1.bind listedTools = some [some 1, some 0] ∧
    ∃ g', taskSession.loadGraph taskSession.graph.document =
        (true, { taskSession with graph := g' }) ∧
      g'.inRows ≠ taskSession.graph.inRows ∧
      ({ taskSession with graph := g' }.buildConfig "s").1.bind listedTools =
        some [some 0, some 1] := by
  have horder : ¬ taskSession.graph.InOrder := by
    decide +kernel
  obtain ⟨g', hload, -, hiff, hconfig, -⟩ := reload_sorts_of_reachable reachable_taskSession
  refine ⟨reachable_taskSession, horder, ?_, g', hload, fun hsame => horder (hiff.1 hsame), ?_⟩
  · decide +kernel
  · rw [hconfig]
    decide +kernel

end Session

end SlotGraph
