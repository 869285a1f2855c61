import SlotGraph.Proofs.Import.Beside
import SlotGraph.Proofs.Import.Indices

/-!
# What an import adds

An import only ever adds: the nodes and links that a graph had come first in it afterwards,
unchanged in all that they hold, and the new links run between the new nodes.  What was
added is what the summary of the import counts.
-/

namespace SlotGraph

namespace Import

variable {g : Graph} {setting : Setting} {document : List (String × Json)}

/--
A graph with some nodes and links added, as many as a summary of an import counts; the
new links run between new nodes.
-/
structure Adds (g g' : Graph) (summary : Summary) (added : List Node) (linked : List Link) :
    Prop where
  nodes : g'.nodes = g.nodes ++ added
  links : g'.links = g.links ++ linked
  within : ∀ link ∈ linked, ∃ origin ∈ added, ∃ target ∈ added,
    g'.findNode? link.origin = some origin ∧ g'.findNode? link.target = some target
  counted : added.length =
    summary.groupNodes + summary.embeddedNodes + summary.root.toList.length
  lastLink : g'.lastLink = g.lastLink + summary.links

theorem reaches_of_fits (hfits : (Edit.importConfig setting (.obj document)).Fits g) :
    Reaches g (run setting g document).2 := by
  obtain ⟨hnodes, hlinks⟩ := hfits
  have hmono := (steps_run setting g document).mono.1
  simp only [Edit.draws, Progress.start] at hnodes hlinks hmono
  exact ⟨by lia, hlinks⟩

/-- An import whose numbers the counters have leaves all that was there and adds the rest. -/
theorem exists_adds_run (hg : g.WellFormed)
    (hfits : (Edit.importConfig setting (.obj document)).Fits g) :
    ∃ added linked, Adds g (run setting g document).2.graph (run setting g document).1
      added linked := by
  obtain ⟨hrun, htallied⟩ := run_beside hg setting document (reaches_of_fits hfits)
  have hmade := htallied.wellFormed
  -- A node of the import is found under its number in the graph.
  have hfound : ∀ node ∈ (run setting Graph.empty document).2.graph.nodes,
      (run setting g document).2.graph.findNode? (node.id + g.lastNode) =
        some (node.shift g.past) := by
    intro node hnode
    rw [hrun, Progress.beside, hg.findNode?_beside _ (hmade.nodes_numbered node hnode).1,
      hmade.findNode?_eq hnode, Option.map_some]
  rw [hrun] at hfound ⊢
  refine ⟨_, _, rfl, rfl, fun link hlink => ?_, ?_, ?_⟩
  · obtain ⟨made, hmem, rfl⟩ := List.mem_map.1 hlink
    obtain ⟨origin, horigin, horiginId, -⟩ := hmade.count_output hmem
    obtain ⟨target, htarget, htargetId, -⟩ := hmade.count_input hmem
    refine ⟨_, List.mem_map_of_mem horigin, _, List.mem_map_of_mem htarget, ?_, ?_⟩
    · rw [Link.shift, ← horiginId]
      exact hfound origin horigin
    · rw [Link.shift, ← htargetId]
      exact hfound target htarget
  · rw [List.length_map, htallied.nodes, Summary.shift, Option.toList_map, List.length_map,
      Nat.add_right_comm]
    rfl
  · show (run setting Graph.empty document).2.graph.lastLink + g.lastLink = _
    rw [htallied.lastLink, Int.add_comm]
    rfl

def memberGraph : Graph :=
  Edit.run Graph.empty
    [ .addNode (.ofClass household 1 1 ⟨"Tool", [parentField, successorField]⟩) 0.0 0.0
    , .addNode (.ofClass household 1 1 ⟨"Tool", [parentField, successorField]⟩) 0.0 0.0
    , .connect 1 0 2 1 ]

theorem exists_adds_run_household :
    memberGraph.WellFormed ∧
    memberGraph.links.map Link.id = [1] ∧
    (Edit.importConfig householdSetting (.obj householdDocument)).Fits memberGraph ∧
    (run householdSetting memberGraph householdDocument).1.embeddedNodes = 1 ∧
    (run householdSetting memberGraph householdDocument).1.root = some 6 ∧
    ∃ added linked, Adds memberGraph
      (run householdSetting memberGraph householdDocument).2.graph
      (run householdSetting memberGraph householdDocument).1 added linked ∧
      added.length = 4 ∧
      linked.map (fun link => (link.origin, link.target)) = [(4, 3), (5, 4), (3, 6), (4, 6)] := by
  have hwf : memberGraph.WellFormed :=
    Graph.WellFormed.empty.run (by decide +kernel)
  have hfits : (Edit.importConfig householdSetting (.obj householdDocument)).Fits memberGraph := by
    decide +kernel
  obtain ⟨added, linked, hadds⟩ := exists_adds_run hwf hfits
  have hlinked : linked = (run householdSetting memberGraph householdDocument).2.graph.links.drop
      memberGraph.links.length := by
    rw [hadds.links, List.drop_left]
  refine ⟨hwf, by decide +kernel, hfits, by decide +kernel, by decide +kernel, added, linked,
    hadds, ?_, ?_⟩
  · rw [hadds.counted]
    decide +kernel
  · rw [hlinked]
    decide +kernel

end Import

end SlotGraph
