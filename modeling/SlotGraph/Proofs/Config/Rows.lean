import SlotGraph.Config.Build

/-!
# What a document is made from

Where a node is written, and what a link from it is written as, is settled without a look
at its slots.  Of its slots the document takes the members that are written of them and
nothing else, so graphs that agree in both, node by node, are built into one document.
-/

namespace SlotGraph

/-- The node without its slots. -/
def Node.face (node : Node) : Node :=
  { node with inputs := [], outputs := [] }

namespace Build

open SlotGraph.Graph

/-! ## Groups and links -/

section

variable {g g' : Graph} (schema : Schema)
  (h : g'.nodes.map Node.face = g.nodes.map Node.face)

include h

theorem faces_groupedNodes :
    (g'.groupedNodes schema).map Node.face = (g.groupedNodes schema).map Node.face := by
  have hkept := congrArg (List.filter fun node => belongsTo schema node && !node.isRoot) h
  rwa [List.filter_map, List.filter_map] at hkept

theorem faces_group (className : String) :
    (g'.group schema className).map Node.face = (g.group schema className).map Node.face := by
  have hkept := congrArg (List.filter fun node => node.className == className)
    (faces_groupedNodes schema h)
  rwa [List.filter_map, List.filter_map] at hkept

theorem groupOrder_congr : g'.groupOrder schema = g.groupOrder schema := by
  have hnames := congrArg (List.map Node.className) (faces_groupedNodes schema h)
  rw [List.map_map, List.map_map] at hnames
  exact congrArg List.eraseDups hnames

theorem groupIndex?_congr (id : NodeId) :
    g'.groupIndex? schema id = g.groupIndex? schema id := by
  have hfind := congrArg (List.find? fun node => node.id == id) (faces_groupedNodes schema h)
  rw [List.find?_map, List.find?_map] at hfind
  have hplace : ∀ className,
      (g'.group schema className).findIdx? (fun node => node.id == id) =
        (g.group schema className).findIdx? fun node => node.id == id := by
    intro className
    have hindex := congrArg (List.findIdx? fun node => node.id == id)
      (faces_group schema h className)
    rwa [List.findIdx?_map, List.findIdx?_map] at hindex
  have hbind := congrArg (Option.bind · fun node =>
    (g.group schema node.className).findIdx? fun other => other.id == id) hfind
  simp only [Option.bind_map] at hbind
  simp only [groupIndex?, hplace]
  exact hbind

theorem cell_congr (id : NodeId) :
    (g'.findNode? id).bind Node.cell = (g.findNode? id).bind Node.cell := by
  have hfind := congrArg (List.find? fun node => node.id == id) h
  rw [List.find?_map, List.find?_map] at hfind
  have hcell := congrArg (Option.bind · Node.cell) hfind
  simp only [Option.bind_map] at hcell
  exact hcell

theorem resolve_congr : resolve g' schema = resolve g schema := by
  funext id
  rw [resolve, resolve, groupIndex?_congr schema h, cell_congr h]

theorem writeMember_congr : writeMember g' schema = writeMember g schema := by
  funext value
  unfold writeMember
  rw [resolve_congr schema h]

end

/-! ## Rows -/

variable {g g' : Graph} {schema : Schema}

def row (g : Graph) (schema : Schema) (node : Node) : Node × List (String × Json) :=
  (node.face, writeMembers g schema (g.nodeValue node).members)

theorem faces_of_rows (h : g'.nodes.map (row g' schema) = g.nodes.map (row g schema)) :
    g'.nodes.map Node.face = g.nodes.map Node.face := by
  have hfaces := congrArg (List.map Prod.fst) h
  rwa [List.map_map, List.map_map] at hfaces

theorem groupMembers_congr (h : g'.nodes.map (row g' schema) = g.nodes.map (row g schema)) :
    groupMembers g' schema = groupMembers g schema := by
  rw [groupMembers, groupMembers, groupOrder_congr schema (faces_of_rows h)]
  refine List.map_congr_left fun className _ => ?_
  have hgrouped := congrArg (List.filter fun row => belongsTo schema row.1 && !row.1.isRoot) h
  rw [List.filter_map, List.filter_map] at hgrouped
  have hgroup := congrArg (List.filter fun row => row.1.className == className) hgrouped
  rw [List.filter_map, List.filter_map] at hgroup
  have hentries := congrArg (List.map fun row => Json.ofMembers row.2) hgroup
  rw [List.map_map, List.map_map] at hentries
  exact congrArg (fun entries => (schema.keyOfClass className,
    groupValue schema (schema.keyOfClass className) entries)) hentries

theorem writeMembers_rootValues (g : Graph) (schema : Schema) :
    writeMembers g schema (rootValues g schema) =
      ((g.rootNodes schema).map (row g schema)).head?.elim [] fun row =>
        row.2.filter fun member => !schema.isGroupKey member.1 := by
  rw [rootValues, List.head?_map]
  cases (g.rootNodes schema).head? with
  | none =>
      rfl
  | some root =>
      rw [Option.map_some, Option.elim_some, row, writeMembers, writeMembers, List.filter_map]
      rfl

theorem config_congr (h : g'.nodes.map (row g' schema) = g.nodes.map (row g schema)) :
    (ofGraph g' schema).config = (ofGraph g schema).config := by
  have hroots := congrArg (List.filter fun row => belongsTo schema row.1 && row.1.isRoot) h
  rw [List.filter_map, List.filter_map] at hroots
  have hroot : (g'.rootNodes schema).map (row g' schema) =
      (g.rootNodes schema).map (row g schema) := hroots
  rw [ofGraph, ofGraph, groupMembers_congr h, writeMembers_rootValues, writeMembers_rootValues,
    hroot]

end Build

end SlotGraph
