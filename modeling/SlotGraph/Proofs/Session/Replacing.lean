import SlotGraph.Proofs.Config.Shift
import SlotGraph.Proofs.Import.Additions
import SlotGraph.Proofs.Session.Alignment
import SlotGraph.Proofs.Session.Reload

/-!
# Imports that replace the graph

An import that replaces the graph depends on the schemas, the templates and the layout of a
session alone.  Of the graph that was there nothing but the counters is left, and they only
say from where the new numbers go on.
-/

namespace SlotGraph

theorem Import.Summary.shift_neg_shift (d : Int) (summary : Import.Summary) :
    (summary.shift d).shift (-d) = summary := by
  cases summary
  simp [shift, Function.comp_def]

theorem Graph.clear_beside (g h : Graph) : g.clear.beside h = h.shift g.past :=
  ext_fields (List.nil_append _) (List.nil_append _) rfl rfl

namespace Session

variable {s t : Session} {name : String} {schema : Schema} {members : List (String × Json)}

/-- Whether imports came to the same in two sessions, numbers counted from where they went on. -/
structure SameImports (name : String) (s t : Session)
    (done done' : Option Import.Summary × Session) : Prop where
  summaries : ∃ summary,
    done.1.map (Import.Summary.shift (-s.graph.lastNode)) = some summary ∧
      done'.1.map (Import.Summary.shift (-t.graph.lastNode)) = some summary
  issues : ∃ issues, done.2.issues = s.issues ++ issues ∧ done'.2.issues = t.issues ++ issues
  graphs : done.2.graph.shift (-s.graph.past) = done'.2.graph.shift (-t.graph.past)
  configs : ∃ config,
    (done.2.buildConfig name).1 = some config ∧ (done'.2.buildConfig name).1 = some config

/-- A registered name is not empty, so an import finds the schema of this name. -/
theorem Catalogued.importSchema?_eq (h : s.Catalogued)
    (hschema : s.findSchema? name = some schema) : s.importSchema? name = some schema := by
  obtain ⟨registered, hfind, -⟩ := Option.map_eq_some_iff.1 hschema
  have hname : registered.schema.name = name := by
    simpa using List.find?_some hfind
  have hnamed := (h.sized registered (List.mem_of_find?_eq_some hfind)).named.1
  rw [importSchema?, if_pos (hname ▸ hnamed), hschema]

/-- A replacing import does what one into the empty graph does, past the old counters. -/
theorem Sound.importConfig_replacing (h : s.Sound) (hschema : s.findSchema? name = some schema)
    (hfits : Edit.RunFits s.graph ((Call.importConfig (.obj members) name true).edits s)) :
    ∃ summary done,
      Import.run ⟨schema, s.registry, s.layout⟩ Graph.empty members = (summary, done) ∧
      s.importConfig (.obj members) name true =
        (some (summary.shift s.graph.lastNode),
          { s.report done.issues with graph := done.graph.shift s.graph.past }) := by
  have hfound := h.catalogued.importSchema?_eq hschema
  have hedits : (Call.importConfig (.obj members) name true).edits s =
      [.clear, .importConfig ⟨schema, s.registry, s.layout⟩ (.obj members)] := by
    simp only [Call.edits, hfound, if_true]
    rfl
  rw [hedits] at hfits
  obtain ⟨hrun, -⟩ := Import.run_beside h.wellFormed.clear ⟨schema, s.registry, s.layout⟩ members
    (Import.reaches_of_fits hfits.2.1)
  generalize Import.run ⟨schema, s.registry, s.layout⟩ Graph.empty members = result at hrun ⊢
  obtain ⟨summary, done⟩ := result
  refine ⟨summary, done, rfl, ?_⟩
  simp only [importConfig, hfound, if_true, hrun, Import.Progress.beside, Graph.clear_beside]
  rfl

/--
Two sessions that a host can reach, with the same schemas, templates and layout: an import
that replaces the graph comes to the same in both, whatever their graphs were.
-/
theorem importConfig_forgets (hs : s.Reachable) (ht : t.Reachable)
    (hschemas : t.schemas = s.schemas) (hregistry : t.registry = s.registry)
    (hlayout : t.layout = s.layout) (hname : name ∈ s.schemaNames)
    (hfits : Edit.RunFits s.graph ((Call.importConfig (.obj members) name true).edits s))
    (hfits' : Edit.RunFits t.graph ((Call.importConfig (.obj members) name true).edits t)) :
    SameImports name s t (s.importConfig (.obj members) name true)
      (t.importConfig (.obj members) name true) := by
  obtain ⟨registered, hregistered, rfl⟩ := List.mem_map.1 hname
  have hschema := hs.sound.catalogued.findSchema?_eq_some hregistered
  have hschema' : t.findSchema? registered.schema.name = some registered.schema := by
    rw [← hschema, findSchema?, findSchema?, hschemas]
  obtain ⟨summary, done, hdone, hresult⟩ := hs.sound.importConfig_replacing hschema hfits
  obtain ⟨summary', done', hdone', hresult'⟩ := ht.sound.importConfig_replacing hschema' hfits'
  -- Both go back to one import into the empty graph.
  rw [hregistry, hlayout, hdone] at hdone'
  obtain ⟨rfl, rfl⟩ := Prod.mk.inj hdone'
  rw [hresult, hresult']
  constructor
  · exact ⟨summary, by rw [Option.map_some, summary.shift_neg_shift],
      by rw [Option.map_some, summary.shift_neg_shift]⟩
  · exact ⟨done.issues, rfl, rfl⟩
  · exact (done.graph.shift_neg_shift _).trans (done.graph.shift_neg_shift _).symm
  · have hbuilt : ∀ {u : Session}, u.findSchema? registered.schema.name = some registered.schema →
        ∀ d issues, ({ u.report issues with graph := done.graph.shift d }.buildConfig
          registered.schema.name).1 = some (Build.ofGraph done.graph registered.schema).config := by
      intro u hu d issues
      have hfound : { u.report issues with graph := done.graph.shift d }.findSchema?
          registered.schema.name = some registered.schema :=
        hu
      rw [buildConfig_fst, hfound, Option.map_some, Build.config_shift]
    exact ⟨_, hbuilt hschema _ _, hbuilt hschema' _ _⟩

/-- Calls that register and remove no schema leave the schemas and the templates alone. -/
theorem catalogue_after (s : Session) (calls : List Call)
    (hcalls : ∀ call ∈ calls, call.registers = false) :
    (s.after calls).schemas = s.schemas ∧ (s.after calls).registry = s.registry := by
  induction calls generalizing s with
  | nil =>
      exact ⟨rfl, rfl⟩
  | cons call rest ih =>
      obtain ⟨hfirst, hrest⟩ := List.forall_mem_cons.1 hcalls
      obtain ⟨hschemas, -, hregistry⟩ := catalogue_apply s call hfirst
      obtain ⟨hschemas', hregistry'⟩ := ih (call.apply s) hrest
      exact ⟨hschemas'.trans hschemas, hregistry'.trans hregistry⟩

def toolboxSource : String :=
  "class Tool:\n  name: str\nclass Box:\n  tools: List[Tool]\n"

def freshBox : Session :=
  (Session.start ImportLayout.standard).after [.register "s" toolboxSource "" "Box"]

/-- A tool is put into a box and taken away again. -/
def usedCalls : List Call :=
  [ .createNode "s" "Tool" 10.0 0.5
  , .createNode "s" "Box" 400.0 0.5
  , .connect 1 0 2 0
  , .removeNode 1 ]

def toolboxMembers : List (String × Json) :=
  [("tools", .arr [.obj [("name", .str "saw")], .obj [("name", .str "file")]])]

theorem reachable_freshBox : freshBox.Reachable := by
  have hsource : toolboxSource.length < 2 ^ 64 := by
    decide +kernel
  exact (Reachable.start ImportLayout.standard).after ⟨⟨hsource, trivial⟩, trivial⟩

theorem reachable_usedBox : (freshBox.after usedCalls).Reachable := by
  refine reachable_freshBox.after
    ⟨⟨trivial, ?_⟩, ⟨trivial, ?_⟩, ⟨trivial, ?_⟩, ⟨trivial, ?_⟩, trivial⟩
  all_goals decide +kernel

theorem importConfig_forgets_usedBox :
    freshBox.Reachable ∧ (freshBox.after usedCalls).Reachable ∧
    freshBox.graph.nodes.map Node.id = [] ∧
    (freshBox.after usedCalls).graph.nodes.map Node.id = [2] ∧
    (freshBox.importConfig (.obj toolboxMembers) "s" true).1.map Import.Summary.root =
      some (some 3) ∧
    ((freshBox.after usedCalls).importConfig (.obj toolboxMembers) "s" true).1.map
      Import.Summary.root = some (some 5) ∧
    SameImports "s" freshBox (freshBox.after usedCalls)
      (freshBox.importConfig (.obj toolboxMembers) "s" true)
      ((freshBox.after usedCalls).importConfig (.obj toolboxMembers) "s" true) := by
  obtain ⟨hschemas, hregistry⟩ := catalogue_after freshBox usedCalls (by decide)
  refine ⟨reachable_freshBox, reachable_usedBox, by decide +kernel, by decide +kernel,
    by decide +kernel, by decide +kernel, ?_⟩
  have hlayout : (freshBox.after usedCalls).layout = freshBox.layout := by
    with_unfolding_all rfl
  exact importConfig_forgets reachable_freshBox reachable_usedBox hschemas hregistry hlayout
    (by decide +kernel) (by decide +kernel) (by decide +kernel)

end Session

end SlotGraph
