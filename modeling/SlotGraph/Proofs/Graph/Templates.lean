import SlotGraph.Proofs.Graph.NodeDocument

/-!
# Where the nodes of a graph come from

A host makes nodes from the templates of a registry.  No edit changes what a node took
over from its template, apart from the size that a document sets, so every node of a
graph goes back to a template of the registry, whatever the host does.
-/

namespace SlotGraph

namespace Node.MadeFrom

variable {template : NodeTemplate} {node : Node}

theorem modifyFeed {change : Feed → Feed} (hkeep : ∀ feed, (change feed).intake = feed.intake)
    (h : node.MadeFrom template) (slot : Nat) :
    (node.modifyFeed slot change).MadeFrom template where
  shape := (shape_modifyFeed hkeep node slot).trans h.shape
  title := h.title

theorem modifyOutput (h : node.MadeFrom template) (slot : Nat)
    (change : List LinkId → List LinkId) :
    (node.modifyOutput slot change).MadeFrom template where
  shape := (node.shape_modifyOutput slot change).trans h.shape
  title := h.title

theorem remember (h : node.MadeFrom template) (value : NodeValue) :
    (node.remember value).MadeFrom template where
  shape := (node.shape_remember value).trans h.shape
  title := h.title

theorem setProperty (h : node.MadeFrom template) (value : Json) :
    Node.MadeFrom template { node with
      cell := node.cell.map fun cell => { cell with value := value } } where
  shape := by
    rw [← h.shape]
    simp [Node.shape, Function.comp_def]
  title := h.title

theorem unlinked (h : node.MadeFrom template) : node.unlinked.MadeFrom template where
  shape := node.shape_unlinked.trans h.shape
  title := h.title

theorem place (h : node.MadeFrom template) (x y width height : Float) :
    Node.MadeFrom template
      { node with x := x, y := y, width := width, height := height } where
  shape := by
    have hshape := congrArg
      (fun shape => ({ shape with width := width, height := height } : NodeTemplate)) h.shape
    exact hshape
  title := h.title

/-- A node that a document sets up from its template goes back to this template. -/
theorem nodeOfDocument (template : NodeTemplate) (source : Json) :
    (Graph.nodeOfDocument template source).MadeFrom template := by
  have hplaced : (Graph.applyPlacement (Node.ofTemplate template (source.int64At "id"))
      source).MadeFrom template := by
    have hfresh := ofTemplate template (source.int64At "id")
    unfold Graph.applyPlacement
    split <;> split <;> first | exact hfresh | exact hfresh.place _ _ _ _
  have hfilled : ∀ (entries : List (String × Json)) {node : Node}, node.MadeFrom template →
      (Graph.applyNatives node entries).MadeFrom template := by
    intro entries node hmade
    refine List.foldlRecOn entries _ (motive := fun node : Node => node.MadeFrom template) hmade ?_
    intro node hmade entry _
    dsimp only
    split
    · exact hmade.modifyFeed (Feed.intake_setNative _) _
    · exact hmade
  unfold Graph.nodeOfDocument Graph.applyProperty
  dsimp only
  split
  · exact (hfilled _ hplaced).setProperty _
  · exact hfilled _ hplaced

end Node.MadeFrom

/-- Whether an edit makes nodes from the templates of a registry only. -/
def Edit.Uses (registry : Registry) : Edit → Prop
  | .addNode template _ _ => template ∈ registry.templates
  | .restoreNode template _ => template ∈ registry.templates
  | .importConfig setting _ => setting.registry = registry
  | .load other _ => other = registry
  | _ => True

namespace Graph

def BuiltFrom (registry : Registry) (g : Graph) : Prop :=
  ∀ node ∈ g.nodes, ∃ template ∈ registry.templates, node.MadeFrom template

variable {registry : Registry} {g g' : Graph}

theorem mem_of_templateOf? {source : Json} (h : templateOf? registry source = some template) :
    template ∈ registry.templates := by
  rw [templateOf?, Option.orElse_eq_some] at h
  rcases h with hclass | ⟨-, htitle⟩
  · split at hclass
    · exact List.mem_of_find?_eq_some hclass
    · simp at hclass
  · exact List.mem_of_find?_eq_some htitle

namespace BuiltFrom

theorem of_subset (h : g.BuiltFrom registry) (hnodes : ∀ node ∈ g'.nodes, node ∈ g.nodes) :
    g'.BuiltFrom registry :=
  fun node hnode => h node (hnodes node hnode)

theorem mono (h : g.BuiltFrom registry) {larger : Registry}
    (hlarger : ∀ template ∈ registry.templates, template ∈ larger.templates) :
    g.BuiltFrom larger := by
  intro node hnode
  obtain ⟨template, htemplate, hmade⟩ := h node hnode
  exact ⟨template, hlarger template htemplate, hmade⟩

theorem append (h : g.BuiltFrom registry) {template : NodeTemplate} {node : Node}
    (htemplate : template ∈ registry.templates) (hmade : node.MadeFrom template)
    (hnodes : g'.nodes = g.nodes ++ [node]) : g'.BuiltFrom registry := by
  intro other hother
  rw [hnodes] at hother
  rcases List.mem_append.1 hother with hold | hnew
  · exact h other hold
  · exact ⟨template, htemplate, List.mem_singleton.1 hnew ▸ hmade⟩

theorem modifyNode (h : g.BuiltFrom registry) {id : NodeId} {change : Node → Node}
    (hchange : ∀ node template, node.MadeFrom template → (change node).MadeFrom template) :
    (g.modifyNode id change).BuiltFrom registry := by
  intro node hnode
  obtain ⟨old, hold, rfl⟩ := List.mem_map.1 hnode
  obtain ⟨template, htemplate, hmade⟩ := h old hold
  refine ⟨template, htemplate, ?_⟩
  split
  · exact hchange old template hmade
  · exact hmade

theorem attach (h : g.BuiltFrom registry) (link : Link) :
    (g.attach link).BuiltFrom registry := by
  have hlisted : { g with links := insertLink link g.links }.BuiltFrom registry := h
  exact (hlisted.modifyNode fun _ _ hmade => hmade.modifyOutput _ _).modifyNode
    fun _ _ hmade => hmade.modifyFeed (Feed.intake_attach link.id) _

theorem detach (h : g.BuiltFrom registry) (link : Link) :
    (g.detach link).BuiltFrom registry := by
  have hstruck : { g with
      links := g.links.filter fun other => other.id != link.id }.BuiltFrom registry := h
  exact (hstruck.modifyNode fun _ _ hmade => hmade.modifyOutput _ _).modifyNode
    fun _ _ hmade => hmade.modifyFeed (Feed.intake_detach link.id) _

theorem dropLinks (h : g.BuiltFrom registry) (ids : List LinkId) :
    (g.dropLinks ids).BuiltFrom registry := by
  induction ids generalizing g with
  | nil =>
      exact h
  | cons id rest ih =>
      refine ih ?_
      unfold Graph.dropLink
      split
      · exact h.detach _
      · exact h

theorem removeLink (h : g.BuiltFrom registry) {id : LinkId}
    (hremove : g.removeLink? id = some g') : g'.BuiltFrom registry := by
  simp only [removeLink?, disconnect?, Option.map_map, Option.map_eq_some_iff,
    Function.comp] at hremove
  obtain ⟨link, -, rfl⟩ := hremove
  exact h.detach link

theorem clearLinks (h : g.BuiltFrom registry) (ids : List LinkId) :
    (g.clearLinks ids).2.BuiltFrom registry :=
  clearLinks_induction h (fun hbuilt hremove => hbuilt.removeLink hremove) ids

theorem removeNode (h : g.BuiltFrom registry) {id : NodeId}
    (hremove : g.removeNode? id = some g') : g'.BuiltFrom registry := by
  unfold removeNode? at hremove
  split at hremove
  · simp at hremove
  · cases hremove
    exact (h.dropLinks (g.linksOf id)).of_subset fun node => List.mem_of_mem_eraseP

theorem addNode (h : g.BuiltFrom registry) {template : NodeTemplate}
    (htemplate : template ∈ registry.templates) (x y : Float) :
    (g.addNode template x y).2.BuiltFrom registry :=
  h.append htemplate ((Node.MadeFrom.ofTemplate template _).place x y _ _) rfl

theorem connect (h : g.BuiltFrom registry) {o t : NodeId} {os ts : Nat} {id : LinkId}
    (hconnect : g.connect o os t ts = .ok (id, g')) : g'.BuiltFrom registry := by
  obtain ⟨_, _, output, input, -, -, -, -, -, -, rfl⟩ := connect_eq_ok_iff.1 hconnect
  have hcounted : { g.dropLinks (displaced input) with lastLink := id }.BuiltFrom registry :=
    h.dropLinks (displaced input)
  exact hcounted.attach _

theorem setNative (h : g.BuiltFrom registry) {id : NodeId} {slot : Nat} {value : Json}
    (hset : g.setNative? id slot value = some g') : g'.BuiltFrom registry := by
  rw [setNative?_eq_some hset]
  exact h.modifyNode fun _ _ hmade => hmade.modifyFeed (Feed.intake_setNative value) slot

theorem setProperty (h : g.BuiltFrom registry) {id : NodeId} {value : Json}
    (hset : g.setProperty? id value = some g') : g'.BuiltFrom registry := by
  unfold setProperty? at hset
  split at hset
  · cases hset
    exact h.modifyNode fun _ _ hmade => hmade.setProperty value
  · simp at hset

theorem restoreNode (h : g.BuiltFrom registry) {template : NodeTemplate} {node : Node}
    (htemplate : template ∈ registry.templates) (hmade : node.MadeFrom template)
    (hrestore : g.restoreNode? node = some g') : g'.BuiltFrom registry := by
  unfold restoreNode? at hrestore
  split at hrestore
  · simp at hrestore
  · cases hrestore
    exact h.append htemplate hmade.unlinked rfl

theorem restoreLink (h : g.BuiltFrom registry) {link : Link}
    (hrestore : g.restoreLink? link = some g') : g'.BuiltFrom registry := by
  unfold restoreLink? at hrestore
  split at hrestore
  · simp at hrestore
  · obtain ⟨input, -, rfl⟩ := Option.map_eq_some_iff.1 hrestore
    exact (h.dropLinks (displaced input)).attach link

theorem remember (h : g.BuiltFrom registry) (id : NodeId) :
    (g.remember id).BuiltFrom registry := by
  unfold Graph.remember
  split
  · exact h.modifyNode fun _ _ hmade => hmade.remember _
  · exact h

theorem remembered (h : g.BuiltFrom registry) (build : Build) :
    (build.remembered g).BuiltFrom registry := by
  unfold Build.remembered
  induction build.evaluated generalizing g with
  | nil =>
      exact h
  | cons id rest ih =>
      exact ih (h.remember id)

/-- A result that keeps the nodes built from the registry, or none. -/
theorem getD (h : g.BuiltFrom registry) {result : Option Graph}
    (hresult : ∀ g', result = some g' → g'.BuiltFrom registry) :
    (result.getD g).BuiltFrom registry := by
  cases result with
  | none =>
      exact h
  | some g' =>
      exact hresult g' rfl

/-! ## Imports and documents -/

theorem step {setting : Import.Setting} {p p' : Import.Progress}
    (h : p.graph.BuiltFrom setting.registry) (hstep : Import.Step setting p p') :
    p'.graph.BuiltFrom setting.registry := by
  cases hstep with
  | report issues =>
      exact h
  | embed =>
      exact h
  | create className template x y hfind =>
      exact h.addNode (List.mem_of_find?_eq_some hfind) x y
  | link origin target slot key id graph hconnect =>
      have hmade : graph.BuiltFrom setting.registry := h.connect hconnect
      rw [setKey?_getD]
      split <;> exact hmade
  | setNative id slot value graph hset =>
      exact h.setNative hset

theorem steps {setting : Import.Setting} {p p' : Import.Progress}
    (h : p.graph.BuiltFrom setting.registry) (hsteps : Import.Steps setting p p') :
    p'.graph.BuiltFrom setting.registry := by
  induction hsteps with
  | refl =>
      exact h
  | tail _ hstep ih =>
      exact ih.step hstep

theorem loadNodes (h : g.BuiltFrom registry) (sources : List Json) :
    (Graph.loadNodes registry g sources).1.BuiltFrom registry :=
  loadNodes_induction h
    (fun hbuilt htemplate => hbuilt.restoreNode (mem_of_templateOf? htemplate)
      (.nodeOfDocument _ _)) sources

theorem loadLinks (h : g.BuiltFrom registry) (sources : List Json) :
    (sources.foldl Graph.loadLink g).BuiltFrom registry :=
  loadLinks_induction h (fun hbuilt hrestore => hbuilt.restoreLink hrestore) sources

theorem load (h : g.BuiltFrom registry) {source : Json} {issues : List Issue}
    (hload : Graph.load? registry g source = some (g', issues)) : g'.BuiltFrom registry := by
  obtain ⟨nodes, -, hpair⟩ := Option.map_eq_some_iff.1 hload
  obtain ⟨rfl, -⟩ := Prod.mk.inj hpair
  have hclear : g.clear.BuiltFrom registry := h.of_subset fun _ hnode =>
    absurd hnode List.not_mem_nil
  exact (hclear.loadNodes nodes).loadLinks _

/-! ## Whole edits -/

theorem apply (h : g.BuiltFrom registry) {edit : Edit} (huses : edit.Uses registry) :
    (edit.apply g).BuiltFrom registry := by
  cases edit with
  | addNode template x y =>
      exact h.addNode huses x y
  | removeNode id =>
      exact h.getD fun _ => h.removeNode
  | connect origin originSlot target targetSlot =>
      rw [Edit.apply]
      split
      · next id next hconnect =>
          exact h.connect hconnect
      · exact h
  | removeLink id =>
      exact h.getD fun _ => h.removeLink
  | setKey id key =>
      rw [Edit.apply, setKey?_getD]
      exact h
  | clearInput id slot =>
      rw [Edit.apply, Graph.clearInput]
      split
      · exact h.clearLinks _
      · exact h
  | clearCollected id =>
      rw [Edit.apply, Graph.clearCollected]
      split
      · exact h.clearLinks _
      · exact h
  | setNative id slot value =>
      exact h.getD fun _ => h.setNative
  | setProperty id value =>
      exact h.getD fun _ => h.setProperty
  | clear =>
      exact h.of_subset fun _ hnode => absurd hnode List.not_mem_nil
  | restoreNode template id =>
      exact h.getD fun _ => h.restoreNode huses (.ofTemplate template id)
  | restoreLink link =>
      exact h.getD fun _ => h.restoreLink
  | raiseCounters node link =>
      exact h
  | evaluate id =>
      exact h.remember id
  | build schema =>
      exact h.remembered _
  | importConfig setting document =>
      obtain rfl : setting.registry = registry := huses
      cases document with
      | obj members =>
          exact BuiltFrom.steps (p := Import.Progress.start g) h
            (Import.steps_run setting g members)
      | _ =>
          exact h
  | load other document =>
      obtain rfl : other = registry := huses
      refine h.getD fun g' hresult => ?_
      obtain ⟨⟨next, issues⟩, hload, rfl⟩ := Option.map_eq_some_iff.1 hresult
      exact h.load hload

theorem run (h : g.BuiltFrom registry) {edits : List Edit}
    (huses : ∀ edit ∈ edits, edit.Uses registry) : (Edit.run g edits).BuiltFrom registry := by
  induction edits generalizing g with
  | nil =>
      exact h
  | cons edit rest ih =>
      exact ih (h.apply (huses edit List.mem_cons_self)) fun other hother =>
        huses other (List.mem_cons_of_mem edit hother)

end BuiltFrom

end Graph

end SlotGraph
