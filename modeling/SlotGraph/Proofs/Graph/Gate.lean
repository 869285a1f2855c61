import SlotGraph.Proofs.Graph.Connecting
import SlotGraph.Proofs.Graph.Templates

/-!
# Where links pass the type gate

A link passes the gate where its type is that of the output slot it leaves and fits the input
slot it enters.  Connecting compares the types, and no edit changes those of a slot.  So the
links that do not pass are among those that a host brings back under their own numbers, one by
one or with a document: these are let in unchecked.
-/

namespace SlotGraph

/-- The link without its key, which the gate does not look at. -/
def Link.unkeyed (link : Link) : Link :=
  { link with key := "" }

def Graph.documentLinks (source : Json) : List Link :=
  (((source.get? "links").bind Json.items?).getD []).map Graph.linkOfDocument

/-- The links that an edit is handed to bring them back as they are. -/
def Edit.brings : Edit → List Link
  | .restoreLink link => [link]
  | .load _ source => Graph.documentLinks source
  | _ => []

namespace Graph

/-- Whether a link has the type of the slot that it leaves and fits the one that it enters. -/
def passes (g : Graph) (link : Link) : Bool :=
  match g.outputAt? link.origin link.originSlot, g.inputAt? link.target link.targetSlot with
  | some output, some input =>
      link.type == output.type && TypeExpr.textFits output.type input.linkType
  | _, _ => false

/--
Whether the links of the second graph that do not pass there were brought, or did not pass in
the first graph either; a link may have got another key.
-/
def Gated (brought : List Link) (g g' : Graph) : Prop :=
  ∀ link ∈ g'.links, g'.passes link = false →
    (∃ old ∈ brought, old.unkeyed = link.unkeyed) ∨
      ∃ old ∈ g.links, old.unkeyed = link.unkeyed ∧ g.passes old = false

variable {g g' g'' : Graph} {link link' : Link} {brought brought' : List Link}

/-! ## What the gate looks at -/

theorem map_spec_outputAt? (g : Graph) (id : NodeId) (slot : Nat) :
    (g.outputAt? id slot).map OutputSlot.spec = (g.shape? id).bind (·.outputs[slot]?) := by
  cases hfind : g.findNode? id with
  | none =>
      rw [outputAt?, shape?, hfind]
      rfl
  | some node =>
      rw [outputAt?, shape?_outputs hfind, hfind, Option.bind_some]

theorem map_spec_inputAt? (g : Graph) (id : NodeId) (slot : Nat) :
    (g.inputAt? id slot).map InputSlot.spec = (g.shape? id).bind (·.inputs[slot]?) := by
  cases hfind : g.findNode? id with
  | none =>
      rw [inputAt?, shape?, hfind]
      rfl
  | some node =>
      rw [inputAt?, shape?_inputs hfind, hfind, Option.bind_some]

theorem passes_iff : g.passes link = true ↔
    ∃ output input, (g.shape? link.origin).bind (·.outputs[link.originSlot]?) = some output ∧
      (g.shape? link.target).bind (·.inputs[link.targetSlot]?) = some input ∧
      link.type = output.type ∧ TypeExpr.textFits output.type input.linkType = true := by
  rw [← map_spec_outputAt?, ← map_spec_inputAt?, passes]
  cases g.outputAt? link.origin link.originSlot with
  | none =>
      simp
  | some output =>
      cases g.inputAt? link.target link.targetSlot with
      | none =>
          simp
      | some input =>
          simp [OutputSlot.spec, InputSlot.spec]

/-- A link that passes goes on passing while the shapes of its two nodes stay. -/
theorem passes_mono (hpasses : g.passes link = true)
    (horigin : ∀ template, g.shape? link.origin = some template →
      g'.shape? link.origin = some template)
    (htarget : ∀ template, g.shape? link.target = some template →
      g'.shape? link.target = some template) : g'.passes link = true := by
  obtain ⟨output, input, houtput, hinput, hfits⟩ := passes_iff.1 hpasses
  obtain ⟨origin, hfindOrigin, houtput⟩ := Option.bind_eq_some_iff.1 houtput
  obtain ⟨target, hfindTarget, hinput⟩ := Option.bind_eq_some_iff.1 hinput
  refine passes_iff.2 ⟨output, input, ?_, ?_, hfits⟩
  · rw [horigin origin hfindOrigin, Option.bind_some, houtput]
  · rw [htarget target hfindTarget, Option.bind_some, hinput]

theorem passes_unkeyed (g : Graph) (link : Link) : g.passes link.unkeyed = g.passes link :=
  rfl

/-! ## One edit after the other -/

namespace Gated

theorem refl (g : Graph) : Gated [] g g :=
  fun link hlink hfails => .inr ⟨link, hlink, rfl, hfails⟩

theorem trans (h : Gated brought g g') (h' : Gated brought' g' g'') :
    Gated (brought ++ brought') g g'' := by
  intro link hlink hfails
  rcases h' link hlink hfails with ⟨old, hold, hsame⟩ | ⟨middle, hmiddle, hsame, hmiddleFails⟩
  · exact .inl ⟨old, List.mem_append_right _ hold, hsame⟩
  · rcases h middle hmiddle hmiddleFails with ⟨old, hold, hearlier⟩ | ⟨old, hold, hearlier, hearly⟩
    · exact .inl ⟨old, List.mem_append_left _ hold, hearlier.trans hsame⟩
    · exact .inr ⟨old, hold, hearlier.trans hsame, hearly⟩

theorem mono (h : Gated brought g g') (hmore : ∀ link ∈ brought, link ∈ brought') :
    Gated brought' g g' := by
  intro link hlink hfails
  exact (h link hlink hfails).imp_left fun ⟨old, hold, hsame⟩ => ⟨old, hmore old hold, hsame⟩

/-- Links that keep on passing if they did, and new ones that were brought or pass. -/
theorem of_links (hpasses : ∀ link ∈ g'.links, g.passes link = true → g'.passes link = true)
    (hlinks : ∀ link ∈ g'.links, g'.passes link = true ∨
      (∃ old ∈ brought, old.unkeyed = link.unkeyed) ∨
        ∃ old ∈ g.links, old.unkeyed = link.unkeyed) :
    Gated brought g g' := by
  intro link hlink hfails
  rcases hlinks link hlink with hnew | hbrought | ⟨old, hold, hsame⟩
  · exact absurd hnew (by simp [hfails])
  · exact .inl hbrought
  · refine .inr ⟨old, hold, hsame, Bool.eq_false_iff.2 fun hearlier => ?_⟩
    rw [← passes_unkeyed, hsame, passes_unkeyed] at hearlier
    simp [hpasses link hlink hearlier] at hfails

theorem of_shapes (hshapes : g'.shapes = g.shapes)
    (hlinks : ∀ link ∈ g'.links, g'.passes link = true ∨
      (∃ old ∈ brought, old.unkeyed = link.unkeyed) ∨
        ∃ old ∈ g.links, old.unkeyed = link.unkeyed) : Gated brought g g' :=
  of_links (fun link _ hearlier => passes_mono hearlier
    (fun _ => (shape?_congr hshapes link.origin).trans)
    fun _ => (shape?_congr hshapes link.target).trans) hlinks

theorem of_subset (hshapes : g'.shapes = g.shapes) (hlinks : ∀ link ∈ g'.links, link ∈ g.links) :
    Gated [] g g' :=
  of_shapes hshapes fun link hlink => .inr (.inr ⟨link, hlinks link hlink, rfl⟩)

/-- A node that joins changes nothing for the links that pass. -/
theorem of_append {added : List (NodeId × NodeTemplate)} (hshapes : g'.shapes = g.shapes ++ added)
    (hlinks : g'.links = g.links) : Gated [] g g' := by
  have hkeeps : ∀ id template, g.shape? id = some template → g'.shape? id = some template :=
    fun id template hshape => ((knows_of_shape? hshape).shape?_append hshapes).trans hshape
  exact of_links (fun link _ hearlier => passes_mono hearlier (hkeeps link.origin)
    (hkeeps link.target)) fun link hlink => .inr (.inr ⟨link, hlinks ▸ hlink, rfl⟩)

/-! ## Single edits -/

theorem dropLinks (g : Graph) (ids : List LinkId) : Gated [] g (g.dropLinks ids) :=
  of_subset (g.shapes_dropLinks ids) fun _ hlink => (mem_links_dropLinks.1 hlink).1

theorem removeLink {id : LinkId} (hremove : g.removeLink? id = some g') : Gated [] g g' := by
  simp only [removeLink?, disconnect?, Option.map_map, Option.map_eq_some_iff,
    Function.comp] at hremove
  obtain ⟨link, -, rfl⟩ := hremove
  exact of_subset (g.shapes_detach link) fun _ hlink => (List.mem_filter.1 hlink).1

theorem clearLinks (g : Graph) (ids : List LinkId) : Gated [] g (g.clearLinks ids).2 := by
  rw [snd_clearLinks]
  exact dropLinks g ids

theorem find?_eraseP {id other : NodeId} (hother : other ≠ id) (nodes : List Node) :
    (nodes.eraseP fun node => node.id == id).find? (fun node => node.id == other) =
      nodes.find? fun node => node.id == other := by
  induction nodes with
  | nil =>
      rfl
  | cons first rest ih =>
      by_cases hfirst : first.id = id
      · simp [hfirst, hother.symm]
      · rw [List.eraseP_cons_of_neg (by simpa using hfirst), List.find?_cons, List.find?_cons, ih]

theorem removeNode {id : NodeId} (hremove : g.removeNode? id = some g') : Gated [] g g' := by
  unfold removeNode? at hremove
  split at hremove
  · simp at hremove
  · cases hremove
    refine (dropLinks g (g.linksOf id)).trans (of_links (fun link hlink hearlier => ?_)
      fun link hlink => .inr (.inr ⟨link, hlink, rfl⟩))
    -- No link that is left touches the node.
    obtain ⟨hmem, hnot⟩ := mem_links_dropLinks.1 hlink
    have horigin : link.origin ≠ id := fun hend =>
      hnot (mem_linksOf.2 ⟨link, hmem, rfl, .inl hend⟩)
    have htarget : link.target ≠ id := fun hend =>
      hnot (mem_linksOf.2 ⟨link, hmem, rfl, .inr hend⟩)
    refine passes_mono hearlier (fun template hshape => ?_) fun template hshape => ?_
    · rwa [shape?, findNode?, find?_eraseP horigin]
    · rwa [shape?, findNode?, find?_eraseP htarget]

theorem addNode (g : Graph) (template : NodeTemplate) (x y : Float) :
    Gated [] g (g.addNode template x y).2 :=
  of_append (List.map_append ..) rfl

theorem restoreNode {node : Node} (hrestore : g.restoreNode? node = some g') : Gated [] g g' := by
  unfold restoreNode? at hrestore
  split at hrestore
  · simp at hrestore
  · cases hrestore
    exact of_append (List.map_append ..) rfl

theorem clear (g : Graph) : Gated [] g g.clear :=
  fun _ hlink _ => absurd hlink List.not_mem_nil

theorem raiseCounters (g : Graph) (node : NodeId) (link : LinkId) :
    Gated [] g (g.raiseCounters node link) :=
  of_subset rfl fun _ hlink => hlink

theorem eq_or_mem_of_mem_insertLink {other : Link} {links : List Link}
    (h : other ∈ insertLink link links) : other = link ∨ other ∈ links := by
  induction links with
  | nil =>
      exact .inl (List.mem_singleton.1 h)
  | cons first rest ih =>
      rw [insertLink] at h
      split at h
      · exact List.mem_cons.1 h
      · split at h
        · exact (List.mem_cons.1 h).imp_right (List.mem_cons_of_mem first)
        · rcases List.mem_cons.1 h with rfl | hrest
          · exact .inr List.mem_cons_self
          · exact (ih hrest).imp_right (List.mem_cons_of_mem first)

/-- A link that is made has the type of its output and was compared. -/
theorem connect {o t : NodeId} {os ts : Nat} {id : LinkId}
    (hconnect : g.connect o os t ts = .ok (id, g')) : Gated [] g g' := by
  have hshapes := shapes_connect hconnect
  obtain ⟨origin, target, output, input, horigin, htarget, houtput, hinput, hfits, -, rfl⟩ :=
    connect_eq_ok_iff.1 hconnect
  refine of_shapes hshapes fun link hlink => ?_
  rcases eq_or_mem_of_mem_insertLink hlink with rfl | hold
  · refine .inl (passes_iff.2 ⟨output.spec, input.spec, ?_, ?_, rfl, hfits⟩)
    · rw [shape?_congr hshapes, shape?_outputs horigin, houtput]
      rfl
    · rw [shape?_congr hshapes, shape?_inputs htarget, hinput]
      rfl
  · exact .inr (.inr ⟨link, (mem_links_dropLinks.1 hold).1, rfl⟩)

theorem restoreLink (hrestore : g.restoreLink? link = some g') : Gated [link] g g' := by
  unfold restoreLink? at hrestore
  split at hrestore
  · simp at hrestore
  · obtain ⟨input, -, rfl⟩ := Option.map_eq_some_iff.1 hrestore
    refine of_shapes ((shapes_attach _ link).trans (g.shapes_dropLinks _))
      fun other hother => .inr ?_
    rcases eq_or_mem_of_mem_insertLink hother with rfl | hold
    · exact .inl ⟨other, List.mem_singleton.2 rfl, rfl⟩
    · exact .inr ⟨other, (mem_links_dropLinks.1 hold).1, rfl⟩

theorem setKey (g : Graph) (id : LinkId) (key : String) :
    Gated [] g ((g.setKey? id key).getD g) := by
  rw [setKey?_getD]
  refine of_shapes rfl fun link hlink => .inr (.inr ?_)
  obtain ⟨old, hold, rfl⟩ := List.mem_map.1 hlink
  refine ⟨old, hold, ?_⟩
  split <;> rfl

theorem setNative {id : NodeId} {slot : Nat} {value : Json}
    (hset : g.setNative? id slot value = some g') : Gated [] g g' := by
  have hshapes := shapes_setNative hset
  obtain rfl := setNative?_eq_some hset
  exact of_subset hshapes fun _ hlink => hlink

theorem setProperty {id : NodeId} {value : Json}
    (hset : g.setProperty? id value = some g') : Gated [] g g' := by
  unfold setProperty? at hset
  split at hset
  · cases hset
    refine of_subset (shapes_modifyNode (fun _ => rfl) fun node => ?_) fun _ hlink => hlink
    simp [Node.shape, Function.comp_def]
  · simp at hset

theorem remember (g : Graph) (id : NodeId) : Gated [] g (g.remember id) := by
  unfold Graph.remember
  split
  · exact of_subset (shapes_modifyNode (fun _ => rfl) fun node => node.shape_remember _)
      fun _ hlink => hlink
  · exact refl g

theorem remembered (g : Graph) (build : Build) : Gated [] g (build.remembered g) := by
  unfold Build.remembered
  induction build.evaluated generalizing g with
  | nil =>
      exact refl g
  | cons id rest ih =>
      exact (remember g id).trans (ih (g.remember id))

theorem getD {result : Option Graph} (hresult : ∀ g', result = some g' → Gated brought g g') :
    Gated brought g (result.getD g) := by
  cases result with
  | none =>
      exact (refl g).mono fun _ hlink => absurd hlink List.not_mem_nil
  | some g' =>
      exact hresult g' rfl

/-! ## Imports and documents -/

theorem step {setting : Import.Setting} {p p' : Import.Progress}
    (hstep : Import.Step setting p p') : Gated [] p.graph p'.graph := by
  cases hstep with
  | report issues =>
      exact refl _
  | embed =>
      exact refl _
  | create className template x y hfind =>
      exact addNode _ template x y
  | link origin target slot key id graph hconnect =>
      have hmade : Gated [] p.graph graph := connect hconnect
      dsimp only
      split
      · exact hmade
      · exact hmade.trans (setKey graph id key)
  | setNative id slot value graph hset =>
      exact setNative hset

theorem steps {setting : Import.Setting} {p p' : Import.Progress}
    (hsteps : Import.Steps setting p p') : Gated [] p.graph p'.graph := by
  induction hsteps with
  | refl =>
      exact refl _
  | tail _ hstep ih =>
      exact ih.trans (step hstep)

theorem loadNodes (registry : Registry) (g : Graph) (sources : List Json) :
    Gated [] g (Graph.loadNodes registry g sources).1 :=
  loadNodes_induction (refl g) (fun hgated _ hrestore => hgated.trans (restoreNode hrestore))
    sources

theorem loadLinks (g : Graph) (sources : List Json) :
    Gated (sources.map linkOfDocument) g (sources.foldl loadLink g) := by
  induction sources generalizing g with
  | nil =>
      exact refl g
  | cons source rest ih =>
      have hone : Gated [linkOfDocument source] g (loadLink g source) := by
        unfold loadLink
        split
        · exact getD fun _ => restoreLink
        · exact (refl g).mono fun _ hlink => absurd hlink List.not_mem_nil
      exact hone.trans (ih _)

theorem load {registry : Registry} {source : Json} {issues : List Issue}
    (hload : Graph.load? registry g source = some (g', issues)) :
    Gated (documentLinks source) g g' := by
  obtain ⟨nodes, -, hpair⟩ := Option.map_eq_some_iff.1 hload
  obtain ⟨rfl, -⟩ := Prod.mk.inj hpair
  have hnodes := (clear g).trans (loadNodes registry g.clear nodes)
  have hlinks := hnodes.trans (loadLinks _ (((source.get? "links").bind Json.items?).getD []))
  refine (hlinks.trans (raiseCounters _ (source.int64At "last_node_id")
    (source.int64At "last_link_id"))).mono fun link hlink => ?_
  simpa [documentLinks] using hlink

/-! ## Whole edits -/

/-- Whatever an edit does, no link comes in that fails the gate, but for those that it brings. -/
theorem apply (g : Graph) (edit : Edit) : Gated edit.brings g (edit.apply g) := by
  cases edit with
  | addNode template x y =>
      exact addNode g template x y
  | removeNode id =>
      exact getD fun _ => removeNode
  | connect origin originSlot target targetSlot =>
      rw [Edit.apply]
      split
      · next id next hconnect =>
          exact connect hconnect
      · exact refl g
  | removeLink id =>
      exact getD fun _ => removeLink
  | setKey id key =>
      exact setKey g id key
  | clearInput id slot =>
      rw [Edit.apply, Graph.clearInput]
      split
      · exact clearLinks g _
      · exact refl g
  | clearCollected id =>
      rw [Edit.apply, Graph.clearCollected]
      split
      · exact clearLinks g _
      · exact refl g
  | setNative id slot value =>
      exact getD fun _ => setNative
  | setProperty id value =>
      exact getD fun _ => setProperty
  | clear =>
      exact clear g
  | restoreNode template id =>
      exact getD fun _ => restoreNode
  | restoreLink link =>
      exact getD fun _ => restoreLink
  | raiseCounters node link =>
      exact raiseCounters g node link
  | evaluate id =>
      exact remember g id
  | build schema =>
      exact remembered g _
  | importConfig setting document =>
      cases document with
      | obj members =>
          exact steps (Import.steps_run setting g members)
      | _ =>
          exact refl g
  | load registry document =>
      refine getD fun g' hresult => ?_
      obtain ⟨⟨next, issues⟩, hload, rfl⟩ := Option.map_eq_some_iff.1 hresult
      exact load hload

theorem run (g : Graph) (edits : List Edit) :
    Gated (edits.flatMap Edit.brings) g (Edit.run g edits) := by
  induction edits generalizing g with
  | nil =>
      exact refl g
  | cons edit rest ih =>
      exact (apply g edit).trans (ih (edit.apply g))

end Gated

end Graph

end SlotGraph
