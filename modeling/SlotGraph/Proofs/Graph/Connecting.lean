import SlotGraph.Proofs.Graph.Frame
import SlotGraph.Proofs.Graph.Removals
import SlotGraph.Proofs.Graph.Runs

/-!
# What a new link changes

A link that is let into a well-formed graph is listed last in the graph, in the output slot
that it leaves and in the input slot that it enters, and at most the link whose place it
takes goes.  Where there was none, removing the new link gives the old graph back.
-/

namespace SlotGraph

namespace Link

def leaves (id : NodeId) (slot : Nat) (link : Link) : Bool :=
  link.origin == id && link.originSlot == slot

theorem leaves_iff {link : Link} {id : NodeId} {slot : Nat} :
    link.leaves id slot = true ↔ id = link.origin ∧ link.originSlot = slot := by
  rw [leaves, Bool.and_eq_true, beq_iff_eq, beq_iff_eq, eq_comm]

end Link

/-- The node with a link listed last in the slot that it leaves and let into the one it enters. -/
def Node.listLast (link : Link) (node : Node) : Node :=
  { node with
    inputs := node.inputs.mapIdx fun slot input =>
      if link.enters node.id slot then { input with feed := input.feed.attach link.id } else input
    outputs := node.outputs.mapIdx fun slot output =>
      if link.leaves node.id slot then { output with links := output.links ++ [link.id] }
      else output }

theorem modify_eq_mapIdx {α : Type} {here : Prop} [Decidable here] {change : α → α}
    {takes : Nat → Bool} {i : Nat} (htakes : ∀ j, takes j = true ↔ here ∧ i = j) (xs : List α) :
    (if here then xs.modify i change else xs) =
      xs.mapIdx fun j x => if takes j then change x else x := by
  apply List.ext_getElem?
  intro j
  rw [List.getElem?_mapIdx]
  by_cases hhere : here
  · by_cases hij : i = j <;> simp [hhere, htakes, hij]
  · simp [hhere, htakes]

/-! ## Listing a link and striking it -/

/-- Striking a link from a slot with room for it takes back that it was let in. -/
theorem Feed.thin_attach {feed : Feed} {id : LinkId} (hroom : feed.collects ∨ feed.links = [])
    (hnew : id ∉ feed.links) : ((feed.attach id).thin fun other => other != id) = feed := by
  cases feed with
  | single link native =>
      cases link with
      | none =>
          simp [attach, thin, Option.filter]
      | some held =>
          simp [collects, links] at hroom
  | many keyed links =>
      have hkept := filter_bne_of_notMem hnew
      simp only [Feed.links] at hkept
      simp [attach, thin, hkept]

/-- Listing a new link in a node and striking it from its slots leaves the node as it was. -/
theorem Node.thin_listLast {node : Node} {link : Link} (hnew : ¬node.Lists link.id)
    (hroom : ∀ slot input, node.inputs[slot]? = some input → link.enters node.id slot = true →
      input.feed.collects ∨ input.feed.links = []) :
    ((node.listLast link).thin fun id => id != link.id) = node := by
  have hinputs : (node.listLast link).inputs.map (fun input =>
      { input with feed := input.feed.thin fun id => id != link.id }) = node.inputs := by
    apply List.ext_getElem?
    intro slot
    rw [List.getElem?_map, listLast, List.getElem?_mapIdx]
    cases hslot : node.inputs[slot]? with
    | none =>
        rfl
    | some input =>
        have habsent : link.id ∉ input.feed.links := fun hmem =>
          hnew (.inl ⟨input, List.mem_of_getElem? hslot, hmem⟩)
        simp only [Option.map_some]
        split
        · next henters =>
            rw [Feed.thin_attach (hroom slot input hslot henters) habsent]
        · rw [Feed.thin_of_notMem habsent]
  have houtputs : (node.listLast link).outputs.map (fun output =>
      { output with links := output.links.filter fun id => id != link.id }) = node.outputs := by
    apply List.ext_getElem?
    intro slot
    rw [List.getElem?_map, listLast, List.getElem?_mapIdx]
    cases hslot : node.outputs[slot]? with
    | none =>
        rfl
    | some output =>
        have habsent : link.id ∉ output.links := fun hmem =>
          hnew (.inr ⟨output, List.mem_of_getElem? hslot, hmem⟩)
        simp only [Option.map_some]
        split <;> simp [filter_bne_of_notMem habsent]
  rw [thin, hinputs, houtputs]
  rfl

namespace Graph

def outputAt? (g : Graph) (id : NodeId) (slot : Nat) : Option OutputSlot :=
  (g.findNode? id).bind fun node => node.outputs[slot]?

def listLast (g : Graph) (link : Link) : Graph :=
  { g with
    nodes := g.nodes.map (Node.listLast link)
    links := g.links ++ [link]
    lastLink := link.id }

variable {g g' : Graph}

/-! ## The link that is listed -/

theorem attach_eq (link : Link) (hbefore : ∀ other ∈ g.links, other.id < link.id) :
    { g with lastLink := link.id }.attach link = g.listLast link := by
  have hnodes : ({ g with lastLink := link.id }.attach link).nodes =
      g.nodes.map (Node.listLast link) := by
    refine (nodes_modifyEnds _ _ _ _ _ _ _).trans (List.map_congr_left fun node _ => ?_)
    rw [modify_eq_mapIdx (fun slot => (Link.enters_iff : link.enters node.id slot = true ↔ _)),
      modify_eq_mapIdx (fun slot => (Link.leaves_iff : link.leaves node.id slot = true ↔ _))]
    rfl
  rw [listLast, ← hnodes, ← insertLink_of_gt hbefore]
  rfl

theorem WellFormed.connect_eq (h : g.WellFormed) (hroom : g.lastLink < lastId) {o t : NodeId}
    {os ts : Nat} {id : LinkId} (hconnect : g.connect o os t ts = .ok (id, g')) :
    ∃ output input, g.outputAt? o os = some output ∧ g.inputAt? t ts = some input ∧
      id = g.lastLink + 1 ∧
      g' = (g.restrict (fun _ => true) fun link => input.feed.collects || !link.enters t ts).listLast
        ⟨id, o, os, t, ts, output.type, ""⟩ := by
  obtain ⟨origin, target, output, input, horigin, htarget, houtput, hinput, -, rfl, rfl⟩ :=
    connect_eq_ok_iff.1 hconnect
  have hslot : g.inputAt? t ts = some input := by
    rw [inputAt?, htarget, Option.bind_some, hinput]
  refine ⟨output, input, by rw [outputAt?, horigin, Option.bind_some, houtput], hslot,
    nextId_eq h.counters_nonneg.2 hroom, ?_⟩
  have hcleared : g.dropLinks (displaced input) = g.restrict (fun _ => true) fun link =>
      input.feed.collects || !link.enters t ts := by
    rw [h.dropLinks_eq, displaced]
    refine restrict_congr (fun _ _ => rfl) fun link hlink => ?_
    cases input.feed.collects with
    | true =>
        rfl
    | false =>
        rw [if_neg Bool.false_ne_true, Bool.false_or, Bool.not_inj_iff, Bool.eq_iff_iff,
          List.contains_iff_mem, h.mem_inputAt?_iff hslot hlink]
  have hbefore : ∀ link ∈ (g.dropLinks (displaced input)).links, link.id < nextId g.lastLink := by
    intro link hlink
    rw [nextId_eq h.counters_nonneg.2 hroom]
    exact Int.lt_add_one_of_le (h.links_numbered link (mem_links_dropLinks.1 hlink).1).2
  rw [← hcleared]
  exact attach_eq _ hbefore

/-! ## How many links there are -/

theorem length_sources (g : Graph) (id : NodeId) (slot : Nat) :
    (g.sources id slot).length = g.links.countP (Link.enters id slot) := by
  rw [sources, List.length_map, List.countP_eq_length_filter]

/-- A key that a link gets changes nothing about which links there are. -/
theorem links_setKey?_getD (g : Graph) (id : LinkId) (key : String) :
    ∃ rename : Link → Link, (∀ link id slot, (rename link).enters id slot = link.enters id slot) ∧
      (if key = "" then g else (g.setKey? id key).getD g).links = g.links.map rename := by
  split
  · exact ⟨fun link => link, fun _ _ _ => rfl, (List.map_id _).symm⟩
  · refine ⟨_, fun link other slot => ?_, congrArg Graph.links (setKey?_getD g id key)⟩
    split <;> rfl

/--
A link that is let in adds to the links of the graph what it adds to those of its slot: a
slot for many then holds one more, and a slot for one holds the new one alone.
-/
theorem WellFormed.length_links_connect (h : g.WellFormed) (hroom : g.lastLink < lastId)
    {o t : NodeId} {os ts : Nat} {id : LinkId} (hconnect : g.connect o os t ts = .ok (id, g'))
    {input : InputSpec} (hinput : (g.shape? t).bind (·.inputs[ts]?) = some input)
    (key : String) :
    (if key = "" then g' else (g'.setKey? id key).getD g').links.length +
        (g.sources t ts).length =
      g.links.length +
        ((if key = "" then g' else (g'.setKey? id key).getD g').sources t ts).length ∧
    ((if key = "" then g' else (g'.setKey? id key).getD g').sources t ts).length =
      if input.intake.collects then (g.sources t ts).length + 1 else 1 := by
  obtain ⟨output, slot, -, hslot, rfl, hg'⟩ := h.connect_eq hroom hconnect
  have hcollects : input.intake.collects = slot.feed.collects := by
    obtain ⟨target, htarget, hat⟩ := Option.bind_eq_some_iff.1 hslot
    rw [shape?_inputs htarget, hat] at hinput
    rw [← Option.some.inj hinput]
    exact Feed.collects_intake slot.feed
  obtain ⟨rename, hrename, hlinks⟩ := links_setKey?_getD g' (g.lastLink + 1) key
  have hafter : g'.links = g.links.filter (fun link => slot.feed.collects || !link.enters t ts) ++
      [⟨g.lastLink + 1, o, os, t, ts, output.type, ""⟩] := by
    rw [hg']
    rfl
  have hnew : Link.enters t ts ⟨g.lastLink + 1, o, os, t, ts, output.type, ""⟩ = true :=
    Link.enters_iff.2 ⟨rfl, rfl⟩
  have hkept : Link.enters t ts ∘ rename = Link.enters t ts :=
    funext fun link => hrename link t ts
  rw [length_sources, length_sources, hlinks, List.length_map, List.countP_map, hkept, hafter,
    hcollects, List.length_append, List.countP_append, List.countP_singleton, if_pos hnew,
    List.length_singleton]
  cases slot.feed.collects with
  | true =>
      simp only [Bool.true_or, List.filter_true, if_true, and_true]
      omega
  | false =>
      -- Of the links that stay none enters the slot.
      have hnone : (g.links.filter fun link => !link.enters t ts).countP (Link.enters t ts) = 0 := by
        simp [List.countP_eq_zero]
      have hsplit := List.length_eq_length_filter_add (Link.enters t ts) (l := g.links)
      simp only [Bool.false_or, hnone, List.countP_eq_length_filter, Bool.false_eq_true, if_false,
        Nat.zero_add, and_true]
      omega

/-- A link into a slot with room is taken back by removing it. -/
theorem WellFormed.removeLink?_listLast (h : g.WellFormed) {link : Link}
    (hlisted : (g.listLast link).WellFormed) (hnew : ∀ other ∈ g.links, other.id ≠ link.id)
    (hroom : ∀ input, g.inputAt? link.target link.targetSlot = some input →
      input.feed.collects ∨ input.feed.links = []) :
    (g.listLast link).removeLink? link.id = some { g with lastLink := link.id } := by
  have hlink : link ∈ (g.listLast link).links := List.mem_append_right _ List.mem_cons_self
  have hlinks : (g.listLast link).links.filter (fun other => other.id != link.id) = g.links := by
    have hkept : g.links.filter (fun other => other.id != link.id) = g.links :=
      List.filter_eq_self.2 fun other hother => bne_iff_ne.2 (hnew other hother)
    rw [listLast, List.filter_append, hkept]
    simp
  have hnodes : ((g.listLast link).nodes.map (Node.thin fun id =>
      ((g.listLast link).findLink? id).any fun other => other.id != link.id)) = g.nodes := by
    rw [List.map_congr_left fun node hnode => hlisted.thin_eq hnode fun id => id != link.id,
      listLast, List.map_map]
    refine (List.map_congr_left fun node hnode => ?_).trans (List.map_id _)
    refine Node.thin_listLast (fun hlists => ?_) fun slot input hslot henters => ?_
    · obtain ⟨other, hother, hid⟩ := h.isSome_of_lists hnode hlists
      exact hnew other hother hid
    · obtain ⟨htarget, rfl⟩ := Link.enters_iff.1 henters
      refine hroom input ?_
      rw [inputAt?, ← htarget, h.findNode?_eq hnode, Option.bind_some, hslot]
  rw [hlisted.removeLink?_eq, hlisted.findLink?_eq hlink, Option.map_some, restrict,
    List.filter_true, hlinks, hnodes]
  rfl

/--
A link is let into a well-formed graph exactly when its two slots are there and the type of
the one fits the other.  It gets the next number and is listed last wherever it is listed;
the link of a slot for one goes, and no other.  Where none goes, removing the new link gives
the graph back, all but the number that was drawn.
-/
theorem connect_exact (h : g.WellFormed) (hroom : g.lastLink < lastId) (o t : NodeId)
    (os ts : Nat) :
    ((∃ id g', g.connect o os t ts = .ok (id, g')) ↔
      ∃ output input, g.outputAt? o os = some output ∧ g.inputAt? t ts = some input ∧
        TypeExpr.textFits output.type input.linkType = true) ∧
    ∀ id g', g.connect o os t ts = .ok (id, g') →
      ∃ output input, g.outputAt? o os = some output ∧ g.inputAt? t ts = some input ∧
        id = g.lastLink + 1 ∧
        g' = (g.restrict (fun _ => true) fun link =>
          input.feed.collects || !link.enters t ts).listLast ⟨id, o, os, t, ts, output.type, ""⟩ ∧
        (input.feed.collects = true ∨ input.feed.links = [] →
          g'.removeLink? id = some { g with lastLink := id }) := by
  refine ⟨⟨?_, ?_⟩, fun id g' hconnect => ?_⟩
  · rintro ⟨id, g', hconnect⟩
    obtain ⟨origin, target, output, input, horigin, htarget, houtput, hinput, hfits, -⟩ :=
      connect_eq_ok_iff.1 hconnect
    refine ⟨output, input, ?_, ?_, hfits⟩
    · rw [outputAt?, horigin, Option.bind_some, houtput]
    · rw [inputAt?, htarget, Option.bind_some, hinput]
  · rintro ⟨output, input, houtput, hinput, hfits⟩
    obtain ⟨origin, horigin, houtput⟩ := Option.bind_eq_some_iff.1 houtput
    obtain ⟨target, htarget, hinput⟩ := Option.bind_eq_some_iff.1 hinput
    exact ⟨_, _, connect_eq_ok_iff.2
      ⟨origin, target, output, input, horigin, htarget, houtput, hinput, hfits, rfl, rfl⟩⟩
  · have hwf := h.connect hroom hconnect
    obtain ⟨output, input, houtput, hinput, rfl, rfl⟩ := h.connect_eq hroom hconnect
    refine ⟨output, input, houtput, hinput, rfl, rfl, fun hfree => ?_⟩
    have hall : (g.restrict (fun _ => true) fun link => input.feed.collects || !link.enters t ts) =
        g := by
      refine h.restrict_all (fun _ _ => rfl) fun link hlink => ?_
      rcases hfree with hmany | hnil
      · rw [hmany, Bool.true_or]
      · have habsent : link.enters t ts ≠ true := fun henters => by
          simpa [hnil] using (h.mem_inputAt?_iff hinput hlink).2 henters
        simp [habsent]
    rw [hall] at hwf ⊢
    refine h.removeLink?_listLast hwf (fun link hlink => ?_) fun slot hslot => ?_
    · exact Int.ne_of_lt (Int.lt_add_one_of_le (h.links_numbered link hlink).2)
    · rw [hinput] at hslot
      exact Option.some.inj hslot ▸ hfree

def partTemplate : NodeTemplate :=
  { key := ⟨1, 1⟩
    schemaName := "s"
    className := "Part"
    isRoot := false
    valueKind := none
    outputs := [⟨"self", "Part"⟩]
    inputs := [⟨"next", "Part", "Part", false, .single none⟩,
      ⟨"inner", "List[Union[Part, Index]]", "Union[Part, Index]", false, .many false⟩]
    width := NodeSize.schemaWidth
    height := NodeSize.leastHeight }

/-- The second part follows itself and has the first one in it twice. -/
def parts : Graph :=
  Edit.run empty
    [ .addNode partTemplate 0.0 0.0
    , .addNode partTemplate 0.0 0.0
    , .connect 1 0 2 1
    , .connect 2 0 2 0
    , .connect 1 0 2 1 ]

/--
A link that takes the place of a link of a part to itself, and another one of the part to
itself that comes third and is taken back.
-/
theorem connect_exact_parts :
    parts.WellFormed ∧ parts.lastLink < lastId ∧
    (∃ g', parts.connect 1 0 2 0 = .ok (4, g') ∧
      g'.outRows = [(1, [[1, 3, 4]]), (2, [[]])] ∧
      g'.inRows = [(1, [[], []]), (2, [[4], [1, 3]])]) ∧
    ∃ g', parts.connect 2 0 2 1 = .ok (4, g') ∧
      g'.outRows = [(1, [[1, 3]]), (2, [[2, 4]])] ∧
      g'.inRows = [(1, [[], []]), (2, [[2], [1, 3, 4]])] ∧
      g'.removeLink? 4 = some { parts with lastLink := 4 } := by
  have hwf : parts.WellFormed := WellFormed.empty.run (by decide +kernel)
  have hroom : parts.lastLink < lastId := by
    decide +kernel
  have hlast : parts.lastLink + 1 = 4 := by
    decide +kernel
  refine ⟨hwf, hroom, ?_, ?_⟩
  · have hself : parts.outputAt? 1 0 = some ⟨"self", "Part", [1, 3], none⟩ := rfl
    have hnext : parts.inputAt? 2 0 =
        some ⟨"next", "Part", "Part", false, .single (some 2) none⟩ := rfl
    obtain ⟨hiff, heffect⟩ := connect_exact hwf hroom 1 2 0 0
    obtain ⟨id, g', hconnect⟩ := hiff.2 ⟨_, _, hself, hnext, by decide +kernel⟩
    obtain ⟨output, input, houtput, hinput, rfl, rfl, -⟩ := heffect id g' hconnect
    obtain rfl := Option.some.inj (hself.symm.trans houtput)
    obtain rfl := Option.some.inj (hnext.symm.trans hinput)
    rw [hlast] at hconnect
    exact ⟨_, hconnect, by decide +kernel, by decide +kernel⟩
  · have hself : parts.outputAt? 2 0 = some ⟨"self", "Part", [2], none⟩ := rfl
    have hinner : parts.inputAt? 2 1 = some
        ⟨"inner", "List[Union[Part, Index]]", "Union[Part, Index]", false, .many false [1, 3]⟩ :=
      rfl
    obtain ⟨hiff, heffect⟩ := connect_exact hwf hroom 2 2 0 1
    obtain ⟨id, g', hconnect⟩ := hiff.2 ⟨_, _, hself, hinner, by decide +kernel⟩
    obtain ⟨output, input, houtput, hinput, rfl, rfl, hback⟩ := heffect id g' hconnect
    obtain rfl := Option.some.inj (hself.symm.trans houtput)
    obtain rfl := Option.some.inj (hinner.symm.trans hinput)
    have hundone := hback (.inl rfl)
    rw [hlast] at hconnect hundone
    exact ⟨_, hconnect, by decide +kernel, by decide +kernel, hundone⟩

end Graph

end SlotGraph
