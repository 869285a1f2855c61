import SlotGraph.Proofs.Graph.Linking

/-!
# What links and new nodes leave alone

A link that is let into a slot may displace the one that was there.  All that changes is
what this slot holds.  And nodes that join a graph change nothing about those that are
known there.
-/

namespace SlotGraph

namespace Graph

variable {g g' : Graph}

/-! ## Links that are dropped -/

theorem links_dropLinks (g : Graph) (ids : List LinkId) :
    (g.dropLinks ids).links = g.links.filter fun link => link.id ∉ ids := by
  induction ids generalizing g with
  | nil =>
      simp [dropLinks]
  | cons id rest ih =>
      have hfirst : (g.dropLink id).links = g.links.filter fun link => link.id ≠ id := by
        unfold dropLink
        split
        · next link hfind =>
            rw [links_detach, (findLink?_mem hfind).2]
            refine List.filter_congr fun other _ => ?_
            simp [bne, beq_eq_decide]
        · next hnone =>
            rw [eq_comm, List.filter_eq_self]
            simpa [findLink?] using hnone
      rw [dropLinks, List.foldl_cons, ← dropLinks, ih, hfirst, List.filter_filter]
      refine List.filter_congr fun link _ => ?_
      simp [Bool.and_comm]

theorem held?_dropLinks (g : Graph) (ids : List LinkId) (id : NodeId) (slot : Nat) :
    (g.dropLinks ids).held? id slot = g.held? id slot := by
  induction ids generalizing g with
  | nil =>
      rfl
  | cons first rest ih =>
      refine (ih (g.dropLink first)).trans ?_
      unfold dropLink
      split
      · next link _ =>
          rw [detach, held?_modifyNode, held?_modifyNode]
          · rfl
          · exact fun _ => rfl
          · exact fun _ _ => rfl
          · exact fun _ => rfl
          · refine fun node => node.nativeAt?_modifyFeed (fun feed => ?_) link.targetSlot
            cases feed <;> rfl
      · rfl

theorem sources_dropLinks {ids : List LinkId} {id : NodeId} {slot : Nat}
    (h : ∀ link ∈ g.links, link.id ∈ ids → link.enters id slot = false) :
    (g.dropLinks ids).sources id slot = g.sources id slot := by
  rw [sources, sources, links_dropLinks, List.filter_filter]
  refine congrArg _ (List.filter_congr fun link hlink => ?_)
  by_cases hid : link.id ∈ ids
  · simp [hid, h link hlink hid]
  · simp [hid]

/-! ## A link that is made -/

def attachKeyed (g : Graph) (link : Link) (key : String) : Graph :=
  if key = "" then g.attach link
  else ((g.attach link).setKey? link.id key).getD (g.attach link)

theorem links_attachKeyed {link : Link} (hunkeyed : link.key = "")
    (hbefore : ∀ other ∈ g.links, other.id < link.id) (key : String) :
    (g.attachKeyed link key).links = g.links ++ [{ link with key := key }] := by
  have hlast : (g.attach link).links = g.links ++ [link] := insertLink_of_gt hbefore
  rw [attachKeyed]
  split
  · next hkey =>
      rw [hlast, hkey, ← hunkeyed]
  · rw [setKey?_getD]
    simp only [hlast, List.map_append, List.map_singleton, if_true]
    congr 1
    refine (List.map_congr_left fun other hother => ?_).trans (List.map_id _)
    rw [if_neg (Int.ne_of_lt (hbefore other hother)), id_eq]

theorem held?_attachKeyed (g : Graph) (link : Link) (key : String) (id : NodeId) (slot : Nat) :
    (g.attachKeyed link key).held? id slot = g.held? id slot := by
  rw [attachKeyed]
  split
  · exact held?_attach g link id slot
  · rw [setKey?_getD]
    exact held?_attach g link id slot

theorem WellFormed.target_of_displaced (h : g.WellFormed) {node : Node} {slot : Nat}
    {input : InputSlot} (hnode : node ∈ g.nodes) (hinput : node.inputs[slot]? = some input)
    {link : Link} (hlink : link ∈ g.links) (hdisplaced : link.id ∈ displaced input) :
    link.target = node.id ∧ link.targetSlot = slot := by
  have hlisted : link.id ∈ input.feed.links := by
    rw [displaced] at hdisplaced
    split at hdisplaced
    · simp at hdisplaced
    · exact hdisplaced
  obtain ⟨same, hsame, hsameId, hends⟩ := (h.mem_input_iff hnode hinput).1 hlisted
  rwa [h.link_unique hsame hlink hsameId] at hends

/-- A link into a slot leaves what the other slots hold, whatever it displaces. -/
theorem WellFormed.connect_elsewhere (h : g.WellFormed) (hcount : g.lastLink < lastId)
    {o t : NodeId} {slot : Nat} {id : LinkId} {key : String}
    (hconnect : g.connect o 0 t slot = .ok (id, g')) {other : NodeId} {position : Nat}
    (hother : ¬ (other = t ∧ position = slot)) :
    (if key = "" then g' else (g'.setKey? id key).getD g').content other position =
      g.content other position := by
  obtain ⟨origin, target, output, input, -, htarget, -, hinput, -, rfl, rfl⟩ :=
    connect_eq_ok_iff.1 hconnect
  obtain ⟨hnode, hid⟩ := findNode?_mem htarget
  have hdropped : ∀ link ∈ g.links, link.id ∈ displaced input →
      link.enters other position = false := by
    intro link hlink hdisplaced
    obtain ⟨hends, hslot⟩ := h.target_of_displaced hnode hinput hlink hdisplaced
    rw [Bool.eq_false_iff, Link.enters, ne_eq, Bool.and_eq_true, beq_iff_eq, beq_iff_eq]
    rintro ⟨rfl, rfl⟩
    exact hother ⟨hends.trans hid, hslot⟩
  have hbefore : ∀ link ∈ (g.dropLinks (displaced input)).links,
      link.id < nextId g.lastLink := by
    intro link hlink
    rw [nextId_eq h.counters_nonneg.2 hcount]
    exact Int.lt_add_one_of_le (h.links_numbered link (mem_links_dropLinks.1 hlink).1).2
  have hnew : Link.enters other position
      ⟨nextId g.lastLink, o, 0, t, slot, output.type, key⟩ = false := by
    rw [Bool.eq_false_iff, Link.enters, ne_eq, Bool.and_eq_true, beq_iff_eq, beq_iff_eq]
    rintro ⟨rfl, rfl⟩
    exact hother ⟨rfl, rfl⟩
  show (attachKeyed { g.dropLinks (displaced input) with lastLink := nextId g.lastLink }
    ⟨nextId g.lastLink, o, 0, t, slot, output.type, ""⟩ key).content other position = _
  rw [content, content, held?_attachKeyed, sources_of_append (links_attachKeyed rfl hbefore key),
    hnew, if_neg Bool.false_ne_true, List.append_nil]
  exact congrArg₂ SlotContent.mk (sources_dropLinks hdropped)
    (g.held?_dropLinks (displaced input) other position)

/-! ## Nodes that join -/

def Knows (g : Graph) (id : NodeId) : Prop :=
  id ∈ g.shapes.map Prod.fst

theorem Knows.isSome_shape? {id : NodeId} (h : g.Knows id) : (g.shape? id).isSome := by
  obtain ⟨entry, hentry, rfl⟩ := List.mem_map.1 h
  rw [shape?_eq_find?, Option.isSome_map, List.find?_isSome]
  exact ⟨entry, hentry, beq_self_eq_true entry.1⟩

theorem knows_of_shape? {id : NodeId} {template : NodeTemplate} (h : g.shape? id = some template) :
    g.Knows id := by
  rw [shape?_eq_find?, Option.map_eq_some_iff] at h
  obtain ⟨entry, hfind, -⟩ := h
  obtain rfl : entry.1 = id := by
    simpa using List.find?_some hfind
  exact List.mem_map_of_mem (List.mem_of_find?_eq_some hfind)

section

variable {added : List (NodeId × NodeTemplate)} (hshapes : g'.shapes = g.shapes ++ added)

include hshapes

theorem Knows.of_append {id : NodeId} (h : g.Knows id) : g'.Knows id := by
  rw [Knows, hshapes, List.map_append]
  exact List.mem_append_left _ h

theorem Knows.shape?_append {id : NodeId} (h : g.Knows id) : g'.shape? id = g.shape? id := by
  have hsome := h.isSome_shape?
  rw [shape?_eq_find?, Option.isSome_map] at hsome
  rw [shape?_eq_find?, shape?_eq_find?, hshapes, List.find?_append, Option.or_of_isSome hsome]

/-- Whether links between known nodes fit stays the same. -/
theorem Knows.admits_append {origin target : NodeId} (horigin : g.Knows origin)
    (htarget : g.Knows target) (slot : Nat) :
    g'.admits origin target slot = g.admits origin target slot := by
  rw [admits, admits, horigin.shape?_append hshapes, htarget.shape?_append hshapes]

end

end Graph

end SlotGraph
