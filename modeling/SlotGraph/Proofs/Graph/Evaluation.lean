import SlotGraph.Graph.Evaluate
import SlotGraph.Proofs.Graph.Content
import SlotGraph.Proofs.Graph.SetMembers

/-!
# Evaluation by contents

Where slots list their links in order, what a slot contributes to its node follows
from its blueprint and its content, and the value of a node from those of its slots.
-/

namespace SlotGraph

namespace Graph

theorem slotValue?_congr {g g' : Graph} {slot : InputSlot}
    (h : ∀ id ∈ slot.feed.links, g'.findLink? id = g.findLink? id) :
    g'.slotValue? slot = g.slotValue? slot := by
  cases hfeed : slot.feed with
  | single held native =>
      have hheld : held.bind g'.findLink? = held.bind g.findLink? := by
        cases held with
        | none =>
            rfl
        | some id =>
            exact h id (by simp [hfeed, Feed.links])
      rw [slotValue?, slotValue?, hfeed]
      dsimp only
      rw [hheld]
  | many keyed links =>
      have hlinks : ∀ id ∈ links, g'.findLink? id = g.findLink? id := by
        intro id hid
        exact h id (by rwa [hfeed])
      have hrefs : g'.linkedRefs links = g.linkedRefs links :=
        List.filterMap_congr fun id hid => by rw [hlinks id hid]
      have hkeyed : g'.keyedRefs links = g.keyedRefs links :=
        congrArg NodeValue.putAll (List.filterMap_congr fun entry hentry => by
          rw [hlinks entry.1 (List.fst_mem_of_mem_zipIdx hentry)])
      cases keyed <;> rw [slotValue?, slotValue?, hfeed] <;> simp only [hrefs, hkeyed]

end Graph

/-- What is said of indexed things without their indices. -/
theorem map_zipIdx_fst {α β : Type} (view : α → β) (xs : List α) :
    (xs.zipIdx.map fun entry => view entry.1) = xs.map view := by
  rw [← Function.comp_def view Prod.fst, ← List.map_map, List.zipIdx_map_fst]

namespace Source

def entryKey (source : Source) (position : Nat) : String :=
  if source.key = "" then toString position else source.key

def keyedRefs (sources : List Source) : List (String × NodeValue) :=
  NodeValue.putAll
    (sources.zipIdx.map fun entry => (entry.1.entryKey entry.2, .ref entry.1.origin))

/-- Under distinct keys the references stand in the order of the links. -/
theorem keyedRefs_of_distinct {sources : List Source}
    (h : (sources.zipIdx.map fun entry => entry.1.entryKey entry.2).Nodup) :
    keyedRefs sources =
      sources.zipIdx.map fun entry => (entry.1.entryKey entry.2, .ref entry.1.origin) := by
  rw [keyedRefs, NodeValue.putAll_of_nodup]
  rwa [List.map_map]

end Source

namespace InputSpec

def value? (spec : InputSpec) (content : SlotContent) : Option NodeValue :=
  match spec.intake with
  | .many true =>
      let entries := Source.keyedRefs content.sources
      if entries.isEmpty && spec.optional then none else some (.object entries)
  | .many false =>
      let refs := content.sources.map fun source => NodeValue.ref source.origin
      if refs.isEmpty && spec.optional then none else some (.array refs)
  | .single native =>
      match content.sources with
      | source :: _ => some (.ref source.origin)
      | [] =>
          (native.bind fun kind => content.held.bind (kind.coerceInput? spec.optional)).map
            NodeValue.ofJson

end InputSpec

namespace Graph

/-! ## Links of a slot -/

theorem linkedRefs_eq {g : Graph} (h : g.WellFormed) {links : List Link}
    (hlinks : ∀ link ∈ links, link ∈ g.links) :
    g.linkedRefs (links.map Link.id) = links.map fun link => .ref link.origin := by
  induction links with
  | nil =>
      rfl
  | cons link rest ih =>
      have hrest := ih fun other hother => hlinks other (List.mem_cons_of_mem _ hother)
      rw [linkedRefs] at hrest ⊢
      rw [List.map_cons, List.filterMap_cons, h.findLink?_eq (hlinks link List.mem_cons_self),
        hrest]
      rfl

theorem keyedRefs_eq {g : Graph} (h : g.WellFormed) {links : List Link}
    (hlinks : ∀ link ∈ links, link ∈ g.links) :
    g.keyedRefs (links.map Link.id) = Source.keyedRefs (links.map Link.source) := by
  rw [keyedRefs, Source.keyedRefs, List.zipIdx_map, List.zipIdx_map, List.filterMap_map,
    List.map_map, ← List.filterMap_eq_map]
  congr 1
  refine List.filterMap_congr fun entry hentry => ?_
  have hmem := hlinks entry.1 (List.fst_mem_of_mem_zipIdx hentry)
  simp only [Function.comp, Prod.map, h.findLink?_eq hmem]
  rfl

/-- What a slot contributes follows from its blueprint and its content. -/
theorem slotValue?_eq {g : Graph} (h : g.WellFormed) (horder : g.InOrder) {node : Node}
    {slot : Nat} {input : InputSlot} (hnode : node ∈ g.nodes)
    (hslot : node.inputs[slot]? = some input) :
    g.slotValue? input = input.spec.value? (g.content node.id slot) := by
  have hlinks := h.links_eq horder hnode hslot
  have hlisted : ∀ link ∈ g.links.filter (Link.enters node.id slot), link ∈ g.links :=
    fun link hlink => (List.mem_filter.1 hlink).1
  have hheld : g.held? node.id slot = input.feed.native?.map NativeCell.value := by
    rw [held?, h.findNode?_eq hnode, Option.bind_some, Node.nativeAt?, hslot, Option.bind_some]
  rw [slotValue?, InputSpec.value?, InputSlot.spec]
  cases hfeed : input.feed with
  | many keyed links =>
      rw [hfeed, Feed.links] at hlinks
      cases keyed with
      | true =>
          simp only [Feed.intake, content, sources]
          rw [hlinks, keyedRefs_eq h hlisted]
          rfl
      | false =>
          simp only [Feed.intake, content, sources, List.map_map, Function.comp_def, Link.source]
          rw [hlinks, linkedRefs_eq h hlisted]
  | single held native =>
      rw [hfeed, Feed.links] at hlinks
      rw [hfeed] at hheld
      simp only [Feed.intake, content, sources, hheld, Feed.native?]
      cases hentering : g.links.filter (Link.enters node.id slot) with
      | nil =>
          rw [hentering] at hlinks
          have hnone : held = none := by
            cases held <;> simp_all
          subst hnone
          cases native <;> rfl
      | cons link rest =>
          rw [hentering] at hlinks
          have hsome : held = some link.id := by
            cases held <;> simp_all
          subst hsome
          have hfind := h.findLink?_eq (hlisted link (hentering ▸ List.mem_cons_self))
          simp [hfind, Link.source]

/-! ## Members of a node -/

/-- Slots of distinct names contribute in their order. -/
theorem slotMembers_eq (g : Graph) {slots : List InputSlot}
    (hnames : (slots.map InputSlot.name).Nodup) :
    g.slotMembers slots = slots.filterMap fun slot =>
      (g.slotValue? slot).map fun value => (slot.name, value) :=
  NodeValue.putAll_of_nodup (Json.nodup_named hnames)

/-- The members of a node of a class follow from its template and its contents. -/
theorem members_nodeValue {g : Graph} (h : g.WellFormed) (horder : g.InOrder) {node : Node}
    (hnode : node ∈ g.nodes) (hcell : node.cell = none)
    (hnames : (node.shape.inputs.map InputSpec.name).Nodup) :
    (g.nodeValue node).members =
      node.shape.inputs.zipIdx.filterMap fun entry =>
        (entry.1.value? (g.content node.id entry.2)).map fun value =>
          (entry.1.name, value) := by
  have hslots : (node.inputs.map InputSlot.name).Nodup := by
    rwa [← node.names_shape]
  rw [nodeValue, hcell]
  show g.slotMembers node.inputs = _
  rw [g.slotMembers_eq hslots, Node.shape, List.zipIdx_map, List.filterMap_map]
  have hindexed : node.inputs = node.inputs.zipIdx.map Prod.fst := by
    simp
  conv_lhs => rw [hindexed, List.filterMap_map]
  refine List.filterMap_congr fun entry hentry => ?_
  obtain ⟨input, slot⟩ := entry
  have hslot : node.inputs[slot]? = some input := by
    simpa using List.mk_mem_zipIdx_iff_getElem?.1 hentry
  simp only [Function.comp, Prod.map]
  rw [slotValue?_eq h horder hnode hslot]
  rfl

end Graph

end SlotGraph
