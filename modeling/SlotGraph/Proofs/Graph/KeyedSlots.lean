import SlotGraph.Proofs.Graph.Counters
import SlotGraph.Proofs.Graph.Evaluation
import SlotGraph.Proofs.Graph.Removals
import SlotGraph.Proofs.Json.Numbers

/-!
# The object of a keyed slot

A keyed slot is evaluated to an object in which every link stands under its key, or else
under its position.  Keys and positions are names of one space, and of one name the last
link counts: so every link has a member of its own exactly when no position of a link
without a key spells the key of another.
-/

namespace SlotGraph

namespace Link

/-! ## Names in a keyed slot -/

/-- The names under which some links stand in a keyed slot. -/
def entryKeys (links : List Link) : List String :=
  links.zipIdx.map fun entry => Graph.entryKey entry.1 entry.2

def KeysDistinct (links : List Link) : Prop :=
  links.Pairwise fun (link other : Link) => link.key ≠ "" → link.key ≠ other.key

instance (links : List Link) : Decidable (KeysDistinct links) :=
  inferInstanceAs (Decidable (links.Pairwise _))

/-- Whether no link without a key stands at a position that spells the key of another. -/
def PositionsFree (links : List Link) : Prop :=
  ∀ (position : Nat) (link : Link), links[position]? = some link → link.key = "" →
    ∀ other ∈ links, other.key ≠ toString position

theorem getElem?_entryKeys (links : List Link) (position : Nat) :
    (entryKeys links)[position]? =
      links[position]?.map fun link => Graph.entryKey link position := by
  simp [entryKeys, Option.map_map, Function.comp_def]

theorem toString_ne_empty (n : Nat) : toString n ≠ "" := by
  intro hempty
  have hdigits := congrArg String.toList hempty
  rw [Nat.toString_eq_repr, Nat.toList_repr] at hdigits
  exact Nat.toDigits_ne_nil hdigits

/-- Two names are the same where two keys are, or two positions, or a key spells a position. -/
theorem entryKey_eq_iff {link other : Link} {position place : Nat} :
    Graph.entryKey link position = Graph.entryKey other place ↔
      if link.key = "" then
        if other.key = "" then position = place else other.key = toString position
      else
        if other.key = "" then link.key = toString place else link.key = other.key := by
  rw [Graph.entryKey, Graph.entryKey]
  split <;> split
  · exact ⟨Text.toString_injective, congrArg toString⟩
  · exact eq_comm
  · exact Iff.rfl
  · exact Iff.rfl

/-- Different keys keep all names apart where no position spells a key. -/
theorem nodup_entryKeys_iff {links : List Link} (hkeys : KeysDistinct links) :
    (entryKeys links).Nodup ↔ PositionsFree links := by
  constructor
  · intro hdistinct position link hlink hkeyless other hother hspelled
    obtain ⟨place, hplace⟩ := List.getElem?_of_mem hother
    have hname : Graph.entryKey link position = Graph.entryKey other place := by
      rw [entryKey_eq_iff, if_pos hkeyless, if_neg (hspelled ▸ toString_ne_empty position)]
      exact hspelled
    have hsame : position = place := by
      refine (List.getElem?_inj ?_ hdistinct).1 ?_
      · simpa [entryKeys] using (List.getElem?_eq_some_iff.1 hlink).1
      · rw [getElem?_entryKeys, getElem?_entryKeys, hlink, hplace, Option.map_some,
          Option.map_some, hname]
    rw [← hsame, hlink] at hplace
    rw [Option.some.inj hplace.symm, hkeyless] at hspelled
    exact toString_ne_empty position hspelled.symm
  · intro hfree
    rw [List.nodup_iff_pairwise_ne, List.pairwise_iff_getElem]
    intro position place hposition hplace hlt hname
    have hbounds : position < links.length ∧ place < links.length := by
      simpa [entryKeys] using And.intro hposition hplace
    have hlink := List.getElem?_eq_getElem hbounds.1
    have hother := List.getElem?_eq_getElem hbounds.2
    have hapart := (List.pairwise_iff_getElem.1 hkeys) position place hbounds.1 hbounds.2 hlt
    simp only [entryKeys, List.getElem_map, List.getElem_zipIdx, Nat.zero_add] at hname
    rw [entryKey_eq_iff] at hname
    split at hname <;> split at hname
    · omega
    · next hkeyless _ => exact hfree position _ hlink hkeyless _ (List.getElem_mem _) hname
    · next _ hkeyless => exact hfree place _ hother hkeyless _ (List.getElem_mem _) hname
    · next hkeyed _ => exact hapart hkeyed hname

end Link

namespace Graph

/-! ## Evaluation of a keyed slot -/

def linksInto (g : Graph) (input : InputSlot) : List Link :=
  input.feed.links.filterMap g.findLink?

def keyedEntries (links : List Link) : List (String × NodeValue) :=
  links.zipIdx.map fun entry => (entryKey entry.1 entry.2, .ref entry.1.origin)

/--
Whether an object holds some links: a member for each of them, and those that have a key
under it.
-/
structure HoldsLinks (links : List Link) (members : List (String × NodeValue)) : Prop where
  counted : members.length = links.length
  keyed : ∀ link ∈ links, link.key ≠ "" → members.lookup link.key = some (.ref link.origin)

theorem keys_keyedEntries (links : List Link) :
    (keyedEntries links).map Prod.fst = Link.entryKeys links := by
  rw [keyedEntries, List.map_map]
  rfl

theorem WellFormed.linksInto_spec {g : Graph} (h : g.WellFormed) {node : Node} {slot : Nat}
    {input : InputSlot} (hnode : node ∈ g.nodes) (hslot : node.inputs[slot]? = some input) :
    (g.linksInto input).map Link.id = input.feed.links ∧
    ∀ link, link ∈ g.linksInto input ↔ link ∈ g.links ∧ link.enters node.id slot = true := by
  have hfound : ∀ id ∈ input.feed.links, ∃ link ∈ g.links, link.id = id ∧
      link.enters node.id slot = true := by
    intro id hid
    obtain ⟨link, hlink, hsame, htarget, hplace⟩ := (h.mem_input_iff hnode hslot).1 hid
    exact ⟨link, hlink, hsame, Link.enters_iff.2 ⟨htarget.symm, hplace⟩⟩
  constructor
  · rw [linksInto, List.map_filterMap]
    refine (List.filterMap_congr fun id hid => ?_).trans List.filterMap_some
    obtain ⟨link, hlink, rfl, -⟩ := hfound id hid
    rw [h.findLink?_eq hlink, Option.map_some]
  · intro link
    rw [linksInto, List.mem_filterMap]
    constructor
    · rintro ⟨id, hid, hfind⟩
      obtain ⟨other, hother, hsame, henters⟩ := hfound id hid
      rw [← hsame, h.findLink?_eq hother] at hfind
      exact Option.some.inj hfind ▸ ⟨hother, henters⟩
    · rintro ⟨hlink, henters⟩
      obtain ⟨htarget, hplace⟩ := Link.enters_iff.1 henters
      exact ⟨link.id, (h.mem_input_iff hnode hslot).2
        ⟨link, hlink, rfl, htarget.symm, hplace⟩,
        h.findLink?_eq hlink⟩

theorem WellFormed.keyedRefs_eq_putAll {g : Graph} (h : g.WellFormed) {node : Node} {slot : Nat}
    {input : InputSlot} (hnode : node ∈ g.nodes) (hslot : node.inputs[slot]? = some input) :
    g.keyedRefs input.feed.links = NodeValue.putAll (keyedEntries (g.linksInto input)) := by
  obtain ⟨hids, hlinks⟩ := h.linksInto_spec hnode hslot
  rw [← hids, keyedRefs, keyedEntries, List.zipIdx_map, List.filterMap_map,
    ← List.filterMap_eq_map]
  congr 1
  refine List.filterMap_congr fun entry hentry => ?_
  have hlink := ((hlinks entry.1).1 (List.fst_mem_of_mem_zipIdx hentry)).1
  simp only [Function.comp, Prod.map, h.findLink?_eq hlink]
  rfl

/-- The object holds the links exactly when they stand under different names. -/
theorem holdsLinks_putAll_iff {links : List Link} :
    HoldsLinks links (NodeValue.putAll (keyedEntries links)) ↔ (Link.entryKeys links).Nodup := by
  rw [← keys_keyedEntries]
  constructor
  · intro hholds
    refine NodeValue.length_putAll_iff.1 (hholds.counted.trans ?_)
    simp [keyedEntries]
  · intro hdistinct
    rw [NodeValue.putAll_of_nodup hdistinct]
    refine ⟨by simp [keyedEntries], fun link hlink hkeyed => ?_⟩
    obtain ⟨position, hposition⟩ := List.getElem?_of_mem hlink
    rw [Json.lookup_eq_some_iff hdistinct]
    refine List.mem_map.2 ⟨(link, position), List.mk_mem_zipIdx_iff_getElem?.2 hposition, ?_⟩
    rw [entryKey, if_neg hkeyed]

/-- A node holds under the name of a slot what this slot contributes, if no other has the name. -/
theorem get?_nodeValue_of_slot {g : Graph} {node : Node} (hcell : node.cell = none) {slot : Nat}
    {input : InputSlot} (hslot : node.inputs[slot]? = some input)
    (hname : ∀ place other, node.inputs[place]? = some other → other.name = input.name →
      place = slot) :
    (g.nodeValue node).get? input.name = g.slotValue? input := by
  have honly : ∀ value, (g.nodeValue node).get? input.name = some value →
      g.slotValue? input = some value := by
    intro value hvalue
    rw [nodeValue, hcell] at hvalue
    rw [NodeValue.get?, NodeValue.members, slotMembers, NodeValue.lookup_putAll] at hvalue
    have hmember := List.mem_reverse.1 (Json.mem_of_lookup hvalue)
    obtain ⟨other, hother, hgiven⟩ := List.mem_filterMap.1 hmember
    obtain ⟨place, hplace⟩ := List.getElem?_of_mem hother
    obtain ⟨given, hgiven, hpair⟩ := Option.map_eq_some_iff.1 hgiven
    obtain rfl := hname place other hplace (congrArg Prod.fst hpair)
    obtain rfl := Option.some.inj (hslot.symm.trans hplace)
    rw [hgiven]
    exact congrArg some (congrArg Prod.snd hpair)
  cases hcontributed : g.slotValue? input with
  | none =>
      by_contra hheld
      obtain ⟨value, hvalue⟩ := Option.ne_none_iff_exists'.1 hheld
      simp [honly value hvalue] at hcontributed
  | some value =>
      have hmember : (input.name, value) ∈ node.inputs.filterMap fun slot =>
          (g.slotValue? slot).map fun value => (slot.name, value) :=
        List.mem_filterMap.2 ⟨input, List.mem_of_getElem? hslot, by rw [hcontributed]; rfl⟩
      have hheld : ((g.nodeValue node).get? input.name).isSome = true := by
        rw [nodeValue, hcell]
        rw [NodeValue.get?, NodeValue.members, slotMembers, NodeValue.lookup_putAll]
        exact Json.lookup_isSome_of_mem (List.mem_reverse.2 hmember)
      obtain ⟨found, hfound⟩ := Option.isSome_iff_exists.1 hheld
      rw [hfound, ← hcontributed, honly found hfound]

theorem WellFormed.slotValue?_keyed {g : Graph} (h : g.WellFormed) {node : Node} {slot : Nat}
    {input : InputSlot} {ids : List LinkId} (hnode : node ∈ g.nodes)
    (hslot : node.inputs[slot]? = some input) (hfeed : input.feed = .many true ids) :
    g.slotValue? input =
      if g.linksInto input = [] ∧ input.optional = true then none
      else some (.object (NodeValue.putAll (keyedEntries (g.linksInto input)))) := by
  have hrefs := h.keyedRefs_eq_putAll hnode hslot
  have hempty : (NodeValue.putAll (keyedEntries (g.linksInto input))).isEmpty = true ↔
      g.linksInto input = [] := by
    rw [List.isEmpty_iff, ← List.map_eq_nil_iff (f := Prod.fst),
      List.eq_nil_iff_forall_not_mem]
    simp only [NodeValue.mem_keys_putAll]
    rw [← List.eq_nil_iff_forall_not_mem]
    simp [keyedEntries]
  rw [hfeed, Feed.links] at hrefs
  rw [slotValue?, hfeed]
  simp only [hrefs, Bool.and_eq_true, hempty]

/--
In a keyed slot of a well-formed graph whose links have different keys, no link is lost
exactly when no link without a key stands at a position that spells the key of another: then
the object has one member for each link, and each key that a link has stands for this link.
In any case of one name the last link counts.
-/
theorem holdsLinks_iff_positionsFree {g : Graph} (h : g.WellFormed) {node : Node} {slot : Nat}
    {input : InputSlot} {ids : List LinkId} (hnode : node ∈ g.nodes) (hcell : node.cell = none)
    (hslot : node.inputs[slot]? = some input) (hfeed : input.feed = .many true ids)
    (hkeys : Link.KeysDistinct (g.linksInto input)) :
    ((g.linksInto input).map Link.id = ids ∧
      ∀ link, link ∈ g.linksInto input ↔ link ∈ g.links ∧ link.enters node.id slot = true) ∧
    ((∀ place other, node.inputs[place]? = some other → other.name = input.name →
        place = slot) →
      (g.value? node.id).bind (·.get? input.name) = g.slotValue? input) ∧
    (g.slotValue? input = none ↔ g.linksInto input = [] ∧ input.optional = true) ∧
    (∀ value, g.slotValue? input = some value → ∃ members, value = .object members ∧
      (members.map Prod.fst).Nodup ∧
      ∀ key, members.lookup key = (keyedEntries (g.linksInto input)).reverse.lookup key) ∧
    ((∀ value, g.slotValue? input = some value → ∃ members, value = .object members ∧
        HoldsLinks (g.linksInto input) members) ↔
      Link.PositionsFree (g.linksInto input)) := by
  have hvalue := h.slotValue?_keyed hnode hslot hfeed
  have hlinks := h.linksInto_spec hnode hslot
  rw [hfeed] at hlinks
  refine ⟨hlinks, fun hname => ?_, ?_, fun value hsome => ?_, ?_⟩
  · rw [value?, h.findNode?_eq hnode, Option.map_some, Option.bind_some]
    exact get?_nodeValue_of_slot hcell hslot hname
  · rw [hvalue]
    split <;> simp_all
  · rw [hvalue] at hsome
    split at hsome
    · exact absurd hsome (by simp)
    · exact ⟨_, (Option.some.inj hsome).symm, NodeValue.nodup_putAll _,
        NodeValue.lookup_putAll _⟩
  · rw [← Link.nodup_entryKeys_iff hkeys, ← holdsLinks_putAll_iff, hvalue]
    by_cases hnone : g.linksInto input = [] ∧ input.optional = true
    · rw [if_pos hnone, hnone.1]
      constructor
      · intro _
        exact ⟨rfl, fun link hlink => absurd hlink List.not_mem_nil⟩
      · intro _ value hsome
        exact absurd hsome (by simp)
    · rw [if_neg hnone]
      constructor
      · intro hall
        obtain ⟨members, hmembers, hholds⟩ := hall _ rfl
        rw [NodeValue.object.inj hmembers]
        exact hholds
      · intro hholds value hsome
        exact ⟨_, (Option.some.inj hsome).symm, hholds⟩

def drawerTemplate : NodeTemplate :=
  { key := ⟨1, 2⟩
    schemaName := "s"
    className := "Drawer"
    isRoot := false
    valueKind := none
    outputs := [⟨"self", "Drawer"⟩]
    inputs := [⟨"by_name", "Dict[str, Union[Drawer, Index]]", "Union[Drawer, Index]", false,
      .many true⟩]
    width := NodeSize.schemaWidth
    height := NodeSize.leastHeight }

def drawers (key : String) : Graph :=
  Edit.run empty
    [ .addNode drawerTemplate 0.0 0.0
    , .addNode drawerTemplate 0.0 0.0
    , .addNode drawerTemplate 0.0 0.0
    , .connect 1 0 3 0
    , .connect 2 0 3 0
    , .setKey 1 key ]

def drawerSlot : InputSlot :=
  ⟨"by_name", "Dict[str, Union[Drawer, Index]]", "Union[Drawer, Index]", false, .many true [1, 2]⟩

/-- A key that is no position loses nothing; the key `1` goes to the drawer at position 1. -/
theorem holdsLinks_iff_positionsFree_drawers :
    ((drawers "main").WellFormed ∧ ∃ members,
      ((drawers "main").value? 3).bind (·.get? "by_name") = some (.object members) ∧
      members.map Prod.fst = ["main", "1"] ∧
      HoldsLinks ((drawers "main").linksInto drawerSlot) members) ∧
    (drawers "1").WellFormed ∧ ∃ members,
      ((drawers "1").value? 3).bind (·.get? "by_name") = some (.object members) ∧
      members.map Prod.fst = ["1"] ∧
      ¬ HoldsLinks ((drawers "1").linksInto drawerSlot) members := by
  have hmain : (drawers "main").WellFormed := WellFormed.empty.run (by decide +kernel)
  have hone : (drawers "1").WellFormed := WellFormed.empty.run (by decide +kernel)
  have hnode : ∀ key, ∃ node, (drawers key).nodes[2]? = some node ∧ node.id = 3 ∧
      node.cell = none ∧ node.inputs = [drawerSlot] :=
    fun key => ⟨_, rfl, rfl, rfl, rfl⟩
  have hname : ∀ place other, [drawerSlot][place]? = some other →
      other.name = drawerSlot.name → place = 0 := by
    intro place other hother _
    have hlt := (List.getElem?_eq_some_iff.1 hother).1
    rw [List.length_singleton] at hlt
    omega
  refine ⟨⟨hmain, ?_⟩, hone, ?_⟩
  · obtain ⟨node, hat, hid, hcell, hinputs⟩ := hnode "main"
    obtain ⟨-, hvalue, -, -, hiff⟩ := holdsLinks_iff_positionsFree hmain
      (List.mem_of_getElem? hat) hcell (hinputs ▸ rfl : node.inputs[0]? = some drawerSlot) rfl
      (by decide +kernel)
    have hfree : Link.PositionsFree ((drawers "main").linksInto drawerSlot) :=
      (Link.nodup_entryKeys_iff (by decide +kernel)).1 (by decide +kernel)
    obtain ⟨members, hmembers, hholds⟩ := hiff.2 hfree _ rfl
    rw [hid, hinputs] at hvalue
    refine ⟨members, (hvalue hname).trans (congrArg some hmembers), ?_, hholds⟩
    rw [← NodeValue.object.inj hmembers]
    decide +kernel
  · obtain ⟨node, hat, hid, hcell, hinputs⟩ := hnode "1"
    obtain ⟨-, hvalue, -, -, hiff⟩ := holdsLinks_iff_positionsFree hone
      (List.mem_of_getElem? hat) hcell (hinputs ▸ rfl : node.inputs[0]? = some drawerSlot) rfl
      (by decide +kernel)
    have hspelled : ¬ Link.PositionsFree ((drawers "1").linksInto drawerSlot) := by
      rw [← Link.nodup_entryKeys_iff (by decide +kernel)]
      decide +kernel
    rw [hid, hinputs] at hvalue
    refine ⟨_, hvalue hname, by decide +kernel, fun hholds => hspelled (hiff.1 ?_)⟩
    intro value hsome
    exact ⟨_, (Option.some.inj hsome).symm, hholds⟩

end Graph

end SlotGraph
