import SlotGraph.Proofs.Config.Entries
import SlotGraph.Proofs.Config.Natives
import SlotGraph.Proofs.Config.Rows
import SlotGraph.Proofs.Graph.Counters
import SlotGraph.Proofs.Graph.Evaluation
import SlotGraph.Proofs.Graph.Removals
import SlotGraph.Proofs.Session.Reload

/-!
# Values that are linked in and values that are typed in

A value reaches the document in two ways: a value node is linked into a native slot and its
value is written in place of the link, or the value stands in the native cell of the slot.
A slot may be left out for its value, and text that spells out an array or object becomes
one; in place of a link every value is written, and as it is.  Apart from that both ways
lead to the same document.
-/

namespace SlotGraph

/-! ## One value, converted twice -/

/--
Whether a slot is left out for a value that is not empty: an optional boolean one is, for
all but booleans and the text `true`.
-/
def NativeKind.leavesOut (kind : NativeKind) (optional : Bool) : Json → Bool
  | .bool _ => false
  | value => decide (kind = .boolean) && optional && value.string? != some "true"

/-- Whether a native slot writes of a value what a value node of its kind puts out. -/
structure NativeKind.Agrees (kind : NativeKind) (optional : Bool) (value : Json) : Prop where
  kept : kind.leavesOut optional value = false
  /-- What is put out is no text that spells out an array or object. -/
  plain : ∀ text, kind.coerceProperty value = .str text → Build.spelledOut? text = none

namespace NativeKind

theorem leavesOut_of_ne {kind : NativeKind} (hkind : kind ≠ .boolean) (optional : Bool)
    (value : Json) : kind.leavesOut optional value = false := by
  cases value <;> simp [leavesOut, hkind]

theorem leavesOut_iff {kind : NativeKind} {optional : Bool} {value : Json}
    (hblank : isBlankValue value = false) :
    kind.leavesOut optional value = true ↔ optional = true ∧ kind.LeftOut value := by
  cases value <;>
    simp_all [leavesOut, LeftOut, isBlankValue, Json.string?, and_assoc, and_comm]

/-- A slot that is not left out makes of a value what a value node makes of it. -/
theorem coerceInput?_eq (kind : NativeKind) (optional : Bool) {value : Json}
    (hblank : isBlankValue value = false) :
    kind.coerceInput? optional value =
      if kind.leavesOut optional value then none else some (kind.coerceProperty value) := by
  have hleft : kind.leavesOut optional value = true ↔ optional = true ∧ kind.LeftOut value :=
    leavesOut_iff hblank
  split
  case isTrue hout =>
    obtain ⟨rfl, hvalue⟩ := hleft.1 hout
    exact coerceInput?_of_leftOut hvalue
  case isFalse hkept =>
    exact coerceInput?_of_kept fun hoptional hvalue => hkept (hleft.2 ⟨hoptional, hvalue⟩)

theorem ordered_emptyCollection (kind : NativeKind) : kind.emptyCollection.Ordered := by
  cases kind <;> exact fun _ hinner => List.mem_singleton.1 hinner ▸ .nil

theorem ordered_zero (kind : NativeKind) : kind.zero.Ordered := by
  cases kind with
  | string | integer | float | boolean =>
      exact Json.ordered_of_scalar rfl
  | list | dict | set | tuple =>
      exact fun _ hinner => List.mem_singleton.1 hinner ▸ .nil

theorem ordered_toCollection (kind : NativeKind) {value : Json} (h : value.Ordered) :
    (kind.toCollection value).Ordered := by
  cases value with
  | arr items =>
      exact h
  | obj members =>
      exact h
  | str text =>
      rw [toCollection]
      cases hread : Json.parse? text with
      | none =>
          exact ordered_emptyCollection kind
      | some read =>
          exact Json.ordered_of_parse? hread
  | _ =>
      exact ordered_emptyCollection kind

theorem ordered_coerceProperty (kind : NativeKind) {value : Json} (h : value.Ordered) :
    (kind.coerceProperty value).Ordered := by
  have hscalar : ∀ {result : Json}, result.isStructured = false → result.Ordered :=
    Json.ordered_of_scalar
  unfold coerceProperty
  split
  · split <;> exact hscalar rfl
  · split
    · exact ordered_zero kind
    · split
      · cases value <;> exact hscalar rfl
      · split
        · cases value <;> exact hscalar rfl
        · split
          · exact ordered_toCollection kind h
          · exact h

end NativeKind

namespace Build

theorem isStructured_of_readValue {limit : Nat} {first : Char} {text rest : List Char}
    {value : Json} (hfirst : first = '\x7b' ∨ first = '[')
    (h : Json.readValue limit (first :: text) = some (value, rest)) :
    value.isStructured = true := by
  cases limit with
  | zero =>
      simp [Json.readValue] at h
  | succ limit =>
      rcases hfirst with rfl | rfl
      all_goals
        rw [Json.readValue] at h
        split at h
        · cases h
          rfl
        · obtain ⟨⟨inner, behind⟩, -, heq⟩ := Option.map_eq_some_iff.1 h
          cases heq
          rfl

theorem isStructured_of_spelledOut? {text : String} {value : Json}
    (h : spelledOut? text = some value) : value.isStructured = true := by
  rw [spelledOut?] at h
  split at h
  · next hlooks =>
      cases hchars : text.toList with
      | nil =>
          rw [hchars] at hlooks
          exact absurd hlooks (by decide)
      | cons first chars =>
          have hfirst : first = '\x7b' ∨ first = '[' := by
            rw [hchars] at hlooks
            simp only [looksStructured, List.head?_cons, List.getLast?_cons] at hlooks
            grind
          have hbody : Json.skipSpace (Json.dropMark text.toList) = first :: chars := by
            rw [hchars]
            rcases hfirst with rfl | rfl <;> rfl
          simp only [Json.parse?, hbody] at h
          split at h
          · next hread =>
              split at h
              · rw [← Option.some.inj h]
                exact isStructured_of_readValue hfirst hread
              · cases h
          · cases h
  · cases h

variable {g g' : Graph} {schema : Schema}

/-- Plain data in order is written as it is, all but a text that spells out something. -/
theorem writeMember_ofJson_iff (g : Graph) (schema : Schema) {value : Json} (h : value.Ordered) :
    writeMember g schema (NodeValue.ofJson value) = value ↔
      ∀ text, value = .str text → spelledOut? text = none := by
  have hplain := NodeValue.toJson_ofJson (resolve g schema) value h
  cases value with
  | str text =>
      show (spelledOut? text).getD (.str text) = .str text ↔ _
      constructor
      · intro hkept other hother
        rw [← Json.str.inj hother]
        cases hspelled : spelledOut? text with
        | none =>
            rfl
        | some read =>
            have hstructured := isStructured_of_spelledOut? hspelled
            rw [hspelled, Option.getD_some] at hkept
            rw [hkept] at hstructured
            cases hstructured
      · intro hnone
        rw [hnone text rfl, Option.getD_none]
  | _ =>
      exact iff_of_true hplain fun _ heq => by cases heq

/--
A value that is typed into a slot is written as what a value node puts out for it, exactly
where the two agree.
-/
theorem written_typed_iff {kind : NativeKind} {optional : Bool} {value : Json}
    (hordered : value.Ordered) (hblank : NativeKind.isBlankValue value = false) :
    ((kind.coerceInput? optional value).map NodeValue.ofJson).map (writeMember g schema) =
        some (kind.coerceProperty value) ↔ kind.Agrees optional value := by
  have hwritten := writeMember_ofJson_iff g schema (kind.ordered_coerceProperty hordered)
  rw [kind.coerceInput?_eq optional hblank]
  cases hleft : kind.leavesOut optional value with
  | true =>
      rw [if_pos rfl]
      exact iff_of_false nofun fun h => Bool.false_ne_true (h.kept.symm.trans hleft)
  | false =>
      rw [if_neg Bool.false_ne_true, Option.map_some, Option.map_some, Option.some.injEq, hwritten]
      exact ⟨fun hplain => ⟨hleft, hplain⟩, fun h => h.plain⟩

/-! ## What is written of a slot -/

def slotMember? (g : Graph) (schema : Schema) (slot : InputSlot) : Option (String × Json) :=
  (g.slotValue? slot).map fun value => (slot.name, writeMember g schema value)

theorem writeMembers_slotMembers_congr {slots slots' : List InputSlot}
    (h : slots'.filterMap (slotMember? g' schema) = slots.filterMap (slotMember? g schema)) :
    writeMembers g' schema (g'.slotMembers slots') =
      writeMembers g schema (g.slotMembers slots) := by
  refine NodeValue.putAll_congr ?_
  simp only [List.map_filterMap, Option.map_map]
  exact h

theorem row_congr {node node' : Node} (hfaces : g'.nodes.map Node.face = g.nodes.map Node.face)
    (hface : node'.face = node.face)
    (hslots : node'.inputs.filterMap (slotMember? g' schema) =
      node.inputs.filterMap (slotMember? g schema)) : row g' schema node' = row g schema node := by
  have hcell : node'.cell = node.cell := by
    show node'.face.cell = node.face.cell
    rw [hface]
  have hmembers : writeMembers g' schema (g'.nodeValue node').members =
      writeMembers g schema (g.nodeValue node).members := by
    rw [Graph.nodeValue, Graph.nodeValue, hcell]
    cases node.cell with
    | some cell =>
        rw [writeMembers, writeMembers, writeMember_congr schema hfaces]
    | none =>
        exact writeMembers_slotMembers_congr hslots
  rw [row, row, hface, hmembers]

end Build

/-! ## A value node and a slot of its kind -/

namespace Graph

variable {g : Graph}

/-- A value node, and a native slot of a node that takes values of the same kind. -/
structure Supplies (g : Graph) (o t : NodeId) (ts : Nat) (cell : NativeCell)
    (input : InputSlot) : Prop where
  value : (g.findNode? o).bind Node.cell = some cell
  slot : g.inputAt? t ts = some input
  kind : input.feed.native?.map NativeCell.kind = some cell.kind

variable {o t : NodeId} {ts : Nat} {cell : NativeCell} {input : InputSlot}

theorem Supplies.feed_eq (h : g.Supplies o t ts cell input) :
    ∃ held native, input.feed = .single held (some native) ∧ native.kind = cell.kind := by
  obtain ⟨native, hnative, hkind⟩ := Option.map_eq_some_iff.1 h.kind
  cases hfeed : input.feed with
  | single held own =>
      rw [hfeed] at hnative
      exact ⟨held, native, congrArg (Feed.single held) hnative, hkind⟩
  | many keyed links =>
      rw [hfeed] at hnative
      cases hnative

theorem exists_supplies {kind : NativeKind} {text : String}
    (hvalue : ((g.findNode? o).bind Node.cell).any
      (fun cell => decide (cell.kind = kind) && cell.value.string? == some text) = true)
    (hslot : (g.inputAt? t ts).any
      (fun input => input.feed.native?.map NativeCell.kind == some kind) = true) :
    ∃ input, g.Supplies o t ts ⟨kind, .str text⟩ input := by
  obtain ⟨⟨own, value⟩, hcell, hown⟩ := (Option.any_eq_true _ _).1 hvalue
  obtain ⟨input, hinput, hnative⟩ := (Option.any_eq_true _ _).1 hslot
  simp only [Bool.and_eq_true, decide_eq_true_eq, beq_iff_eq] at hown hnative
  obtain ⟨rfl, htext⟩ := hown
  cases value with
  | str other =>
      obtain rfl := Option.some.inj htext
      exact ⟨input, hcell, hinput, hnative⟩
  | _ =>
      cases htext

theorem faces_restrict (g : Graph) (holds : Link → Bool) :
    (g.restrict (fun _ => true) holds).nodes.map Node.face = g.nodes.map Node.face := by
  rw [restrict, List.filter_true, List.map_map]
  rfl

theorem WellFormed.faces_clearInput (h : g.WellFormed) (id : NodeId) (slot : Nat) :
    (g.clearInput id slot).2.nodes.map Node.face = g.nodes.map Node.face := by
  rw [h.clearInput_eq]
  exact g.faces_restrict _

/-- Clearing the slot leaves it unlinked, with the native value that it had. -/
theorem Supplies.clearInput (h : g.Supplies o t ts cell input) (hwf : g.WellFormed) :
    ∃ native, native.kind = cell.kind ∧
      (g.clearInput t ts).2.Supplies o t ts cell
        { input with feed := .single none (some native) } := by
  obtain ⟨held, native, hfeed, hkind⟩ := h.feed_eq
  refine ⟨native, hkind, ?_, ?_, congrArg some hkind⟩
  · rw [Build.cell_congr (hwf.faces_clearInput t ts), h.value]
  · have hthin : (input.feed.thin fun id => (g.findLink? id).any fun link =>
        !link.enters t ts) = .single none (some native) := by
      rw [hfeed, Feed.thin]
      congr 1
      cases held with
      | none =>
          rfl
      | some id =>
          obtain ⟨node, hfind, hinput⟩ := Option.bind_eq_some_iff.1 h.slot
          have hid : id ∈ input.feed.links := by
            simp [hfeed, Feed.links]
          have hlists : node.Lists id := .inl ⟨input, List.mem_of_getElem? hinput, hid⟩
          obtain ⟨link, hlink, rfl⟩ := hwf.isSome_of_lists (findNode?_mem hfind).1 hlists
          have henters := (hwf.mem_inputAt?_iff h.slot hlink).1 hid
          simp [Option.filter, hwf.findLink?_eq hlink, henters]
    rw [hwf.clearInput_eq, inputAt?_restrict, h.slot, Option.map_some, hthin]

theorem inputAt?_setNative (g : Graph) (id : NodeId) (slot : Nat) (value : Json) :
    (g.modifyNode id fun node => node.modifyFeed slot (Feed.setNative value)).inputAt? id slot =
      (g.inputAt? id slot).map fun input =>
        { input with feed := input.feed.setNative value } := by
  have hnodes := g.findNode?_modifyNode id
    (fun _ => rfl : ∀ node : Node, (node.modifyFeed slot (Feed.setNative value)).id = node.id) id
  rw [inputAt?, inputAt?, hnodes]
  cases hfind : g.findNode? id with
  | none =>
      rfl
  | some node =>
      rw [Option.map_some, if_pos (findNode?_mem hfind).2, Option.bind_some, Option.bind_some,
        Node.modifyFeed, List.getElem?_modify_eq]
      rfl

theorem setNative?_eq {id : NodeId} {slot : Nat} (hinput : g.inputAt? id slot = some input)
    {native : NativeCell} (hnative : input.feed.native? = some native) (value : Json) :
    g.setNative? id slot value =
      some (g.modifyNode id fun node => node.modifyFeed slot (Feed.setNative value)) := by
  obtain ⟨node, hfind, hslot⟩ := Option.bind_eq_some_iff.1 hinput
  have hcell : ((g.findNode? id).bind fun node => node.nativeAt? slot) = some native := by
    rw [hfind, Option.bind_some, Node.nativeAt?, hslot, Option.bind_some, hnative]
  rw [setNative?, hcell]
  rfl

end Graph

namespace Build

variable {g : Graph} {schema : Schema} {o t : NodeId} {ts : Nat} {cell : NativeCell}
  {input : InputSlot}

/-- A link from a value node is written as what the node puts out. -/
theorem resolve_of_cell (h : g.WellFormed) (hvalue : (g.findNode? o).bind Node.cell = some cell) :
    resolve g schema o = cell.output := by
  obtain ⟨node, hfind, hcell⟩ := Option.bind_eq_some_iff.1 hvalue
  obtain ⟨hnode, rfl⟩ := Graph.findNode?_mem hfind
  have hout : node ∉ g.groupedNodes schema := fun hgrouped => by
    have hnone := ((mem_groupedNodes_iff hnode).1 hgrouped).1
    rw [hcell] at hnone
    cases hnone
  rw [resolve, groupIndex?_eq_none h hnode hout, hvalue]

theorem filterMap_modify_congr {α β : Type} {xs : List α} {i : Nat} {change change' : α → α}
    {f f' : α → Option β} (helse : ∀ x ∈ xs, f x = f' x)
    (hhere : ∀ x, xs[i]? = some x → f (change x) = f' (change' x)) :
    (xs.modify i change).filterMap f = (xs.modify i change').filterMap f' := by
  induction xs generalizing i with
  | nil =>
      rw [List.modify_nil, List.modify_nil]
      rfl
  | cons x rest ih =>
      have hrest : ∀ y ∈ rest, f y = f' y := fun y hy => helse y (List.mem_cons_of_mem x hy)
      cases i with
      | zero =>
          rw [List.modify_zero_cons, List.modify_zero_cons, List.filterMap_cons,
            List.filterMap_cons, hhere x rfl, List.filterMap_congr hrest]
      | succ i =>
          rw [List.modify_succ_cons, List.modify_succ_cons, List.filterMap_cons,
            List.filterMap_cons, helse x List.mem_cons_self, ih hrest hhere]

theorem faces_attach (g : Graph) (link : Link) :
    (g.attach link).nodes.map Node.face = g.nodes.map Node.face := by
  rw [Graph.attach, Graph.nodes_modifyEnds, List.map_map]
  rfl

theorem face_modifyFeed (node : Node) (id : NodeId) (slot : Nat) (change : Feed → Feed) :
    (if node.id = id then node.modifyFeed slot change else node).face = node.face := by
  split <;> rfl

theorem faces_setNative (g : Graph) (id : NodeId) (slot : Nat) (value : Json) :
    (g.modifyNode id fun node => node.modifyFeed slot (Feed.setNative value)).nodes.map
      Node.face = g.nodes.map Node.face := by
  rw [Graph.modifyNode, List.map_map]
  exact List.map_congr_left fun node _ => face_modifyFeed node id slot (Feed.setNative value)

theorem findLink?_attach (g : Graph) (link : Link) (id : LinkId) :
    (g.attach link).findLink? id = if link.id = id then some link else g.findLink? id :=
  Graph.findLink?_insertLink link g.links id

theorem slotMember?_congr {g' : Graph} (hfaces : g'.nodes.map Node.face = g.nodes.map Node.face)
    {slot : InputSlot} (hlinks : ∀ id ∈ slot.feed.links, g'.findLink? id = g.findLink? id) :
    slotMember? g' schema slot = slotMember? g schema slot := by
  rw [slotMember?, slotMember?, Graph.slotValue?_congr hlinks, writeMember_congr schema hfaces]

/-- A slot with a new link is written as what the link comes from. -/
theorem slotMember?_attach {link : Link} {slot : InputSlot} {native : Option NativeCell}
    (hfeed : slot.feed = .single (some link.id) native) :
    slotMember? (g.attach link) schema slot = some (slot.name, resolve g schema link.origin) := by
  have hvalue : (g.attach link).slotValue? slot = some (.ref link.origin) := by
    rw [Graph.slotValue?, hfeed]
    dsimp only
    rw [Option.bind_some, findLink?_attach, if_pos rfl]
  rw [slotMember?, hvalue, writeMember_congr schema (faces_attach g link)]
  rfl

theorem slotMember?_native {slot : InputSlot} {native : NativeCell}
    (hfeed : slot.feed = .single none (some native)) :
    slotMember? g schema slot =
      (((native.kind.coerceInput? slot.optional native.value).map NodeValue.ofJson).map
        (writeMember g schema)).map (Prod.mk slot.name) := by
  rw [slotMember?, Graph.slotValue?, hfeed, Option.map_map]
  rfl

/--
A new link from a value node into a free slot of its kind, and the value of the node in the
native cell of the slot, make one document.
-/
theorem config_attach (h : g.WellFormed) {native : NativeCell}
    (hsupplies : g.Supplies o t ts cell input) (hfree : input.feed = .single none (some native))
    (hblank : NativeKind.isBlankValue cell.value = false) (hordered : cell.value.Ordered)
    (hagrees : cell.kind.Agrees input.optional cell.value) {link : Link}
    (hnew : ∀ other ∈ g.links, other.id ≠ link.id) (horigin : link.origin = o)
    (htarget : link.target = t) (hslot : link.targetSlot = ts) :
    (ofGraph (g.attach link) schema).config =
      (ofGraph (g.modifyNode t fun node => node.modifyFeed ts (Feed.setNative cell.value))
        schema).config := by
  obtain ⟨held, own, hfeed, hkind⟩ := hsupplies.feed_eq
  obtain rfl : native = own := Option.some.inj (Feed.single.inj (hfree.symm.trans hfeed)).2
  have hfaces := (faces_attach g link).trans (faces_setNative g t ts cell.value).symm
  refine config_congr ?_
  have hnodes : (g.attach link).nodes = _ := Graph.nodes_modifyEnds _ _ _ _ _ _ _
  rw [hnodes, Graph.modifyNode, List.map_map, List.map_map]
  refine List.map_congr_left fun node hnode => row_congr hfaces ?_ ?_
  · exact (face_modifyFeed node t ts (Feed.setNative cell.value)).symm
  -- A slot that neither has the new link nor takes the value is written as before.
  have helse : ∀ slot ∈ node.inputs, slotMember? (g.attach link) schema slot =
      slotMember? (g.modifyNode t fun node => node.modifyFeed ts (Feed.setNative cell.value))
        schema slot := by
    intro slot hmem
    refine slotMember?_congr hfaces fun id hid => ?_
    obtain ⟨other, hother, rfl⟩ := h.isSome_of_lists hnode (.inl ⟨slot, hmem, hid⟩)
    rw [findLink?_attach, if_neg (hnew other hother).symm]
    rfl
  dsimp only
  by_cases hhere : node.id = t
  · rw [if_pos (hhere.trans htarget.symm), if_pos hhere, hslot]
    refine filterMap_modify_congr helse fun slot hat => ?_
    obtain rfl : slot = input := by
      have hinput := hsupplies.slot
      rw [Graph.inputAt?, ← hhere, h.findNode?_eq hnode, Option.bind_some, hat] at hinput
      exact Option.some.inj hinput
    have hlinked : ({ slot with feed := slot.feed.attach link.id } : InputSlot).feed =
        .single (some link.id) (some native) := by
      rw [hfree]
      rfl
    have htyped : ({ slot with feed := slot.feed.setNative cell.value } : InputSlot).feed =
        .single none (some cell) := by
      rw [hfree]
      show Feed.single none (some ⟨native.kind, cell.value⟩) = _
      rw [hkind]
    rw [slotMember?_attach hlinked, slotMember?_native htyped, horigin,
      resolve_of_cell h hsupplies.value, (written_typed_iff hordered hblank).2 hagrees]
    rfl
  · rw [if_neg fun heq => hhere (heq.trans htarget), if_neg hhere]
    exact List.filterMap_congr helse

end Build

namespace Session

variable {s : Session} {o t : NodeId} {os ts : Nat} {cell : NativeCell} {input : InputSlot}

/-- The session with a value typed into an input slot, after the links there are gone. -/
def typing (s : Session) (t : NodeId) (ts : Nat) (value : Json) : Session :=
  s.after [.editGraph (.clearInput t ts), .editGraph (.setNative t ts value)]

/--
In every session that a host reaches, linking a value node into a native slot of its kind
and typing its value there make one document, if the slot is not left out for the value and
the value is no text that spells out an array or object.
-/
theorem buildConfig_linked (h : s.Reachable) (hsupplies : s.graph.Supplies o t ts cell input)
    (hblank : NativeKind.isBlankValue cell.value = false) (hordered : cell.value.Ordered)
    (hagrees : cell.kind.Agrees input.optional cell.value) {id : LinkId} {linked : Session}
    (hconnect : s.connect o os t ts = (some id, linked)) (name : String) :
    (s.typing t ts cell.value).graph.inputAt? t ts =
        some { input with feed := .single none (some cell) } ∧
      (linked.buildConfig name).1 = ((s.typing t ts cell.value).buildConfig name).1 := by
  have hwf := h.sound.wellFormed
  have hfreed := hwf.clearInput t ts
  obtain ⟨native, hkind, hcleared⟩ := hsupplies.clearInput hwf
  obtain ⟨held, own, hfeed, -⟩ := hsupplies.feed_eq
  have htyping : s.typing t ts cell.value = { s with
      graph := (s.graph.clearInput t ts).2.modifyNode t fun node =>
        node.modifyFeed ts (Feed.setNative cell.value) } := by
    have hset := Graph.setNative?_eq hcleared.slot rfl cell.value
    show { s with graph := ((s.graph.clearInput t ts).2.setNative? t ts cell.value).getD _ } = _
    rw [hset, Option.getD_some]
  rw [htyping]
  constructor
  · rw [Graph.inputAt?_setNative, hcleared.slot]
    show some { input with feed := Feed.single none (some ⟨native.kind, cell.value⟩) } = _
    rw [hkind]
  · unfold Session.connect at hconnect
    split at hconnect
    · next number graph hok =>
        cases hconnect
        obtain ⟨-, target, output, slot, -, htarget, -, hslot, -, rfl, rfl⟩ :=
          Graph.connect_eq_ok_iff.1 hok
        obtain rfl : slot = input := by
          have hinput := hsupplies.slot
          rw [Graph.inputAt?, htarget, Option.bind_some, hslot] at hinput
          exact Option.some.inj hinput
        have hone : slot.feed.collects = false := by
          rw [hfeed]
          rfl
        rw [Graph.dropLinks_displaced hsupplies.slot hone]
        have hnew : ∀ other ∈ (s.graph.clearInput t ts).2.links,
            other.id ≠ Graph.nextId s.graph.lastLink := by
          intro other hother
          have hdrawn := hwf.links_numbered other (Graph.mem_links_clearInput hwf hother)
          exact Graph.ne_nextId h.sound.held.2 hdrawn.1 hdrawn.2
        rw [buildConfig_fst, buildConfig_fst]
        refine Option.map_congr fun schema _ => ?_
        exact Build.config_attach hfreed hcleared rfl hblank hordered hagrees hnew rfl rfl rfl
    · cases hconnect

def lampSource : String :=
  "class Lamp:\n  lit: Optional[bool]\n  shade: Dict[str, Any]\n  label: str\n"

/-- The text of an object that lists its members out of order. -/
def shadeText : String :=
  "\x7b\"b\": 1, \"a\": [2]\x7d"

/-- A lamp with a shade that is linked already, and two values for it. -/
def lampCalls : List Call :=
  [ .register "s" lampSource "" ""
  , .createNode "s" "Lamp" 10.0 0.5
  , .createNode "Native" "Boolean" 400.0 0.5
  , .editGraph (.setProperty 2 (.str "yes"))
  , .createNode "Native" "Dict" 400.0 250.0
  , .editGraph (.setProperty 3 (.str shadeText))
  , .createNode "Native" "Dict" 400.0 500.0
  , .connect 4 0 1 1 ]

def lampSession : Session :=
  (Session.start ImportLayout.standard).after lampCalls

theorem reachable_lampSession : lampSession.Reachable := by
  have hsource : lampSource.length < 2 ^ 64 := by
    decide +kernel
  refine (Reachable.start ImportLayout.standard).after
    ⟨⟨hsource, trivial⟩, ⟨trivial, ?_⟩, ⟨trivial, ?_⟩, ⟨⟨trivial, trivial⟩, ?_⟩, ⟨trivial, ?_⟩,
      ⟨⟨trivial, trivial⟩, ?_⟩, ⟨trivial, ?_⟩, ⟨trivial, ?_⟩, trivial⟩
  all_goals decide +kernel

/-- The shade that is linked in takes the place of the other one, and could be typed as well. -/
theorem buildConfig_linked_lamp :
    lampSession.Reachable ∧ lampSession.graph.links.map Link.id = [1] ∧
    ∃ input, lampSession.graph.Supplies 3 1 1 ⟨.dict, .str shadeText⟩ input ∧
      NativeKind.dict.Agrees input.optional (.str shadeText) ∧
      ∃ linked, lampSession.connect 3 0 1 1 = (some 2, linked) ∧
        (linked.buildConfig "s").1.map Json.render =
          some ("\x7b\"lamps\":[\x7b\"label\":\"\",\"lit\":false," ++
            "\"shade\":\x7b\"a\":[2],\"b\":1\x7d\x7d]\x7d") ∧
        (linked.buildConfig "s").1 =
          ((lampSession.typing 1 1 (.str shadeText)).buildConfig "s").1 := by
  obtain ⟨input, hsupplies⟩ : ∃ input, lampSession.graph.Supplies 3 1 1 ⟨.dict, .str shadeText⟩
      input := Graph.exists_supplies (by decide +kernel) (by decide +kernel)
  have hstructured : (NativeKind.dict.coerceProperty (.str shadeText)).isStructured = true := by
    decide +kernel
  have hagrees : NativeKind.dict.Agrees input.optional (.str shadeText) := by
    refine ⟨NativeKind.leavesOut_of_ne (by decide) _ _, fun text htext => ?_⟩
    rw [htext] at hstructured
    cases hstructured
  have hid : (lampSession.connect 3 0 1 1).1 = some 2 := by
    decide +kernel
  have hconnect : lampSession.connect 3 0 1 1 = (some 2, (lampSession.connect 3 0 1 1).2) :=
    Prod.ext hid rfl
  obtain ⟨-, hsame⟩ := buildConfig_linked reachable_lampSession hsupplies (by decide +kernel)
    (Json.ordered_of_scalar rfl) hagrees hconnect "s"
  exact ⟨reachable_lampSession, by decide +kernel, input, hsupplies, hagrees, _, hconnect,
    by decide +kernel, hsame⟩

/-- A boolean that says `yes` is written when it is linked in, and left out when it is typed in. -/
theorem not_buildConfig_linked_lamp :
    ¬∀ (s : Session) (o t : NodeId) (os ts : Nat) (cell : NativeCell) (input : InputSlot)
      (id : LinkId) (linked : Session), s.Reachable → s.graph.Supplies o t ts cell input →
      NativeKind.isBlankValue cell.value = false → cell.value.Ordered →
      s.connect o os t ts = (some id, linked) → ∀ name,
      (linked.buildConfig name).1 = ((s.typing t ts cell.value).buildConfig name).1 := by
  intro hall
  obtain ⟨input, hsupplies⟩ : ∃ input, lampSession.graph.Supplies 2 1 0 ⟨.boolean, .str "yes"⟩
      input := Graph.exists_supplies (by decide +kernel) (by decide +kernel)
  have hid : (lampSession.connect 2 0 1 0).1 = some 2 := by
    decide +kernel
  have hsame := hall lampSession 2 1 0 0 _ input 2 (lampSession.connect 2 0 1 0).2
    reachable_lampSession hsupplies (by decide +kernel) (Json.ordered_of_scalar rfl)
    (Prod.ext hid rfl) "s"
  have hlinked : ((lampSession.connect 2 0 1 0).2.buildConfig "s").1.map Json.render =
      some "\x7b\"lamps\":[\x7b\"label\":\"\",\"lit\":false,\"shade\":\x7b\x7d\x7d]\x7d" := by
    decide +kernel
  have htyped : ((lampSession.typing 1 0 (.str "yes")).buildConfig "s").1.map Json.render =
      some "\x7b\"lamps\":[\x7b\"label\":\"\",\"shade\":\x7b\x7d\x7d]\x7d" := by
    decide +kernel
  rw [hsame, htyped] at hlinked
  exact absurd hlinked (by decide +kernel)

/-- The session after a text that spells out an array was put beside the lamp. -/
def labelSession : Session :=
  lampSession.after
    [ .createNode "Native" "String" 400.0 750.0
    , .editGraph (.setProperty 5 (.str "[1]")) ]

theorem reachable_labelSession : labelSession.Reachable := by
  refine reachable_lampSession.after ⟨⟨trivial, ?_⟩, ⟨⟨trivial, trivial⟩, ?_⟩, trivial⟩
  all_goals decide +kernel

/--
It is not enough that the slot is not left out: a text that spells out an array is written as
the text when it is linked in, and as the array when it is typed in.
-/
theorem not_buildConfig_linked_label :
    ¬∀ (s : Session) (o t : NodeId) (os ts : Nat) (cell : NativeCell) (input : InputSlot)
      (id : LinkId) (linked : Session), s.Reachable → s.graph.Supplies o t ts cell input →
      NativeKind.isBlankValue cell.value = false → cell.value.Ordered →
      cell.kind.leavesOut input.optional cell.value = false →
      s.connect o os t ts = (some id, linked) → ∀ name,
      (linked.buildConfig name).1 = ((s.typing t ts cell.value).buildConfig name).1 := by
  intro hall
  obtain ⟨input, hsupplies⟩ : ∃ input, labelSession.graph.Supplies 5 1 2 ⟨.string, .str "[1]"⟩
      input := Graph.exists_supplies (by decide +kernel) (by decide +kernel)
  have hid : (labelSession.connect 5 0 1 2).1 = some 2 := by
    decide +kernel
  have hsame := hall labelSession 5 1 0 2 _ input 2 (labelSession.connect 5 0 1 2).2
    reachable_labelSession hsupplies (by decide +kernel) (Json.ordered_of_scalar rfl)
    (NativeKind.leavesOut_of_ne (by decide) _ _) (Prod.ext hid rfl) "s"
  have hlinked : ((labelSession.connect 5 0 1 2).2.buildConfig "s").1.map Json.render =
      some "\x7b\"lamps\":[\x7b\"label\":\"[1]\",\"lit\":false,\"shade\":\x7b\x7d\x7d]\x7d" := by
    decide +kernel
  have htyped : ((labelSession.typing 1 2 (.str "[1]")).buildConfig "s").1.map Json.render =
      some "\x7b\"lamps\":[\x7b\"label\":[1],\"lit\":false,\"shade\":\x7b\x7d\x7d]\x7d" := by
    decide +kernel
  rw [hsame, htyped] at hlinked
  exact absurd hlinked (by decide +kernel)

end Session

end SlotGraph
