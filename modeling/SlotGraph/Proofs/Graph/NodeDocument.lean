import SlotGraph.Graph.Document
import SlotGraph.Proofs.Graph.Counters
import SlotGraph.Proofs.Json.Members
import SlotGraph.Proofs.Json.Numbers

/-!
# Nodes and links read back from their documents

A document says of a node all but its links and its last result.  A node that was made
from a template is read back, from this template, as it was without these; a link is
read back as it was.
-/

namespace SlotGraph

namespace Text

theorem digitChar_opens {d : Nat} (h : d < 10) :
    isBlank (Nat.digitChar d) = false ∧
      ∀ rest, takeSign (Nat.digitChar d :: rest) = (false, Nat.digitChar d :: rest) := by
  have hall : ∀ d < 10, isBlank (Nat.digitChar d) = false ∧
      Nat.digitChar d ≠ '-' ∧ Nat.digitChar d ≠ '+' := by
    decide
  obtain ⟨hblank, hminus, hplus⟩ := hall d h
  refine ⟨hblank, fun rest => ?_⟩
  unfold takeSign
  split
  · next heq =>
      exact absurd (List.cons.inj heq).1 hminus
  · next heq =>
      exact absurd (List.cons.inj heq).1 hplus
  · rfl

/-- A 64-bit number is read back from its digits. -/
theorem leadingUInt64?_toString {n : Nat} (h : n < 2 ^ 64) :
    leadingUInt64? (toString n).toList = some n := by
  obtain ⟨first, digits, hdigits, hsmall, hvalue, -⟩ := Json.exists_digits n
  obtain ⟨hblank, hsign⟩ := digitChar_opens (hsmall first List.mem_cons_self)
  have htext : (toString n).toList = Nat.digitChar first :: digits.map Nat.digitChar := by
    rw [Nat.toString_eq_repr, Nat.toList_repr, hdigits, List.map_cons]
  have htrim : trimStart (Nat.digitChar first :: digits.map Nat.digitChar) =
      Nat.digitChar first :: digits.map Nat.digitChar := by
    rw [trimStart, List.dropWhile_cons, hblank]
    rfl
  have hinteger : leadingInteger? (toString n).toList = some (false, n) := by
    rw [leadingInteger?, htext, htrim]
    simp only [hsign]
    rw [← List.map_cons, Json.takeDigits_map hsmall]
    exact congrArg (fun size => some (false, size)) hvalue
  rw [leadingUInt64?, hinteger, Option.bind_some]
  simp only [Nat.not_le.2 h, if_false, Bool.false_eq_true]

end Text

namespace Feed

@[simp] theorem unlinked_unlinked (feed : Feed) : feed.unlinked.unlinked = feed.unlinked := by
  cases feed <;> rfl

@[simp] theorem native?_unlinked (feed : Feed) : feed.unlinked.native? = feed.native? := by
  cases feed <;> rfl

/-- Without links a slot is a fresh one that its native value was put into. -/
theorem unlinked_of_native {feed : Feed} {cell : NativeCell} (h : feed.native? = some cell) :
    feed.unlinked = (ofIntake feed.intake).setNative cell.value := by
  cases feed with
  | single link native =>
      obtain rfl : native = some cell := h
      rfl
  | many keyed links =>
      simp [native?] at h

theorem unlinked_of_no_native {feed : Feed} (h : feed.native? = none) :
    feed.unlinked = ofIntake feed.intake := by
  cases feed with
  | single link native =>
      obtain rfl : native = none := h
      rfl
  | many keyed links =>
      rfl

@[simp] theorem setNative_setNative (value other : Json) (feed : Feed) :
    (feed.setNative other).setNative value = feed.setNative value := by
  cases feed with
  | single link native =>
      cases native <;> rfl
  | many keyed links =>
      rfl

end Feed

namespace Node

/-- The node as a document shows it: without links and without its last result. -/
def bare (node : Node) : Node :=
  { node with
    inputs := node.inputs.map fun input => { input with feed := input.feed.unlinked }
    outputs := node.outputs.map fun output => { output with links := [], cached := none } }

/-- Whether the node was made from a template; since then only its size may have changed. -/
structure MadeFrom (template : NodeTemplate) (node : Node) : Prop where
  shape : node.shape = { template with width := node.width, height := node.height }
  title : node.title = template.title

variable {template : NodeTemplate} {node : Node}

@[simp] theorem bare_bare (node : Node) : node.bare.bare = node.bare := by
  simp [bare, Function.comp_def]

@[simp] theorem bare_unlinked (node : Node) : node.bare.unlinked = node.bare := by
  simp [bare, unlinked, Function.comp_def]

theorem MadeFrom.schemaName (h : node.MadeFrom template) :
    node.schemaName = template.schemaName :=
  congrArg NodeTemplate.schemaName h.shape

theorem MadeFrom.className (h : node.MadeFrom template) :
    node.className = template.className :=
  congrArg NodeTemplate.className h.shape

theorem MadeFrom.inputs (h : node.MadeFrom template) :
    node.inputs.map InputSlot.spec = template.inputs :=
  congrArg NodeTemplate.inputs h.shape

theorem MadeFrom.outputs (h : node.MadeFrom template) :
    node.outputs.map OutputSlot.spec = template.outputs :=
  congrArg NodeTemplate.outputs h.shape

/-- Fresh from its template, a node has bare slots and its own size. -/
theorem MadeFrom.ofTemplate (template : NodeTemplate) (id : NodeId) :
    (Node.ofTemplate template id).MadeFrom template where
  shape := shape_ofTemplate template id
  title := rfl

end Node

namespace Graph

/-! ## Native values -/

def nativeOf? (entry : String × Json) : Option (Nat × Json) :=
  (Text.leadingUInt64? entry.1.toList).bind fun slot =>
    Option.map (fun value => (slot, value)) <| nativeEntry? entry.2

def applyEntries (slot : Nat) (entries : List (String × Json)) (feed : Feed) : Feed :=
  entries.foldl
    (fun feed entry =>
      match nativeOf? entry with
      | some (position, value) => if position = slot then feed.setNative value else feed
      | none => feed)
    feed

theorem applyNatives_eq (node : Node) (entries : List (String × Json)) :
    applyNatives node entries =
      { node with
        inputs := node.inputs.mapIdx fun slot input =>
          { input with feed := applyEntries slot entries input.feed } } := by
  induction entries generalizing node with
  | nil =>
      have hsame : (node.inputs.mapIdx fun _ input => input) = node.inputs :=
        List.ext_getElem? fun slot => by simp
      exact congrArg (fun inputs => { node with inputs := inputs }) hsame.symm
  | cons entry rest ih =>
      have hstep : applyNatives node (entry :: rest) =
          applyNatives (match nativeOf? entry with
            | some (position, value) => node.modifyFeed position (Feed.setNative value)
            | none => node) rest := by
        obtain ⟨key, source⟩ := entry
        rw [applyNatives, List.foldl_cons, ← applyNatives, nativeOf?]
        dsimp only
        cases Text.leadingUInt64? key.toList <;> cases nativeEntry? source <;> rfl
      rw [hstep, ih]
      cases hentry : nativeOf? entry with
      | none =>
          simp only [applyEntries, List.foldl_cons, hentry]
      | some pair =>
          obtain ⟨position, value⟩ := pair
          refine congrArg (fun inputs => { node with inputs := inputs }) ?_
          refine List.ext_getElem? fun slot => ?_
          simp only [Node.modifyFeed, List.getElem?_mapIdx, List.getElem?_modify]
          cases node.inputs[slot]? with
          | none =>
              rfl
          | some input =>
              by_cases hslot : position = slot <;>
                simp [applyEntries, hentry, hslot]

theorem applyEntries_of_none {slot : Nat} {entries : List (String × Json)}
    (h : ∀ entry ∈ entries, ∀ value, nativeOf? entry ≠ some (slot, value)) (feed : Feed) :
    applyEntries slot entries feed = feed := by
  induction entries with
  | nil =>
      rfl
  | cons entry rest ih =>
      have hrest := ih fun other hother => h other (List.mem_cons_of_mem _ hother)
      have hfirst := h entry List.mem_cons_self
      rw [applyEntries] at hrest ⊢
      rw [List.foldl_cons]
      cases hentry : nativeOf? entry with
      | none =>
          exact hrest
      | some pair =>
          obtain ⟨position, value⟩ := pair
          have hother : position ≠ slot := by
            rintro rfl
            exact hfirst value hentry
          simpa only [if_neg hother] using hrest

theorem applyEntries_of_some {slot : Nat} {value : Json} {entries : List (String × Json)}
    (hagree : ∀ entry ∈ entries, ∀ other, nativeOf? entry = some (slot, other) → other = value)
    (hsome : ∃ entry ∈ entries, nativeOf? entry = some (slot, value)) (feed : Feed) :
    applyEntries slot entries feed = feed.setNative value := by
  induction entries generalizing feed with
  | nil =>
      simp at hsome
  | cons entry rest ih =>
      have hagreeRest := fun other hother => hagree other (List.mem_cons_of_mem entry hother)
      -- Whether a later entry gives the value again or none does, the slot ends with it.
      have hrest : ∀ feed : Feed,
          applyEntries slot rest (feed.setNative value) = feed.setNative value := by
        intro feed
        by_cases hlater : ∃ other ∈ rest, nativeOf? other = some (slot, value)
        · rw [ih hagreeRest hlater, Feed.setNative_setNative]
        · refine applyEntries_of_none (fun other hother given hgiven => ?_) _
          obtain rfl := hagreeRest other hother given hgiven
          exact hlater ⟨other, hother, hgiven⟩
      rw [applyEntries, List.foldl_cons]
      by_cases hhere : nativeOf? entry = some (slot, value)
      · simp only [hhere, if_true]
        exact hrest feed
      · have hlater : ∃ other ∈ rest, nativeOf? other = some (slot, value) := by
          obtain ⟨other, hother, hgiven⟩ := hsome
          rcases List.mem_cons.1 hother with rfl | hmem
          · exact absurd hgiven hhere
          · exact ⟨other, hmem, hgiven⟩
        cases hentry : nativeOf? entry with
        | none =>
            exact ih hagreeRest hlater feed
        | some pair =>
            obtain ⟨position, given⟩ := pair
            have hother : position ≠ slot := by
              rintro rfl
              rw [hagree entry List.mem_cons_self given hentry] at hentry
              exact hhere hentry
            simp only [if_neg hother]
            exact ih hagreeRest hlater feed

theorem mem_nativesDocument {slots : List InputSlot} {entry : String × Json} :
    entry ∈ (nativesDocument slots).members ↔
      ∃ (slot : Nat) (input : InputSlot) (cell : NativeCell), slots[slot]? = some input ∧
        input.feed.native? = some cell ∧
        entry = (toString slot, nativeDocument input cell) := by
  have hnamed : nativesDocument slots = Json.ofMembers (slots.zipIdx.filterMap fun indexed =>
      (indexed.1.feed.native?.map (nativeDocument indexed.1)).map
        (Prod.mk (toString indexed.2))) := by
    rw [nativesDocument]
    congr 1
    refine List.filterMap_congr fun indexed _ => ?_
    rw [Option.map_map]
    rfl
  have hdistinct : (slots.zipIdx.map fun indexed => toString indexed.2).Nodup := by
    rw [← Function.comp_def toString Prod.snd, ← List.map_map, List.zipIdx_map_snd]
    exact List.Nodup.map (fun _ _ => Text.toString_injective) List.nodup_range'
  rw [hnamed, Json.mem_ofMembers_of_nodup (Json.nodup_named hdistinct),
    Json.mem_named]
  constructor
  · rintro ⟨⟨input, slot⟩, hindexed, hname, hvalue⟩
    obtain ⟨cell, hcell, hvalue⟩ := Option.map_eq_some_iff.1 hvalue
    exact ⟨slot, input, cell, List.mk_mem_zipIdx_iff_getElem?.1 hindexed, hcell,
      Prod.ext hname.symm hvalue.symm⟩
  · rintro ⟨slot, input, cell, hslot, hcell, rfl⟩
    exact ⟨(input, slot), List.mk_mem_zipIdx_iff_getElem?.2 hslot, rfl,
      by simp only [hcell, Option.map_some]⟩

theorem nativeOf?_nativeDocument {slot : Nat} (h : slot < 2 ^ 64) (input : InputSlot)
    (cell : NativeCell) :
    nativeOf? (toString slot, nativeDocument input cell) = some (slot, cell.value) := by
  rw [nativeOf?, Text.leadingUInt64?_toString h]
  rfl

/-- The native values of a node are put back into its slots. -/
theorem applyEntries_nativesDocument {slots : List InputSlot} (hslots : slots.length ≤ 2 ^ 64)
    {slot : Nat} {input : InputSlot} (hinput : slots[slot]? = some input) :
    applyEntries slot (nativesDocument slots).members (Feed.ofIntake input.feed.intake) =
      input.feed.unlinked := by
  have hfits : ∀ {position : Nat} {other : InputSlot}, slots[position]? = some other →
      position < 2 ^ 64 := by
    intro position other hother
    have hlt := (List.getElem?_eq_some_iff.1 hother).1
    omega
  -- An entry for this slot comes from this slot.
  have hgives : ∀ entry ∈ (nativesDocument slots).members, ∀ value,
      nativeOf? entry = some (slot, value) →
      ∃ cell, input.feed.native? = some cell ∧ value = cell.value := by
    intro entry hentry value hvalue
    obtain ⟨position, other, cell, hother, hcell, rfl⟩ := mem_nativesDocument.1 hentry
    rw [nativeOf?_nativeDocument (hfits hother)] at hvalue
    obtain ⟨rfl, rfl⟩ := Prod.mk.inj (Option.some.inj hvalue)
    obtain rfl := Option.some.inj (hinput.symm.trans hother)
    exact ⟨cell, hcell, rfl⟩
  cases hnative : input.feed.native? with
  | none =>
      rw [Feed.unlinked_of_no_native hnative]
      refine applyEntries_of_none (fun entry hentry value hvalue => ?_) _
      obtain ⟨cell, hcell, -⟩ := hgives entry hentry value hvalue
      rw [hnative] at hcell
      simp at hcell
  | some cell =>
      rw [Feed.unlinked_of_native hnative]
      refine applyEntries_of_some (fun entry hentry value hvalue => ?_) ?_ _
      · obtain ⟨other, hother, rfl⟩ := hgives entry hentry value hvalue
        rw [Option.some.inj (hnative.symm.trans hother)]
      · exact ⟨_, mem_nativesDocument.2 ⟨slot, input, cell, hinput, hnative, rfl⟩,
          nativeOf?_nativeDocument (hfits hinput) input cell⟩

/-! ## Nodes -/

theorem int64?_of_mem {n : Int} (hlow : 0 ≤ n) (hhigh : n ≤ lastId) :
    (Json.int n).int64? = some n := by
  unfold lastId at hhigh
  rw [Json.int64?, Json.integer?, Option.map_some, Int.bmod_eq_of_le] <;> omega

section

variable (node : Node)

theorem id_nodeDocument (hlow : 0 ≤ node.id) (hhigh : node.id ≤ lastId) :
    (nodeDocument node).int64At "id" = node.id := by
  have hread : (nodeDocument node).int64At "id" = ((Json.int node.id).int64?).getD 0 := rfl
  rw [hread, int64?_of_mem hlow hhigh]
  rfl

theorem names_nodeDocument :
    (nodeDocument node).textAt "schema_name" = node.schemaName ∧
      (nodeDocument node).textAt "class_name" = node.className ∧
      (nodeDocument node).textAt "type" = node.title := by
  cases hcell : node.cell <;> simp [nodeDocument, hcell, Json.textAt, Json.get?, Json.members,
    List.lookup_cons, Json.string?]

theorem placement_nodeDocument :
    (nodeDocument node).pairAt? "pos" = some (node.x, node.y) ∧
      (nodeDocument node).pairAt? "size" = some (node.width, node.height) := by
  cases hcell : node.cell <;> simp [nodeDocument, hcell, Json.pairAt?, Json.get?, Json.members,
    List.lookup_cons, Json.double?]

theorem natives_nodeDocument :
    ((nodeDocument node).get? "native_inputs").map Json.members =
      some (nativesDocument node.inputs).members :=
  rfl

theorem property_nodeDocument :
    ((nodeDocument node).get? "properties").bind (fun properties => properties.get? "value") =
      node.cell.map NativeCell.value := by
  cases hcell : node.cell <;> simp [nodeDocument, hcell, Json.get?, Json.members, List.lookup_cons]

end

/-- The slots of a fresh node with the native values put back are those of the node. -/
theorem inputs_readBack {inputs : List InputSlot} (hslots : inputs.length ≤ 2 ^ 64) :
    (inputs.map fun input => InputSlot.ofSpec input.spec).mapIdx (fun slot input =>
        { input with feed := applyEntries slot (nativesDocument inputs).members input.feed }) =
      inputs.map fun input => { input with feed := input.feed.unlinked } := by
  refine List.ext_getElem? fun slot => ?_
  rw [List.getElem?_mapIdx, List.getElem?_map, List.getElem?_map]
  cases hinput : inputs[slot]? with
  | none =>
      rfl
  | some input =>
      have hfeed := applyEntries_nativesDocument hslots hinput
      simp only [Option.map_some, InputSlot.ofSpec, InputSlot.spec, hfeed]

/-- A node made from a template is read back from its document without its links. -/
theorem nodeOfDocument_nodeDocument {template : NodeTemplate} {node : Node}
    (hmade : node.MadeFrom template) (hlow : 0 ≤ node.id) (hhigh : node.id ≤ lastId)
    (hslots : node.inputs.length ≤ 2 ^ 64) :
    nodeOfDocument template (nodeDocument node) = node.bare := by
  obtain ⟨hpos, hsize⟩ := placement_nodeDocument node
  have hcell : template.valueKind = node.cell.map NativeCell.kind :=
    (congrArg NodeTemplate.valueKind hmade.shape).symm
  have houtputs : template.outputs = node.outputs.map OutputSlot.spec :=
    (congrArg NodeTemplate.outputs hmade.shape).symm
  rw [nodeOfDocument, id_nodeDocument node hlow hhigh, natives_nodeDocument, applyPlacement,
    hpos, hsize, applyNatives_eq, applyProperty, property_nodeDocument]
  simp only [Node.ofTemplate, Option.getD_some, ← hmade.inputs, hcell, houtputs, Option.map_map,
    List.map_map]
  have hkey : template.key = node.template := (congrArg NodeTemplate.key hmade.shape).symm
  have hroot : template.isRoot = node.isRoot :=
    (congrArg NodeTemplate.isRoot hmade.shape).symm
  rw [hkey, hroot, ← hmade.schemaName, ← hmade.className, ← hmade.title]
  cases hvalue : node.cell <;>
    simp [Node.bare, hvalue, Function.comp_def, OutputSlot.spec, inputs_readBack hslots]

/-! ## Links -/

/-- A slot number is read back from the signed number that it is written as. -/
theorem slotNumber_bmod {slot : Nat} (h : slot < 2 ^ 64) :
    slotNumber ((slot : Int).bmod (2 ^ 64)) = slot := by
  have hmod : ((slot : Int).bmod (2 ^ 64)) % (2 ^ 64 : Nat) = (slot : Int) % (2 ^ 64 : Nat) :=
    Int.bmod_emod
  show (((slot : Int).bmod (2 ^ 64)) % (2 ^ 64 : Nat)).toNat = slot
  rw [hmod]
  omega

/-- A link whose numbers fit is read back from its document. -/
theorem linkOfDocument_linkDocument {link : Link} (hid : 0 ≤ link.id ∧ link.id ≤ lastId)
    (horigin : 0 ≤ link.origin ∧ link.origin ≤ lastId)
    (htarget : 0 ≤ link.target ∧ link.target ≤ lastId)
    (hslots : link.originSlot < 2 ^ 64 ∧ link.targetSlot < 2 ^ 64) :
    linkOfDocument (linkDocument link) = link := by
  have hread : ∀ key n, (linkDocument link).get? key = some (.int n) → 0 ≤ n → n ≤ lastId →
      (linkDocument link).int64At key = n := by
    intro key n hget hlow hhigh
    rw [Json.int64At, hget, Option.bind_some, int64?_of_mem hlow hhigh]
    rfl
  have hslot : ∀ key (slot : Nat), (linkDocument link).get? key = some (.int slot) →
      slot < 2 ^ 64 → slotNumber ((linkDocument link).int64At key) = slot := by
    intro key slot hget hlt
    rw [Json.int64At, hget, Option.bind_some, Json.int64?, Json.integer?, Option.map_some,
      Option.getD_some, slotNumber_bmod hlt]
  have hkey : (linkDocument link).textAt "key" = link.key := by
    by_cases hempty : link.key = "" <;> simp [linkDocument, hempty, Json.textAt, Json.get?,
      Json.members, List.lookup_cons, Json.string?]
  have hget : (linkDocument link).get? "id" = some (.int link.id) ∧
      (linkDocument link).get? "origin_id" = some (.int link.origin) ∧
      (linkDocument link).get? "origin_slot" = some (.int link.originSlot) ∧
      (linkDocument link).get? "target_id" = some (.int link.target) ∧
      (linkDocument link).get? "target_slot" = some (.int link.targetSlot) ∧
      (linkDocument link).get? "type" = some (.str link.type) := by
    by_cases hempty : link.key = "" <;> simp [linkDocument, hempty, Json.get?, Json.members,
      List.lookup_cons]
  obtain ⟨hgetId, hgetOrigin, hgetOriginSlot, hgetTarget, hgetTargetSlot, hgetType⟩ := hget
  rw [linkOfDocument, hread _ _ hgetId hid.1 hid.2, hread _ _ hgetOrigin horigin.1 horigin.2,
    hread _ _ hgetTarget htarget.1 htarget.2, hslot _ _ hgetOriginSlot hslots.1,
    hslot _ _ hgetTargetSlot hslots.2, hkey, Json.textAt, hgetType]
  rfl

end Graph

end SlotGraph
