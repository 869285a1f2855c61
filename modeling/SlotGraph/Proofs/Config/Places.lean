import SlotGraph.Config.Build
import SlotGraph.Proofs.Config.TopLevel

/-!
# Places in a value

A place is reached by steps to items and to members.  What a slot contributes to its
node is a reference, a list of them, one of them under each key, or plain data; so
written out it has at the place of each reference what the reference is written as.
-/

namespace SlotGraph

/-- One step into a value. -/
inductive Spot where
  | item (position : Nat)
  | member (key : String)

namespace Json

def at? : Json → List Spot → Option Json
  | value, [] => some value
  | .arr xs, .item position :: path => xs[position]?.bind fun x => at? x path
  | .obj ms, .member key :: path => (ms.lookup key).bind fun x => at? x path
  | _, _ => none

theorem at?_member (value : Json) (key : String) (path : List Spot) :
    value.at? (.member key :: path) = (value.get? key).bind fun x => at? x path := by
  cases value <;> simp [at?, get?, members]

end Json

namespace NodeValue

def at? : NodeValue → List Spot → Option NodeValue
  | value, [] => some value
  | .array xs, .item position :: path => xs[position]?.bind fun x => at? x path
  | .object ms, .member key :: path => (ms.lookup key).bind fun x => at? x path
  | _, _ => none

/-- The values that a slot contributes to its node, with references to known nodes. -/
inductive FromSlot (known : NodeId → Prop) : NodeValue → Prop where
  | one {id : NodeId} : known id → FromSlot known (.ref id)
  | list {ids : List NodeId} : (∀ id ∈ ids, known id) →
      FromSlot known (.array (ids.map NodeValue.ref))
  | keyed {entries : List (String × NodeId)} : (entries.map Prod.fst).Nodup →
      (∀ entry ∈ entries, known entry.2) →
      FromSlot known (.object (entries.map fun entry => (entry.1, .ref entry.2)))
  | plain (value : Json) : FromSlot known (.ofJson value)

theorem ofItems_eq (xs : List Json) : ofItems xs = xs.map ofJson := by
  induction xs with
  | nil =>
      rfl
  | cons x rest ih =>
      rw [ofItems, ih, List.map_cons]

theorem ofMembers_eq (ms : List (String × Json)) :
    ofMembers ms = ms.map fun member => (member.1, ofJson member.2) := by
  induction ms with
  | nil =>
      rfl
  | cons member rest ih =>
      rw [ofMembers, ih, List.map_cons]

theorem toItems_eq (resolve : NodeId → Json) (xs : List NodeValue) :
    toItems resolve xs = xs.map (toJson resolve) := by
  induction xs with
  | nil =>
      rfl
  | cons x rest ih =>
      rw [toItems, ih, List.map_cons]

theorem toMembers_eq (resolve : NodeId → Json) (ms : List (String × NodeValue)) :
    toMembers resolve ms = ms.map fun member => (member.1, toJson resolve member.2) := by
  induction ms with
  | nil =>
      rfl
  | cons member rest ih =>
      rw [toMembers, ih, List.map_cons]

theorem at?_ofJson_ne_ref (value : Json) (path : List Spot) (id : NodeId) :
    (ofJson value).at? path ≠ some (.ref id) := by
  induction path generalizing value with
  | nil =>
      cases value <;> simp [ofJson, at?]
  | cons place rest ih =>
      intro hat
      cases value with
      | arr xs =>
          cases place with
          | member key =>
              simp [ofJson, at?] at hat
          | item position =>
              rw [ofJson, at?, ofItems_eq, List.getElem?_map] at hat
              obtain ⟨x, hx, hat⟩ := Option.bind_eq_some_iff.1 hat
              obtain ⟨item, -, rfl⟩ := Option.map_eq_some_iff.1 hx
              exact ih item hat
      | obj ms =>
          cases place with
          | item position =>
              simp [ofJson, at?] at hat
          | member key =>
              rw [ofJson, at?, ofMembers_eq, Json.lookup_map] at hat
              obtain ⟨x, hx, hat⟩ := Option.bind_eq_some_iff.1 hat
              obtain ⟨member, -, rfl⟩ := Option.map_eq_some_iff.1 hx
              exact ih member hat
      | _ =>
          cases place <;> simp [ofJson, at?] at hat

theorem at?_ref {id other : NodeId} {path : List Spot}
    (hat : (NodeValue.ref other).at? path = some (.ref id)) : path = [] ∧ other = id := by
  cases path with
  | nil =>
      exact ⟨rfl, by simpa [at?] using hat⟩
  | cons place rest =>
      cases place <;> simp [at?] at hat

/-- At the place of a reference stands what the known node is written as. -/
theorem FromSlot.at?_toJson {known : NodeId → Prop} {value : NodeValue}
    (h : FromSlot known value) {path : List Spot} {id : NodeId}
    (hat : value.at? path = some (.ref id)) (resolve : NodeId → Json) :
    known id ∧ (value.toJson resolve).at? path = some (resolve id) := by
  cases h with
  | one hknown =>
      obtain ⟨rfl, rfl⟩ := at?_ref hat
      exact ⟨hknown, by rw [toJson, Json.at?]⟩
  | @list ids hknown =>
      cases path with
      | nil =>
          simp [at?] at hat
      | cons place rest =>
          cases place with
          | member key =>
              simp [at?] at hat
          | item position =>
              rw [at?, List.getElem?_map] at hat
              obtain ⟨item, hitem, hat⟩ := Option.bind_eq_some_iff.1 hat
              obtain ⟨other, hother, rfl⟩ := Option.map_eq_some_iff.1 hitem
              obtain ⟨rfl, rfl⟩ := at?_ref hat
              refine ⟨hknown other (List.mem_of_getElem? hother), ?_⟩
              simp [toJson, Json.at?, toItems_eq, hother]
  | @keyed entries hdistinct hknown =>
      cases path with
      | nil =>
          simp [at?] at hat
      | cons place rest =>
          cases place with
          | item position =>
              simp [at?] at hat
          | member key =>
              rw [at?, Json.lookup_map] at hat
              obtain ⟨item, hitem, hat⟩ := Option.bind_eq_some_iff.1 hat
              obtain ⟨other, hother, rfl⟩ := Option.map_eq_some_iff.1 hitem
              obtain ⟨rfl, rfl⟩ := at?_ref hat
              have hkeys : ((entries.map fun entry =>
                  (entry.1, toJson resolve (.ref entry.2))).map Prod.fst).Nodup := by
                rwa [List.map_map]
              refine ⟨hknown _ (Json.mem_of_lookup hother), ?_⟩
              rw [toJson, Json.at?_member, toMembers_eq, List.map_map]
              simp only [Function.comp_def]
              rw [Json.get?_ofMembers_of_nodup hkeys,
                Json.lookup_map (fun id => toJson resolve (.ref id)), hother]
              rfl
  | plain data =>
      exact absurd hat (at?_ofJson_ne_ref data path id)

/-! ## What slots contribute -/

/-- Members that are references to known nodes are a keyed value. -/
theorem FromSlot.object {known : NodeId → Prop} {members : List (String × NodeValue)}
    (hdistinct : (members.map Prod.fst).Nodup)
    (hrefs : ∀ member ∈ members, ∃ id, known id ∧ member.2 = .ref id) :
    FromSlot known (.object members) := by
  -- The members by the nodes that they refer to.
  have hentries : ∃ entries : List (String × NodeId), (∀ entry ∈ entries, known entry.2) ∧
      members = entries.map fun entry => (entry.1, .ref entry.2) := by
    clear hdistinct
    induction members with
    | nil =>
        exact ⟨[], by simp, rfl⟩
    | cons member rest ih =>
        obtain ⟨id, hknown, hid⟩ := hrefs member List.mem_cons_self
        obtain ⟨entries, hrest, rfl⟩ := ih fun m hm => hrefs m (List.mem_cons_of_mem _ hm)
        refine ⟨(member.1, id) :: entries, ?_, by rw [List.map_cons, ← hid]⟩
        exact List.forall_mem_cons.2 ⟨hknown, hrest⟩
  obtain ⟨entries, hknown, rfl⟩ := hentries
  refine .keyed ?_ hknown
  rwa [List.map_map] at hdistinct

theorem refsOfItems_eq (xs : List NodeValue) : refsOfItems xs = xs.flatMap refs := by
  induction xs with
  | nil =>
      rfl
  | cons x rest ih =>
      rw [refsOfItems, ih, List.flatMap_cons]

theorem refsOfMembers_eq (ms : List (String × NodeValue)) :
    refsOfMembers ms = ms.flatMap fun member => member.2.refs := by
  induction ms with
  | nil =>
      rfl
  | cons member rest ih =>
      rw [refsOfMembers, ih, List.flatMap_cons]

mutual

theorem refs_ofJson : ∀ value : Json, (ofJson value).refs = []
  | .arr xs => refsOfItems_ofItems xs
  | .obj ms => refsOfMembers_ofMembers ms
  | .null | .bool _ | .int _ | .minusZero | .float _ | .str _ => rfl

theorem refsOfItems_ofItems : ∀ xs : List Json, refsOfItems (ofItems xs) = []
  | [] => rfl
  | x :: xs => by rw [ofItems, refsOfItems, refs_ofJson x, refsOfItems_ofItems xs]; rfl

theorem refsOfMembers_ofMembers : ∀ ms : List (String × Json), refsOfMembers (ofMembers ms) = []
  | [] => rfl
  | (_, x) :: ms => by
      rw [ofMembers, refsOfMembers, refs_ofJson x, refsOfMembers_ofMembers ms]; rfl

end

theorem FromSlot.known_of_mem_refs {known : NodeId → Prop} {value : NodeValue}
    (h : FromSlot known value) {id : NodeId} (hid : id ∈ value.refs) : known id := by
  cases h with
  | one hknown =>
      rw [refs, List.mem_singleton] at hid
      exact hid ▸ hknown
  | @list ids hknown =>
      rw [refs, refsOfItems_eq] at hid
      obtain ⟨item, hitem, hid⟩ := List.mem_flatMap.1 hid
      obtain ⟨other, hother, rfl⟩ := List.mem_map.1 hitem
      rw [refs, List.mem_singleton] at hid
      exact hid ▸ hknown other hother
  | @keyed entries _ hknown =>
      rw [refs, refsOfMembers_eq] at hid
      obtain ⟨item, hitem, hid⟩ := List.mem_flatMap.1 hid
      obtain ⟨entry, hentry, rfl⟩ := List.mem_map.1 hitem
      rw [refs, List.mem_singleton] at hid
      exact hid ▸ hknown entry hentry
  | plain data =>
      rw [refs_ofJson] at hid
      exact absurd hid List.not_mem_nil

end NodeValue

namespace Graph

/-- A slot contributes references to nodes that links come from, or plain data. -/
theorem fromSlot_of_slotValue? {g : Graph} {slot : InputSlot} {value : NodeValue}
    (hvalue : g.slotValue? slot = some value) :
    value.FromSlot fun id => ∃ link ∈ g.links, link.origin = id := by
  have hknown : ∀ {id : LinkId} {link : Link}, g.findLink? id = some link →
      ∃ l ∈ g.links, l.origin = link.origin :=
    fun hfind => ⟨_, List.mem_of_find?_eq_some hfind, rfl⟩
  unfold slotValue? at hvalue
  split at hvalue
  · next links _ =>
      dsimp only at hvalue
      split at hvalue
      · simp at hvalue
      · obtain rfl := Option.some.inj hvalue
        refine .object (NodeValue.nodup_putAll _) fun member hmember => ?_
        obtain ⟨entry, -, hentry⟩ := List.mem_filterMap.1 (NodeValue.mem_putAll hmember)
        obtain ⟨link, hfind, rfl⟩ := Option.map_eq_some_iff.1 hentry
        exact ⟨link.origin, hknown hfind, rfl⟩
  · next links _ =>
      dsimp only at hvalue
      split at hvalue
      · simp at hvalue
      · obtain rfl := Option.some.inj hvalue
        have hrefs : g.linkedRefs links =
            ((links.filterMap g.findLink?).map Link.origin).map NodeValue.ref := by
          rw [linkedRefs, List.map_map, List.map_filterMap]
          rfl
        rw [hrefs]
        refine .list fun id hid => ?_
        obtain ⟨link, hlink, rfl⟩ := List.mem_map.1 hid
        obtain ⟨_, -, hfind⟩ := List.mem_filterMap.1 hlink
        exact hknown hfind
  · split at hvalue
    · next link hheld =>
        obtain rfl := Option.some.inj hvalue
        obtain ⟨id, -, hfind⟩ := Option.bind_eq_some_iff.1 hheld
        exact .one (hknown hfind)
    · obtain ⟨data, -, rfl⟩ := Option.map_eq_some_iff.1 hvalue
      exact .plain data

theorem slot_of_member {g : Graph} {node : Node} (hcell : node.cell = none)
    {name : String} {value : NodeValue} (hmember : (name, value) ∈ (g.nodeValue node).members) :
    ∃ slot ∈ node.inputs, slot.name = name ∧ g.slotValue? slot = some value := by
  rw [nodeValue, hcell] at hmember
  obtain ⟨slot, hslot, hgiven⟩ := List.mem_filterMap.1 (NodeValue.mem_putAll hmember)
  obtain ⟨given, hvalue, hpair⟩ := Option.map_eq_some_iff.1 hgiven
  obtain ⟨rfl, rfl⟩ := Prod.mk.inj hpair
  exact ⟨slot, hslot, rfl, hvalue⟩

theorem nodup_members {g : Graph} {node : Node} (hcell : node.cell = none) :
    ((g.nodeValue node).members.map Prod.fst).Nodup := by
  rw [nodeValue, hcell]
  exact g.nodup_slotMembers node.inputs

end Graph

end SlotGraph
