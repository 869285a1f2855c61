import SlotGraph.Proofs.Import.Parts
import SlotGraph.Proofs.Import.Roster

/-!
# What a document offers to slots for one link

An import links every node that the value of a field stands for and whose class fits the
slot, be the slot for many links or for one.  Which nodes these are can be read off the
document: an index stands for an element of a group, an inline object for the node that it
becomes.  For each slot that takes one link, and that links alone feed, the document thus
says how many links are made into it.
-/

namespace SlotGraph

namespace Import

/-! ## Offers -/

section

variable (schema : Schema) (document : List (String × Json))

def classAt? (entry : String × String × List Json) (position : Nat) : Option String :=
  if position < entry.2.2.length then some entry.2.1 else none

def indexedClass? (field : Field) (index : Int) : Option String :=
  match schema.modelOf? field with
  | some className =>
      if index < 0 then none
      else
        (((planned schema document).find? fun entry =>
            entry.1 == schema.keyOfClass className).bind (classAt? · index.toNat)) <|>
          (planned schema document).findSome? fun entry =>
            if entry.2.1 == className then classAt? entry index.toNat else none
  | none => none

def offeredClass? (field : Field) (element : Json) : Option String :=
  match element.int64? with
  | some index => indexedClass? schema document field index
  | none =>
      match element with
      | .obj object => (inlineClass? schema field object).map SchemaClass.name
      | _ => none

/-- Whether an element of a value makes a link into the slot of its field. -/
def lands (cls : SchemaClass) (field : Field) (element : Json) : Bool :=
  (offeredClass? schema document field element).any fun className =>
    TypeExpr.textFits className (schema.inputOf cls field).linkType

/-- How many links a value makes into the slot of its field, if that takes one and nothing else. -/
def slotOffers (cls : SchemaClass) (field : Field) : Option Json → List Nat
  | some value =>
      let intake := (schema.inputOf cls field).intake
      if intake.collects || intake.native?.isSome then []
      else [(entriesOf field value).countP fun entry => lands schema document cls field entry.2]
  | none => []

/-- How many links what was made for an element gets into each of its slots for one. -/
def Making.offers (making : Making) : List Nat :=
  match schema.findClass? making.className, making.element with
  | some cls, .obj source =>
      cls.fields.flatMap fun field =>
        slotOffers schema document cls field (source.lookup field.name)
  | _, _ => []

def rootSlotOffers (cls : SchemaClass) (field : Field) : List Nat :=
  if (planned schema document).any fun entry => entry.1 == field.name then []
  else slotOffers schema document cls field (document.lookup field.name)

/-- How many links the root gets into each of its slots for one that no group feeds. -/
def rootOffers : List Nat :=
  match schema.rootClass? with
  | some cls => cls.fields.flatMap (rootSlotOffers schema document cls)
  | none => []

/-- How many links a document makes into each slot for one, of the root and of all other nodes. -/
def offers : List Nat :=
  (groupMakings schema document ++ embeddedMakings schema document ++
      (rootMakings schema (inlineOf schema document) document).tail).flatMap
    (Making.offers schema document) ++ rootOffers schema document

end

variable {setting : Setting} {groups : List Group} {p p' : Progress}
  {document : List (String × Json)} {schema : Schema} {g : Graph}

/-! ## The nodes that elements stand for -/

inductive Stands (schema : Schema) (g : Graph) : Option NodeId → Option String → Prop where
  | none : Stands schema g none none
  | some {id : NodeId} {cls : SchemaClass} :
      IsOf schema g id cls → Stands schema g (some id) (some cls.name)

namespace Stands

variable {id? id'? : Option NodeId} {class? class'? : Option String}

theorem orElse (h : Stands schema g id? class?) (h' : Stands schema g id'? class'?) :
    Stands schema g (id? <|> id'?) (class? <|> class'?) := by
  cases h with
  | none =>
      exact h'
  | some hnode =>
      exact .some hnode

theorem guarded (h : Stands schema g id? class?) (here : Bool) :
    Stands schema g (if here then id? else Option.none)
      (if here then class? else Option.none) := by
  cases here with
  | true =>
      exact h
  | false =>
      exact .none

section

variable {node? : Group → Option NodeId} {class? : String × String × List Json → Option String}
  (h : ∀ group ∈ groups, Stands schema g (node? group) (class? group.plan))

include h

theorem findGroup? (key : String) :
    Stands schema g ((findGroup? groups key).bind node?)
      (((groups.map Group.plan).find? fun entry => entry.1 == key).bind class?) := by
  rw [List.find?_map, Import.findGroup?]
  show Stands schema g ((groups.find? fun group => group.key == key).bind node?)
    (((groups.find? fun group => group.key == key).map Group.plan).bind class?)
  cases hfind : groups.find? fun group => group.key == key with
  | none =>
      exact .none
  | some group =>
      exact h group (List.mem_of_find?_eq_some hfind)

theorem findSome? :
    Stands schema g (groups.findSome? node?) ((groups.map Group.plan).findSome? class?) := by
  induction groups with
  | nil =>
      exact .none
  | cons group rest ih =>
      have hrest := ih fun other hother => h other (List.mem_cons_of_mem group hother)
      have hfirst := h group List.mem_cons_self
      rw [List.map_cons, List.findSome?_cons, List.findSome?_cons]
      generalize node? group = found, class? group.plan = name at hfirst
      cases hfirst with
      | none =>
          exact hrest
      | some hnode =>
          exact .some hnode

end

end Stands

section

variable (hplan : groups.map Group.plan = planned setting.schema document)
  (hp : Underway setting groups Graph.empty p)

include hp in
theorem stands_node? {group : Group} (hgroup : group ∈ groups) (position : Nat) :
    Stands setting.schema p.graph (group.node? position) (classAt? group.plan position) := by
  obtain ⟨cls, -, hname, hnodes⟩ := hp.stocked group hgroup
  have hlength : group.plan.2.2.length = group.nodes.length := List.length_map _
  rw [Group.node?, classAt?, hlength]
  by_cases hposition : position < group.nodes.length
  · rw [List.getElem?_eq_getElem hposition, if_pos hposition, Option.map_some]
    have hmember : (group.nodes[position]).1 ∈ group.nodes.map Prod.fst :=
      List.mem_map_of_mem (List.getElem_mem hposition)
    show Stands _ _ _ (some group.className)
    rw [← hname]
    exact .some (hnodes _ hmember)
  · rw [List.getElem?_eq_none (Nat.le_of_not_lt hposition), if_neg hposition]
    exact .none

include hplan hp

theorem stands_resolve? (field : Field) (index : Int) :
    Stands setting.schema p.graph (resolve? setting.schema groups field index)
      (indexedClass? setting.schema document field index) := by
  rw [resolve?, indexedClass?]
  cases setting.schema.modelOf? field with
  | none =>
      exact .none
  | some className =>
      by_cases hnegative : index < 0
      · simp only [hnegative, if_true]
        exact .none
      · have hnodes : ∀ group ∈ groups, Stands setting.schema p.graph
            (group.node? index.toNat) (classAt? group.plan index.toNat) :=
          fun group hgroup => stands_node? hp hgroup index.toNat
        simp only [hnegative, if_false, ← hplan]
        exact (Stands.findGroup? hnodes _).orElse
          (.findSome? fun group hgroup => (hnodes group hgroup).guarded _)

end

end Import

end SlotGraph
