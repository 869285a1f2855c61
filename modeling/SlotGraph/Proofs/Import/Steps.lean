import Mathlib.Logic.Relation
import SlotGraph.Config.Import

/-!
# Imports as runs of steps

Whatever the document, an import only ever reports an issue, adds a node, counts
an embedded node, makes a link or fills a native slot.  Each function of the import
is shown to take such steps and no others, so what every step keeps is kept by a
whole import.
-/

namespace SlotGraph

namespace Import

inductive Step (setting : Setting) : Progress → Progress → Prop where
  /-- Issues are reported. -/
  | report (p : Progress) (issues : List Issue) :
      Step setting p { p with issues := p.issues ++ issues }
  /-- A node of a class with a template is added. -/
  | create (p : Progress) (className : String) (template : NodeTemplate) (x y : Float) :
      setting.registry.find? setting.schema.name className = some template →
      Step setting p { p with graph := (p.graph.addNode template x y).2 }
  /-- An embedded node is counted. -/
  | embed (p : Progress) : Step setting p { p with embedded := p.embedded + 1 }
  /-- A link is made, given its key if there is one, and counted. -/
  | link (p : Progress) (origin target : NodeId) (slot : Nat) (key : String) (id : LinkId)
      (graph : Graph) :
      p.graph.connect origin 0 target slot = .ok (id, graph) →
      Step setting p
        { p with
          graph := if key = "" then graph else (graph.setKey? id key).getD graph
          links := p.links + 1 }
  /-- A native slot is filled. -/
  | setNative (p : Progress) (id : NodeId) (slot : Nat) (value : Json) (graph : Graph) :
      p.graph.setNative? id slot value = some graph →
      Step setting p { p with graph := graph }

abbrev Steps (setting : Setting) : Progress → Progress → Prop :=
  Relation.ReflTransGen (Step setting)

/-- An embedding that takes steps only. -/
def Embed.TakesSteps (setting : Setting) (embed : Embed) : Prop :=
  ∀ field object p, Steps setting p (embed field object p).2

variable {setting : Setting} {groups : List Group} {embed : Embed}

theorem steps_foldl {α : Type} {f : Progress → α → Progress} {xs : List α}
    (hstep : ∀ x ∈ xs, ∀ p, Steps setting p (f p x)) (p : Progress) :
    Steps setting p (xs.foldl f p) := by
  induction xs generalizing p with
  | nil =>
      exact .refl
  | cons x rest ih =>
      exact (hstep x List.mem_cons_self p).trans
        (ih (fun y hy => hstep y (List.mem_cons_of_mem x hy)) (f p x))

/-! ## Elementary functions -/

theorem steps_report (p : Progress) (issue : Issue) : Steps setting p (p.report issue) :=
  .single (.report p [issue])

theorem steps_reports (setting : Setting) {α : Type} (issue : α → Issue) (xs : List α)
    (p : Progress) :
    Steps setting p (xs.foldl (fun p x => p.report (issue x)) p) :=
  steps_foldl (fun x _ p => steps_report p (issue x)) p

theorem steps_createNode (p : Progress) (className : String) (x y : Float) :
    Steps setting p (p.createNode setting className x y).2 := by
  unfold Progress.createNode
  split
  · next template hfind =>
      exact .single (.create p className template x y hfind)
  · exact steps_report p _

theorem steps_link (p : Progress) (origin target : NodeId) (slot : Nat) (key : String) :
    Steps setting p (p.link origin target slot key) := by
  unfold Progress.link
  split
  · next id graph hconnect =>
      exact .single (.link p origin target slot key id graph hconnect)
  · next fault _ =>
      exact .single (.report p fault.issues)

theorem steps_setNative (p : Progress) (id : NodeId) (slot : Nat) (value : Json) :
    Steps setting p (p.setNative id slot value) := by
  unfold Progress.setNative
  cases hset : p.graph.setNative? id slot value with
  | none =>
      exact .refl
  | some graph =>
      exact .single (.setNative p id slot value graph hset)

theorem steps_clearMissing (p : Progress) (id : NodeId) (slot : Nat) :
    Steps setting p (p.clearMissing id slot) := by
  unfold Progress.clearMissing
  split
  · split
    · exact steps_setNative p id slot .null
    · exact .refl
  · exact .refl

/-! ## Groups -/

theorem steps_createElements (className : String) (x : Float) (row : Nat)
    (elements : List Json) (p : Progress) :
    Steps setting p (createElements setting className x row elements p).2 := by
  induction elements generalizing row p with
  | nil =>
      exact .refl
  | cons element rest ih =>
      have hcreate : Steps setting p _ :=
        steps_createNode p className x (setting.layout.rowY row)
      rw [createElements]
      split
      · next id next hnode =>
          rw [hnode] at hcreate
          exact hcreate.trans (ih (row + 1) next)
      · next next hnode =>
          rw [hnode] at hcreate
          exact hcreate

theorem steps_createGroups (x : Float) (document : List (String × Json)) (p : Progress) :
    Steps setting p (createGroups setting x document p).2.2 := by
  induction document generalizing x p with
  | nil =>
      exact .refl
  | cons entry rest ih =>
      obtain ⟨key, value⟩ := entry
      rw [createGroups]
      split
      · next className elements _ =>
          exact (steps_createElements className x 0 elements p).trans (ih _ _)
      · exact ih x p

/-! ## Slots -/

theorem steps_linkIndex (id : NodeId) (slot : Nat) (field : Field) (index : Int)
    (key : String) (p : Progress) :
    Steps setting p (linkIndex setting groups id slot field index key p) := by
  unfold linkIndex
  split
  · exact steps_link p _ id slot key
  · exact steps_report p _

theorem steps_linkElement (hembed : embed.TakesSteps setting) (id : NodeId) (slot : Nat)
    (field : Field) (key : String) (element : Json) (p : Progress) :
    Steps setting p (linkElement setting groups embed id slot field key element p) := by
  unfold linkElement
  split
  · exact steps_linkIndex id slot field _ key p
  · split
    · next object _ =>
        have hmade := hembed field object p
        split
        · next origin next hnode =>
            rw [hnode] at hmade
            exact hmade.trans (steps_link next origin id slot key)
        · next next hnode =>
            rw [hnode] at hmade
            exact hmade
    · exact steps_report p _

theorem steps_fillLinked (hembed : embed.TakesSteps setting) (id : NodeId) (slot : Nat)
    (field : Field) (value : Json) (p : Progress) :
    Steps setting p (fillLinked setting groups embed id slot field value p) := by
  unfold fillLinked
  split
  · exact steps_foldl (fun element _ => steps_linkElement hembed id slot field "" element) p
  · split
    · exact steps_foldl
        (fun entry _ => steps_linkElement hembed id slot field entry.1 entry.2) p
    · exact steps_linkElement hembed id slot field "" _ p
  · split
    · exact steps_linkIndex id slot field _ "" p
    · exact steps_report p _

theorem steps_fillSlot (hembed : embed.TakesSteps setting) (id : NodeId) (slot : Nat)
    (field : Field) (value : Json) (p : Progress) :
    Steps setting p (fillSlot setting groups embed id slot field value p) := by
  unfold fillSlot
  split
  · exact steps_setNative p id slot _
  · split
    · exact .refl
    · exact steps_fillLinked hembed id slot field value p

theorem steps_fillFields (hembed : embed.TakesSteps setting) (id : NodeId)
    (source : List (String × Json)) (slot : Nat) (fields : List Field) (p : Progress) :
    Steps setting p (fillFields setting groups embed id source slot fields p) := by
  induction fields generalizing slot p with
  | nil =>
      exact .refl
  | cons field rest ih =>
      rw [fillFields]
      refine Relation.ReflTransGen.trans ?_ (ih (slot + 1) _)
      split
      · exact steps_fillSlot hembed id slot field _ p
      · exact steps_clearMissing p id slot

theorem steps_populate (hembed : embed.TakesSteps setting) (id : NodeId)
    (source : List (String × Json)) (p : Progress) :
    Steps setting p (populate setting groups embed id source p) := by
  unfold populate
  split
  · exact steps_fillFields hembed id source 0 _ p
  · exact .refl

/-! ## Embedding -/

theorem steps_embeddedClass (schema : Schema) (field : Field)
    (object : List (String × Json)) (p : Progress) :
    Steps setting p (embeddedClass? schema field object p).2 := by
  unfold embeddedClass?
  split
  · exact .refl
  · split
    · exact steps_report p _
    · exact steps_report p _

theorem takesSteps_embedWith (hembed : embed.TakesSteps setting) :
    (embedWith setting groups embed).TakesSteps setting := by
  intro field object p
  have hclass : Steps setting p _ := steps_embeddedClass setting.schema field object p
  unfold embedWith
  split
  · next className chosen hchosen =>
      rw [hchosen] at hclass
      have hcreate : Steps setting chosen _ := steps_createNode chosen className
        (setting.layout.embeddedX chosen.embedded) (setting.layout.embeddedY chosen.embedded)
      split
      · next id made hmade =>
          rw [hmade] at hcreate
          exact (hclass.trans hcreate).trans
            ((Relation.ReflTransGen.single (.embed made)).trans
              (steps_populate hembed id object _))
      · next made hmade =>
          rw [hmade] at hcreate
          exact hclass.trans hcreate
  · next chosen hchosen =>
      rw [hchosen] at hclass
      exact hclass

theorem takesSteps_embedAt (depth : Nat) :
    (embedAt setting groups depth).TakesSteps setting := by
  induction depth with
  | zero =>
      exact fun _ _ _ => .refl
  | succ depth ih =>
      exact takesSteps_embedWith ih

/-! ## The three passes -/

theorem steps_populateNodes (hembed : embed.TakesSteps setting) (key : String)
    (position : Nat) (nodes : List (NodeId × Json)) (p : Progress) :
    Steps setting p (populateNodes setting groups embed key position nodes p) := by
  induction nodes generalizing position p with
  | nil =>
      exact .refl
  | cons node rest ih =>
      obtain ⟨id, element⟩ := node
      refine Relation.ReflTransGen.trans ?_ (ih (position + 1) _)
      cases element with
      | obj source =>
          exact steps_populate hembed id source p
      | _ =>
          exact steps_report p _

theorem steps_populateGroups (hembed : embed.TakesSteps setting) (p : Progress) :
    Steps setting p (populateGroups setting groups embed p) :=
  steps_foldl (fun group _ => steps_populateNodes hembed group.key 0 group.nodes) p

theorem steps_linkGroup (root : NodeId) (slot : Nat) (group : Group) (p : Progress) :
    Steps setting p (linkGroup root slot group p) :=
  steps_foldl (fun member _ p => steps_link p member.1 root slot "") p

theorem steps_fillRoot (hembed : embed.TakesSteps setting) (root : NodeId)
    (document : List (String × Json)) (slot : Nat) (fields : List Field) (p : Progress) :
    Steps setting p (fillRoot setting groups embed root document slot fields p) := by
  induction fields generalizing slot p with
  | nil =>
      exact .refl
  | cons field rest ih =>
      rw [fillRoot]
      refine Relation.ReflTransGen.trans ?_ (ih (slot + 1) _)
      split
      · exact steps_linkGroup root slot _ p
      · split
        · exact steps_fillSlot hembed root slot field _ p
        · exact steps_clearMissing p root slot

theorem steps_createRoot (hembed : embed.TakesSteps setting) (loose : List String)
    (document : List (String × Json)) (p : Progress) :
    Steps setting p (createRoot setting groups embed loose document p).2 := by
  unfold createRoot
  split
  · exact steps_reports setting _ loose p
  · next cls _ =>
      have hcreate : Steps setting p _ :=
        steps_createNode p cls.name setting.layout.rootX setting.layout.rowStartY
      split
      · next made hmade =>
          rw [hmade] at hcreate
          exact hcreate
      · next root made hmade =>
          rw [hmade] at hcreate
          exact (hcreate.trans (steps_fillRoot hembed root document 0 cls.fields made)).trans
            (steps_reports setting _ _ _)

theorem steps_run (setting : Setting) (g : Graph) (document : List (String × Json)) :
    Steps setting (Progress.start g) (run setting g document).2 :=
  ((steps_createGroups _ document _).trans
    (steps_populateGroups (takesSteps_embedAt _) _)).trans
      (steps_createRoot (takesSteps_embedAt _) _ document _)

end Import

end SlotGraph
