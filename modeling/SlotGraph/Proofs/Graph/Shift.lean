import Mathlib.Algebra.Group.Int.Defs
import SlotGraph.Proofs.Graph.Edits

/-!
# Shifted graphs

A graph whose node numbers and link numbers all lie higher by some amounts: in the nodes, in
the links, in the slot lists, in the results kept on nodes and in the counters.  Nothing
that a graph does looks at a number otherwise than to compare it with another, or to draw
the next one, so the changes of a node come out shifted on a shifted node.
-/

namespace SlotGraph

/-- By how much the numbers of nodes and of links are shifted. -/
structure Offset where
  node : Int
  link : Int

instance : Neg Offset :=
  ⟨fun d => ⟨-d.node, -d.link⟩⟩

@[simp] theorem Offset.neg_node (d : Offset) : (-d).node = -d.node :=
  rfl

@[simp] theorem Offset.neg_link (d : Offset) : (-d).link = -d.link :=
  rfl

theorem add_beq_add (a b d : Int) : (a + d == b + d) = (a == b) := by
  by_cases h : a = b
  · rw [h, beq_self_eq_true, beq_self_eq_true]
  · rw [beq_false_of_ne h, beq_false_of_ne fun heq => h (Int.add_left_inj d |>.1 heq)]

namespace NodeValue

mutual

def shift (d : Int) : NodeValue → NodeValue
  | .scalar value => .scalar value
  | .array xs => .array (shiftItems d xs)
  | .object ms => .object (shiftMembers d ms)
  | .ref node => .ref (node + d)
termination_by structural value => value

def shiftItems (d : Int) : List NodeValue → List NodeValue
  | [] => []
  | x :: xs => shift d x :: shiftItems d xs
termination_by structural xs => xs

def shiftMembers (d : Int) : List (String × NodeValue) → List (String × NodeValue)
  | [] => []
  | (key, x) :: ms => (key, shift d x) :: shiftMembers d ms
termination_by structural ms => ms

end

theorem shiftItems_eq (d : Int) (xs : List NodeValue) : shiftItems d xs = xs.map (shift d) := by
  induction xs with
  | nil =>
      rfl
  | cons x rest ih =>
      rw [shiftItems, ih, List.map_cons]

def shiftMember (d : Int) (member : String × NodeValue) : String × NodeValue :=
  (member.1, member.2.shift d)

theorem shiftMembers_eq (d : Int) (ms : List (String × NodeValue)) :
    shiftMembers d ms = ms.map (shiftMember d) := by
  induction ms with
  | nil =>
      rfl
  | cons member rest ih =>
      rw [shiftMembers, ih]
      rfl

mutual

theorem shift_neg_shift (d : Int) : ∀ value : NodeValue, (value.shift d).shift (-d) = value
  | .scalar _ => rfl
  | .array xs => by rw [shift, shift, shiftItems_neg_shiftItems d xs]
  | .object ms => by rw [shift, shift, shiftMembers_neg_shiftMembers d ms]
  | .ref node => by rw [shift, shift, Int.add_neg_cancel_right]

theorem shiftItems_neg_shiftItems (d : Int) :
    ∀ xs : List NodeValue, shiftItems (-d) (shiftItems d xs) = xs
  | [] => rfl
  | x :: xs => by
      rw [shiftItems, shiftItems, shift_neg_shift d x, shiftItems_neg_shiftItems d xs]

theorem shiftMembers_neg_shiftMembers (d : Int) :
    ∀ ms : List (String × NodeValue), shiftMembers (-d) (shiftMembers d ms) = ms
  | [] => rfl
  | (key, x) :: ms => by
      rw [shiftMembers, shiftMembers, shift_neg_shift d x, shiftMembers_neg_shiftMembers d ms]

end

end NodeValue

theorem filter_map_add (ids : List Int) (id d : Int) :
    (ids.map (· + d)).filter (fun other => other != id + d) =
      (ids.filter fun other => other != id).map (· + d) := by
  rw [List.filter_map]
  exact congrArg _ (List.filter_congr fun other _ => congrArg not (add_beq_add other id d))

/-! ## Slots -/

namespace Feed

def shift (d : Int) : Feed → Feed
  | .single link native => .single (link.map (· + d)) native
  | .many keyed links => .many keyed (links.map (· + d))

variable (d : Int)

@[simp] theorem links_shift (feed : Feed) : (feed.shift d).links = feed.links.map (· + d) := by
  cases feed with
  | many keyed links =>
      rfl
  | single link native =>
      cases link <;> rfl

@[simp] theorem collects_shift (feed : Feed) : (feed.shift d).collects = feed.collects := by
  cases feed <;> rfl

@[simp] theorem native?_shift (feed : Feed) : (feed.shift d).native? = feed.native? := by
  cases feed <;> rfl

theorem attach_shift (id : LinkId) (feed : Feed) :
    (feed.shift d).attach (id + d) = (feed.attach id).shift d := by
  cases feed <;> simp [shift, attach]

theorem detach_shift (id : LinkId) (feed : Feed) :
    (feed.shift d).detach (id + d) = (feed.detach id).shift d := by
  cases feed with
  | many keyed links =>
      exact congrArg (Feed.many keyed) (filter_map_add links id d)
  | single held native =>
      cases held with
      | none =>
          rfl
      | some link =>
          by_cases hlink : link = id
          · simp [shift, detach, hlink]
          · simp [shift, detach, hlink]

theorem setNative_shift (value : Json) (feed : Feed) :
    (feed.shift d).setNative value = (feed.setNative value).shift d := by
  cases feed <;> rfl

@[simp] theorem shift_ofIntake (intake : Intake) : (ofIntake intake).shift d = ofIntake intake := by
  cases intake <;> rfl

theorem shift_neg_shift (feed : Feed) : (feed.shift d).shift (-d) = feed := by
  cases feed <;> simp [shift, Function.comp_def]

end Feed

def InputSlot.shift (d : Int) (slot : InputSlot) : InputSlot :=
  { slot with feed := slot.feed.shift d }

def OutputSlot.shift (d : Offset) (slot : OutputSlot) : OutputSlot :=
  { slot with
    links := slot.links.map (· + d.link)
    cached := slot.cached.map (NodeValue.shift d.node) }

/-! ## Nodes and links -/

namespace Node

variable (d : Offset) (node : Node)

def shift : Node :=
  { node with
    id := node.id + d.node
    inputs := node.inputs.map (InputSlot.shift d.link)
    outputs := node.outputs.map (OutputSlot.shift d) }

theorem modifyFeed_shift {change change' : Feed → Feed}
    (hchange : ∀ feed, change' (feed.shift d.link) = (change feed).shift d.link) (slot : Nat) :
    (node.shift d).modifyFeed slot change' = (node.modifyFeed slot change).shift d := by
  have hinputs : (node.inputs.map (InputSlot.shift d.link)).modify slot
        (fun input => { input with feed := change' input.feed }) =
      (node.inputs.modify slot fun input => { input with feed := change input.feed }).map
        (InputSlot.shift d.link) := by
    refine (Graph.map_modify fun input _ => ?_).symm
    rw [InputSlot.shift, InputSlot.shift, hchange]
  rw [shift, modifyFeed, hinputs]
  rfl

theorem modifyOutput_shift {change change' : List LinkId → List LinkId}
    (hchange : ∀ links, change' (links.map (· + d.link)) = (change links).map (· + d.link))
    (slot : Nat) :
    (node.shift d).modifyOutput slot change' = (node.modifyOutput slot change).shift d := by
  have houtputs : (node.outputs.map (OutputSlot.shift d)).modify slot
        (fun output => { output with links := change' output.links }) =
      (node.outputs.modify slot fun output => { output with links := change output.links }).map
        (OutputSlot.shift d) := by
    refine (Graph.map_modify fun output _ => ?_).symm
    rw [OutputSlot.shift, OutputSlot.shift, hchange]
  rw [shift, modifyOutput, houtputs]
  rfl

theorem shift_ofTemplate (template : NodeTemplate) (id : NodeId) :
    (ofTemplate template id).shift d = ofTemplate template (id + d.node) := by
  simp [ofTemplate, shift, InputSlot.ofSpec, InputSlot.shift, OutputSlot.shift,
    Function.comp_def]

theorem nativeAt?_shift (slot : Nat) : (node.shift d).nativeAt? slot = node.nativeAt? slot := by
  rw [nativeAt?, nativeAt?, shift, List.getElem?_map]
  cases node.inputs[slot]? with
  | none =>
      rfl
  | some input =>
      exact input.feed.native?_shift d.link

theorem shift_neg_shift : (node.shift d).shift (-d) = node := by
  have hinput : ∀ input : InputSlot, (input.shift d.link).shift (-d.link) = input := by
    intro input
    rw [InputSlot.shift, InputSlot.shift, Feed.shift_neg_shift]
  have houtput : ∀ output : OutputSlot, (output.shift d).shift (-d) = output := by
    rintro ⟨name, type, links, cached⟩
    simp [OutputSlot.shift, Function.comp_def, NodeValue.shift_neg_shift]
  cases node
  simp [shift, Function.comp_def, hinput, houtput]

end Node

def Link.shift (d : Offset) (link : Link) : Link :=
  { link with
    id := link.id + d.link
    origin := link.origin + d.node
    target := link.target + d.node }

theorem Link.shift_neg_shift (d : Offset) (link : Link) : (link.shift d).shift (-d) = link := by
  cases link
  simp [shift]

/-! ## Graphs -/

namespace Graph

variable (d : Offset) (g : Graph)

def shift : Graph :=
  { nodes := g.nodes.map (Node.shift d)
    links := g.links.map (Link.shift d)
    lastNode := g.lastNode + d.node
    lastLink := g.lastLink + d.link }

theorem shift_neg_shift : (g.shift d).shift (-d) = g := by
  cases g
  simp [shift, Function.comp_def, Node.shift_neg_shift, Link.shift_neg_shift]

theorem findNode?_shift (id : NodeId) :
    (g.shift d).findNode? (id + d.node) = (g.findNode? id).map (Node.shift d) := by
  rw [findNode?, findNode?, shift, List.find?_map]
  congr 2
  funext node
  exact add_beq_add node.id id d.node

theorem findLink?_shift (id : LinkId) :
    (g.shift d).findLink? (id + d.link) = (g.findLink? id).map (Link.shift d) := by
  rw [findLink?, findLink?, shift, List.find?_map]
  congr 2
  funext link
  exact add_beq_add link.id id d.link

theorem insertLink_shift (link : Link) (links : List Link) :
    insertLink (link.shift d) (links.map (Link.shift d)) =
      (insertLink link links).map (Link.shift d) := by
  induction links with
  | nil =>
      rfl
  | cons other rest ih =>
      have hlt : (link.shift d).id < (other.shift d).id ↔ link.id < other.id :=
        Int.add_lt_add_iff_right d.link
      have heq : (link.shift d).id = (other.shift d).id ↔ link.id = other.id :=
        Int.add_left_inj d.link
      rw [List.map_cons, insertLink, insertLink]
      simp only [hlt, heq, ih]
      split
      · rfl
      · split <;> rfl

end Graph

end SlotGraph
