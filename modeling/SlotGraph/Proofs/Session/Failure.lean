import SlotGraph.Proofs.Session.Reload

/-!
# Requests that fail

Every request is answered, and the answer says whether the request failed.  One that
failed has left everything as it was, the results kept on nodes included, apart from the
issues that it reported.
-/

namespace SlotGraph

/-- What a host can ask for: a call, or a change of the graph that no call makes. -/
inductive Request where
  | call (made : Call)
  /-- Take a link out and hand it back. -/
  | disconnect (id : LinkId)
  /-- Bring back a node of the host's own making. -/
  | restoreNode (kept : Node)

inductive Answer where
  | flag (succeeded : Bool)
  | node (id : Option NodeId)
  | link (id : Option LinkId)
  | severed (found : Option Link)
  | value (result : Option NodeValue)
  | config (document : Option Json)
  | summary (made : Option Import.Summary)
  /-- How many links were dropped. -/
  | count (dropped : Nat)
  /-- The answer to a request that cannot fail and gives nothing back. -/
  | done

/-- Whether an answer says that nothing was done. -/
def Answer.failed : Answer → Bool
  | .flag succeeded => !succeeded
  | .node id => id.isNone
  | .link id => id.isNone
  | .severed found => found.isNone
  | .value result => result.isNone
  | .config document => document.isNone
  | .summary made => made.isNone
  | .count dropped => dropped == 0
  | .done => false

def Edit.answer (g : Graph) : Edit → Answer
  | .addNode template x y => .node (some (g.addNode template x y).1)
  | .removeNode id => .flag (g.removeNode? id).isSome
  | .connect origin originSlot target targetSlot =>
      .link ((g.connect origin originSlot target targetSlot).toOption.map Prod.fst)
  | .removeLink id => .flag (g.removeLink? id).isSome
  | .setKey id key => .flag (g.setKey? id key).isSome
  | .clearInput id slot => .count (g.clearInput id slot).1
  | .clearCollected id => .count (g.clearCollected id).1
  | .setNative id slot value => .flag (g.setNative? id slot value).isSome
  | .setProperty id value => .flag (g.setProperty? id value).isSome
  | .restoreNode template id => .flag (g.restoreNode? (Node.ofTemplate template id)).isSome
  | .restoreLink link => .link ((g.restoreLink? link).map fun _ => link.id)
  | .evaluate id => .value (g.value? id)
  | .build schema => .config (some (Build.ofGraph g schema).config)
  | .importConfig setting (.obj members) => .summary (some (Import.run setting g members).1)
  | .importConfig .. => .summary none
  | .load registry document => .flag (Graph.load? registry g document).isSome
  | .clear | .raiseCounters .. => .done

def Call.answer (s : Session) : Call → Answer
  | .register name source indexType rootType =>
      .flag (s.register name source indexType rootType).1
  | .removeSchema name => .flag (s.removeSchema name).1
  | .createNode schemaName className x y => .node (s.createNode schemaName className x y).1
  | .removeNode id => .flag (s.removeNode id).1
  | .connect origin originSlot target targetSlot =>
      .link (s.connect origin originSlot target targetSlot).1
  | .removeLink id => .flag (s.removeLink id).1
  | .buildConfig name => .config (s.buildConfig name).1
  | .importConfig document name replace => .summary (s.importConfig document name replace).1
  | .loadGraph document => .flag (s.loadGraph document).1
  | .editGraph change => change.answer s.graph
  | .clearIssues | .setLayout _ => .done

namespace Request

def answer (s : Session) : Request → Answer
  | .call made => made.answer s
  | .disconnect id => .severed ((s.graph.disconnect? id).map Prod.fst)
  | .restoreNode kept => .flag (s.change (s.graph.restoreNode? kept)).1

def apply (s : Session) : Request → Session
  | .call made => made.apply s
  | .disconnect id => (s.change ((s.graph.disconnect? id).map Prod.snd)).2
  | .restoreNode kept => (s.change (s.graph.restoreNode? kept)).2

end Request

/-! ## Edits -/

namespace Graph

theorem clearLinks_of_zero {g : Graph} {ids : List LinkId} (h : (g.clearLinks ids).1 = 0) :
    (g.clearLinks ids).2 = g := by
  -- The count never falls, and it stays where it is only as long as no link is dropped.
  have hcounted : g.clearLinks ids = (0, g) ∨ 0 < (g.clearLinks ids).1 := by
    refine List.foldlRecOn ids _
      (motive := fun pair : Nat × Graph => pair = (0, g) ∨ 0 < pair.1) (Or.inl rfl) ?_
    intro pair hpair id _
    cases hremove : pair.2.removeLink? id with
    | none =>
        simpa [hremove] using hpair
    | some rest =>
        exact Or.inr (by simp [hremove])
  rcases hcounted with hsame | hdropped
  · rw [hsame]
  · exact absurd h (Nat.ne_of_gt hdropped)

theorem clearInput_of_zero {g : Graph} {id : NodeId} {slot : Nat}
    (h : (g.clearInput id slot).1 = 0) : (g.clearInput id slot).2 = g := by
  unfold clearInput at h ⊢
  split at h
  · next input hinput =>
      exact clearLinks_of_zero h
  · rfl

theorem clearCollected_of_zero {g : Graph} {id : NodeId} (h : (g.clearCollected id).1 = 0) :
    (g.clearCollected id).2 = g := by
  unfold clearCollected at h ⊢
  split at h
  · next node hnode =>
      exact clearLinks_of_zero h
  · rfl

end Graph

namespace Edit

variable {g : Graph}

theorem getD_of_failed {result : Option Graph}
    (h : (Answer.flag result.isSome).failed = true) : result.getD g = g := by
  cases result with
  | none =>
      rfl
  | some g' =>
      simp [Answer.failed] at h

/-- An edit that fails leaves the graph as it was, with all results kept on its nodes. -/
theorem apply_of_failed {edit : Edit} (h : (edit.answer g).failed = true) :
    edit.apply g = g := by
  cases edit with
  | addNode | build | clear | raiseCounters =>
      simp [answer, Answer.failed] at h
  | removeNode | removeLink | setKey | setNative | setProperty | restoreNode =>
      exact getD_of_failed h
  | connect origin originSlot target targetSlot =>
      rw [answer] at h
      rw [apply]
      cases hconnect : g.connect origin originSlot target targetSlot with
      | error fault =>
          rfl
      | ok pair =>
          simp [hconnect, Answer.failed, Except.toOption] at h
  | clearInput id slot =>
      exact Graph.clearInput_of_zero (eq_of_beq h)
  | clearCollected id =>
      exact Graph.clearCollected_of_zero (eq_of_beq h)
  | restoreLink link =>
      rw [answer] at h
      rw [apply]
      cases hrestore : g.restoreLink? link with
      | none =>
          rfl
      | some g' =>
          simp [hrestore, Answer.failed] at h
  | evaluate id =>
      rw [answer] at h
      rw [apply, Graph.remember]
      cases hvalue : g.value? id with
      | none =>
          rfl
      | some value =>
          simp [hvalue, Answer.failed] at h
  | importConfig setting document =>
      cases document with
      | obj members =>
          simp [answer, Answer.failed] at h
      | _ =>
          rfl
  | load registry document =>
      rw [answer] at h
      rw [apply]
      cases hload : Graph.load? registry g document with
      | none =>
          rfl
      | some loaded =>
          simp [hload, Answer.failed] at h

end Edit

/-! ## Calls -/

namespace Session

variable {s : Session}

theorem report_nil (s : Session) : s.report [] = s := by
  rw [report, List.append_nil]

theorem change_of_failed {result : Option Graph} (h : (s.change result).1 = false) :
    (s.change result).2 = s := by
  cases result with
  | none =>
      rfl
  | some g' =>
      simp [change] at h

theorem apply_of_failed {call : Call} (h : (call.answer s).failed = true) :
    ∃ issues, call.apply s = s.report issues := by
  cases call with
  | register name source indexType rootType =>
      rw [Call.answer, Answer.failed, Bool.not_eq_true', register] at h
      rw [Call.apply, register]
      split at h
      · exact ⟨_, rfl⟩
      · cases h
  | removeSchema name =>
      rw [Call.answer, Answer.failed, Bool.not_eq_true', removeSchema] at h
      rw [Call.apply, removeSchema]
      split at h
      · cases h
      · exact ⟨[], (report_nil s).symm⟩
  | createNode schemaName className x y =>
      rw [Call.answer, Answer.failed, createNode] at h
      rw [Call.apply, createNode]
      split at h
      · cases h
      · exact ⟨_, rfl⟩
  | connect origin originSlot target targetSlot =>
      rw [Call.answer, Answer.failed, Session.connect] at h
      rw [Call.apply, Session.connect]
      split at h
      · cases h
      · exact ⟨_, rfl⟩
  | removeNode | removeLink =>
      rw [Call.answer, Answer.failed, Bool.not_eq_true'] at h
      exact ⟨[], (change_of_failed h).trans (report_nil s).symm⟩
  | buildConfig name =>
      rw [Call.answer, Answer.failed, buildConfig] at h
      rw [Call.apply, buildConfig]
      split at h
      · cases h
      · exact ⟨[], (report_nil s).symm⟩
  | importConfig document name replace =>
      unfold Call.answer Answer.failed importConfig at h
      unfold Call.apply importConfig
      dsimp only at h ⊢
      split at h
      · cases h
      · exact ⟨[], (report_nil s).symm⟩
  | loadGraph document =>
      rw [Call.answer, Answer.failed, Bool.not_eq_true', Session.loadGraph] at h
      rw [Call.apply, Session.loadGraph]
      split at h
      · cases h
      · exact ⟨[], (report_nil s).symm⟩
  | editGraph change =>
      refine ⟨[], ?_⟩
      rw [Call.apply, Edit.apply_of_failed h, report_nil]
  | clearIssues | setLayout =>
      cases h

end Session

/-! ## Requests -/

namespace Request

variable {s t : Session} {request : Request}

theorem apply_of_failed (h : (request.answer s).failed = true) :
    ∃ issues, request.apply s = s.report issues := by
  cases request with
  | call made =>
      exact Session.apply_of_failed h
  | disconnect id =>
      refine ⟨[], Eq.trans ?_ (Session.report_nil s).symm⟩
      rw [answer] at h
      rw [apply]
      cases hfound : s.graph.disconnect? id with
      | none =>
          rfl
      | some pair =>
          rw [hfound] at h
          cases h
  | restoreNode kept =>
      rw [answer, Answer.failed, Bool.not_eq_true'] at h
      exact ⟨[], (Session.change_of_failed h).trans (Session.report_nil s).symm⟩

end Request

end SlotGraph
