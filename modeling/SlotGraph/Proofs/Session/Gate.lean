import Mathlib.Data.List.Induction
import SlotGraph.Proofs.Graph.Gate
import SlotGraph.Proofs.Session.Reachable

/-!
# Where the type gate stands open

The links of a session pass the type gate unless a host brought them back: with a graph
document, whose links are taken as they are written, or one by one.  So the gate holds
throughout a run of calls exactly when it holds right after each call that brings links.
-/

namespace SlotGraph

def Call.brings : Call → List Link
  | .loadGraph document => Graph.documentLinks document
  | .editGraph change => change.brings
  | _ => []

namespace Session

variable {s : Session} {call : Call}

theorem brings_edits (s : Session) (call : Call) :
    ∀ link ∈ (call.edits s).flatMap Edit.brings, link ∈ call.brings := by
  intro link hlink
  obtain ⟨edit, hedit, hbrings⟩ := List.mem_flatMap.1 hlink
  cases call with
  | removeSchema name =>
      rw [Call.edits] at hedit
      split at hedit
      · obtain ⟨node, -, rfl⟩ := List.mem_map.1 hedit
        exact hbrings
      · simp at hedit
  | createNode schemaName className x y =>
      obtain ⟨template, -, rfl⟩ := List.mem_map.1 hedit
      exact hbrings
  | buildConfig name =>
      obtain ⟨schema, -, rfl⟩ := List.mem_map.1 hedit
      exact hbrings
  | importConfig document name replace =>
      unfold Call.edits at hedit
      dsimp only at hedit
      split at hedit
      · rcases List.mem_append.1 hedit with hclear | himport
        · split at hclear
          · obtain rfl := List.mem_singleton.1 hclear
            exact hbrings
          · simp at hclear
        · obtain rfl := List.mem_singleton.1 himport
          exact hbrings
      · simp at hedit
  | removeNode | connect | removeLink | loadGraph | editGraph =>
      obtain rfl := List.mem_singleton.1 hedit
      exact hbrings
  | register | clearIssues | setLayout =>
      exact absurd hedit List.not_mem_nil

/-- Whatever a call does, no link comes in that fails the gate, but for those that it brings. -/
theorem gated_apply (s : Session) (call : Call) :
    Graph.Gated call.brings s.graph (call.apply s).graph := by
  rw [graph_apply]
  exact (Graph.Gated.run s.graph (call.edits s)).mono (brings_edits s call)

theorem after_concat (s : Session) (calls : List Call) (call : Call) :
    s.after (calls ++ [call]) = call.apply (s.after calls) := by
  rw [after, List.foldl_append]
  rfl

/--
A link that fails the gate after some calls was brought by one of them, and failed the gate
right after this call already; nothing but its key has changed since.
-/
theorem exists_brought_of_fails (h : ∀ link ∈ s.graph.links, s.graph.passes link = true)
    (calls : List Call) :
    ∀ link ∈ (s.after calls).graph.links, (s.after calls).graph.passes link = false →
      ∃ n call, calls[n]? = some call ∧ ∃ brought ∈ call.brings,
        ∃ stood ∈ (s.after (calls.take (n + 1))).graph.links,
          (s.after (calls.take (n + 1))).graph.passes stood = false ∧
          stood.unkeyed = brought.unkeyed ∧ link.unkeyed = brought.unkeyed := by
  induction calls using List.reverseRecOn with
  | nil =>
      intro link hlink hfails
      exact absurd (h link hlink) (by simpa [after] using hfails)
  | append_singleton calls call ih =>
      intro link hlink hfails
      rw [after_concat] at hlink hfails
      rcases gated_apply (s.after calls) call link hlink hfails with
        ⟨brought, hbrought, hsame⟩ | ⟨old, hold, hsame, holdFails⟩
      · refine ⟨calls.length, call, List.getElem?_concat_length, brought, hbrought, link, ?_⟩
        rw [List.take_of_length_le (by simp), after_concat]
        exact ⟨hlink, hfails, hsame.symm, hsame.symm⟩
      · obtain ⟨n, earlier, hn, brought, hbrought, stood, hstood⟩ := ih old hold holdFails
        have hlt := (List.getElem?_eq_some_iff.1 hn).1
        refine ⟨n, earlier, (List.getElem?_append_left hlt).trans hn, brought, hbrought, stood, ?_⟩
        rw [List.take_append_of_le_length hlt]
        exact ⟨hstood.1, hstood.2.1, hstood.2.2.1, hsame.symm.trans hstood.2.2.2⟩

/--
After any calls of a host on a new session, all links have passed the type gate all the time
exactly when those that a call brings pass right after this call.  A link that does not pass
was brought by a call, and did not pass right after it either.
-/
theorem passes_throughout_iff (layout : ImportLayout) (calls : List Call) :
    ((∀ n, ∀ link ∈ ((Session.start layout).after (calls.take n)).graph.links,
        ((Session.start layout).after (calls.take n)).graph.passes link = true) ↔
      ∀ n call, calls[n]? = some call → ∀ brought ∈ call.brings,
        ∀ link ∈ ((Session.start layout).after (calls.take (n + 1))).graph.links,
          link.unkeyed = brought.unkeyed →
          ((Session.start layout).after (calls.take (n + 1))).graph.passes link = true) ∧
    ∀ link ∈ ((Session.start layout).after calls).graph.links,
      ((Session.start layout).after calls).graph.passes link = false →
      ∃ n call, calls[n]? = some call ∧ ∃ brought ∈ call.brings,
        ∃ stood ∈ ((Session.start layout).after (calls.take (n + 1))).graph.links,
          ((Session.start layout).after (calls.take (n + 1))).graph.passes stood = false ∧
          stood.unkeyed = brought.unkeyed ∧ link.unkeyed = brought.unkeyed := by
  have hnone : ∀ link ∈ (Session.start layout).graph.links,
      (Session.start layout).graph.passes link = true :=
    fun _ hlink => absurd hlink List.not_mem_nil
  refine ⟨⟨fun hall n call _ brought _ link hlink _ => hall (n + 1) link hlink, ?_⟩,
    exists_brought_of_fails hnone calls⟩
  intro hcalls n link hlink
  by_contra hfails
  obtain ⟨m, call, hm, brought, hbrought, stood, hstood, hstoodFails, hsame, -⟩ :=
    exists_brought_of_fails hnone (calls.take n) link hlink (Bool.eq_false_iff.2 hfails)
  have hlt : m < n :=
    lt_of_lt_of_le (List.getElem?_eq_some_iff.1 hm).1 (List.length_take_le n calls)
  rw [List.take_take, min_eq_left hlt] at hstood hstoodFails
  rw [List.getElem?_take_of_lt hlt] at hm
  simp [hcalls m call hm brought hbrought stood hstood hsame] at hstoodFails

/-- A schema whose class has a slot for another one, and a document that links two of the class. -/
def mislinkingCalls : List Call :=
  [ .register "s" "class A:\n  b: B\nclass B:\n  n: int\n" "" ""
  , .loadGraph (.obj
      [ ("links", .arr
          [ .obj
              [ ("id", .int 1)
              , ("origin_id", .int 1)
              , ("origin_slot", .int 0)
              , ("target_id", .int 2)
              , ("target_slot", .int 0)
              , ("type", .str "B") ] ])
      , ("nodes", .arr
          [ .obj [("id", .int 1), ("type", .str "s.A")]
          , .obj [("id", .int 2), ("type", .str "s.A")] ]) ]) ]

/-- The document's link stands with a type of its own where connecting is refused. -/
theorem fails_after_mislinkingCalls :
    (((Session.start ImportLayout.standard).after mislinkingCalls).graph.links.map fun link =>
      (link.id, link.type)) = [(1, "B")] ∧
    (((Session.start ImportLayout.standard).after mislinkingCalls).graph.outputAt? 1 0).map
      OutputSlot.type = some "A" ∧
    (¬∀ link ∈ ((Session.start ImportLayout.standard).after mislinkingCalls).graph.links,
      ((Session.start ImportLayout.standard).after mislinkingCalls).graph.passes link = true) ∧
    (((Session.start ImportLayout.standard).after mislinkingCalls).connect 1 0 2 0).1 = none := by
  refine ⟨?_, ?_, ?_, ?_⟩
  all_goals decide +kernel

end Session

end SlotGraph
