import SlotGraph.Proofs.Import.Additions
import SlotGraph.Proofs.Import.Coverage

/-!
# Every element is answered

No element of a value passes in silence: the links and the issues of a call that fills a slot
by links are together at least as many as the elements of its value, and an import without
issues has linked them all.
-/

namespace SlotGraph

namespace Import

/-- How many elements a value of a field has. -/
def elementCount (field : Field) : Json → Nat
  | .arr elements => elements.length
  | .obj object => if field.type.required.isDict then object.length else 1
  | _ => 1

def Filling.linksMade (setting : Setting) (groups : List Group) (call : Filling) : Int :=
  (call.after setting groups).graph.lastLink - call.before.graph.lastLink

def Filling.issuesMade (setting : Setting) (groups : List Group) (call : Filling) : List Issue :=
  (call.after setting groups).issues.drop call.before.issues.length

variable {setting : Setting} {groups : List Group} {g : Graph} {p p' : Progress}
  {document : List (String × Json)} {call : Filling} {part : Part}

theorem length_entriesOf (field : Field) (value : Json) :
    (entriesOf field value).length = elementCount field value := by
  cases value with
  | arr elements =>
      exact List.length_map _
  | obj object =>
      rw [entriesOf, elementCount]
      split <;> rfl
  | _ =>
      rfl

/-! ## Links and issues -/

def Progress.tally (p : Progress) : Nat :=
  p.links + p.issues.length

/-- If every part adds to the tally, all of them add as much as there are elements. -/
theorem tally_partsFrom {answer : Progress → String × Json → Progress}
    {entries : List (String × Json)}
    (hparts : ∀ part ∈ partsFrom answer entries p, part.before.tally < part.after.tally) :
    p.tally + entries.length ≤ (entries.foldl answer p).tally := by
  induction entries generalizing p with
  | nil =>
      exact Nat.le_refl _
  | cons entry rest ih =>
      rw [partsFrom, List.forall_mem_cons] at hparts
      obtain ⟨hfirst, hlater⟩ := hparts
      have hrest := ih hlater
      have hone : p.tally < (answer p entry).tally := hfirst
      rw [List.foldl_cons, List.length_cons]
      omega

/-- If every part adds to the links, the counts that they end with rise. -/
theorem pairwise_partsFrom {answer : Progress → String × Json → Progress}
    {entries : List (String × Json)}
    (hparts : ∀ part ∈ partsFrom answer entries p, part.before.links < part.after.links) :
    (∀ part ∈ partsFrom answer entries p, p.links < part.after.links) ∧
      ((partsFrom answer entries p).map fun part => part.after.links).Pairwise (· < ·) := by
  induction entries generalizing p with
  | nil =>
      exact ⟨fun _ hpart => absurd hpart List.not_mem_nil, .nil⟩
  | cons entry rest ih =>
      rw [partsFrom, List.forall_mem_cons] at hparts
      obtain ⟨hfirst, hlater⟩ := hparts
      obtain ⟨habove, hrising⟩ := ih hlater
      have hone : p.links < (answer p entry).links := hfirst
      rw [partsFrom, List.forall_mem_cons, List.map_cons, List.pairwise_cons]
      refine ⟨⟨hone, fun part hpart => hone.trans (habove part hpart)⟩, ?_, hrising⟩
      intro count hcount
      obtain ⟨part, hpart, rfl⟩ := List.mem_map.1 hcount
      exact habove part hpart

theorem tally_lt_of_answered (hsteps : Steps setting part.before part.after)
    (h : part.Linked setting groups call ∨ part.Reported) :
    part.before.tally < part.after.tally := by
  unfold Progress.tally
  rcases h with hlinked | ⟨issues, hissues, hafter⟩
  · have hlinks := hlinked.links_lt
    have hissues := hsteps.issues_prefix.length_le
    omega
  · have hlinks := hsteps.mono.2
    have hpositive := List.length_pos_iff.2 hissues
    rw [hafter, List.length_append]
    omega

/-! ## A whole import -/

/--
Whether a call passes over no element of its value: its parts are about all of them, each is
linked or reported, and there are at least as many links and issues as elements.
-/
structure Answered (setting : Setting) (groups : List Group) (call : Filling) : Prop where
  whole : (call.parts setting groups).map (fun part => (part.key, part.element)) =
    entriesOf call.field call.value
  counted : (elementCount call.field call.value : Int) ≤
    call.linksMade setting groups + (call.issuesMade setting groups).length
  parts : ∀ part ∈ call.parts setting groups, part.Linked setting groups call ∨ part.Reported

/-- A call on the way of an import answers every element of its value. -/
theorem answered_of_underway (hserves : setting.registry.Serves setting.schema)
    (hproper : call.Proper setting) (hunderway : Underway setting groups g call.before)
    (hreach : Reaches g (call.after setting groups)) : Answered setting groups call := by
  have hafter := Filling.after_eq_foldl groups hproper
  have hparts : ∀ part ∈ call.parts setting groups,
      part.Linked setting groups call ∨ part.Reported := fun part hpart =>
    linked_or_reported hproper hunderway hpart hserves
      (hreach.back (steps_after_part hproper hpart))
  refine ⟨map_partsFrom _ _ call.before, ?_, hparts⟩
  have htally := tally_partsFrom fun part hpart =>
    tally_lt_of_answered (steps_part hpart) (hparts part hpart)
  have hwhole : Steps setting call.before (call.after setting groups) := by
    rw [hafter]
    exact steps_foldl (fun entry _ q => steps_answer call q entry) call.before
  have hlinksBefore := hunderway.counted.links
  have hlinksAfter := (hunderway.steps hwhole hreach).counted.links
  have hissues := hwhole.issues_prefix.length_le
  rw [length_entriesOf, ← hafter] at htally
  unfold Progress.tally at htally
  rw [Filling.linksMade, Filling.issuesMade, List.length_drop, hlinksBefore, hlinksAfter]
  omega

/--
An import passes over no element in silence: no slot that links feed is left out, and every
call that fills one answers all elements of its value.  If the import reports nothing then
every element is linked, each by the next link of its own.
-/
theorem answered_fillings (haccepted : setting.schema.Accepted)
    (hserves : setting.registry.Serves setting.schema) (hg : g.WellFormed)
    (hfits : (Edit.importConfig setting (.obj document)).Fits g) :
    Complete setting g document ∧
    (∀ call ∈ fillings setting g document,
      Answered setting (madeGroups setting g document) call) ∧
    ((run setting g document).2.issues = [] →
      ∀ call ∈ fillings setting g document,
        (∀ part ∈ call.parts setting (madeGroups setting g document),
          part.Linked setting (madeGroups setting g document) call) ∧
        ((call.parts setting (madeGroups setting g document)).map fun part =>
          part.after.links).Pairwise (· < ·)) := by
  have hreach := reaches_of_fits hfits
  have hbetween := between_fillings haccepted hserves hg hreach
  have hanswered : ∀ call ∈ fillings setting g document,
      Answered setting (madeGroups setting g document) call := by
    intro call hcall
    obtain ⟨hproper, hunderway, -, hlast⟩ := hbetween call hcall
    exact answered_of_underway hserves hproper hunderway (hreach.back hlast)
  refine ⟨complete_fillings haccepted hserves hg hreach, hanswered, fun hsilent call hcall => ?_⟩
  obtain ⟨hproper, hunderway, hfirst, hlast⟩ := hbetween call hcall
  have hlinked : ∀ part ∈ call.parts setting (madeGroups setting g document),
      part.Linked setting (madeGroups setting g document) call := by
    intro part hpart
    refine ((hanswered call hcall).parts part hpart).resolve_right ?_
    -- What is reported for one part would still be there in the end.
    rintro ⟨issues, hissues, hafter⟩
    have hkept := Steps.issues_prefix ((steps_after_part hproper hpart).trans hlast)
    rw [hsilent, List.prefix_nil, hafter, List.append_eq_nil_iff] at hkept
    exact hissues hkept.2
  exact ⟨hlinked, (pairwise_partsFrom fun part hpart => (hlinked part hpart).links_lt).2⟩

/-- A member whose successor is missing, and one that holds a third, which holds a fourth. -/
def nestedDocument : List (String × Json) :=
  [("tools", .arr
    [ .obj [("next", .int 7)]
    , .obj [("next", .obj [("parent", .int 0), ("next", .obj [])])] ])]

theorem answered_fillings_household :
    household.Accepted ∧ householdSetting.registry.Serves household ∧ memberGraph.WellFormed ∧
    (Edit.importConfig householdSetting (.obj householdDocument)).Fits memberGraph ∧
    (run householdSetting memberGraph householdDocument).2.issues = [] ∧
    (∀ call ∈ fillings householdSetting memberGraph householdDocument,
      ∀ part ∈ call.parts householdSetting
        (madeGroups householdSetting memberGraph householdDocument),
      part.Linked householdSetting
        (madeGroups householdSetting memberGraph householdDocument) call) ∧
    (Edit.importConfig householdSetting (.obj nestedDocument)).Fits memberGraph ∧
    Complete householdSetting memberGraph nestedDocument ∧
    (∀ call ∈ fillings householdSetting memberGraph nestedDocument,
      Answered householdSetting (madeGroups householdSetting memberGraph nestedDocument) call) ∧
    (fillings householdSetting memberGraph nestedDocument).map (fun call =>
      (call.target, call.field.name,
        call.linksMade householdSetting (madeGroups householdSetting memberGraph nestedDocument),
        (call.issuesMade householdSetting
          (madeGroups householdSetting memberGraph nestedDocument)).length)) =
      [(3, "next", 0, 1), (4, "next", 2, 1), (5, "parent", 0, 1), (5, "next", 1, 0)] := by
  have hwf : memberGraph.WellFormed :=
    Graph.WellFormed.empty.run (by decide +kernel)
  have hfits : (Edit.importConfig householdSetting (.obj householdDocument)).Fits memberGraph := by
    decide +kernel
  have hsilent : (run householdSetting memberGraph householdDocument).2.issues = [] := by
    decide +kernel
  have hnested : (Edit.importConfig householdSetting (.obj nestedDocument)).Fits memberGraph := by
    decide +kernel
  obtain ⟨-, -, hlinked⟩ := answered_fillings accepted_household serves_household hwf hfits
  obtain ⟨hcomplete, hanswered, -⟩ :=
    answered_fillings accepted_household serves_household hwf hnested
  exact ⟨accepted_household, serves_household, hwf, hfits, hsilent,
    fun call hcall => (hlinked hsilent call hcall).1, hnested, hcomplete, hanswered,
    by decide +kernel⟩

end Import

end SlotGraph
