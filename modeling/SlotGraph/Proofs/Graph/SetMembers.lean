import Mathlib.Data.List.Perm.Subperm
import SlotGraph.Graph.Value
import SlotGraph.Proofs.Json.Members

/-!
# Members that are set one by one

Entries that are set one after the other make members of distinct keys: an entry whose key
is there takes the place of what stood under it, and any other comes last.
-/

namespace SlotGraph

namespace NodeValue

theorem mem_put {key name : String} {value other : NodeValue}
    {members : List (String × NodeValue)} (h : (name, other) ∈ put key value members) :
    (name, other) = (key, value) ∨ (name, other) ∈ members := by
  induction members with
  | nil =>
      exact Or.inl (List.mem_singleton.1 h)
  | cons member rest ih =>
      rw [put] at h
      split at h
      · rcases List.mem_cons.1 h with heq | hrest
        · exact Or.inl heq
        · exact Or.inr (List.mem_cons_of_mem _ hrest)
      · rcases List.mem_cons.1 h with heq | hrest
        · exact Or.inr (heq ▸ List.mem_cons_self)
        · exact (ih hrest).imp_right (List.mem_cons_of_mem _)

theorem nodup_put {key : String} {value : NodeValue} {members : List (String × NodeValue)}
    (h : (members.map Prod.fst).Nodup) : ((put key value members).map Prod.fst).Nodup := by
  induction members with
  | nil =>
      simp [put]
  | cons member rest ih =>
      obtain ⟨hfresh, hrest⟩ := List.nodup_cons.1 h
      rw [put]
      split
      · next hkey =>
          rw [List.map_cons, List.nodup_cons, ← hkey]
          exact ⟨hfresh, hrest⟩
      · next hkey =>
          rw [List.map_cons, List.nodup_cons]
          refine ⟨fun hmem => ?_, ih hrest⟩
          obtain ⟨⟨name, other⟩, hput, hname⟩ := List.mem_map.1 hmem
          rcases mem_put hput with heq | hold
          · exact hkey (hname ▸ (Prod.mk.inj heq).1)
          · exact hfresh (List.mem_map.2 ⟨_, hold, hname⟩)

theorem nodup_putAll (entries : List (String × NodeValue)) :
    ((putAll entries).map Prod.fst).Nodup :=
  List.foldlRecOn entries _
    (motive := fun members : List (String × NodeValue) => (members.map Prod.fst).Nodup)
    List.nodup_nil fun _ h _ _ => nodup_put h

theorem mem_putAll {entries : List (String × NodeValue)} {member : String × NodeValue}
    (h : member ∈ putAll entries) : member ∈ entries := by
  suffices ∀ members : List (String × NodeValue),
      member ∈ entries.foldl (fun members entry => put entry.1 entry.2 members) members →
      member ∈ members ∨ member ∈ entries from
    (this [] h).resolve_left List.not_mem_nil
  clear h
  induction entries with
  | nil =>
      exact fun _ => Or.inl
  | cons entry rest ih =>
      intro members hmem
      rcases ih _ hmem with hput | hrest
      · rcases mem_put hput with hnew | hold
        · exact Or.inr (List.mem_cons.2 (Or.inl hnew))
        · exact Or.inl hold
      · exact Or.inr (List.mem_cons_of_mem _ hrest)

theorem put_of_fresh {key : String} {value : NodeValue} {members : List (String × NodeValue)}
    (h : key ∉ members.map Prod.fst) : put key value members = members ++ [(key, value)] := by
  induction members with
  | nil =>
      rfl
  | cons member rest ih =>
      rw [List.map_cons, List.mem_cons, not_or] at h
      rw [put, if_neg (Ne.symm h.1), ih h.2]
      rfl

/-- Entries of distinct keys stand in their order. -/
theorem putAll_of_nodup {entries : List (String × NodeValue)}
    (h : (entries.map Prod.fst).Nodup) : putAll entries = entries := by
  suffices ∀ members : List (String × NodeValue),
      (members.map Prod.fst ++ entries.map Prod.fst).Nodup →
      entries.foldl (fun members entry => put entry.1 entry.2 members) members =
        members ++ entries from this [] (by simpa using h)
  clear h
  induction entries with
  | nil =>
      simp
  | cons entry rest ih =>
      intro members hdistinct
      have hfresh : entry.1 ∉ members.map Prod.fst := by
        intro hmem
        exact (List.nodup_append.1 hdistinct).2.2 _ hmem _ List.mem_cons_self rfl
      rw [List.foldl_cons, put_of_fresh hfresh, ih, List.append_assoc]
      · rfl
      · simpa using hdistinct

theorem lookup_put (key other : String) (value : NodeValue)
    (members : List (String × NodeValue)) :
    (put key value members).lookup other =
      if other = key then some value else members.lookup other := by
  induction members with
  | nil =>
      rw [put, Json.lookup_cons_if]
  | cons member rest ih =>
      obtain ⟨name, old⟩ := member
      by_cases hname : name = key
      · rw [put, if_pos hname, Json.lookup_cons_if, Json.lookup_cons_if, hname]
        by_cases hother : other = key <;> simp [hother]
      · rw [put, if_neg hname, Json.lookup_cons_if, Json.lookup_cons_if, ih]
        by_cases hother : other = key
        · simp [hother, Ne.symm hname]
        · simp [hother]

theorem lookup_putAll (entries : List (String × NodeValue)) (key : String) :
    (putAll entries).lookup key = entries.reverse.lookup key := by
  suffices ∀ members : List (String × NodeValue),
      (entries.foldl (fun members entry => put entry.1 entry.2 members) members).lookup key =
        (entries.reverse.lookup key).or (members.lookup key) by
    simpa [putAll] using this []
  induction entries with
  | nil =>
      simp
  | cons entry rest ih =>
      intro members
      rw [List.foldl_cons, ih, lookup_put, List.reverse_cons, List.lookup_append,
        Option.or_assoc, Json.lookup_cons_if]
      by_cases hkey : key = entry.1 <;> simp [hkey]

theorem mem_keys_iff {α : Type} {members : List (String × α)} {key : String} :
    key ∈ members.map Prod.fst ↔ (members.lookup key).isSome = true := by
  simp [List.lookup_isSome_iff]

theorem mem_keys_putAll {entries : List (String × NodeValue)} {key : String} :
    key ∈ (putAll entries).map Prod.fst ↔ key ∈ entries.map Prod.fst := by
  rw [mem_keys_iff, lookup_putAll, ← mem_keys_iff, List.map_reverse, List.mem_reverse]

/-- Each entry makes a member exactly when no two of them have one key. -/
theorem length_putAll_iff {entries : List (String × NodeValue)} :
    (putAll entries).length = entries.length ↔ (entries.map Prod.fst).Nodup := by
  constructor
  · intro hlength
    have hsub := List.subperm_of_subset (nodup_putAll entries) fun _ => mem_keys_putAll.1
    have hperm := hsub.perm_of_length_le (by simp [hlength])
    exact hperm.nodup_iff.1 (nodup_putAll entries)
  · intro hdistinct
    rw [putAll_of_nodup hdistinct]

/-! ## Members that are seen through a view -/

section

variable {α : Type} {view view' : NodeValue → α}

theorem put_congr {key : String} {value value' : NodeValue}
    {members members' : List (String × NodeValue)} (hvalue : view value = view' value')
    (hmembers : (members.map fun member => (member.1, view member.2)) =
      members'.map fun member => (member.1, view' member.2)) :
    ((put key value members).map fun member => (member.1, view member.2)) =
      (put key value' members').map fun member => (member.1, view' member.2) := by
  induction members generalizing members' with
  | nil =>
      have hnil : members' = [] := by
        simpa using hmembers.symm
      rw [hnil]
      simp [put, hvalue]
  | cons member rest ih =>
      cases members' with
      | nil =>
          simp at hmembers
      | cons member' rest' =>
          obtain ⟨name, old⟩ := member
          obtain ⟨name', old'⟩ := member'
          rw [List.map_cons, List.map_cons, List.cons.injEq] at hmembers
          obtain ⟨hfirst, hrest⟩ := hmembers
          obtain ⟨rfl, hold⟩ : name = name' ∧ view old = view' old' := Prod.mk.inj hfirst
          by_cases hkey : name = key
          · simp [put, hkey, hvalue, hrest]
          · simp [put, hkey, hold, ih hrest]

theorem putAll_congr {entries entries' : List (String × NodeValue)}
    (h : (entries.map fun entry => (entry.1, view entry.2)) =
      entries'.map fun entry => (entry.1, view' entry.2)) :
    ((putAll entries).map fun member => (member.1, view member.2)) =
      (putAll entries').map fun member => (member.1, view' member.2) := by
  suffices ∀ members members' : List (String × NodeValue),
      (members.map fun member => (member.1, view member.2)) =
        (members'.map fun member => (member.1, view' member.2)) →
      ((entries.foldl (fun members entry => put entry.1 entry.2 members) members).map
        fun member => (member.1, view member.2)) =
        (entries'.foldl (fun members entry => put entry.1 entry.2 members) members').map
          fun member => (member.1, view' member.2) from this [] [] rfl
  induction entries generalizing entries' with
  | nil =>
      have hnil : entries' = [] := by
        simpa using h.symm
      rw [hnil]
      exact fun _ _ hmembers => hmembers
  | cons entry rest ih =>
      cases entries' with
      | nil =>
          simp at h
      | cons entry' rest' =>
          intro members members' hmembers
          rw [List.map_cons, List.map_cons, List.cons.injEq] at h
          obtain ⟨hfirst, hrest⟩ := h
          obtain ⟨hname, hvalue⟩ := Prod.mk.inj hfirst
          rw [List.foldl_cons, List.foldl_cons, ← hname]
          exact ih hrest _ _ (put_congr hvalue hmembers)

end

end NodeValue

end SlotGraph
