import Mathlib.Data.List.Nodup
import Mathlib.Data.String.Basic
import SlotGraph.Json.Basic

/-!
# Members of an object

What can be looked up in an object that is put together from members in any order:
under each key the last of them.  Members that already ascend stay as they are.
-/

namespace SlotGraph

/-- Among entries of distinct keys each is the first one of its key. -/
theorem find?_of_nodup_map {α β : Type} [BEq β] [LawfulBEq β] {f : α → β} {l : List α}
    (h : (l.map f).Nodup) {x : α} (hx : x ∈ l) :
    l.find? (fun y => f y == f x) = some x := by
  have hsome : (l.find? fun y => f y == f x).isSome :=
    List.find?_isSome.2 ⟨x, hx, beq_self_eq_true (f x)⟩
  obtain ⟨found, hfound⟩ := Option.isSome_iff_exists.1 hsome
  have hkey : f found = f x := by
    simpa using List.find?_some hfound
  rw [hfound, List.inj_on_of_nodup_map h (List.mem_of_find?_eq_some hfound) hx hkey]

namespace Json

/-- Members in ascending order of their keys, each key once. -/
def Ascending (members : List (String × Json)) : Prop :=
  members.Pairwise fun a b => a.1 < b.1

instance (members : List (String × Json)) : Decidable (Ascending members) :=
  inferInstanceAs (Decidable (members.Pairwise fun a b => a.1 < b.1))

theorem Ascending.nodup {members : List (String × Json)} (h : Ascending members) :
    (members.map Prod.fst).Nodup :=
  List.pairwise_map.2 (h.imp fun hlt => ne_of_lt hlt)

theorem lookup_cons_if {α : Type} (key : String) (member : String × α)
    (rest : List (String × α)) :
    (member :: rest).lookup key =
      if key = member.1 then some member.2 else rest.lookup key := by
  rw [List.lookup_cons]
  by_cases hkey : key = member.1
  · simp [hkey]
  · rw [if_neg hkey, beq_false_of_ne hkey]

theorem lookup_insertMember (key other : String) (value : Json)
    (members : List (String × Json)) :
    (insertMember key value members).lookup other =
      if other = key then some value else members.lookup other := by
  induction members with
  | nil =>
      rw [insertMember, lookup_cons_if]
  | cons member rest ih =>
      obtain ⟨k, v⟩ := member
      rw [insertMember]
      split
      · rw [lookup_cons_if]
      · split
        · next hkey =>
            subst hkey
            rw [lookup_cons_if, lookup_cons_if]
            split <;> rfl
        · next hkey =>
            rw [lookup_cons_if, lookup_cons_if, ih]
            by_cases hother : other = key
            · simp [hother, hkey]
            · simp [hother]

theorem lookup_map {α β : Type} (view : α → β) (members : List (String × α)) (key : String) :
    (members.map fun member => (member.1, view member.2)).lookup key =
      (members.lookup key).map view := by
  induction members with
  | nil =>
      rfl
  | cons member rest ih =>
      rw [List.map_cons, lookup_cons_if, lookup_cons_if, ih]
      split <;> rfl

theorem lookup_filter {α : Type} {members : List (String × α)} (keeps : String → Bool)
    {key : String} (hkey : keeps key = true) :
    (members.filter fun member => keeps member.1).lookup key = members.lookup key := by
  induction members with
  | nil =>
      rfl
  | cons member rest ih =>
      rw [List.filter_cons, lookup_cons_if]
      split
      · rw [lookup_cons_if, ih]
      · next hdropped =>
          rw [ih, if_neg]
          rintro rfl
          exact hdropped hkey

theorem get?_ofMembers (members : List (String × Json)) (key : String) :
    (ofMembers members).get? key = members.reverse.lookup key := by
  suffices ∀ sorted, (members.foldl (fun s m => insertMember m.1 m.2 s) sorted).lookup key =
      (members.reverse.lookup key).or (sorted.lookup key) by
    simpa [ofMembers, get?, Json.members] using this []
  induction members with
  | nil =>
      simp
  | cons member rest ih =>
      intro sorted
      rw [List.foldl_cons, ih, lookup_insertMember, List.reverse_cons, List.lookup_append,
        Option.or_assoc, lookup_cons_if]
      by_cases hkey : key = member.1 <;> simp [hkey]

theorem mem_of_lookup {α : Type} {members : List (String × α)} {key : String} {value : α}
    (h : members.lookup key = some value) : (key, value) ∈ members := by
  induction members with
  | nil =>
      simp at h
  | cons member rest ih =>
      rw [lookup_cons_if] at h
      split at h
      · next hkey =>
          rw [hkey, ← Option.some.inj h]
          exact List.mem_cons_self
      · exact List.mem_cons_of_mem _ (ih h)

theorem lookup_isSome_of_mem {α : Type} {members : List (String × α)} {key : String}
    {value : α} (h : (key, value) ∈ members) : (members.lookup key).isSome := by
  induction members with
  | nil =>
      simp at h
  | cons member rest ih =>
      rw [lookup_cons_if]
      split
      · rfl
      · next hkey =>
          rcases List.mem_cons.1 h with rfl | hrest
          · exact absurd rfl hkey
          · exact ih hrest

/-- Among members of distinct keys a look-up finds each one. -/
theorem lookup_eq_some_iff {α : Type} {members : List (String × α)}
    (h : (members.map Prod.fst).Nodup) {key : String} {value : α} :
    members.lookup key = some value ↔ (key, value) ∈ members := by
  refine ⟨mem_of_lookup, fun hmem => ?_⟩
  obtain ⟨found, hfound⟩ := Option.isSome_iff_exists.1 (lookup_isSome_of_mem hmem)
  have hsame := List.inj_on_of_nodup_map h (mem_of_lookup hfound) hmem rfl
  rw [hfound, (Prod.mk.inj hsame).2]

theorem get?_ofMembers_of_nodup {members : List (String × Json)}
    (h : (members.map Prod.fst).Nodup) (key : String) :
    (ofMembers members).get? key = members.lookup key := by
  have hreverse : (members.reverse.map Prod.fst).Nodup := by
    rwa [List.map_reverse, List.nodup_reverse]
  rw [get?_ofMembers]
  apply Option.ext
  intro value
  rw [lookup_eq_some_iff hreverse, lookup_eq_some_iff h, List.mem_reverse]

section

variable {α β : Type} {name : α → String} {value? : α → Option β} {xs : List α}

/-- Which members there are of things that each give one under their name, or none. -/
theorem mem_named {member : String × β} :
    member ∈ (xs.filterMap fun x => (value? x).map (Prod.mk (name x))) ↔
      ∃ x ∈ xs, name x = member.1 ∧ value? x = some member.2 := by
  simp only [List.mem_filterMap, Option.map_eq_some_iff, Prod.ext_iff]
  constructor
  · rintro ⟨x, hx, value, hvalue, hname, rfl⟩
    exact ⟨x, hx, hname, hvalue⟩
  · rintro ⟨x, hx, hname, hvalue⟩
    exact ⟨x, hx, member.2, hvalue, hname, rfl⟩

theorem nodup_named (h : (xs.map name).Nodup) :
    ((xs.filterMap fun x => (value? x).map (Prod.mk (name x))).map Prod.fst).Nodup := by
  refine h.sublist ?_
  induction xs with
  | nil =>
      exact List.Sublist.slnil
  | cons x rest ih =>
      rw [List.filterMap_cons]
      have hrest := ih (List.nodup_cons.1 h).2
      cases value? x with
      | none =>
          exact hrest.cons _
      | some value =>
          exact hrest.cons_cons _

/-- Under a name stands what the thing of this name gives. -/
theorem lookup_named (h : (xs.map name).Nodup) {x : α} (hx : x ∈ xs) :
    (xs.filterMap fun x => (value? x).map (Prod.mk (name x))).lookup (name x) = value? x := by
  apply Option.ext
  intro value
  rw [lookup_eq_some_iff (nodup_named h), mem_named]
  constructor
  · rintro ⟨other, hother, hname, hvalue⟩
    rwa [← List.inj_on_of_nodup_map h hother hx hname]
  · exact fun hvalue => ⟨x, hx, rfl, hvalue⟩

end

theorem insertMember_of_gt {key : String} {value : Json} {members : List (String × Json)}
    (h : ∀ member ∈ members, member.1 < key) :
    insertMember key value members = members ++ [(key, value)] := by
  induction members with
  | nil =>
      rfl
  | cons member rest ih =>
      have hlt := h member List.mem_cons_self
      rw [insertMember, if_neg (not_lt_of_gt hlt), if_neg (ne_of_gt hlt),
        ih fun m hm => h m (List.mem_cons_of_mem _ hm)]
      rfl

theorem ofMembers_of_ascending {members : List (String × Json)} (h : Ascending members) :
    ofMembers members = .obj members := by
  suffices ∀ sorted, Ascending (sorted ++ members) →
      members.foldl (fun s m => insertMember m.1 m.2 s) sorted = sorted ++ members by
    rw [ofMembers, this [] h, List.nil_append]
  clear h
  induction members with
  | nil =>
      simp
  | cons member rest ih =>
      intro sorted hsorted
      have hbefore : ∀ m ∈ sorted, m.1 < member.1 := by
        intro m hm
        exact (List.pairwise_append.1 hsorted).2.2 m hm member List.mem_cons_self
      rw [List.foldl_cons, insertMember_of_gt hbefore, ih, List.append_assoc]
      · rfl
      · rwa [← List.append_cons]

theorem mem_insertMember {key : String} {value : Json} {members : List (String × Json)}
    {member : String × Json} (h : member ∈ insertMember key value members) :
    member = (key, value) ∨ member ∈ members := by
  induction members with
  | nil =>
      exact Or.inl (List.mem_singleton.1 h)
  | cons first rest ih =>
      rw [insertMember] at h
      split at h
      · exact List.mem_cons.1 h
      · split at h
        · exact (List.mem_cons.1 h).imp_right (List.mem_cons_of_mem _)
        · rcases List.mem_cons.1 h with heq | hrest
          · exact Or.inr (heq ▸ List.mem_cons_self)
          · exact (ih hrest).imp_right (List.mem_cons_of_mem _)

theorem Ascending.insertMember {members : List (String × Json)} (h : Ascending members)
    (key : String) (value : Json) : Ascending (insertMember key value members) := by
  induction members with
  | nil =>
      exact List.pairwise_singleton _ _
  | cons member rest ih =>
      obtain ⟨hfirst, hrest⟩ := List.pairwise_cons.1 h
      rw [Json.insertMember]
      split
      · next hlt =>
          refine List.pairwise_cons.2 ⟨fun other hother => ?_, h⟩
          rcases List.mem_cons.1 hother with rfl | hmem
          · exact hlt
          · exact lt_trans hlt (hfirst other hmem)
      · next hle =>
          split
          · next heq =>
              exact List.pairwise_cons.2 ⟨fun other hother => heq ▸ hfirst other hother, hrest⟩
          · next hne =>
              refine List.pairwise_cons.2 ⟨fun other hother => ?_, ih hrest⟩
              rcases mem_insertMember hother with rfl | hmem
              · exact lt_of_le_of_ne (le_of_not_gt hle) (Ne.symm hne)
              · exact hfirst other hmem

theorem ascending_ofMembers (members : List (String × Json)) :
    Ascending (ofMembers members).members := by
  suffices ∀ sorted, Ascending sorted →
      Ascending (members.foldl (fun s m => insertMember m.1 m.2 s) sorted) from
    this [] List.Pairwise.nil
  induction members with
  | nil =>
      exact fun _ h => h
  | cons member rest ih =>
      exact fun sorted h => ih _ (h.insertMember member.1 member.2)

theorem mem_ofMembers_of_nodup {members : List (String × Json)}
    (h : (members.map Prod.fst).Nodup) {member : String × Json} :
    member ∈ (ofMembers members).members ↔ member ∈ members := by
  rw [← lookup_eq_some_iff h, ← lookup_eq_some_iff (ascending_ofMembers members).nodup]
  exact iff_of_eq (congrArg (· = some member.2) (get?_ofMembers_of_nodup h member.1))

theorem Ascending.ext {members others : List (String × Json)} (h : Ascending members)
    (hothers : Ascending others)
    (hlookup : ∀ key, members.lookup key = others.lookup key) : members = others := by
  have hmem : ∀ member, member ∈ members ↔ member ∈ others := by
    intro member
    rw [← lookup_eq_some_iff h.nodup, ← lookup_eq_some_iff hothers.nodup, hlookup]
  have hperm := (List.perm_ext_iff_of_nodup h.nodup.of_map hothers.nodup.of_map).2 hmem
  exact hperm.eq_of_pairwise (fun a b _ _ hab hba => absurd hba (lt_asymm hab)) h hothers

theorem ofMembers_eq {members others : List (String × Json)} (hothers : Ascending others)
    (hlookup : ∀ key, (ofMembers members).get? key = others.lookup key) :
    ofMembers members = .obj others :=
  congrArg Json.obj ((ascending_ofMembers members).ext hothers hlookup)

end Json

end SlotGraph
