import SlotGraph.Json.Reader
import SlotGraph.Proofs.Json.ReadBack

/-!
# Values with members in order

An object holds its members by key, so that in whatever can be held the members ascend, all
the way down.  A reader gives nothing else, in whatever order a text lists them.
-/

namespace SlotGraph

namespace Json

mutual

def values : Json → List Json
  | .arr xs => .arr xs :: itemsValues xs
  | .obj ms => .obj ms :: membersValues ms
  | value => [value]
termination_by structural value => value

def itemsValues : List Json → List Json
  | [] => []
  | x :: xs => values x ++ itemsValues xs
termination_by structural xs => xs

def membersValues : List (String × Json) → List Json
  | [] => []
  | (_, x) :: ms => values x ++ membersValues ms
termination_by structural ms => ms

end

theorem itemsValues_eq (xs : List Json) : itemsValues xs = xs.flatMap values := by
  induction xs with
  | nil =>
      rfl
  | cons x rest ih =>
      rw [itemsValues, ih, List.flatMap_cons]

theorem membersValues_eq (ms : List (String × Json)) :
    membersValues ms = ms.flatMap fun member => member.2.values := by
  induction ms with
  | nil =>
      rfl
  | cons member rest ih =>
      rw [membersValues, ih, List.flatMap_cons]

/-- Whether the members of every object in a value ascend. -/
def Ordered (value : Json) : Prop :=
  ∀ inner ∈ value.values, Ascending inner.members

instance (value : Json) : Decidable value.Ordered :=
  inferInstanceAs (Decidable (∀ inner ∈ value.values, Ascending inner.members))

theorem ordered_of_scalar {value : Json} (h : value.isStructured = false) : value.Ordered := by
  have hself : value.values = [value] ∧ value.members = [] := by
    cases value <;> first | exact ⟨rfl, rfl⟩ | cases h
  intro inner hinner
  rw [hself.1] at hinner
  rw [List.mem_singleton.1 hinner, hself.2]
  exact .nil

theorem ordered_arr_iff {items : List Json} :
    (arr items).Ordered ↔ ∀ item ∈ items, item.Ordered := by
  have hself : Ascending (arr items).members := .nil
  rw [Ordered, values, itemsValues_eq, List.forall_mem_cons, and_iff_right hself,
    List.forall_mem_flatMap]
  rfl

theorem ordered_obj_iff {members : List (String × Json)} :
    (obj members).Ordered ↔ Ascending members ∧ ∀ member ∈ members, member.2.Ordered := by
  rw [Ordered, values, membersValues_eq, List.forall_mem_cons, List.forall_mem_flatMap]
  rfl

theorem Canonical.ordered {value : Json} (h : value.Canonical) : value.Ordered := by
  refine Canonical.induction (P := Ordered) ?_ ?_ ?_ h
  · exact fun _ _ hscalar => ordered_of_scalar hscalar
  · exact fun _ _ hitems => ordered_arr_iff.2 hitems
  · exact fun _ hmembers hvalues => ordered_obj_iff.2 ⟨hmembers.1, hvalues⟩

theorem mem_ofMembers {members : List (String × Json)} {member : String × Json}
    (h : member ∈ (ofMembers members).members) : member ∈ members := by
  suffices ∀ sorted, member ∈ members.foldl (fun s m => insertMember m.1 m.2 s) sorted →
      member ∈ sorted ∨ member ∈ members from (this [] h).resolve_left List.not_mem_nil
  clear h
  induction members with
  | nil =>
      exact fun _ => Or.inl
  | cons first rest ih =>
      intro sorted hmem
      rcases ih _ hmem with hput | hrest
      · rcases mem_insertMember hput with hnew | hold
        · exact Or.inr (List.mem_cons.2 (Or.inl hnew))
        · exact Or.inl hold
      · exact Or.inr (List.mem_cons_of_mem _ hrest)

theorem ordered_ofMembers {members : List (String × Json)}
    (h : ∀ member ∈ members, member.2.Ordered) : (ofMembers members).Ordered :=
  ordered_obj_iff.2
    ⟨ascending_ofMembers members, fun member hmember => h member (mem_ofMembers hmember)⟩

/-! ## What a reader gives -/

theorem ordered_of_value? {token : Token} {value : Json} (h : token.value? = some value) :
    value.Ordered := by
  refine ordered_of_scalar ?_
  have hfloat : ∀ {value : Json}, token.float? = some value → value.isStructured = false := by
    intro value hvalue
    simp only [Token.float?] at hvalue
    split at hvalue
    · rw [← Option.some.inj hvalue]
      rfl
    · cases hvalue
  simp only [Token.value?] at h
  repeat' split at h
  all_goals first | exact hfloat h | (rw [← Option.some.inj h]; rfl)

theorem ordered_of_readValue {limit : Nat} {text rest : List Char} {value : Json}
    (hitems : ∀ {text rest : List Char} {items : List Json},
      readItems limit text = some (items, rest) → ∀ item ∈ items, item.Ordered)
    (hmembers : ∀ {text rest : List Char} {members : List (String × Json)},
      readMembers limit text = some (members, rest) → ∀ member ∈ members, member.2.Ordered)
    (h : readValue (limit + 1) text = some (value, rest)) : value.Ordered := by
  rw [readValue.eq_def] at h
  dsimp only at h
  split at h
  · cases h
    exact ordered_of_scalar rfl
  · cases h
    exact ordered_of_scalar rfl
  · cases h
    exact ordered_of_scalar rfl
  · obtain ⟨⟨read, behind⟩, -, heq⟩ := Option.map_eq_some_iff.1 h
    cases heq
    exact ordered_of_scalar rfl
  · split at h
    · cases h
      exact ordered_arr_iff.2 fun _ hitem => absurd hitem List.not_mem_nil
    · obtain ⟨⟨items, behind⟩, hread, heq⟩ := Option.map_eq_some_iff.1 h
      cases heq
      exact ordered_arr_iff.2 (hitems hread)
  · split at h
    · cases h
      exact ordered_obj_iff.2 ⟨.nil, fun _ hmember => absurd hmember List.not_mem_nil⟩
    · obtain ⟨⟨members, behind⟩, hread, heq⟩ := Option.map_eq_some_iff.1 h
      cases heq
      exact ordered_ofMembers (hmembers hread)
  · obtain ⟨⟨token, behind⟩, -, hvalue⟩ := Option.bind_eq_some_iff.1 h
    obtain ⟨number, hnumber, heq⟩ := Option.map_eq_some_iff.1 hvalue
    cases heq
    exact ordered_of_value? hnumber

theorem ordered_of_readItems {limit : Nat} {text rest : List Char} {items : List Json}
    (hvalue : ∀ {text rest : List Char} {value : Json},
      readValue limit text = some (value, rest) → value.Ordered)
    (hitems : ∀ {text rest : List Char} {items : List Json},
      readItems limit text = some (items, rest) → ∀ item ∈ items, item.Ordered)
    (h : readItems (limit + 1) text = some (items, rest)) : ∀ item ∈ items, item.Ordered := by
  rw [readItems] at h
  obtain ⟨⟨first, behind⟩, hfirst, h⟩ := Option.bind_eq_some_iff.1 h
  dsimp only at h
  split at h
  · cases h
    exact List.forall_mem_singleton.2 (hvalue hfirst)
  · obtain ⟨⟨others, behind⟩, hread, heq⟩ := Option.map_eq_some_iff.1 h
    cases heq
    exact List.forall_mem_cons.2 ⟨hvalue hfirst, hitems hread⟩
  · cases h

theorem ordered_of_readMembers {limit : Nat} {text rest : List Char}
    {members : List (String × Json)}
    (hvalue : ∀ {text rest : List Char} {value : Json},
      readValue limit text = some (value, rest) → value.Ordered)
    (hmembers : ∀ {text rest : List Char} {members : List (String × Json)},
      readMembers limit text = some (members, rest) → ∀ member ∈ members, member.2.Ordered)
    (h : readMembers (limit + 1) text = some (members, rest)) :
    ∀ member ∈ members, member.2.Ordered := by
  rw [readMembers] at h
  obtain ⟨⟨key, behind⟩, -, h⟩ := Option.bind_eq_some_iff.1 h
  dsimp only at h
  split at h
  · obtain ⟨⟨first, behind⟩, hfirst, h⟩ := Option.bind_eq_some_iff.1 h
    dsimp only at h
    split at h
    · cases h
      exact List.forall_mem_singleton.2 (hvalue hfirst)
    · obtain ⟨⟨others, behind⟩, hread, heq⟩ := Option.map_eq_some_iff.1 h
      cases heq
      exact List.forall_mem_cons.2 ⟨hvalue hfirst, hmembers hread⟩
    · cases h
  · cases h

theorem ordered_of_read (limit : Nat) :
    (∀ {text rest : List Char} {value : Json},
      readValue limit text = some (value, rest) → value.Ordered) ∧
    (∀ {text rest : List Char} {items : List Json},
      readItems limit text = some (items, rest) → ∀ item ∈ items, item.Ordered) ∧
    ∀ {text rest : List Char} {members : List (String × Json)},
      readMembers limit text = some (members, rest) → ∀ member ∈ members, member.2.Ordered := by
  induction limit with
  | zero =>
      simp [readValue, readItems, readMembers]
  | succ limit ih =>
      obtain ⟨hvalue, hitems, hmembers⟩ := ih
      exact ⟨ordered_of_readValue hitems hmembers, ordered_of_readItems hvalue hitems,
        ordered_of_readMembers hvalue hmembers⟩

theorem ordered_of_parse? {text : String} {value : Json} (h : parse? text = some value) :
    value.Ordered := by
  simp only [parse?] at h
  split at h
  · next hread =>
      split at h
      · rw [← Option.some.inj h]
        exact (ordered_of_read _).1 hread
      · cases h
  · cases h

end Json

end SlotGraph
