import SlotGraph.Config.Build
import SlotGraph.Config.Import
import SlotGraph.Proofs.Json.Ordered
import SlotGraph.Proofs.Template.Coercion

/-!
# Native values between document and graph

A native slot holds an array or object as its text, and a text that spells one out is
written as the array or object.  So a value that the slot takes as it is comes back
as it was.
-/

namespace SlotGraph

namespace NodeValue

mutual

/-- Plain data stays what it is, if its members are in order. -/
theorem toJson_ofJson (resolve : NodeId → Json) :
    ∀ v : Json, v.Ordered → (ofJson v).toJson resolve = v
  | .arr xs, h => by
      rw [ofJson, toJson, toItems_ofItems resolve xs (Json.ordered_arr_iff.1 h)]
  | .obj ms, h => by
      have hms := Json.ordered_obj_iff.1 h
      rw [ofJson, toJson, toMembers_ofMembers resolve ms hms.2, Json.ofMembers_of_ascending hms.1]
  | .null, _ | .bool _, _ | .int _, _ | .minusZero, _ | .float _, _ | .str _, _ => rfl

theorem toItems_ofItems (resolve : NodeId → Json) :
    ∀ xs : List Json, (∀ x ∈ xs, x.Ordered) → toItems resolve (ofItems xs) = xs
  | [], _ => rfl
  | x :: xs, h => by
      have hxs := List.forall_mem_cons.1 h
      rw [ofItems, toItems, toJson_ofJson resolve x hxs.1, toItems_ofItems resolve xs hxs.2]

theorem toMembers_ofMembers (resolve : NodeId → Json) :
    ∀ ms : List (String × Json), (∀ member ∈ ms, member.2.Ordered) →
      toMembers resolve (ofMembers ms) = ms
  | [], _ => rfl
  | (key, x) :: ms, h => by
      have hms := List.forall_mem_cons.1 h
      rw [ofMembers, toMembers, toJson_ofJson resolve x hms.1,
        toMembers_ofMembers resolve ms hms.2]

end

end NodeValue

namespace Build

theorem spelledOut?_render {v : Json} (hv : v.Canonical) (hstructured : v.isStructured = true) :
    spelledOut? v.render = some v := by
  have hlooks : looksStructured v.render.toList = true := by
    cases v with
    | arr xs =>
        rw [Json.toList_render_arr]
        simp [looksStructured, List.getLast?_cons]
    | obj ms =>
        rw [Json.toList_render_obj]
        simp [looksStructured, List.getLast?_cons]
    | _ =>
        simp [Json.isStructured] at hstructured
  rw [spelledOut?, if_pos hlooks, Json.parse?_render hv]

end Build

/--
Whether a native slot of this kind hands a value on as it is: the kind takes it, its
text, if it is kept as text, reads back, and it is no text that spells out something.
-/
structure NativeKind.Keeps (kind : NativeKind) (optional : Bool) (value : Json) : Prop where
  taken : kind.coerceInput? optional value = some value
  readable : value.isStructured = true → value.Canonical
  plain : ∀ text, value = .str text → Build.spelledOut? text = none

namespace NativeKind

theorem keeps_string {text : String} (hplain : Build.spelledOut? text = none) (hsome : text ≠ "")
    (optional : Bool) : NativeKind.string.Keeps optional (.str text) where
  taken := by
    rw [NativeKind.coerceInput?_of_not_blank (by decide) optional]
    · rfl
    · simpa [NativeKind.isBlankValue] using hsome
  readable h := by
    simp [Json.isStructured] at h
  plain other hother := by
    rwa [← Json.str.inj hother]

end NativeKind

namespace Build

theorem render_ne_empty {v : Json} (hstructured : v.isStructured = true) : v.render ≠ "" := by
  intro hempty
  have htext := congrArg String.toList hempty
  cases v with
  | arr xs =>
      rw [Json.toList_render_arr] at htext
      simp at htext
  | obj ms =>
      rw [Json.toList_render_obj] at htext
      simp at htext
  | _ =>
      simp [Json.isStructured] at hstructured

theorem writeMember_of_structured {g : Graph} {schema : Schema} {v : Json} (hv : v.Canonical)
    (hstructured : v.isStructured = true) :
    writeMember g schema (NodeValue.ofJson v) = v := by
  have hplain := NodeValue.toJson_ofJson (resolve g schema) v hv.ordered
  cases v with
  | arr xs =>
      exact hplain
  | obj ms =>
      exact hplain
  | _ =>
      simp [Json.isStructured] at hstructured

theorem coerceInput?_text {kind : NativeKind} (hkind : kind.isCollection = true)
    (optional : Bool) {v : Json} (hv : v.Canonical) (hstructured : v.isStructured = true) :
    kind.coerceInput? optional (.str v.render) = some v := by
  have hblank : NativeKind.isBlankValue (.str v.render) = false := by
    simpa [NativeKind.isBlankValue] using render_ne_empty hstructured
  have hother : kind ≠ .boolean := by
    rintro rfl
    cases hkind
  rw [NativeKind.coerceInput?_of_not_blank hother optional hblank,
    NativeKind.convert_of_isCollection hkind, NativeKind.toCollection, Json.parse?_render hv,
    Option.getD_some]

/-- A slot that takes an array or object takes its text for it, or as a text. -/
theorem coerceInput?_render {kind : NativeKind} {optional : Bool} {v : Json}
    (hv : v.Canonical) (hstructured : v.isStructured = true)
    (htaken : kind.coerceInput? optional v = some v) :
    kind.coerceInput? optional (.str v.render) = some v ∨
      kind.coerceInput? optional (.str v.render) = some (.str v.render) := by
  cases kind with
  | dict | list | set | tuple =>
      exact Or.inl (coerceInput?_text rfl optional hv hstructured)
  | string =>
      refine Or.inr (NativeKind.coerceInput?_of_not_blank (by decide) optional ?_)
      simpa [NativeKind.isBlankValue] using render_ne_empty hstructured
  | boolean =>
      obtain ⟨b, rfl⟩ := NativeKind.exists_bool_of_coerceInput? htaken
      cases hstructured
  | integer | float =>
      cases v <;> cases hstructured <;> cases htaken

theorem written_native {g : Graph} {schema : Schema} {kind : NativeKind} {optional : Bool}
    {value : Json} (h : kind.Keeps optional value) :
    ((kind.coerceInput? optional (Import.nativeForm value)).map NodeValue.ofJson).map
      (writeMember g schema) = some value := by
  rw [Import.nativeForm]
  cases hstructured : value.isStructured with
  | true =>
      have hcanonical := h.readable hstructured
      rw [if_pos rfl]
      rcases coerceInput?_render hcanonical hstructured h.taken with hvalue | htext
      · rw [hvalue, Option.map_some, Option.map_some,
          writeMember_of_structured hcanonical hstructured]
      · have hwritten : writeMember g schema (NodeValue.ofJson (.str value.render)) = value := by
          show (spelledOut? value.render).getD (.str value.render) = value
          rw [spelledOut?_render hcanonical hstructured, Option.getD_some]
        rw [htext, Option.map_some, Option.map_some, hwritten]
  | false =>
      rw [if_neg Bool.false_ne_true, h.taken, Option.map_some, Option.map_some]
      congr 1
      cases value with
      | str text =>
          show (spelledOut? text).getD (.str text) = .str text
          rw [h.plain text rfl, Option.getD_none]
      | arr xs =>
          simp [Json.isStructured] at hstructured
      | obj ms =>
          simp [Json.isStructured] at hstructured
      | _ =>
          rfl

end Build

end SlotGraph
