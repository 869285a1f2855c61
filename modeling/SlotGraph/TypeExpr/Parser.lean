import SlotGraph.TypeExpr.Basic

/-!
# Reading type expressions

A text whose brackets pair up is one of the keyword forms when its outermost
bracket belongs to the keyword and closes last; any other text is a name.
-/

namespace SlotGraph

namespace TypeExpr

inductive Form where
  | wrapper (w : Wrapper)
  | union
  | dict

/-- The keywords in the order in which they are tried. -/
def forms : List (List Char × Form) :=
  [ (Wrapper.optional.keyword, .wrapper .optional)
  , (unionKeyword, .union)
  , (Wrapper.list.keyword, .wrapper .list)
  , (Wrapper.set.keyword, .wrapper .set)
  , (Wrapper.tuple.keyword, .wrapper .tuple)
  , (dictKeyword, .dict)
  , (['d', 'i', 'c', 't'], .dict) ]

/-- The keyword form of a text and the text between its brackets. -/
def formOf? (text : List Char) : Option (Form × List Char) :=
  forms.findSome? fun (keyword, form) =>
    (Text.unwrapGeneric? keyword text).map fun body => (form, body)

theorem formOf?_length {text body : List Char} {form : Form}
    (hform : formOf? text = some (form, body)) :
    body.length < text.length := by
  obtain ⟨entry, -, hentry⟩ := List.exists_of_findSome?_eq_some hform
  obtain ⟨inner, hinner, hpair⟩ := Option.map_eq_some_iff.1 hentry
  cases hpair
  exact Text.unwrapGeneric?_length hinner

/--
The type expression that a text denotes.  Nothing when the text is blank, when
its brackets do not pair up, or when an inner type denotes nothing; a union needs
an alternative, and a tuple keeps only its first element type.
-/
def ofText? (text : List Char) : Option TypeExpr :=
  let trimmed := Text.trim text
  if trimmed.isEmpty || !Text.balanced trimmed then
    none
  else
    match _hform : formOf? trimmed with
    | none => some (.named (String.ofList trimmed))
    | some (.dict, body) => some (.dict (String.ofList (Text.trim body)))
    | some (.union, body) =>
        match (Text.splitTop ',' body).attach.mapM fun part => ofText? part.1 with
        | none | some [] => none
        | some alternatives => some (.union alternatives)
    | some (.wrapper .tuple, body) =>
        match _hparts : Text.splitTop ',' body with
        | [] => none
        | part :: _ => (ofText? part).map (.wrapped .tuple)
    | some (.wrapper wrapper, body) => (ofText? body).map (.wrapped wrapper)
termination_by text.length
decreasing_by
  all_goals
    have htrim : trimmed.length ≤ text.length := Text.trim_length_le text
    have hbody := formOf?_length _hform
  · have hpart := Text.length_le_of_mem_splitTop part.2
    omega
  · have hpart := Text.length_le_of_mem_splitTop (_hparts ▸ List.mem_cons_self)
    omega
  · omega

def parse? (source : String) : Option TypeExpr :=
  ofText? source.toList

end TypeExpr

end SlotGraph
