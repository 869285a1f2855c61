import SlotGraph.TypeExpr.Basic

/-!
# Which outputs fit which inputs

The gate for links: an output of one type may flow into an input of another when
they are the same, when either side is `Any`, when an optional or a union on the
input side admits the output, or when the two names differ only in their
qualifiers or in the usual spellings of the integer and text types.
-/

namespace SlotGraph

namespace TypeExpr

def anyText : List Char :=
  ['A', 'n', 'y']

/-- The common spelling of the names of the integer and text types. -/
def canonicalName (name : List Char) : List Char :=
  if name = ['i', 'n', 't'] ∨ name = ['I', 'n', 'd', 'e', 'x'] ∨
      name = ['i', 'n', 't', 'e', 'g', 'e', 'r'] then
    ['i', 'n', 't']
  else if name = ['s', 't', 'r'] ∨ name = ['s', 't', 'r', 'i', 'n', 'g'] then
    ['s', 't', 'r']
  else
    name

/--
Whether an output type fits an input type, both without blanks, when the input
may be taken apart at most `layers` times in a row.
-/
def fitsWithin : Nat → List Char → List Char → Bool
  | 0, _, _ => false
  | layers + 1, output, input =>
      if output.isEmpty || input.isEmpty then true
      else if output = input then true
      else if output = anyText || input = anyText then true
      else
        match Text.unwrapGeneric? Wrapper.optional.keyword input with
        | some inner => fitsWithin layers output inner
        | none =>
        match Text.unwrapGeneric? unionKeyword input with
        | some body => (Text.splitTop ',' body).any (fitsWithin layers output)
        | none =>
        if Text.containsTop '|' input then
          (Text.splitTop '|' input).any (fitsWithin layers output)
        else if Text.stripQualifier output ≠ output then
          fitsWithin layers (Text.stripQualifier output) input
        else if Text.stripQualifier input ≠ input then
          fitsWithin layers output (Text.stripQualifier input)
        else
          canonicalName output = canonicalName input

/-- Real schemas nest a handful of layers; this many are looked through. -/
def layerLimit : Nat :=
  65

def textFits (output input : String) : Bool :=
  fitsWithin layerLimit (Text.compact output.toList) (Text.compact input.toList)

def fits (output input : TypeExpr) : Bool :=
  fitsWithin layerLimit output.sourceText input.sourceText

end TypeExpr

end SlotGraph
