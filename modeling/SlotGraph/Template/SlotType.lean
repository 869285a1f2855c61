import SlotGraph.Schema.Mapping
import SlotGraph.Template.Basic

/-!
# Slots from field types

What the type of a field says about its slot: the type text shown on it, whether
it collects many links, which native value it can hold, and the type that an
incoming link has to fit.
-/

namespace SlotGraph

namespace TypeExpr

/-- Whether a type is the name that stands for a reference by index. -/
def isIndex (indexType : String) : TypeExpr → Bool
  | .named name => name == indexType
  | _ => false

mutual

/--
The type text of a slot.  A union of the index type and one other type is that
other type, since the link itself is the reference; other unions join their
alternatives with `|`.
-/
def slotText (indexType : String) : TypeExpr → List Char
  | .named name => Text.compact name.toList
  | .wrapped wrapper inner => wrapper.enclose (slotText indexType inner)
  | .dict arguments => dictText arguments
  | .union [a, b] =>
      if a.isIndex indexType && !b.isIndex indexType then slotText indexType b
      else if b.isIndex indexType && !a.isIndex indexType then slotText indexType a
      else joinWith '|' [slotText indexType a, slotText indexType b]
  | .union alternatives => joinWith '|' (slotTexts indexType alternatives)
termination_by structural type => type

def slotTexts (indexType : String) : List TypeExpr → List (List Char)
  | [] => []
  | type :: rest => slotText indexType type :: slotTexts indexType rest
termination_by structural types => types

end

def slotType (indexType : String) (type : TypeExpr) : String :=
  String.ofList (slotText indexType type)

/--
The identifiers of a text, of a dotted name only the last part; given the part
read so far, last character first.
-/
def identifiersFrom (word : List Char) : List Char → List (List Char)
  | [] => [word.reverse]
  | c :: rest =>
      if c == '.' then identifiersFrom [] rest
      else if Text.continuesIdentifier c then identifiersFrom (c :: word) rest
      else word.reverse :: identifiersFrom [] rest

def mentionsClass (classes : List SchemaClass) (text : List Char) : Bool :=
  (identifiersFrom [] text).any fun word =>
    !word.isEmpty && SchemaClass.declared classes (String.ofList word)

def occursIn (part : List Char) : List Char → Bool
  | [] => part.isEmpty
  | c :: rest => part.isPrefixOf (c :: rest) || occursIn part rest

/-- Whether the arguments of a dictionary hold a union and name a declared class. -/
def dictOfUnion (classes : List SchemaClass) (arguments : String) : Bool :=
  occursIn (unionKeyword ++ ['[']) arguments.toList &&
    mentionsClass classes arguments.toList

/--
Whether the slot of a field collects many links: a collection of a union, a
dictionary that mentions a union with a class, and every list of a root class.
-/
def collectsLinks (classes : List SchemaClass) (inRoot : Bool) (type : TypeExpr) : Bool :=
  match type.required with
  | .wrapped .optional _ => false
  | .wrapped wrapper inner => inner.required.isUnion || (inRoot && wrapper == .list)
  | .dict arguments => dictOfUnion classes arguments
  | _ => false

def primitiveKind? (indexType name : String) : Option NativeKind :=
  if name == "str" || name == "string" then some .string
  else if name == "int" || name == "integer" || name == "Index" || name == indexType then
    some .integer
  else if name == "bool" then some .boolean
  else if name == "float" then some .float
  else none

/-- The kind of a collection that is held as a value. -/
def collectionKind? : Wrapper → Option NativeKind
  | .optional => none
  | .list => some .list
  | .set => some .set
  | .tuple => some .tuple

/--
The kind of native value that a field can hold.  A type that mentions a class is
fed by links only; a union without one takes the kind of its first alternative.
-/
def nativeKind? (indexType : String) (classes : List SchemaClass) (type : TypeExpr) :
    Option NativeKind :=
  match type.required with
  | .named name => primitiveKind? indexType name
  | .wrapped wrapper inner =>
      if mentionsClass classes inner.sourceText then none else collectionKind? wrapper
  | .dict arguments =>
      if mentionsClass classes arguments.toList then none else some .dict
  | .union alternatives =>
      if mentionsClass classes (TypeExpr.union alternatives).sourceText then none
      else
        (alternatives.head?.bind fun first => first.required.name?).bind
          (primitiveKind? indexType)

/-- The type that a link into a slot which collects links has to fit. -/
def elementLinkType (indexType : String) (type : TypeExpr) : String :=
  match type.required with
  | .wrapped _ inner => slotType indexType inner
  | .dict arguments =>
      match dictValue? (.dict arguments) with
      | some value => slotType indexType value
      | none => "Any"
  | _ => "Any"

def intake (indexType : String) (classes : List SchemaClass) (inRoot : Bool)
    (type : TypeExpr) : Intake :=
  if collectsLinks classes inRoot type then .many type.required.isDict
  else .single (nativeKind? indexType classes type)

end TypeExpr

end SlotGraph
