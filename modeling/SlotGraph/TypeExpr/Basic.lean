import SlotGraph.Text.Bracket

/-!
# Type expressions

The declared type of a schema field: a plain name, a wrapper around one inner
type, a dictionary whose arguments stay text, or a union.  `source` writes a type
expression in schema syntax without blanks.
-/

namespace SlotGraph

/-- The wrappers that take one inner type. -/
inductive Wrapper where
  | optional
  | list
  | set
  | tuple
deriving DecidableEq

inductive TypeExpr where
  | named (name : String)
  | wrapped (wrapper : Wrapper) (inner : TypeExpr)
  | dict (arguments : String)
  | union (alternatives : List TypeExpr)
deriving Inhabited

namespace Wrapper

def keyword : Wrapper → List Char
  | .optional => ['O', 'p', 't', 'i', 'o', 'n', 'a', 'l']
  | .list => ['L', 'i', 's', 't']
  | .set => ['S', 'e', 't']
  | .tuple => ['T', 'u', 'p', 'l', 'e']

/-- What is written behind the inner type: a tuple has any number of elements. -/
def suffix : Wrapper → List Char
  | .tuple => [',', '.', '.', '.']
  | _ => []

def enclose (wrapper : Wrapper) (inner : List Char) : List Char :=
  wrapper.keyword ++ '[' :: (inner ++ wrapper.suffix ++ [']'])

/-- Whether the wrapper makes a collection; an optional is none. -/
def isCollection : Wrapper → Bool
  | .optional => false
  | _ => true

end Wrapper

namespace TypeExpr

def dictKeyword : List Char :=
  ['D', 'i', 'c', 't']

def unionKeyword : List Char :=
  ['U', 'n', 'i', 'o', 'n']

def dictText (arguments : String) : List Char :=
  dictKeyword ++ '[' :: (Text.compact arguments.toList ++ [']'])

def joinWith (separator : Char) : List (List Char) → List Char
  | [] => []
  | [text] => text
  | text :: rest => text ++ separator :: joinWith separator rest

mutual

def sourceText : TypeExpr → List Char
  | .named name => Text.compact name.toList
  | .wrapped wrapper inner => wrapper.enclose inner.sourceText
  | .dict arguments => dictText arguments
  | .union alternatives =>
      unionKeyword ++ '[' :: (joinWith ',' (sourceTexts alternatives) ++ [']'])
termination_by structural type => type

def sourceTexts : List TypeExpr → List (List Char)
  | [] => []
  | type :: rest => type.sourceText :: sourceTexts rest
termination_by structural types => types

end

/-- A type expression in schema syntax, as in `Optional[List[Union[Tool,Index]]]`. -/
def source (type : TypeExpr) : String :=
  String.ofList type.sourceText

/-- The type without one optional layer, if it has one. -/
def required : TypeExpr → TypeExpr
  | .wrapped .optional inner => inner
  | type => type

def isOptional : TypeExpr → Bool
  | .wrapped .optional _ => true
  | _ => false

def isUnion : TypeExpr → Bool
  | .union _ => true
  | _ => false

def isDict : TypeExpr → Bool
  | .dict _ => true
  | _ => false

/-- Whether the type is a list, optional or not. -/
def isList (type : TypeExpr) : Bool :=
  match type.required with
  | .wrapped .list _ => true
  | _ => false

end TypeExpr

end SlotGraph
