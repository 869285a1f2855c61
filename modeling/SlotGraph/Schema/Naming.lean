/-!
# Document keys from class names

The document key of a class that no root field claims: its name without the
ending `Config`, in lower case with underscores, in the plural.
-/

namespace SlotGraph

namespace Naming

/-- Whether an upper-case letter begins a word, given its neighbours. -/
def beginsWord (previous : Char) (next : Option Char) : Bool :=
  previous.isLower || previous.isDigit || (previous.isUpper && next.any Char.isLower)

/-- Lower case with an underscore before each inner word, behind a given character. -/
def snakeAfter (previous : Char) : List Char → List Char
  | [] => []
  | c :: rest =>
      if c.isUpper && beginsWord previous rest.head? then
        '_' :: c.toLower :: snakeAfter c rest
      else
        c.toLower :: snakeAfter c rest

def snakeCase : List Char → List Char
  | [] => []
  | c :: rest => c.toLower :: snakeAfter c rest

def configEnding : List Char :=
  ['C', 'o', 'n', 'f', 'i', 'g']

/-- A class name without the ending `Config`, unless that is all of it. -/
def dropConfig (name : List Char) : List Char :=
  if configEnding.length < name.length ∧ configEnding.isSuffixOf name then
    name.take (name.length - configEnding.length)
  else
    name

/-- The endings behind which `y` stays as it is. -/
def vowelEndings : List (List Char) :=
  [['a', 'y'], ['e', 'y'], ['i', 'y'], ['o', 'y'], ['u', 'y']]

def plural (word : List Char) : List Char :=
  if ['s'].isSuffixOf word then word
  else if ['y'].isSuffixOf word && !vowelEndings.any (·.isSuffixOf word) then
    word.dropLast ++ ['i', 'e', 's']
  else if ['x'].isSuffixOf word || ['c', 'h'].isSuffixOf word ||
      ['s', 'h'].isSuffixOf word then
    word ++ ['e', 's']
  else
    word ++ ['s']

def fieldName (className : String) : String :=
  String.ofList (plural (snakeCase (dropConfig className.toList)))

end Naming

end SlotGraph
