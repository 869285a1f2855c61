/-!
# Blanks and identifiers

Schema text is read as a list of characters.  This module fixes which characters
are blank and which may stand in an identifier, and the two ways of removing
blanks: from the ends only, or everywhere.  The classes are those of ASCII: a
character beyond it is neither blank, letter nor digit.
-/

namespace SlotGraph

namespace Text

/-- A blank is a space, tab, line feed, vertical tab, form feed or carriage return. -/
def isBlank (c : Char) : Bool :=
  c == ' ' || ('\t' ≤ c && c ≤ '\r')

def opensIdentifier (c : Char) : Bool :=
  c.isAlpha || c == '_'

def continuesIdentifier (c : Char) : Bool :=
  c.isAlphanum || c == '_'

def trimStart (text : List Char) : List Char :=
  text.dropWhile isBlank

def trim (text : List Char) : List Char :=
  (trimStart (trimStart text).reverse).reverse

def compact (text : List Char) : List Char :=
  text.filter fun c => !isBlank c

def takeIdentifier? : List Char → Option (List Char × List Char)
  | [] => none
  | c :: rest =>
      if opensIdentifier c then
        some (c :: rest.takeWhile continuesIdentifier,
          rest.dropWhile continuesIdentifier)
      else
        none

theorem trimStart_length_le (text : List Char) :
    (trimStart text).length ≤ text.length := by
  simpa [trimStart] using (List.dropWhile_sublist (l := text) isBlank).length_le

theorem trim_length_le (text : List Char) :
    (trim text).length ≤ text.length := by
  have hback := trimStart_length_le (trimStart text).reverse
  have hfront := trimStart_length_le text
  simp only [List.length_reverse] at hback
  simp only [trim, List.length_reverse]
  omega

end Text

end SlotGraph
