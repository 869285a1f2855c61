import SlotGraph.Json.Basic
import SlotGraph.Text.Numeral

/-!
# Reading JSON text

A strict reader: no comments, no trailing commas, no leading zeros, no unescaped
control characters, no unpaired surrogates, nothing behind the value but blanks.
Every function returns what it read and the text behind it.  Each step takes at
least one character, so the length of the text bounds the nesting of calls.

A NUL character is a character like any other and stands in no value.  The lexer of the
JSON library takes it for the end of the text, so there `[1]` and a NUL behind it is an
array, whatever follows; here such a text is refused.
-/

namespace SlotGraph

namespace Json

/-- The blanks of JSON: space, tab, line feed and carriage return. -/
def isSpace (c : Char) : Bool :=
  c == ' ' || c == '\t' || c == '\n' || c == '\r'

def skipSpace (text : List Char) : List Char :=
  text.dropWhile isSpace

/-- The sign, digits and exponent of a number token. -/
structure Token where
  negative : Bool
  whole : List Nat
  /-- The digits behind the point, when there is a point. -/
  fraction : Option (List Nat)
  /-- The signed exponent, when there is one. -/
  exponent : Option Int

/-- The whole part: digits without a leading zero. -/
def readWhole (text : List Char) : Option (List Nat × List Char) :=
  match Text.takeDigits 10 text with
  | ([], _) => none
  | (0 :: _ :: _, _) => none
  | (digits, rest) => some (digits, rest)

/-- The fraction part: nothing, or a point and at least one digit. -/
def readFraction : List Char → Option (Option (List Nat) × List Char)
  | '.' :: rest =>
      match Text.takeDigits 10 rest with
      | ([], _) => none
      | (digits, rest) => some (some digits, rest)
  | text => some (none, text)

/-- The exponent part: nothing, or a mark, a sign if any, and at least one digit. -/
def readExponent (text : List Char) : Option (Option Int × List Char) :=
  match text with
  | [] => some (none, [])
  | c :: rest =>
      if c = 'e' ∨ c = 'E' then
        let signed := Text.takeSign rest
        match Text.takeDigits 10 signed.2 with
        | ([], _) => none
        | (digits, rest) =>
            let size : Int := Text.ofDigits 10 digits
            some (some (if signed.1 then -size else size), rest)
      else
        some (none, text)

def readToken (text : List Char) : Option (Token × List Char) := do
  let (negative, body) := match text with
    | '-' :: rest => (true, rest)
    | _ => (false, text)
  let (whole, rest) ← readWhole body
  let (fraction, rest) ← readFraction rest
  let (exponent, rest) ← readExponent rest
  return (⟨negative, whole, fraction, exponent⟩, rest)

/-- The double nearest to a token; nothing when it is too large to be finite. -/
def Token.float? (token : Token) : Option Json :=
  let fraction := token.fraction.getD []
  let value := Text.scaledDouble token.negative 10
    (Text.ofDigits 10 (token.whole ++ fraction))
    (token.exponent.getD 0 - fraction.length)
  if Double.isFinite value then some (.float value) else none

/--
The value of a token.  Without point and exponent it is an integer if it fits
the signed 64-bit range, or the unsigned one when it has no sign.
-/
def Token.value? (token : Token) : Option Json :=
  if token.fraction.isSome || token.exponent.isSome then
    token.float?
  else
    let size := Text.ofDigits 10 token.whole
    if token.negative then
      if size = 0 then some .minusZero
      else if size ≤ 2 ^ 63 then some (.int (-(size : Int)))
      else token.float?
    else if size < 2 ^ 64 then some (.int size)
    else token.float?

def readHex4 (text : List Char) : Option (Nat × List Char) :=
  match text with
  | a :: b :: c :: d :: rest => do
      let digits ← [a, b, c, d].mapM (Text.digit? 16)
      return (Text.ofDigits 16 digits, rest)
  | _ => none

/--
The character of a `\u` escape, read behind the `u`.  A high surrogate needs the
escape of a low one behind it.
-/
def readUnicode (text : List Char) : Option (Char × List Char) := do
  let (unit, rest) ← readHex4 text
  if 0xD800 ≤ unit ∧ unit < 0xDC00 then
    match rest with
    | '\\' :: 'u' :: rest => do
        let (low, rest) ← readHex4 rest
        if 0xDC00 ≤ low ∧ low < 0xE000 then
          return (Char.ofNat (0x10000 + (unit - 0xD800) * 0x400 + (low - 0xDC00)), rest)
        else
          none
    | _ => none
  else if 0xDC00 ≤ unit ∧ unit < 0xE000 then
    none
  else
    return (Char.ofNat unit, rest)

def readEscape : List Char → Option (Char × List Char)
  | '"' :: rest => some ('"', rest)
  | '\\' :: rest => some ('\\', rest)
  | '/' :: rest => some ('/', rest)
  | 'b' :: rest => some ('\x08', rest)
  | 'f' :: rest => some ('\x0c', rest)
  | 'n' :: rest => some ('\n', rest)
  | 'r' :: rest => some ('\r', rest)
  | 't' :: rest => some ('\t', rest)
  | 'u' :: rest => readUnicode rest
  | _ => none

/-- The characters of a string up to its closing quote, read behind the opening one. -/
def readCharacters : Nat → List Char → List Char → Option (String × List Char)
  | 0, _, _ => none
  | _ + 1, _, [] => none
  | limit + 1, done, c :: rest =>
      if c = '"' then
        some (String.ofList done.reverse, rest)
      else if c = '\\' then
        (readEscape rest).bind fun (plain, rest) =>
          readCharacters limit (plain :: done) rest
      else if c < ' ' then
        none
      else
        readCharacters limit (c :: done) rest

def readString (limit : Nat) : List Char → Option (String × List Char)
  | '"' :: rest => readCharacters limit [] rest
  | _ => none

mutual

def readValue : Nat → List Char → Option (Json × List Char)
  | 0, _ => none
  | limit + 1, text =>
      match text with
      | 'n' :: 'u' :: 'l' :: 'l' :: rest => some (.null, rest)
      | 't' :: 'r' :: 'u' :: 'e' :: rest => some (.bool true, rest)
      | 'f' :: 'a' :: 'l' :: 's' :: 'e' :: rest => some (.bool false, rest)
      | '"' :: rest =>
          (readCharacters (limit + 1) [] rest).map fun (s, rest) => (.str s, rest)
      | '[' :: rest =>
          match skipSpace rest with
          | ']' :: rest => some (.arr [], rest)
          | rest => (readItems limit rest).map fun (xs, rest) => (.arr xs, rest)
      | '\x7b' :: rest =>
          match skipSpace rest with
          | '\x7d' :: rest => some (.obj [], rest)
          | rest => (readMembers limit rest).map fun (ms, rest) => (ofMembers ms, rest)
      | _ =>
          (readToken text).bind fun (token, rest) =>
            token.value?.map fun value => (value, rest)

def readItems : Nat → List Char → Option (List Json × List Char)
  | 0, _ => none
  | limit + 1, text =>
      (readValue limit (skipSpace text)).bind fun (item, rest) =>
        match skipSpace rest with
        | ']' :: rest => some ([item], rest)
        | ',' :: rest =>
            (readItems limit rest).map fun (items, rest) => (item :: items, rest)
        | _ => none

def readMembers : Nat → List Char → Option (List (String × Json) × List Char)
  | 0, _ => none
  | limit + 1, text =>
      (readString (limit + 1) (skipSpace text)).bind fun (key, rest) =>
        match skipSpace rest with
        | ':' :: rest =>
            (readValue limit (skipSpace rest)).bind fun (value, rest) =>
              match skipSpace rest with
              | '\x7d' :: rest => some ([(key, value)], rest)
              | ',' :: rest =>
                  (readMembers limit rest).map fun (ms, rest) =>
                    ((key, value) :: ms, rest)
              | _ => none
        | _ => none

end

def dropMark : List Char → List Char
  | '\uFEFF' :: rest => rest
  | text => text

/-- Read a text that holds one value and nothing else. -/
def parse? (text : String) : Option Json :=
  let body := skipSpace (dropMark text.toList)
  match readValue (2 * body.length + 2) body with
  | some (value, rest) => if (skipSpace rest).isEmpty then some value else none
  | none => none

end Json

end SlotGraph
