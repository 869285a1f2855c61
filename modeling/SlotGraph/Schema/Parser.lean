import SlotGraph.Issue
import SlotGraph.Schema.Basic
import SlotGraph.TypeExpr.Parser

/-!
# Reading schema source

Schema source is read line by line.  What a line is, a class header, a field, or
something to pass over, depends on the line alone; a class body collects the
fields under its header until the next header or the next line in column zero.
-/

namespace SlotGraph

namespace Schema

inductive Line where
  /-- Nothing but blanks, or a comment. -/
  | blank
  /-- The header of a class. -/
  | header (name : String)
  /-- A statement in column zero. -/
  | outside
  /-- An indented line without a colon. -/
  | plain
  /-- An indented line that declares a field. -/
  | member (declared : Field)
  /-- An indented line with a colon that declares none. -/
  | unreadable (text : String)

/-- The class name of a header such as `class Tool(Base):` or `class Tool:`. -/
def headerName? (line : List Char) : Option String :=
  match line with
  | 'c' :: 'l' :: 'a' :: 's' :: 's' :: c :: rest =>
      if Text.isBlank c then
        match Text.takeIdentifier? (Text.trimStart rest) with
        | some (name, rest) =>
            match Text.trimStart rest with
            | '(' :: _ | ':' :: _ => some (String.ofList name)
            | _ => none
        | none => none
      else
        none
  | _ => none

/-- A field declaration: a name, a colon, a type, and a default behind an equals sign. -/
def field? (line : List Char) : Option Field :=
  match Text.takeIdentifier? line with
  | some (name, rest) =>
      match Text.trimStart rest with
      | ':' :: rest =>
          let parts := (Text.cutTop? '=' rest).getD (rest, [])
          let rawType := Text.trim parts.1
          (TypeExpr.ofText? rawType).map fun type =>
            { name := String.ofList name
              type := type
              rawType := String.ofList rawType
              defaultText := String.ofList (Text.trim parts.2) }
      | _ => none
  | none => none

/-- Drop one carriage return at the end. -/
def dropReturn (raw : List Char) : List Char :=
  if raw.getLast? = some '\r' then raw.dropLast else raw

def Line.classify (raw : List Char) : Line :=
  let raw := dropReturn raw
  let line := Text.trim raw
  match line with
  | [] | '#' :: _ => .blank
  | _ =>
      match headerName? line with
      | some name => .header name
      | none =>
          if !(raw.head?.any Text.isBlank) then .outside
          else if !line.contains ':' then .plain
          else
            match field? line with
            | some declared => .member declared
            | none => .unreadable (String.ofList line)

/-- The lines of a text; the last one ends with the text. -/
def lines : List Char → List (List Char)
  | [] => [[]]
  | c :: rest => if c = '\n' then [] :: lines rest else Text.consFirst c (lines rest)

/-- Declare a class; one of the same name is replaced where it stands. -/
def declare (classes : List SchemaClass) (cls : SchemaClass) : List SchemaClass :=
  match classes with
  | [] => [cls]
  | existing :: rest =>
      if existing.name = cls.name then cls :: rest else existing :: declare rest cls

/-- How far reading has come. -/
structure Reading where
  /-- The classes whose bodies are complete. -/
  classes : List SchemaClass
  /-- The class whose body is being read. -/
  current : Option SchemaClass
  issues : List Issue

namespace Reading

def start : Reading :=
  ⟨[], none, []⟩

def close (state : Reading) : Reading :=
  match state.current with
  | some cls => { state with classes := declare state.classes cls, current := none }
  | none => state

def step (state : Reading) (number : Nat) (line : Line) : Reading :=
  match line with
  | .blank | .plain => state
  | .header name => { state.close with current := some ⟨name, []⟩ }
  | .outside => state.close
  | .member declared =>
      { state with
        current := state.current.map fun cls =>
          { cls with fields := cls.fields ++ [declared] } }
  | .unreadable text =>
      if state.current.isSome then
        { state with issues := state.issues ++ [.skippedLine number text] }
      else
        state

def run (state : Reading) : Nat → List (List Char) → Reading
  | _, [] => state
  | number, raw :: rest => (state.step number (Line.classify raw)).run (number + 1) rest

end Reading

/-- The classes that a source declares, and the lines that were passed over. -/
def parseClasses (source : String) : List SchemaClass × List Issue :=
  let final := (Reading.start.run 1 (lines source.toList)).close
  (final.classes, final.issues)

end Schema

end SlotGraph
