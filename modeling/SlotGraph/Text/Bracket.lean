import SlotGraph.Text.Basic

/-!
# Square brackets

Reading text by bracket depth: cutting it at the separators that no bracket
encloses, finding the bracket that closes an open one, and recognising a keyword
applied to one bracketed body.
-/

namespace SlotGraph

namespace Text

def depthChange (c : Char) : Int :=
  if c = '[' then 1 else if c = ']' then -1 else 0

def consFirst (c : Char) : List (List Char) → List (List Char)
  | [] => [[c]]
  | piece :: rest => (c :: piece) :: rest

/--
The raw pieces between the separators found at depth zero, starting at a given
depth.  A bracket counts before it is compared with the separator.
-/
def pieces (separator : Char) : Int → List Char → List (List Char)
  | _, [] => [[]]
  | depth, c :: rest =>
      let inner := depth + depthChange c
      if c = separator ∧ inner = 0 then
        [] :: pieces separator inner rest
      else
        consFirst c (pieces separator inner rest)

/-- The trimmed pieces between top-level separators, without the blank ones. -/
def splitTop (separator : Char) (text : List Char) : List (List Char) :=
  ((pieces separator 0 text).map trim).filter fun piece => !piece.isEmpty

/-- Whether a separator is found at depth zero, starting at a given depth. -/
def containsAt (separator : Char) : Int → List Char → Bool
  | _, [] => false
  | depth, c :: rest =>
      let inner := depth + depthChange c
      (c = separator ∧ inner = 0) || containsAt separator inner rest

def containsTop (separator : Char) (text : List Char) : Bool :=
  containsAt separator 0 text

def cutAt? (separator : Char) : Int → List Char → Option (List Char × List Char)
  | _, [] => none
  | depth, c :: rest =>
      let inner := depth + depthChange c
      if c = separator ∧ inner = 0 then
        some ([], rest)
      else
        (cutAt? separator inner rest).map fun cut => (c :: cut.1, cut.2)

def cutTop? (separator : Char) (text : List Char) : Option (List Char × List Char) :=
  cutAt? separator 0 text

/-- No closing bracket comes too early, and as many close as open. -/
def balancedAt : Nat → List Char → Bool
  | depth, [] => depth == 0
  | depth, c :: rest =>
      if c = '[' then
        balancedAt (depth + 1) rest
      else if c = ']' then
        match depth with
        | 0 => false
        | outer + 1 => balancedAt outer rest
      else
        balancedAt depth rest

def balanced (text : List Char) : Bool :=
  balancedAt 0 text

/--
Read up to the bracket that closes the one before the text, with `depth` further
brackets open: the body, and what follows the closing bracket.
-/
def closeBracket? : Nat → List Char → Option (List Char × List Char)
  | _, [] => none
  | depth, c :: rest =>
      if c = ']' then
        match depth with
        | 0 => some ([], rest)
        | outer + 1 =>
            (closeBracket? outer rest).map fun cut => (c :: cut.1, cut.2)
      else if c = '[' then
        (closeBracket? (depth + 1) rest).map fun cut => (c :: cut.1, cut.2)
      else
        (closeBracket? depth rest).map fun cut => (c :: cut.1, cut.2)

def openingBody? : List Char → Option (List Char × List Char)
  | '[' :: rest => closeBracket? 0 rest
  | _ => none

/--
The text that starts at a byte offset of the UTF-8 form; nothing inside a
character or past the end.
-/
def dropBytes? : Nat → List Char → Option (List Char)
  | 0, text => some text
  | _ + 1, [] => none
  | offset + 1, c :: rest =>
      if c.utf8Size ≤ offset + 1 then
        dropBytes? (offset + 1 - c.utf8Size) rest
      else
        none

def bracketBody? (offset : Nat) (text : List Char) : Option (List Char) :=
  ((dropBytes? offset text).bind openingBody?).map Prod.fst

def dropKeyword? : List Char → List Char → Option (List Char)
  | [], text => some text
  | _ :: _, [] => none
  | k :: keyword, c :: text =>
      if k = c then dropKeyword? keyword text else none

/--
The body of a text that is exactly the keyword and one bracket, as in
`List[Tool]`.  In `List[A]|List[B]` the first bracket closes too early.
-/
def unwrapGeneric? (keyword text : List Char) : Option (List Char) :=
  match (dropKeyword? keyword text).bind openingBody? with
  | some (body, []) => some body
  | _ => none

def lastSegment (text : List Char) : List Char :=
  (text.reverse.takeWhile fun c => c != '.').reverse

/-- Drop a dotted qualifier, as in `pkg.models.Tool`.  Bracketed text keeps it. -/
def stripQualifier (text : List Char) : List Char :=
  if text.contains '[' then text else lastSegment text

theorem consFirst_pieces_length_le {c : Char} {bound : Nat} {parts : List (List Char)}
    (hparts : ∀ part ∈ parts, part.length ≤ bound) :
    ∀ part ∈ consFirst c parts, part.length ≤ bound + 1 := by
  cases parts with
  | nil =>
      simp [consFirst]
  | cons first rest =>
      intro part hpart
      simp only [consFirst, List.mem_cons] at hpart
      rcases hpart with rfl | hrest
      · simpa using hparts first List.mem_cons_self
      · exact Nat.le_succ_of_le (hparts part (List.mem_cons_of_mem first hrest))

theorem length_le_of_mem_pieces {separator : Char} {text part : List Char} {depth : Int}
    (hpart : part ∈ pieces separator depth text) :
    part.length ≤ text.length := by
  induction text generalizing depth part with
  | nil =>
      simp_all [pieces]
  | cons c rest ih =>
      simp only [pieces] at hpart
      split at hpart
      · rcases List.mem_cons.1 hpart with rfl | hrest
        · simp
        · exact Nat.le_succ_of_le (ih hrest)
      · exact consFirst_pieces_length_le (fun other hother => ih hother) part hpart

theorem length_le_of_mem_splitTop {separator : Char} {text part : List Char}
    (hpart : part ∈ splitTop separator text) :
    part.length ≤ text.length := by
  simp only [splitTop, List.mem_filter, List.mem_map] at hpart
  obtain ⟨⟨piece, hpiece, rfl⟩, -⟩ := hpart
  exact Nat.le_trans (trim_length_le piece) (length_le_of_mem_pieces hpiece)

theorem closeBracket?_length {depth : Nat} {text body rest : List Char}
    (hclose : closeBracket? depth text = some (body, rest)) :
    body.length + rest.length + 1 = text.length := by
  induction text generalizing depth body with
  | nil =>
      simp [closeBracket?] at hclose
  | cons c text ih =>
      simp only [closeBracket?] at hclose
      split at hclose
      · cases depth with
        | zero =>
            simp only [Option.some.injEq, Prod.mk.injEq] at hclose
            simp [← hclose.1, ← hclose.2]
        | succ outer =>
            obtain ⟨cut, hcut, hpair⟩ := Option.map_eq_some_iff.1 hclose
            simp only [Prod.mk.injEq] at hpair
            have hlen := ih (hcut.trans (by rw [← hpair.2]))
            simp [← hpair.1]
            omega
      · split at hclose <;>
          (obtain ⟨cut, hcut, hpair⟩ := Option.map_eq_some_iff.1 hclose
           simp only [Prod.mk.injEq] at hpair
           have hlen := ih (hcut.trans (by rw [← hpair.2]))
           simp [← hpair.1]
           omega)

theorem dropKeyword?_eq_some_iff {keyword text rest : List Char} :
    dropKeyword? keyword text = some rest ↔ text = keyword ++ rest := by
  induction keyword generalizing text with
  | nil =>
      simp [dropKeyword?, eq_comm]
  | cons k keyword ih =>
      cases text with
      | nil =>
          simp [dropKeyword?]
      | cons c text =>
          by_cases hk : k = c
          · simp [dropKeyword?, hk, ih]
          · simp [dropKeyword?, hk]
            intro hc
            exact absurd hc.symm hk

theorem unwrapGeneric?_length {keyword text body : List Char}
    (hbody : unwrapGeneric? keyword text = some body) :
    body.length < text.length := by
  unfold unwrapGeneric? at hbody
  split at hbody
  · next inner hopen =>
      obtain ⟨rest, hrest, hclose⟩ := Option.bind_eq_some_iff.1 hopen
      have htext := dropKeyword?_eq_some_iff.1 hrest
      cases hbody
      unfold openingBody? at hclose
      split at hclose
      · have hlen := closeBracket?_length hclose
        simp [htext]
        omega
      · simp at hclose
  · simp at hbody

end Text

end SlotGraph
