import Mathlib.Logic.Relation
import SlotGraph.Proofs.Text.Pieces
import SlotGraph.TypeExpr.Compatible

/-!
# What the gate for links decides

An optional, a union and a list with `|` are taken apart into the types that they offer;
what is left in the end are leaves.  The gate admits an output when one of the types that
the input is taken apart into does, and a leaf admits it by its name.  The bound on the
layers that the gate looks through plays no part as long as the two texts have fewer
brackets, bars and full stops, since every layer uses one of them up.
-/

namespace SlotGraph

namespace TypeExpr

open Text (Blankless generic)

/-! ## Types that an input offers -/

/-- A type text that is taken apart, and the texts that it is taken apart into. -/
inductive Splits : List Char → List (List Char) → Prop where
  | optional {inner : List Char} (h : Text.balanced inner = true) :
      Splits (generic Wrapper.optional.keyword inner) [inner]
  | union {body : List Char} (h : Text.balanced body = true) :
      Splits (generic unionKeyword body) (Text.splitTop ',' body)
  | bars {text : List Char} (h : Text.containsTop '|' text = true) :
      Splits text (Text.splitTop '|' text)

/-- Whether one text is among those that another is taken apart into. -/
def Offers (text part : List Char) : Prop :=
  ∃ parts, Splits text parts ∧ part ∈ parts

/-- Whether a text is an input type or is left of it when it is taken apart. -/
def Alternative (input text : List Char) : Prop :=
  Relation.ReflTransGen Offers input text

/-- Whether a text is not taken apart. -/
def IsLeaf (text : List Char) : Prop :=
  ∀ parts, ¬ Splits text parts

def integerNames : List (List Char) :=
  [['i', 'n', 't'], ['I', 'n', 'd', 'e', 'x'], ['i', 'n', 't', 'e', 'g', 'e', 'r']]

def stringNames : List (List Char) :=
  [['s', 't', 'r'], ['s', 't', 'r', 'i', 'n', 'g']]

def SameName (a b : List Char) : Prop :=
  a = b ∨ (a ∈ integerNames ∧ b ∈ integerNames) ∨ (a ∈ stringNames ∧ b ∈ stringNames)

instance (a b : List Char) : Decidable (SameName a b) :=
  inferInstanceAs (Decidable (_ ∨ _))

/--
Whether an output is admitted by a text that an input offers: at once, or by a leaf
according to some rule for names.
-/
def AdmitsBy (rule : List Char → List Char → Prop) (output input : List Char) : Prop :=
  output = [] ∨ output = anyText ∨
    ∃ text, Alternative input text ∧
      (text = [] ∨ text = anyText ∨ text = output ∨ IsLeaf text ∧ rule output text)

/-- Whether an output and a leaf agree without their qualifiers. -/
def NamesAgree (output leaf : List Char) : Prop :=
  Text.stripQualifier output = [] ∨ Text.stripQualifier output = anyText ∨
    Text.stripQualifier leaf = [] ∨ Text.stripQualifier leaf = anyText ∨
    SameName (Text.stripQualifier output) (Text.stripQualifier leaf)

/--
Whether an output agrees with something that a leaf offers without its qualifier: a
bracket that closes nothing hides a bar in the leaf, and may go with the qualifier.
-/
def StrippedAgrees (output leaf : List Char) : Prop :=
  Text.stripQualifier output = [] ∨ Text.stripQualifier output = anyText ∨
    ∃ text, Alternative (Text.stripQualifier leaf) text ∧
      (text = [] ∨ text = anyText ∨ SameName (Text.stripQualifier output) text)

def Admits (output input : List Char) : Prop :=
  AdmitsBy StrippedAgrees output input

/-! ## Taking apart is a function -/

/-- The texts that a type text is taken apart into, if it is. -/
def parts? (text : List Char) : Option (List (List Char)) :=
  match Text.unwrapGeneric? Wrapper.optional.keyword text with
  | some inner => some [inner]
  | none =>
    match Text.unwrapGeneric? unionKeyword text with
    | some body => some (Text.splitTop ',' body)
    | none => if Text.containsTop '|' text then some (Text.splitTop '|' text) else none

theorem containsTop_bar_generic {keyword body : List Char}
    (hkeyword : Text.balanced keyword = true) (hbar : '|' ∉ keyword)
    (hbody : Text.balanced body = true) : Text.containsTop '|' (generic keyword body) = false := by
  rw [Text.containsTop_generic (by decide) hkeyword hbody]
  exact Text.containsAt_of_not_mem hbar

theorem parts?_eq_some_iff {text : List Char} {parts : List (List Char)} :
    parts? text = some parts ↔ Splits text parts := by
  constructor
  · intro h
    unfold parts? at h
    split at h
    · next inner hinner =>
        obtain ⟨rfl, hbalanced⟩ := Text.unwrapGeneric?_eq_some_iff.1 hinner
        exact Option.some.inj h ▸ .optional hbalanced
    · split at h
      · next body hbody =>
          obtain ⟨rfl, hbalanced⟩ := Text.unwrapGeneric?_eq_some_iff.1 hbody
          exact Option.some.inj h ▸ .union hbalanced
      · split at h
        · next hbar =>
            exact Option.some.inj h ▸ .bars hbar
        · simp at h
  · intro h
    cases h with
    | optional hbalanced =>
        rw [parts?, Text.unwrapGeneric?_eq_some_iff.2 ⟨rfl, hbalanced⟩]
    | union hbalanced =>
        rw [parts?, Text.unwrapGeneric?_of_ne (by decide) (by decide) (by decide),
          Text.unwrapGeneric?_eq_some_iff.2 ⟨rfl, hbalanced⟩]
    | bars hbar =>
        have hother : ∀ keyword, Text.balanced keyword = true → '|' ∉ keyword →
            Text.unwrapGeneric? keyword text = none := by
          intro keyword hkeyword hplain
          refine Option.eq_none_iff_forall_ne_some.2 fun body hbody => ?_
          obtain ⟨rfl, hbalanced⟩ := Text.unwrapGeneric?_eq_some_iff.1 hbody
          rw [containsTop_bar_generic hkeyword hplain hbalanced] at hbar
          exact absurd hbar (by decide)
        rw [parts?, hother _ (by decide) (by decide), hother _ (by decide) (by decide),
          if_pos hbar]

theorem Splits.unique {text : List Char} {parts others : List (List Char)}
    (h : Splits text parts) (hother : Splits text others) : parts = others :=
  Option.some.inj ((parts?_eq_some_iff.2 h).symm.trans (parts?_eq_some_iff.2 hother))

theorem isLeaf_iff {text : List Char} : IsLeaf text ↔ parts? text = none := by
  rw [Option.eq_none_iff_forall_ne_some]
  exact forall_congr' fun parts => not_congr parts?_eq_some_iff.symm

instance (text : List Char) : Decidable (IsLeaf text) :=
  decidable_of_iff _ isLeaf_iff.symm

/-! ## Alternatives -/

section

variable {c : Char} {input text part output : List Char} {parts : List (List Char)}

theorem IsLeaf.alternative_iff (h : IsLeaf input) : Alternative input text ↔ text = input := by
  constructor
  · intro halternative
    rcases Relation.ReflTransGen.cases_head halternative with rfl | ⟨_, ⟨parts, hsplits, -⟩, -⟩
    · rfl
    · exact absurd hsplits (h parts)
  · rintro rfl
    exact .refl

theorem Splits.alternative_iff (h : Splits input parts) :
    Alternative input text ↔ text = input ∨ ∃ part ∈ parts, Alternative part text := by
  constructor
  · intro halternative
    rcases Relation.ReflTransGen.cases_head halternative with
      rfl | ⟨part, ⟨others, hothers, hpart⟩, hrest⟩
    · exact .inl rfl
    · exact .inr ⟨part, h.unique hothers ▸ hpart, hrest⟩
  · rintro (rfl | ⟨part, hpart, hrest⟩)
    · exact .refl
    · exact .head ⟨parts, h, hpart⟩ hrest

theorem Offers.subset (h : Offers text part) (hc : c ∈ part) : c ∈ text := by
  obtain ⟨parts, hsplits, hpart⟩ := h
  cases hsplits with
  | optional _ =>
      rw [List.mem_singleton.1 hpart] at hc
      simp [generic, hc]
  | union _ =>
      have hbody := (Text.isInfix_of_mem_splitTop hpart).subset hc
      simp [generic, hbody]
  | bars _ =>
      exact (Text.isInfix_of_mem_splitTop hpart).subset hc

theorem Alternative.subset (h : Alternative input text) (hc : c ∈ text) : c ∈ input := by
  induction h with
  | refl =>
      exact hc
  | tail _ hoffers ih =>
      exact ih (hoffers.subset hc)

/-- Without brackets and bars there is nothing to take apart. -/
theorem isLeaf_of_not_mem (hbracket : '[' ∉ text) (hbar : '|' ∉ text) : IsLeaf text := by
  intro parts hsplits
  cases hsplits with
  | optional _ | union _ =>
      simp [generic] at hbracket
  | bars hcontains =>
      rw [Text.containsTop, Text.containsAt_of_not_mem hbar] at hcontains
      exact absurd hcontains (by decide)

/-! ## Names without their qualifiers -/

/-- A text loses its qualifier up to the last full stop, or stays as it is. -/
theorem stripQualifier_cases (text : List Char) :
    Text.stripQualifier text = text ∨
      '[' ∉ text ∧ '.' ∉ Text.stripQualifier text ∧
        ∃ front, text = front ++ '.' :: Text.stripQualifier text := by
  unfold Text.stripQualifier
  split
  · exact .inl rfl
  · next hbracket =>
      rw [List.contains_iff_mem] at hbracket
      have hback := List.takeWhile_append_dropWhile (p := fun c => c != '.') (l := text.reverse)
      have hdot := List.head?_dropWhile_not (fun c => c != '.') text.reverse
      cases hdrop : text.reverse.dropWhile fun c => c != '.' with
      | nil =>
          rw [hdrop, List.append_nil] at hback
          exact .inl (by rw [Text.lastSegment, hback, List.reverse_reverse])
      | cons d front =>
          rw [hdrop] at hback hdot
          obtain rfl : d = '.' := by
            simpa using hdot
          refine .inr ⟨hbracket, fun hmem => ?_, front.reverse, ?_⟩
          · have hall := List.all_eq_true.1 List.all_takeWhile '.' (List.mem_reverse.1 hmem)
            exact absurd hall (by decide)
          · have hfront := congrArg List.reverse hback
            rw [List.reverse_reverse, List.reverse_append, List.reverse_cons] at hfront
            simpa [Text.lastSegment] using hfront.symm

theorem stripQualifier_of_not_mem (h : '.' ∉ text) : Text.stripQualifier text = text := by
  rcases stripQualifier_cases text with hsame | ⟨-, -, front, hfront⟩
  · exact hsame
  · rw [hfront] at h
    simp at h

@[simp] theorem stripQualifier_stripQualifier (text : List Char) :
    Text.stripQualifier (Text.stripQualifier text) = Text.stripQualifier text := by
  rcases stripQualifier_cases text with hsame | ⟨-, hdotless, -⟩
  · rw [hsame, hsame]
  · exact stripQualifier_of_not_mem hdotless

theorem canonicalName_eq_iff {a b : List Char} :
    canonicalName a = canonicalName b ↔ SameName a b := by
  grind [canonicalName, SameName, integerNames, stringNames]

theorem SameName.eq_or_isLeaf {a b : List Char} (h : SameName a b) : a = b ∨ IsLeaf b := by
  rcases h with rfl | ⟨-, hb⟩ | ⟨-, hb⟩
  · exact .inl rfl
  · have hleaves : ∀ name ∈ integerNames, IsLeaf name := by
      decide
    exact .inr (hleaves b hb)
  · have hleaves : ∀ name ∈ stringNames, IsLeaf name := by
      decide
    exact .inr (hleaves b hb)

/-! ## The size of a text -/

/-- Whether a character lets a text be taken apart or lose its qualifier. -/
def isMark (c : Char) : Bool :=
  c == '[' || c == '|' || c == '.'

/-- How many brackets, bars and full stops a text has. -/
def marks (text : List Char) : Nat :=
  text.countP isMark

theorem marks_lt_generic (keyword body : List Char) :
    marks body < marks (generic keyword body) := by
  rw [generic, marks, marks, List.countP_append, List.countP_cons_of_pos (by decide),
    List.countP_append]
  omega

theorem Offers.marks_lt (h : Offers text part) : marks part < marks text := by
  obtain ⟨parts, hsplits, hpart⟩ := h
  cases hsplits with
  | optional _ =>
      rw [List.mem_singleton.1 hpart]
      exact marks_lt_generic _ _
  | union _ =>
      exact Nat.lt_of_le_of_lt (Text.isInfix_of_mem_splitTop hpart).sublist.countP_le
        (marks_lt_generic _ _)
  | bars hbar =>
      exact Text.countP_lt_of_mem_splitTop (by decide) hbar hpart

theorem marks_stripQualifier_lt (h : Text.stripQualifier text ≠ text) :
    marks (Text.stripQualifier text) < marks text := by
  rcases stripQualifier_cases text with hsame | ⟨-, -, front, hfront⟩
  · exact absurd hsame h
  · conv_rhs => rw [hfront]
    rw [marks, marks, List.countP_append, List.countP_cons_of_pos (by decide)]
    omega

/-! ## One layer of the gate -/

/-- Whether an output is admitted before anything is taken apart. -/
def Meets (output input : List Char) : Prop :=
  output = [] ∨ input = [] ∨ output = input ∨ output = anyText ∨ input = anyText

theorem fitsWithin_of_meets (layers : Nat) (h : Meets output input) :
    fitsWithin (layers + 1) output input = true := by
  rw [fitsWithin]
  rcases h with rfl | rfl | rfl | rfl | rfl <;> simp

theorem fitsWithin_of_not_meets (layers : Nat) (hmeets : ¬ Meets output input) :
    fitsWithin (layers + 1) output input =
      match parts? input with
      | some parts => parts.any (fitsWithin layers output)
      | none =>
          if Text.stripQualifier output ≠ output then
            fitsWithin layers (Text.stripQualifier output) input
          else if Text.stripQualifier input ≠ input then
            fitsWithin layers output (Text.stripQualifier input)
          else
            canonicalName output = canonicalName input := by
  simp only [Meets, not_or] at hmeets
  obtain ⟨houtput, hinput, hne, houtputAny, hinputAny⟩ := hmeets
  rw [fitsWithin, if_neg (by simp [houtput, hinput]), if_neg hne,
    if_neg (by simp [houtputAny, hinputAny]), parts?]
  cases Text.unwrapGeneric? Wrapper.optional.keyword input with
  | some inner =>
      simp
  | none =>
      cases Text.unwrapGeneric? unionKeyword input with
      | some body =>
          rfl
      | none =>
          by_cases hbar : Text.containsTop '|' input = true <;> simp [hbar]

theorem fitsWithin_of_splits (layers : Nat) (hmeets : ¬ Meets output input)
    (h : Splits input parts) :
    fitsWithin (layers + 1) output input = parts.any (fitsWithin layers output) := by
  rw [fitsWithin_of_not_meets layers hmeets, parts?_eq_some_iff.2 h]

theorem fitsWithin_of_isLeaf (layers : Nat) (hmeets : ¬ Meets output input)
    (h : IsLeaf input) :
    fitsWithin (layers + 1) output input =
      if Text.stripQualifier output ≠ output then
        fitsWithin layers (Text.stripQualifier output) input
      else if Text.stripQualifier input ≠ input then
        fitsWithin layers output (Text.stripQualifier input)
      else
        canonicalName output = canonicalName input := by
  rw [fitsWithin_of_not_meets layers hmeets, isLeaf_iff.1 h]

/-! ## One layer of admission -/

theorem admits_of_meets (h : Meets output input) : Admits output input := by
  rcases h with houtput | hinput | hsame | houtput | hinput
  · exact .inl houtput
  · exact .inr (.inr ⟨input, .refl, .inl hinput⟩)
  · exact .inr (.inr ⟨input, .refl, .inr (.inr (.inl hsame.symm))⟩)
  · exact .inr (.inl houtput)
  · exact .inr (.inr ⟨input, .refl, .inr (.inl hinput)⟩)

theorem admits_of_splits (hmeets : ¬ Meets output input) (h : Splits input parts) :
    Admits output input ↔ ∃ part ∈ parts, Admits output part := by
  simp only [Meets, not_or] at hmeets
  obtain ⟨houtput, hinput, hne, houtputAny, hinputAny⟩ := hmeets
  have hsplit : ¬ IsLeaf input := fun hleaf => hleaf parts h
  constructor
  · rintro (hempty | hany | ⟨text, halternative, htext⟩)
    · exact absurd hempty houtput
    · exact absurd hany houtputAny
    · rcases h.alternative_iff.1 halternative with rfl | ⟨part, hpart, hrest⟩
      · rcases htext with hempty | hany | hsame | ⟨hleaf, -⟩
        · exact absurd hempty hinput
        · exact absurd hany hinputAny
        · exact absurd hsame.symm hne
        · exact absurd hleaf hsplit
      · exact ⟨part, hpart, .inr (.inr ⟨text, hrest, htext⟩)⟩
  · rintro ⟨part, hpart, hempty | hany | ⟨text, hrest, htext⟩⟩
    · exact absurd hempty houtput
    · exact absurd hany houtputAny
    · exact .inr (.inr ⟨text, h.alternative_iff.2 (.inr ⟨part, hpart, hrest⟩), htext⟩)

theorem admits_of_isLeaf (hmeets : ¬ Meets output input) (h : IsLeaf input) :
    Admits output input ↔ StrippedAgrees output input := by
  simp only [Meets, not_or] at hmeets
  obtain ⟨houtput, hinput, hne, houtputAny, hinputAny⟩ := hmeets
  constructor
  · rintro (hempty | hany | ⟨text, halternative, htext⟩)
    · exact absurd hempty houtput
    · exact absurd hany houtputAny
    · obtain rfl := h.alternative_iff.1 halternative
      rcases htext with hempty | hany | hsame | ⟨-, hagrees⟩
      · exact absurd hempty hinput
      · exact absurd hany hinputAny
      · exact absurd hsame.symm hne
      · exact hagrees
  · exact fun hagrees => .inr (.inr ⟨input, .refl, .inr (.inr (.inr ⟨h, hagrees⟩))⟩)

/-- A leaf admits an output exactly when it admits its name without the qualifier. -/
theorem admits_stripQualifier_output (hmeets : ¬ Meets output input) (h : IsLeaf input) :
    Admits (Text.stripQualifier output) input ↔ StrippedAgrees output input := by
  by_cases hbare : Meets (Text.stripQualifier output) input
  · refine ⟨fun _ => ?_, fun _ => admits_of_meets hbare⟩
    rcases hbare with hempty | hinput | hsame | hany | hinput
    · exact .inl hempty
    · exact absurd (.inr (.inl hinput)) hmeets
    · rw [StrippedAgrees, ← hsame, stripQualifier_stripQualifier]
      exact .inr (.inr ⟨_, .refl, .inr (.inr (.inl rfl))⟩)
    · exact .inr (.inl hany)
    · exact absurd (.inr (.inr (.inr (.inr hinput)))) hmeets
  · rw [admits_of_isLeaf hbare h, StrippedAgrees, StrippedAgrees, stripQualifier_stripQualifier]

/-- An output without a qualifier is admitted by a leaf exactly when it is admitted by the
leaf without its own. -/
theorem admits_stripQualifier_input (hmeets : ¬ Meets output input)
    (houtput : Text.stripQualifier output = output)
    (hinput : Text.stripQualifier input ≠ input) :
    Admits output (Text.stripQualifier input) ↔ StrippedAgrees output input := by
  have hempty : output ≠ [] := fun h => hmeets (.inl h)
  have hany : output ≠ anyText := fun h => hmeets (.inr (.inr (.inr (.inl h))))
  obtain ⟨-, hdotless, -⟩ := (stripQualifier_cases input).resolve_left hinput
  have hbare : ∀ text, Alternative (Text.stripQualifier input) text →
      Text.stripQualifier text = text := fun text halternative =>
    stripQualifier_of_not_mem fun hdot => hdotless (halternative.subset hdot)
  have hagrees : ∀ text, IsLeaf text → Text.stripQualifier text = text →
      (StrippedAgrees output text ↔ text = [] ∨ text = anyText ∨ SameName output text) := by
    intro text hleaf hsame
    simp [StrippedAgrees, houtput, hsame, hempty, hany, hleaf.alternative_iff]
  rw [Admits, AdmitsBy, StrippedAgrees, houtput]
  simp only [hempty, hany, false_or]
  refine exists_congr fun text => and_congr_right fun halternative => ?_
  constructor
  · rintro (hnil | hanything | rfl | ⟨hleaf, hstripped⟩)
    · exact .inl hnil
    · exact .inr (.inl hanything)
    · exact .inr (.inr (.inl rfl))
    · exact (hagrees text hleaf (hbare text halternative)).1 hstripped
  · intro hnamed
    by_cases hleaf : IsLeaf text
    · exact .inr (.inr (.inr ⟨hleaf, (hagrees text hleaf (hbare text halternative)).2 hnamed⟩))
    · rcases hnamed with hnil | hanything | hsame
      · exact .inl hnil
      · exact .inr (.inl hanything)
      · exact .inr (.inr (.inl (hsame.eq_or_isLeaf.resolve_right hleaf).symm))

/-! ## The gate -/

/-- With more layers than marks in the two texts the gate decides what an input admits. -/
theorem fitsWithin_iff_admits {layers : Nat} (h : marks output + marks input < layers) :
    fitsWithin layers output input = true ↔ Admits output input := by
  induction layers generalizing output input with
  | zero =>
      exact absurd h (Nat.not_lt_zero _)
  | succ layers ih =>
      by_cases hmeets : Meets output input
      · exact iff_of_true (fitsWithin_of_meets layers hmeets) (admits_of_meets hmeets)
      · cases hparts : parts? input with
        | some parts =>
            have hsplits := parts?_eq_some_iff.1 hparts
            rw [fitsWithin_of_splits layers hmeets hsplits, admits_of_splits hmeets hsplits,
              List.any_eq_true]
            refine exists_congr fun part => and_congr_right fun hpart => ?_
            have hless := Offers.marks_lt ⟨parts, hsplits, hpart⟩
            exact ih (by omega)
        | none =>
            have hleaf := isLeaf_iff.2 hparts
            rw [fitsWithin_of_isLeaf layers hmeets hleaf, admits_of_isLeaf hmeets hleaf]
            split
            · next houtput =>
                have hless := marks_stripQualifier_lt houtput
                rw [ih (by omega), admits_stripQualifier_output hmeets hleaf]
            · next houtput =>
                rw [not_not] at houtput
                split
                · next hinput =>
                    have hless := marks_stripQualifier_lt hinput
                    rw [ih (by omega), admits_stripQualifier_input hmeets houtput hinput]
                · next hinput =>
                    rw [not_not] at hinput
                    simp only [Meets, not_or] at hmeets
                    obtain ⟨hempty, hnil, -, hany, hanything⟩ := hmeets
                    simp [StrippedAgrees, houtput, hinput, hempty, hany, hnil, hanything,
                      hleaf.alternative_iff, canonicalName_eq_iff]

/-! ## Balanced inputs -/

theorem Alternative.balanced (h : Alternative input text) (hinput : Text.balanced input = true) :
    Text.balanced text = true := by
  induction h with
  | refl =>
      exact hinput
  | tail _ hoffers ih =>
      obtain ⟨parts, hsplits, hpart⟩ := hoffers
      cases hsplits with
      | optional hinner =>
          rwa [List.mem_singleton.1 hpart]
      | union hbody =>
          exact Text.balanced_of_mem_splitTop (by decide) hbody hpart
      | bars _ =>
          exact Text.balanced_of_mem_splitTop (by decide) ih hpart

/-- No bar goes with the qualifier of a leaf whose brackets pair up. -/
theorem IsLeaf.stripQualifier (h : IsLeaf text) (hbalanced : Text.balanced text = true) :
    IsLeaf (Text.stripQualifier text) := by
  rcases stripQualifier_cases text with hsame | ⟨hbracket, -, front, hfront⟩
  · rwa [hsame]
  · have hbar : '|' ∉ text := by
      refine Text.not_mem_of_containsTop hbracket hbalanced ?_
      by_contra hcontains
      exact h _ (.bars (by simpa using hcontains))
    rw [hfront] at hbracket hbar
    refine isLeaf_of_not_mem ?_ ?_
    · exact fun hmem => hbracket (List.mem_append_right _ (List.mem_cons_of_mem _ hmem))
    · exact fun hmem => hbar (List.mem_append_right _ (List.mem_cons_of_mem _ hmem))

theorem admits_iff_namesAgree (hinput : Text.balanced input = true) :
    Admits output input ↔ AdmitsBy NamesAgree output input := by
  refine or_congr_right (or_congr_right (exists_congr fun text =>
    and_congr_right fun halternative => ?_))
  refine or_congr_right (or_congr_right (or_congr_right (and_congr_right fun hleaf => ?_)))
  have hbare := hleaf.stripQualifier (halternative.balanced hinput)
  simp [StrippedAgrees, NamesAgree, hbare.alternative_iff]

end

theorem marks_compact_le (text : List Char) : marks (Text.compact text) ≤ marks text :=
  List.filter_sublist.countP_le

/--
The gate decides what an input admits, for texts without their blanks and as long as these
have no more marks than the gate looks through layers; looking further changes nothing.  An
input whose brackets pair up admits by the names of its leaves alone.
-/
theorem textFits_iff_admits (output input : String) :
    textFits (String.ofList (Text.compact output.toList))
        (String.ofList (Text.compact input.toList)) = textFits output input ∧
      (marks output.toList + marks input.toList ≤ 64 →
        (textFits output input = true ↔
          Admits (Text.compact output.toList) (Text.compact input.toList)) ∧
        (Text.balanced input.toList = true →
          (textFits output input = true ↔
            AdmitsBy NamesAgree (Text.compact output.toList) (Text.compact input.toList))) ∧
        ∀ layers, layerLimit ≤ layers →
          fitsWithin layers (Text.compact output.toList) (Text.compact input.toList) =
            textFits output input) := by
  constructor
  · simp only [textFits, String.toList_ofList, (Text.blankless_compact _).compact_eq]
  · intro hsize
    have hmarks : marks (Text.compact output.toList) + marks (Text.compact input.toList) <
        layerLimit :=
      Nat.lt_succ_of_le (Nat.le_trans
        (Nat.add_le_add (marks_compact_le _) (marks_compact_le _)) hsize)
    have hgate := fitsWithin_iff_admits hmarks
    refine ⟨hgate, fun hbalanced => hgate.trans (admits_iff_namesAgree ?_), ?_⟩
    · rwa [Text.balanced_compact]
    · intro layers hlayers
      exact Bool.eq_iff_iff.2
        ((fitsWithin_iff_admits (Nat.lt_of_lt_of_le hmarks hlayers)).trans hgate.symm)

/-- A qualified output is admitted by a qualified alternative inside an optional union. -/
theorem textFits_iff_admits_qualified :
    marks "pkg.models.Tool".toList +
        marks "Optional[Union[List[Part], Index | shop.Tool]]".toList ≤ 64 ∧
      AdmitsBy NamesAgree (Text.compact "pkg.models.Tool".toList)
        (Text.compact "Optional[Union[List[Part], Index | shop.Tool]]".toList) := by
  have hsize : marks "pkg.models.Tool".toList +
      marks "Optional[Union[List[Part], Index | shop.Tool]]".toList ≤ 64 := by
    decide
  exact ⟨hsize, (((textFits_iff_admits _ _).2 hsize).2.1 (by decide)).1 (by decide)⟩

/--
A bracket that closes nothing hides a bar of `].A|B`, so no name in it is that of `A`; the
bracket goes with the qualifier, and `A` is admitted.
-/
theorem textFits_not_by_names :
    marks "A".toList + marks "].A|B".toList ≤ 64 ∧ textFits "A" "].A|B" = true ∧
      ¬ AdmitsBy NamesAgree "A".toList "].A|B".toList := by
  refine ⟨by decide, by decide, ?_⟩
  have hleaf : IsLeaf "].A|B".toList := by
    decide
  rintro (hempty | hany | ⟨text, halternative, htext⟩)
  · exact absurd hempty (by decide)
  · exact absurd hany (by decide)
  · obtain rfl := hleaf.alternative_iff.1 halternative
    revert htext
    simp only [NamesAgree]
    decide

end TypeExpr

end SlotGraph
