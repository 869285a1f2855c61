import SlotGraph.Proofs.Json.Floats
import SlotGraph.Proofs.Json.Members

/-!
# Reading rendered values

The compact text of a canonical value reads back as this value.  Canonical is what a
reader can give at all: members ascend, integers fit, doubles are finite, and no zero
carries a sign.
-/

namespace SlotGraph

namespace Json

mutual

/-- Whether a value is one that a reader gives for its text. -/
def Canonical : Json → Prop
  | .null | .bool _ | .str _ => True
  | .int n => -2 ^ 63 ≤ n ∧ n < 2 ^ 64
  | .minusZero => False
  | .float x => Double.isFinite x = true
  | .arr xs => CanonicalItems xs
  | .obj ms => Ascending ms ∧ CanonicalMembers ms
termination_by structural value => value

def CanonicalItems : List Json → Prop
  | [] => True
  | x :: xs => Canonical x ∧ CanonicalItems xs
termination_by structural xs => xs

def CanonicalMembers : List (String × Json) → Prop
  | [] => True
  | (_, x) :: ms => Canonical x ∧ CanonicalMembers ms
termination_by structural ms => ms

end

theorem canonical_of_mem_items {xs : List Json} (hxs : CanonicalItems xs) {x : Json}
    (hx : x ∈ xs) : x.Canonical := by
  induction xs with
  | nil =>
      simp at hx
  | cons y ys ih =>
      rcases List.mem_cons.1 hx with rfl | hmem
      · exact hxs.1
      · exact ih hxs.2 hmem

theorem canonical_of_mem_members {ms : List (String × Json)} (hms : CanonicalMembers ms)
    {member : String × Json} (hmember : member ∈ ms) : member.2.Canonical := by
  induction ms with
  | nil =>
      simp at hmember
  | cons first rest ih =>
      rcases List.mem_cons.1 hmember with rfl | hmem
      · exact hms.1
      · exact ih hms.2 hmem

/-- What holds of scalars, and of arrays and objects if of what they hold, holds of all. -/
theorem Canonical.induction {P : Json → Prop}
    (scalar : ∀ v, v.Canonical → v.isStructured = false → P v)
    (arr : ∀ xs, (Json.arr xs).Canonical → (∀ x ∈ xs, P x) → P (.arr xs))
    (obj : ∀ ms, (Json.obj ms).Canonical → (∀ member ∈ ms, P member.2) → P (.obj ms)) :
    ∀ {v : Json}, v.Canonical → P v
  | .null, hv | .bool _, hv | .int _, hv | .minusZero, hv | .float _, hv | .str _, hv =>
      scalar _ hv rfl
  | .arr xs, hv =>
      arr xs hv fun _ hx => (canonical_of_mem_items hv hx).induction scalar arr obj
  | .obj ms, hv =>
      obj ms hv fun member hmember =>
        (canonical_of_mem_members hv.2 hmember).induction scalar arr obj
termination_by v => sizeOf v
decreasing_by
  · have hsize := List.sizeOf_lt_of_mem hx
    rw [Json.arr.sizeOf_spec]
    omega
  · have hsize := List.sizeOf_lt_of_mem hmember
    have hvalue : sizeOf member.2 < sizeOf member := by
      cases member
      simp only [Prod.mk.sizeOf_spec]
      omega
    rw [Json.obj.sizeOf_spec]
    omega

/-! ## Strings -/

theorem readHex4_control {n : Nat} (h : n < 32) (rest : List Char) :
    readHex4 ('0' :: '0' :: Nat.digitChar (n / 16) :: Nat.digitChar (n % 16) :: rest) =
      some (n, rest) := by
  have hhigh : Text.digit? 16 (Nat.digitChar (n / 16)) = some (n / 16) :=
    digit?_digitChar (by decide) (by omega)
  have hlow : Text.digit? 16 (Nat.digitChar (n % 16)) = some (n % 16) :=
    digit?_digitChar (by decide) (by omega)
  have hzero : Text.digit? 16 '0' = some 0 := by
    decide
  have hvalue : Text.ofDigits 16 [0, 0, n / 16, n % 16] = n := by
    simp only [Text.ofDigits, List.foldl_cons, List.foldl_nil]
    omega
  simp [readHex4, hhigh, hlow, hzero, hvalue]

theorem readCharacters_escapeChar (limit : Nat) (done : List Char) (c : Char)
    (rest : List Char) :
    readCharacters (limit + 1) done (escapeChar c ++ rest) =
      readCharacters limit (c :: done) rest := by
  unfold escapeChar
  split
  · next heq =>
      subst heq
      rfl
  split
  · next heq =>
      subst heq
      rfl
  split
  · next heq =>
      subst heq
      rfl
  split
  · next heq =>
      subst heq
      rfl
  split
  · next heq =>
      subst heq
      rfl
  split
  · next heq =>
      subst heq
      rfl
  split
  · next heq =>
      subst heq
      rfl
  split
  · next hcontrol =>
      have hlt : c.toNat < 32 := hcontrol
      have hunicode : readUnicode ('0' :: '0' :: Nat.digitChar (c.toNat / 16) ::
          Nat.digitChar (c.toNat % 16) :: rest) = some (c, rest) := by
        have hbefore : ¬ (0xD800 ≤ c.toNat ∧ c.toNat < 0xDC00) := by
          omega
        have hbehind : ¬ (0xDC00 ≤ c.toNat ∧ c.toNat < 0xE000) := by
          omega
        simp [readUnicode, readHex4_control hlt, hbefore, hbehind, Char.ofNat_toNat]
      simp only [List.cons_append, List.nil_append]
      rw [readCharacters]
      simp only [readEscape, hunicode, Option.bind_some]
      rfl
  · next hquote hslash _ _ _ _ _ hplain =>
      rw [List.cons_append, List.nil_append, readCharacters, if_neg hquote, if_neg hslash,
        if_neg hplain]

theorem readCharacters_quote {limit : Nat} {text : List Char} (hlimit : text.length < limit)
    (done rest : List Char) :
    readCharacters limit done (text.flatMap escapeChar ++ '"' :: rest) =
      some (String.ofList (done.reverse ++ text), rest) := by
  induction text generalizing limit done with
  | nil =>
      obtain ⟨limit, rfl⟩ := Nat.exists_eq_succ_of_ne_zero (Nat.ne_of_gt hlimit)
      simp [readCharacters]
  | cons c tail ih =>
      obtain ⟨limit, rfl⟩ := Nat.exists_eq_succ_of_ne_zero (Nat.ne_of_gt (Nat.zero_lt_of_lt hlimit))
      rw [List.flatMap_cons, List.append_assoc, readCharacters_escapeChar,
        ih (by simpa using hlimit)]
      simp

theorem length_escapeChar_pos (c : Char) : 1 ≤ (escapeChar c).length := by
  unfold escapeChar
  repeat' split
  all_goals simp

theorem toList_quote (s : String) :
    (quote s).toList = '"' :: (s.toList.flatMap escapeChar ++ ['"']) :=
  String.toList_ofList

theorem length_quote (s : String) : s.toList.length + 2 ≤ (quote s).toList.length := by
  have hescaped : s.toList.length ≤ (s.toList.flatMap escapeChar).length := by
    induction s.toList with
    | nil =>
        exact Nat.le_refl 0
    | cons c tail ih =>
        have hc := length_escapeChar_pos c
        rw [List.flatMap_cons, List.length_append, List.length_cons]
        omega
  rw [toList_quote, List.length_cons, List.length_append, List.length_singleton]
  omega

/-! ## Texts of items and members -/

def itemsText (xs : List Json) : List Char :=
  (String.intercalate "," (renderItems xs)).toList

def membersText (ms : List (String × Json)) : List Char :=
  (String.intercalate "," (renderMembers ms)).toList

theorem toList_render_str (s : String) :
    (render (.str s)).toList = '"' :: (s.toList.flatMap escapeChar ++ ['"']) :=
  String.toList_ofList

theorem toList_render_arr (xs : List Json) :
    (render (.arr xs)).toList = '[' :: (itemsText xs ++ [']']) := by
  rw [render, String.toList_append, String.toList_append]
  rfl

theorem toList_render_obj (ms : List (String × Json)) :
    (render (.obj ms)).toList = '\x7b' :: (membersText ms ++ ['\x7d']) := by
  rw [render, String.toList_append, String.toList_append]
  rfl

theorem itemsText_singleton (x : Json) : itemsText [x] = (render x).toList := by
  rw [itemsText, renderItems, renderItems, String.intercalate_singleton]

theorem itemsText_cons (x y : Json) (rest : List Json) :
    itemsText (x :: y :: rest) = (render x).toList ++ ',' :: itemsText (y :: rest) := by
  rw [itemsText, itemsText, renderItems, renderItems, String.intercalate_cons_cons,
    String.toList_append, String.toList_append, List.append_assoc]
  rfl

theorem membersText_singleton (key : String) (x : Json) :
    membersText [(key, x)] = (quote key).toList ++ ':' :: (render x).toList := by
  rw [membersText, renderMembers, renderMembers, String.intercalate_singleton,
    String.toList_append, String.toList_append, List.append_assoc]
  rfl

theorem membersText_cons (key : String) (x : Json) (member : String × Json)
    (rest : List (String × Json)) :
    membersText ((key, x) :: member :: rest) =
      (quote key).toList ++ ':' :: ((render x).toList ++ ',' :: membersText (member :: rest)) := by
  rw [membersText, membersText, renderMembers, renderMembers, String.intercalate_cons_cons,
    String.toList_append, String.toList_append, String.toList_append, String.toList_append,
    List.append_assoc, List.append_assoc, List.append_assoc]
  rfl

/-! ## Values -/

theorem skipSpace_of_not {c : Char} (h : isSpace c = false) (rest : List Char) :
    skipSpace (c :: rest) = c :: rest := by
  rw [skipSpace, List.dropWhile_cons_of_neg (by simp [h])]

/-- A character that opens a number is nothing else. -/
theorem number_head {c : Char} (h : c = '-' ∨ (Text.digit? 10 c).isSome) :
    isSpace c = false ∧ c ∉ ['n', 't', 'f', '"', '[', ']', '\x7b', '\x7d', '\uFEFF'] := by
  have hno : ∀ other ∈ [' ', '\t', '\n', '\r', 'n', 't', 'f', '"', '[', ']', '\x7b', '\x7d', '\uFEFF'],
      other ≠ '-' ∧ Text.digit? 10 other = none := by
    simp [Text.digit?]
  have hne : ∀ other ∈ [' ', '\t', '\n', '\r', 'n', 't', 'f', '"', '[', ']', '\x7b', '\x7d', '\uFEFF'],
      c ≠ other := by
    rintro other hother rfl
    rcases h with hminus | hdigit
    · exact (hno c hother).1 hminus
    · rw [(hno c hother).2] at hdigit
      simp at hdigit
  constructor
  · have hspace : ∀ other ∈ [' ', '\t', '\n', '\r'], c ≠ other :=
      fun other hother => hne other (List.mem_append_left _ hother)
    simpa [isSpace, and_assoc] using hspace
  · exact fun hmem => hne c (List.mem_append_right [' ', '\t', '\n', '\r'] hmem) rfl

theorem readValue_number {text rest : List Char} {value : Json} (h : ReadsNumber text value)
    (hrest : EndsNumber rest) (limit : Nat) :
    readValue (limit + 1) (text ++ rest) = some (value, rest) := by
  obtain ⟨token, hread, hvalue⟩ := h
  obtain ⟨c, more, rfl, hhead⟩ := readToken_head hread
  have hno := (number_head hhead).2
  have htoken := readToken_append hrest hread
  rw [List.cons_append] at htoken ⊢
  have hne : ∀ {other : Char} {before after : List Char},
      other ∈ ['n', 't', 'f', '"', '[', ']', '\x7b', '\x7d', '\uFEFF'] →
        c :: before = other :: after → False := by
    intro other before after hother heq
    rw [← (List.cons.inj heq).1] at hother
    exact hno hother
  unfold readValue
  split
  · next heq =>
      exact (hne (by decide) heq).elim
  · next heq =>
      exact (hne (by decide) heq).elim
  · next heq =>
      exact (hne (by decide) heq).elim
  · next heq =>
      exact (hne (by decide) heq).elim
  · next heq =>
      exact (hne (by decide) heq).elim
  · next heq =>
      exact (hne (by decide) heq).elim
  · rw [htoken, Option.bind_some]
    simp only [hvalue]
    rfl

/-- A canonical text opens with no blank, no closing bracket and no byte order mark. -/
theorem render_head {v : Json} (hv : v.Canonical) :
    ∃ c more, (render v).toList = c :: more ∧ isSpace c = false ∧ c ≠ ']' ∧ c ≠ '\uFEFF' := by
  have hnumber : ∀ text value, ReadsNumber text value →
      ∃ c more, text = c :: more ∧ isSpace c = false ∧ c ≠ ']' ∧ c ≠ '\uFEFF' := by
    rintro text value ⟨token, hread, -⟩
    obtain ⟨c, more, htext, hhead⟩ := readToken_head hread
    obtain ⟨hspace, hno⟩ := number_head hhead
    refine ⟨c, more, htext, hspace, ?_, ?_⟩
    · rintro rfl
      exact hno (by decide)
    · rintro rfl
      exact hno (by decide)
  cases v with
  | null =>
      exact ⟨'n', ['u', 'l', 'l'], rfl, by decide⟩
  | bool b =>
      cases b with
      | true =>
          exact ⟨'t', ['r', 'u', 'e'], rfl, by decide⟩
      | false =>
          exact ⟨'f', ['a', 'l', 's', 'e'], rfl, by decide⟩
  | int n =>
      exact hnumber _ _ (readsNumber_int hv.1 hv.2)
  | minusZero =>
      exact hv.elim
  | float x =>
      exact hnumber _ _ (readsNumber_floatText hv)
  | str s =>
      exact ⟨'"', _, toList_render_str s, by decide⟩
  | arr xs =>
      exact ⟨'[', _, toList_render_arr xs, by decide⟩
  | obj ms =>
      exact ⟨'\x7b', _, toList_render_obj ms, by decide⟩

theorem endsNumber_cons {c : Char} (h : c = ',' ∨ c = ']' ∨ c = '\x7d') (rest : List Char) :
    EndsNumber (c :: rest) := by
  intro other hother
  obtain rfl : c = other := Option.some.inj hother
  rcases h with rfl | rfl | rfl <;> decide

theorem itemsText_head {x : Json} {xs : List Json} (hxs : CanonicalItems (x :: xs)) :
    ∃ c more, itemsText (x :: xs) = c :: more ∧ isSpace c = false ∧ c ≠ ']' := by
  obtain ⟨c, more, htext, hspace, hclosing, -⟩ := render_head hxs.1
  cases xs with
  | nil =>
      exact ⟨c, more, by rw [itemsText_singleton, htext], hspace, hclosing⟩
  | cons y ys =>
      exact ⟨c, _, by rw [itemsText_cons, htext, List.cons_append], hspace, hclosing⟩

theorem membersText_head (key : String) (x : Json) (ms : List (String × Json)) :
    ∃ more, membersText ((key, x) :: ms) = '"' :: more := by
  cases ms with
  | nil =>
      exact ⟨_, by rw [membersText_singleton, toList_quote, List.cons_append]⟩
  | cons y ys =>
      exact ⟨_, by rw [membersText_cons, toList_quote, List.cons_append]⟩

theorem readValue_arr {c : Char} (hspace : isSpace c = false) (hclosing : c ≠ ']')
    (limit : Nat) (more : List Char) :
    readValue (limit + 1) ('[' :: c :: more) =
      (readItems limit (c :: more)).map fun read => (.arr read.1, read.2) := by
  unfold readValue
  simp only [skipSpace_of_not hspace]
  split
  · next heq =>
      exact absurd (List.cons.inj heq).1 hclosing
  · rfl

theorem readValue_obj {c : Char} (hspace : isSpace c = false) (hclosing : c ≠ '\x7d')
    (limit : Nat) (more : List Char) :
    readValue (limit + 1) ('\x7b' :: c :: more) =
      (readMembers limit (c :: more)).map fun read => (ofMembers read.1, read.2) := by
  unfold readValue
  simp only [skipSpace_of_not hspace]
  split
  · next heq =>
      exact absurd (List.cons.inj heq).1 hclosing
  · rfl

theorem readString_quote {limit : Nat} {key : String} (hlimit : key.toList.length < limit)
    (rest : List Char) : readString limit ((quote key).toList ++ rest) = some (key, rest) := by
  rw [toList_quote, List.cons_append, List.append_assoc, List.singleton_append, readString,
    readCharacters_quote hlimit, List.reverse_nil, List.nil_append, String.ofList_toList]

theorem skipSpace_quote (key : String) (rest : List Char) :
    skipSpace ((quote key).toList ++ rest) = (quote key).toList ++ rest := by
  rw [toList_quote, List.cons_append]
  exact skipSpace_of_not (by decide) _

theorem skipSpace_render {v : Json} (hv : v.Canonical) (rest : List Char) :
    skipSpace ((render v).toList ++ rest) = (render v).toList ++ rest := by
  obtain ⟨c, more, htext, hspace, -⟩ := render_head hv
  rw [htext, List.cons_append]
  exact skipSpace_of_not hspace _

/-- Whether a value is read from its text, if no number goes on with what follows. -/
def ReadsBack (v : Json) : Prop :=
  ∀ (limit : Nat) (rest : List Char), (render v).toList.length ≤ limit → EndsNumber rest →
    readValue limit ((render v).toList ++ rest) = some (v, rest)

theorem readItems_render {x : Json} {xs : List Json} (hxs : CanonicalItems (x :: xs))
    (hread : ∀ y ∈ x :: xs, y.ReadsBack) {limit : Nat}
    (hlimit : (itemsText (x :: xs)).length + 1 ≤ limit) (rest : List Char) :
    readItems limit (itemsText (x :: xs) ++ ']' :: rest) = some (x :: xs, rest) := by
  have hx := hread x List.mem_cons_self
  induction xs generalizing x limit with
  | nil =>
      obtain ⟨limit, rfl⟩ := Nat.exists_eq_add_of_le' (Nat.le_of_add_left_le hlimit)
      rw [itemsText_singleton] at hlimit ⊢
      rw [readItems, skipSpace_render hxs.1,
        hx limit (']' :: rest) (by omega) (endsNumber_cons (by decide) rest), Option.bind_some]
      rfl
  | cons y ys ih =>
      obtain ⟨limit, rfl⟩ := Nat.exists_eq_add_of_le' (Nat.le_of_add_left_le hlimit)
      rw [itemsText_cons, List.length_append, List.length_cons] at hlimit
      have hrest := fun z hz => hread z (List.mem_cons_of_mem x hz)
      have hlater : (itemsText (y :: ys)).length + 1 ≤ limit := by
        omega
      have hitems := ih hxs.2 hrest hlater (hrest y List.mem_cons_self)
      rw [itemsText_cons, List.append_assoc, List.cons_append, readItems,
        skipSpace_render hxs.1, hx limit _ (by omega) (endsNumber_cons (by decide) _),
        Option.bind_some]
      simp only [skipSpace_of_not (c := ',') (by decide)]
      rw [hitems]
      rfl

theorem readMembers_render {key : String} {x : Json} {ms : List (String × Json)}
    (hms : CanonicalMembers ((key, x) :: ms))
    (hread : ∀ member ∈ (key, x) :: ms, member.2.ReadsBack) {limit : Nat}
    (hlimit : (membersText ((key, x) :: ms)).length + 1 ≤ limit) (rest : List Char) :
    readMembers limit (membersText ((key, x) :: ms) ++ '\x7d' :: rest) =
      some ((key, x) :: ms, rest) := by
  have hx := hread (key, x) List.mem_cons_self
  have hquote := length_quote key
  induction ms generalizing key x limit with
  | nil =>
      obtain ⟨limit, rfl⟩ := Nat.exists_eq_add_of_le' (Nat.le_of_add_left_le hlimit)
      rw [membersText_singleton, List.length_append, List.length_cons] at hlimit
      rw [membersText_singleton, List.append_assoc, List.cons_append, readMembers,
        skipSpace_quote, readString_quote (by omega), Option.bind_some]
      simp only [skipSpace_of_not (c := ':') (by decide)]
      rw [skipSpace_render hms.1,
        hx limit ('\x7d' :: rest) (by simp only; omega) (endsNumber_cons (by decide) rest),
        Option.bind_some]
      rfl
  | cons member ys ih =>
      obtain ⟨other, y⟩ := member
      obtain ⟨limit, rfl⟩ := Nat.exists_eq_add_of_le' (Nat.le_of_add_left_le hlimit)
      rw [membersText_cons, List.length_append, List.length_cons, List.length_append,
        List.length_cons] at hlimit
      have hrest := fun m hm => hread m (List.mem_cons_of_mem (key, x) hm)
      have hlater : (membersText ((other, y) :: ys)).length + 1 ≤ limit := by
        omega
      have hmembers := ih hms.2 hrest hlater (hrest (other, y) List.mem_cons_self)
        (length_quote other)
      rw [membersText_cons, List.append_assoc, List.cons_append, List.append_assoc,
        List.cons_append, readMembers, skipSpace_quote, readString_quote (by omega),
        Option.bind_some]
      simp only [skipSpace_of_not (c := ':') (by decide)]
      rw [skipSpace_render hms.1,
        hx limit _ (by simp only; omega) (endsNumber_cons (by decide) _), Option.bind_some]
      simp only [skipSpace_of_not (c := ',') (by decide)]
      rw [hmembers]
      rfl

theorem pos_of_render {v : Json} (hv : v.Canonical) {limit : Nat}
    (hlimit : (render v).toList.length ≤ limit) : ∃ before, limit = before + 1 := by
  obtain ⟨c, more, htext, -⟩ := render_head hv
  rw [htext, List.length_cons] at hlimit
  exact Nat.exists_eq_add_of_le' (Nat.le_of_add_left_le hlimit)

theorem readsBack_of_scalar {v : Json} (hv : v.Canonical) (hscalar : v.isStructured = false) :
    v.ReadsBack := by
  intro limit rest hlimit hrest
  obtain ⟨limit, rfl⟩ := pos_of_render hv hlimit
  cases v with
  | null =>
      rfl
  | bool b =>
      cases b <;> rfl
  | int n =>
      exact readValue_number (readsNumber_int hv.1 hv.2) hrest limit
  | minusZero =>
      exact hv.elim
  | float x =>
      exact readValue_number (readsNumber_floatText hv) hrest limit
  | str s =>
      have hlength : s.toList.length < limit + 1 :=
        Nat.lt_of_succ_lt (Nat.lt_of_lt_of_le (length_quote s) hlimit)
      rw [toList_render_str, List.cons_append, List.append_assoc, List.singleton_append]
      unfold readValue
      simp [readCharacters_quote hlength [] rest, String.ofList_toList]
  | arr xs =>
      simp [isStructured] at hscalar
  | obj ms =>
      simp [isStructured] at hscalar

theorem readsBack_arr {xs : List Json} (hv : (Json.arr xs).Canonical)
    (hread : ∀ x ∈ xs, x.ReadsBack) : (Json.arr xs).ReadsBack := by
  intro limit rest hlimit _
  obtain ⟨limit, rfl⟩ := pos_of_render hv hlimit
  cases xs with
  | nil =>
      rfl
  | cons x xs =>
      rw [toList_render_arr, List.length_cons, List.length_append] at hlimit
      have hitems := readItems_render hv hread (Nat.le_of_succ_le_succ hlimit) rest
      obtain ⟨c, more, htext, hspace, hclosing⟩ := itemsText_head hv
      rw [toList_render_arr, List.cons_append, List.append_assoc, List.singleton_append]
      rw [htext, List.cons_append] at hitems ⊢
      rw [readValue_arr hspace hclosing, hitems]
      rfl

theorem readsBack_obj {ms : List (String × Json)} (hv : (Json.obj ms).Canonical)
    (hread : ∀ member ∈ ms, member.2.ReadsBack) : (Json.obj ms).ReadsBack := by
  intro limit rest hlimit _
  obtain ⟨limit, rfl⟩ := pos_of_render hv hlimit
  cases ms with
  | nil =>
      rfl
  | cons member ms =>
      obtain ⟨key, x⟩ := member
      rw [toList_render_obj, List.length_cons, List.length_append] at hlimit
      have hmembers := readMembers_render hv.2 hread (Nat.le_of_succ_le_succ hlimit) rest
      obtain ⟨more, htext⟩ := membersText_head key x ms
      rw [toList_render_obj, List.cons_append, List.append_assoc, List.singleton_append]
      rw [htext, List.cons_append] at hmembers ⊢
      rw [readValue_obj (by decide) (by decide), hmembers, Option.map_some,
        ofMembers_of_ascending hv.1]

/-- A canonical value is read back from its text. -/
theorem readsBack {v : Json} (hv : v.Canonical) : v.ReadsBack :=
  hv.induction (fun _ => readsBack_of_scalar) (fun _ => readsBack_arr) (fun _ => readsBack_obj)

/-- The text of a canonical value reads back as this value. -/
theorem parse?_render {v : Json} (hv : v.Canonical) : parse? (render v) = some v := by
  have hmark : dropMark (render v).toList = (render v).toList := by
    obtain ⟨c, more, htext, -, -, hmark⟩ := render_head hv
    rw [htext]
    unfold dropMark
    split
    · next heq =>
        exact absurd (List.cons.inj heq).1 hmark
    · rfl
  have hread := readsBack hv (2 * (render v).toList.length + 2) [] (by omega)
    (by intro c hc; simp at hc)
  have hskip := skipSpace_render hv []
  rw [List.append_nil] at hread hskip
  rw [parse?, hmark, hskip]
  simp only [hread]
  rfl

end Json

end SlotGraph
