import Mathlib.Tactic.IntervalCases
import LabelAtlas.Json.Reader
import LabelAtlas.Json.Writer
import LabelAtlas.Proofs.Encoding
import LabelAtlas.Proofs.Lookup

/-! JSON texts. What is written for a value is read as that value, whatever the texts in it are, as
long as no whole number in it has too many digits and it is not nested too deep. -/
namespace LabelAtlas.Json

/-! ### Strings -/

theorem hex4?_append {t : Text} (long : t.length = 4) (rest : Text) :
    hex4? (t ++ rest) = hex4? t := by
  match t, long with
  | [_, _, _, _], _ => rfl

theorem hex4?_lowerHex : ∀ n : Fin 32,
    (Text.lowerHex 4 n).length = 4 ∧ hex4? (Text.lowerHex 4 n) = some n.val := by
  decide

/-- A control character is read from its four digits. It is no half of a pair, so what follows does
not matter. -/
theorem unicodeEscape_lowerHex {n : Nat} (control : n < 32) {rest : Text} (more : rest ≠ []) :
    unicodeEscape (Text.lowerHex 4 n ++ rest) = .ok (.ofNat n, rest) := by
  obtain ⟨long, value⟩ := hex4?_lowerHex ⟨n, control⟩
  simp only at long value
  have low : CodePoint.isHighUnit n = false := by simp [CodePoint.isHighUnit]; omega
  have dropped : (Text.lowerHex 4 n ++ rest).drop 4 = rest := List.drop_left' long
  rw [unicodeEscape, hex4?_append long, value]
  simp only [dropped, List.isEmpty_iff, more, if_false, low, Bool.false_and, Bool.false_eq_true]
  split <;> rfl

theorem ofNat_control {c : CodePoint} (control : c.toNat < 32) : CodePoint.ofNat c.toNat = c := by
  cases c with
  | scalar c => exact CodePoint.ofNat_char c
  | surrogate n =>
    simp only [CodePoint.toNat, CodePoint.firstSurrogate] at control
    omega

theorem stringFrom_escapeChar (start fuel : Nat) (done : Text) (c : CodePoint) {rest : Text}
    (more : rest ≠ []) :
    stringFrom start (fuel + 1) done (escapeChar c ++ rest)
      = stringFrom start fuel (c :: done) rest := by
  rw [escapeChar]
  iterate 7
    split
    next same => subst same; rfl
  split
  next control =>
    have reading : stringFrom start (fuel + 1) done ("\\u" ++ Text.lowerHex 4 c.toNat ++ rest)
        = (unicodeEscape (Text.lowerHex 4 c.toNat ++ rest)).bind fun p =>
            stringFrom start fuel (p.1 :: done) p.2 := rfl
    rw [reading, unicodeEscape_lowerHex control more, ofNat_control control]
    rfl
  next notQuote notSlash _ _ _ _ _ visible =>
    simp only [List.cons_append, List.nil_append, stringFrom, notQuote, notSlash, visible, if_false]

theorem escapeChar_ne_nil (c : CodePoint) : escapeChar c ≠ [] := by
  unfold escapeChar
  repeat' split
  all_goals simp

theorem stringFrom_escaped (start : Nat) (t done rest : Text) (fuel : Nat)
    (enough : t.length < fuel) :
    stringFrom start fuel done (t.flatMap escapeChar ++ .scalar '"' :: rest)
      = .ok (done.reverse ++ t, rest) := by
  induction t generalizing done fuel with
  | nil =>
    obtain ⟨fuel, rfl⟩ := Nat.exists_eq_add_of_lt enough
    simp [stringFrom]
  | cons c t ih =>
    obtain ⟨fuel, rfl⟩ : ∃ more, fuel = more + 1 := ⟨fuel - 1, by simp at enough; omega⟩
    rw [List.flatMap_cons, List.append_assoc, stringFrom_escapeChar _ _ _ _ (by simp),
      ih _ _ (by simpa using enough)]
    simp

theorem length_le_escaped (t : Text) : t.length ≤ (t.flatMap escapeChar).length := by
  induction t with
  | nil => simp
  | cons c t ih =>
    have some_char := List.length_pos_iff.2 (escapeChar_ne_nil c)
    simp only [List.length_cons, List.flatMap_cons, List.length_append]
    omega

/-- A string is read up to the quote that ends it. -/
theorem string_escaped (t rest : Text) :
    string (t.flatMap escapeChar ++ .scalar '"' :: rest) = .ok (t, rest) := by
  have longer := length_le_escaped t
  rw [string, stringFrom_escaped _ _ _ _ _ (by simp only [List.length_append]; omega)]
  simp

/-! ### Numbers -/

theorem natOfDigits_digits (n : Nat) : natOfDigits (Text.digits 10 n) = n := by
  have fold := Nat.ofDigitChars_ten_toDigits (n := n)
  rw [Nat.ofDigitChars_eq_foldl] at fold
  rw [natOfDigits, Text.digits, List.foldl_map]
  simpa only [CodePoint.toNat, Nat.mul_comm] using fold

theorem isDigit_of_mem_digits {n : Nat} {c : CodePoint} (member : c ∈ Text.digits 10 n) :
    c.isDigit = true := by
  obtain ⟨d, written, rfl⟩ := List.mem_map.1 member
  exact Nat.isDigit_of_mem_toDigits (by decide) (by decide) written

/-- Only zero is written with a zero in front. -/
theorem head_toDigits {n : Nat} (positive : 0 < n) : (Nat.toDigits 10 n).head? ≠ some '0' := by
  induction n using Nat.strongRecOn with
  | _ n ih =>
    by_cases small : n < 10
    · rw [Nat.toDigits_of_lt_base small]
      interval_cases n <;> decide
    · rw [Nat.toDigits_of_base_le (by decide) (by omega),
        List.head?_append, List.head?_eq_some_head Nat.toDigits_ne_nil, Option.some_or,
        ← List.head?_eq_some_head]
      exact ih (n / 10) (by omega) (by omega)

/-- A text with which no number goes on. -/
def Ends (rest : Text) : Prop :=
  ∀ c ∈ rest.head?, c.isDigit = false ∧ c ≠ '.' ∧ c ≠ 'e' ∧ c ≠ 'E'

theorem digitsOf_digits (n : Nat) {rest : Text} (ends : Ends rest) :
    digitsOf (Text.digits 10 n ++ rest) = (Text.digits 10 n, rest) := by
  have all_digits : ∀ c ∈ Text.digits 10 n, c.isDigit = true := fun _ => isDigit_of_mem_digits
  have stops : rest.takeWhile CodePoint.isDigit = [] ∧ rest.dropWhile CodePoint.isDigit = rest := by
    cases rest with
    | nil => exact ⟨rfl, rfl⟩
    | cons c rest =>
      have other := (ends c rfl).1
      simp [other]
  rw [digitsOf, List.takeWhile_append_of_pos all_digits, List.dropWhile_append_of_pos all_digits,
    stops.1, stops.2, List.append_nil]

theorem digits_eq_cons (n : Nat) :
    ∃ c t, Text.digits 10 n = c :: t ∧ c.isDigit = true ∧ (c = .scalar '0' → n = 0) := by
  obtain ⟨c, t, written⟩ := List.exists_cons_of_ne_nil (Nat.toDigits_ne_nil (n := n) (b := 10))
  have same : Text.digits 10 n = .scalar c :: t.map .scalar := by rw [Text.digits, written]; rfl
  refine ⟨.scalar c, t.map .scalar, same, isDigit_of_mem_digits (same ▸ List.mem_cons_self), ?_⟩
  intro zero
  by_contra nonzero
  have first := head_toDigits (Nat.pos_of_ne_zero nonzero)
  rw [written, List.head?_cons] at first
  exact first (congrArg some (CodePoint.scalar.inj zero))

theorem wholeDigits?_digits (n : Nat) {rest : Text} (ends : Ends rest) :
    wholeDigits? (Text.digits 10 n ++ rest) = some (Text.digits 10 n, rest) := by
  obtain ⟨c, t, written, -, zero⟩ := digits_eq_cons n
  by_cases first : c = .scalar '0'
  · rw [zero first]
    rfl
  · have found := digitsOf_digits n ends
    rw [written] at found ⊢
    unfold wholeDigits?
    split
    next u same => exact absurd (List.cons.inj same).1 first
    next => rw [found]; rfl

theorem fractionDigits_ends {rest : Text} (ends : Ends rest) :
    fractionDigits rest = (none, rest) := by
  unfold fractionDigits
  split
  next u => exact absurd rfl (ends _ rfl).2.1
  next => rfl

theorem exponentDigits_ends {rest : Text} (ends : Ends rest) :
    exponentDigits rest = (none, rest) := by
  cases rest with
  | nil => rfl
  | cons c rest =>
    have other := (ends c rfl).2.2
    simp [exponentDigits, other]

theorem isShort_iff (n : Int) :
    Numeral.isShort n = true ↔ (Text.digits 10 n.natAbs).length ≤ Numeral.maxDigits := by
  rw [Numeral.isShort, decide_eq_true_iff, Nat.pow_eq, Text.digits, List.length_map,
    Nat.length_toDigits_le_iff (by decide) (by decide)]

theorem numberParts?_decimal (n : Int) {rest : Text} (ends : Ends rest) :
    numberParts? (Numeral.decimal n ++ rest)
      = some (⟨n < 0, Text.digits 10 n.natAbs, none, none⟩, rest) := by
  have whole := wholeDigits?_digits n.natAbs ends
  by_cases negative : n < 0
  · simp [numberParts?, Numeral.decimal, negative, whole, fractionDigits_ends ends,
      exponentDigits_ends ends]
  · obtain ⟨c, t, written, digit, -⟩ := digits_eq_cons n.natAbs
    have unsigned : c ≠ .scalar '-' := by
      rintro rfl
      exact absurd digit (by decide)
    rw [written] at whole
    simp only [List.cons_append] at whole
    simp [numberParts?, Numeral.decimal, negative, written, unsigned, whole,
      fractionDigits_ends ends, exponentDigits_ends ends]

theorem value_whole {n : Int} (short : Numeral.isShort n = true) :
    NumberParts.value ⟨n < 0, Text.digits 10 n.natAbs, none, none⟩ = .ok (.int n) := by
  have limit := (isShort_iff n).1 short
  have whole : (if n < 0 then -(n.natAbs : Int) else n.natAbs) = n := by
    clear short limit
    split <;> omega
  simp only [NumberParts.value, Option.isNone_none, Bool.and_self, if_true, Nat.not_lt.2 limit,
    if_false, natOfDigits_digits, decide_eq_true_eq, whole]

/-- A numeral starts with a digit or a minus sign. -/
theorem decimal_eq_cons (n : Int) : ∃ c t, Numeral.decimal n = c :: t ∧
    ∀ w : Char, CodePoint.isDigit w = false → w ≠ '-' → c ≠ .scalar w := by
  obtain ⟨c, t, written, digit, -⟩ := digits_eq_cons n.natAbs
  rw [Numeral.decimal]
  split
  · exact ⟨_, _, rfl, fun w _ other same => other (CodePoint.scalar.inj same).symm⟩
  · refine ⟨c, t, written, fun w letter _ same => ?_⟩
    rw [same, letter] at digit
    exact absurd digit (by decide)

theorem after?_other {w c : CodePoint} (other : w ≠ c) (word t : Text) :
    Text.after? (w :: word) (c :: t) = none := by
  simp [Text.after?, List.isPrefixOf, other]

/-- No word is the start of a number. -/
theorem after?_word_decimal (n : Int) (rest : Text) {word : Text} {v : Json}
    (member : (word, v) ∈ words) : Text.after? word (Numeral.decimal n ++ rest) = none := by
  obtain ⟨c, t, written, digit, -⟩ := digits_eq_cons n.natAbs
  have unlike (w : Char) (letter : CodePoint.isDigit w = false) : CodePoint.scalar w ≠ c := by
    rintro rfl
    exact absurd (letter.symm.trans digit) (by decide)
  simp only [words, List.mem_cons, List.not_mem_nil, or_false, Prod.mk.injEq] at member
  rcases member with ⟨rfl, -⟩ | ⟨rfl, -⟩ | ⟨rfl, -⟩ | ⟨rfl, -⟩ | ⟨rfl, -⟩ | ⟨rfl, -⟩
  all_goals
    rw [Numeral.decimal, written]
    split
    · simp [Text.after?, unlike 'I' rfl]
    · exact after?_other (unlike _ rfl) _ _

theorem scalar_decimal {n : Int} (short : Numeral.isShort n = true) {rest : Text}
    (ends : Ends rest) : scalar (Numeral.decimal n ++ rest) = .ok (.int n, rest) := by
  have word : words.findSome? (fun p => (Text.after? p.1 (Numeral.decimal n ++ rest)).map (p.2, ·))
      = none := by
    rw [List.findSome?_eq_none_iff]
    intro p member
    rw [after?_word_decimal n rest member, Option.map_none]
  unfold scalar
  split
  next found => exact absurd (word.symm.trans found) nofun
  next =>
    rw [numberParts?_decimal n ends]
    simp only [value_whole short, Except.map]

/-! ### Values -/

/-- A value without fractions in which no object has a key twice. -/
inductive Plain : Json → Prop where
  | null : Plain .null
  | bool (b : Bool) : Plain (.bool b)
  | int (n : Int) : Plain (.int n)
  | str (t : Text) : Plain (.str t)
  | arr (items : List Json) (each : ∀ v ∈ items, Plain v) : Plain (.arr items)
  | obj (members : Object) (once : (members.map (·.1)).Nodup) (each : ∀ m ∈ members, Plain m.2) :
    Plain (.obj members)

theorem isWritable_int (n : Int) : isWritable (.int n) = Numeral.isShort n := by
  simp only [isWritable, allScalars]

theorem isWritable_arr (items : List Json) :
    isWritable (.arr items) = items.all isWritable := by
  rw [isWritable, allScalars]
  induction items with
  | nil => rfl
  | cons x xs ih => rw [itemScalars, ih, List.all_cons, isWritable]

theorem isWritable_obj (members : Object) :
    isWritable (.obj members) = members.all (isWritable ·.2) := by
  rw [isWritable, allScalars]
  induction members with
  | nil => rfl
  | cons x xs ih => rw [memberScalars, ih, List.all_cons, isWritable]

/-- A whole number stands somewhere in a value. -/
inductive Holds (n : Int) : Json → Prop where
  | here : Holds n (.int n)
  | item {items : List Json} {v : Json} (member : v ∈ items) (inside : Holds n v) :
    Holds n (.arr items)
  | member {members : Object} {m : Text × Json} (member : m ∈ members) (inside : Holds n m.2) :
    Holds n (.obj members)

theorem Holds.isShort {n : Int} {v : Json} (holds : Holds n v) (writable : v.isWritable = true) :
    Numeral.isShort n = true := by
  induction holds with
  | here => rwa [isWritable_int] at writable
  | item member _ ih =>
    rw [isWritable_arr, List.all_eq_true] at writable
    exact ih (writable _ member)
  | member member _ ih =>
    rw [isWritable_obj, List.all_eq_true] at writable
    exact ih (writable _ member)

theorem Plain.exists_long {v : Json} (plain : Plain v) (unwritable : v.isWritable = false) :
    ∃ n, Holds n v ∧ Numeral.isShort n = false := by
  induction plain with
  | null | bool | str => cases unwritable
  | int n =>
    rw [isWritable_int] at unwritable
    exact ⟨n, .here, unwritable⟩
  | arr items _ ih =>
    rw [isWritable_arr, List.all_eq_false] at unwritable
    obtain ⟨v, member, long⟩ := unwritable
    obtain ⟨n, holds, long⟩ := ih v member (by simpa using long)
    exact ⟨n, .item member holds, long⟩
  | obj members _ _ ih =>
    rw [isWritable_obj, List.all_eq_false] at unwritable
    obtain ⟨m, member, long⟩ := unwritable
    obtain ⟨n, holds, long⟩ := ih m member (by simpa using long)
    exact ⟨n, .member member holds, long⟩

/-- A value cannot be written exactly if it holds a whole number with too many digits. -/
theorem Plain.unwritable_iff {v : Json} (plain : Plain v) :
    v.isWritable = false ↔
      ∃ n, Holds n v ∧ Numeral.maxDigits < (Text.digits 10 n.natAbs).length := by
  constructor
  · intro unwritable
    obtain ⟨n, holds, long⟩ := plain.exists_long unwritable
    refine ⟨n, holds, ?_⟩
    rw [← Nat.not_le, ← isShort_iff, long]
    decide
  · rintro ⟨n, holds, long⟩
    rw [← Nat.not_le, ← isShort_iff] at long
    exact Bool.eq_false_iff.mpr fun writable => long (holds.isShort writable)

theorem skipSpaces_newLine (depth : Nat) (t : Text) :
    skipSpaces (newLine depth ++ t) = skipSpaces t := by
  rw [skipSpaces, skipSpaces, List.dropWhile_append_of_pos]
  intro c member
  rw [newLine, List.mem_cons, List.mem_replicate] at member
  rcases member with rfl | ⟨-, rfl⟩ <;> rfl

/-- How a written value starts. -/
def Begins (t : Text) : Prop :=
  ∃ c u, t = c :: u ∧ isSpace c = false ∧ c ≠ ']' ∧ c ≠ '\x7d' ∧ c ≠ '\uFEFF'

theorem Begins.append {t : Text} (begins : Begins t) (rest : Text) : Begins (t ++ rest) := by
  obtain ⟨c, u, rfl, begins⟩ := begins
  exact ⟨c, u ++ rest, rfl, begins⟩

theorem Begins.skipSpaces {t : Text} (begins : Begins t) : skipSpaces t = t := by
  obtain ⟨c, u, rfl, visible, -⟩ := begins
  exact List.dropWhile_cons_of_neg (by simp [visible])

theorem Begins.length_pos {t : Text} (begins : Begins t) : 0 < t.length := by
  obtain ⟨c, u, rfl, -⟩ := begins
  exact Nat.succ_pos _

theorem begins_decimal (n : Int) : Begins (Numeral.decimal n) := by
  obtain ⟨c, t, written, unlike⟩ := decimal_eq_cons n
  refine ⟨c, t, written, ?_, unlike _ rfl (by decide), unlike _ rfl (by decide),
    unlike _ rfl (by decide)⟩
  simp [isSpace, unlike ' ' rfl (by decide), unlike '\t' rfl (by decide),
    unlike '\n' rfl (by decide), unlike '\r' rfl (by decide)]

theorem Plain.begins {v : Json} (plain : Plain v) (depth : Nat) : Begins (writeAt depth v) := by
  cases plain with
  | bool b => cases b <;> exact ⟨_, _, rfl, by decide⟩
  | int n => exact begins_decimal n
  | null | str | arr | obj => exact ⟨_, _, rfl, by decide⟩

/-- A member of an object as it is written. -/
def memberText (depth : Nat) (k : Text) (v : Json) : Text :=
  writeString k ++ ": " ++ writeAt depth v

theorem begins_memberText (depth : Nat) (k : Text) (v : Json) : Begins (memberText depth k v) :=
  ⟨_, _, rfl, by decide⟩

theorem length_le_memberText (depth : Nat) (k : Text) (v : Json) :
    (writeAt depth v).length ≤ (memberText depth k v).length := by
  rw [memberText, List.length_append]
  exact Nat.le_add_left ..

theorem writeMembers_cons (depth : Nat) (k : Text) (v : Json) (more : Object) :
    writeMembers depth ((k, v) :: more) = memberText depth k v :: writeMembers depth more :=
  rfl

/-- The parts between two brackets behind the first of them. -/
def behind (depth : Nat) (parts : List Text) : Text :=
  parts.flatMap fun part => .scalar ',' :: newLine depth ++ part

theorem behind_cons (depth : Nat) (part : Text) (parts : List Text) (rest : Text) :
    behind depth (part :: parts) ++ rest
      = .scalar ',' :: (newLine depth ++ (part ++ (behind depth parts ++ rest))) := by
  simp [behind]

theorem length_behind_cons (depth : Nat) (part : Text) (parts : List Text) :
    part.length + (behind depth parts).length < (behind depth (part :: parts)).length := by
  simp only [behind, List.flatMap_cons, List.length_append, List.length_cons]
  omega

theorem block_cons (depth : Nat) (part : Text) (parts : List Text) :
    block depth (part :: parts)
      = newLine (depth + 1) ++ (part ++ (behind (depth + 1) parts ++ newLine depth)) := by
  simp [block, Text.join, intercalate_eq_flatMap, behind]

/-- A number ends before a mark between two parts and before the end of a line. -/
theorem ends_cons {c : Char} (mark : CodePoint.isDigit c = false ∧ c ≠ '.' ∧ c ≠ 'e' ∧ c ≠ 'E')
    (rest : Text) : Ends (.scalar c :: rest) := by
  intro d first
  obtain rfl := Option.mem_some.1 first
  simpa using mark

theorem key_memberText (depth : Nat) (k : Text) {v : Json} (plain : Plain v) (rest : Text) :
    key (memberText depth k v ++ rest) = .ok (k, writeAt depth v ++ rest) := by
  have written : memberText depth k v ++ rest = .scalar '"' :: (k.flatMap escapeChar
      ++ .scalar '"' :: .scalar ':' :: .scalar ' ' :: (writeAt depth v ++ rest)) := by
    simp [memberText, writeString]
  have colon (u : Text) : skipSpaces (.scalar ':' :: u) = .scalar ':' :: u := rfl
  have blank (u : Text) : skipSpaces (.scalar ' ' :: u) = skipSpaces u := rfl
  rw [written]
  simp [key, string_escaped, colon, blank, ((plain.begins depth).append rest).skipSpaces, bind,
    Except.bind]

theorem value_decimal {n : Int} (short : Numeral.isShort n = true) {rest : Text}
    (ends : Ends rest) (fuel room : Nat) :
    value (fuel + 1) room (Numeral.decimal n ++ rest) = .ok (.int n, rest) := by
  obtain ⟨c, t, written, unlike⟩ := decimal_eq_cons n
  have quote := unlike '"' rfl (by decide)
  have brace := unlike '\x7b' rfl (by decide)
  have bracket := unlike '[' rfl (by decide)
  rw [← scalar_decimal short ends, written, List.cons_append]
  simp [value, quote, brace, bracket]

theorem value_writeString (t rest : Text) (fuel room : Nat) :
    value (fuel + 1) room (writeString t ++ rest) = .ok (.str t, rest) := by
  have written : writeString t ++ rest
      = .scalar '"' :: (t.flatMap escapeChar ++ .scalar '"' :: rest) := by
    simp [writeString]
  rw [written]
  simp [value, string_escaped, Except.map]

theorem value_bracket (fuel room depth : Nat) {t : Text} (begins : Begins t) :
    value (fuel + 1) (room + 1) (.scalar '[' :: (newLine depth ++ t)) = items fuel room [] t := by
  have skipped := (skipSpaces_newLine depth t).trans begins.skipSpaces
  obtain ⟨c, u, rfl, -, other, -⟩ := begins
  simp [value, skipped, other]

theorem value_brace (fuel room depth : Nat) {t : Text} (begins : Begins t) :
    value (fuel + 1) (room + 1) (.scalar '\x7b' :: (newLine depth ++ t))
      = members fuel room [] t := by
  have skipped := (skipSpaces_newLine depth t).trans begins.skipSpaces
  obtain ⟨c, u, rfl, -, -, other, -⟩ := begins
  simp [value, skipped, other]

section Parts

variable {fuel room : Nat} {t rest w : Text} {v : Json}

theorem items_last (done : List Json) (read : value fuel room t = .ok (v, rest))
    (closed : skipSpaces rest = .scalar ']' :: w) :
    items (fuel + 1) room done t = .ok (.arr (v :: done).reverse, w) := by
  simp [items, read, closed, bind, Except.bind]

theorem items_more (done : List Json) (read : value fuel room t = .ok (v, rest))
    (comma : skipSpaces rest = .scalar ',' :: w) :
    items (fuel + 1) room done t = items fuel room (v :: done) (skipSpaces w) := by
  simp [items, read, comma, bind, Except.bind]

theorem members_last (done : Object) {k u : Text} (name : key t = .ok (k, u))
    (read : value fuel room u = .ok (v, rest)) (closed : skipSpaces rest = .scalar '\x7d' :: w) :
    members (fuel + 1) room done t = .ok (.obj (put k v done), w) := by
  simp [members, name, read, closed, bind, Except.bind]

theorem members_more (done : Object) {k u : Text} (name : key t = .ok (k, u))
    (read : value fuel room u = .ok (v, rest)) (comma : skipSpaces rest = .scalar ',' :: w) :
    members (fuel + 1) room done t = members fuel room (put k v done) (skipSpaces w) := by
  simp [members, name, read, comma, bind, Except.bind]

end Parts

/-- A key that comes for the first time goes behind the others. -/
theorem put_once {k : Text} {v : Json} {done more : Object}
    (once : ((done ++ (k, v) :: more).map (·.1)).Nodup) : put k v done = done ++ [(k, v)] := by
  rw [List.map_append, List.nodup_append] at once
  have absent : done.any (·.1 = k) = false := by
    rw [List.any_eq_false]
    intro m member same
    exact once.2.2 m.1 (List.mem_map_of_mem member) k List.mem_cons_self (of_decide_eq_true same)
  rw [put, absent]
  rfl

/-- A value can be read behind any start of a text that leaves room for it. Each value takes a unit
of fuel and each place of a list another, and a text has more characters than both together. -/
structure Reads (room : Nat) (v : Json) : Prop where
  plain : Plain v
  read : ∀ (depth fuel : Nat) (rest : Text), Ends rest →
    2 * (writeAt depth v).length ≤ fuel + 1 →
    value (fuel + 1) room (writeAt depth v ++ rest) = .ok (v, rest)

theorem items_written (depth room : Nat) (rest : Text) (x : Json) (xs : List Json)
    (each : ∀ v ∈ x :: xs, Reads room v) (done : List Json) (fuel : Nat)
    (enough : 2 * ((writeAt (depth + 1) x).length
      + (behind (depth + 1) (writeItems (depth + 1) xs)).length) ≤ fuel + 1) :
    items (fuel + 2) room done (writeAt (depth + 1) x
        ++ (behind (depth + 1) (writeItems (depth + 1) xs)
          ++ (newLine depth ++ .scalar ']' :: rest)))
      = .ok (.arr (done.reverse ++ x :: xs), rest) := by
  induction xs generalizing x done fuel with
  | nil =>
    have read := (each x List.mem_cons_self).read (depth + 1) fuel
      (newLine depth ++ .scalar ']' :: rest) (ends_cons (by decide) _) (by omega)
    rw [writeItems, behind, List.flatMap_nil, List.nil_append,
      items_last done read (skipSpaces_newLine depth _), List.reverse_cons]
  | cons y ys ih =>
    have others := (List.forall_mem_cons.1 each).2
    have begins := (others y List.mem_cons_self).plain.begins (depth + 1)
    have longer := length_behind_cons (depth + 1) (writeAt (depth + 1) y)
      (writeItems (depth + 1) ys)
    rw [writeItems] at enough
    obtain ⟨fuel, rfl⟩ : ∃ more, fuel = more + 1 := ⟨fuel - 1, by omega⟩
    have read := (each x List.mem_cons_self).read (depth + 1) (fuel + 1)
    rw [writeItems, behind_cons, items_more done (read _ (ends_cons (by decide) _) (by omega)) rfl,
      skipSpaces_newLine, (begins.append _).skipSpaces, ih y others (x :: done) fuel (by omega),
      List.reverse_cons, List.append_assoc]
    rfl

theorem members_written (depth room : Nat) (rest : Text) (k : Text) (v : Json) (xs : Object)
    (each : ∀ m ∈ (k, v) :: xs, Reads room m.2) (done : Object)
    (once : ((done ++ (k, v) :: xs).map (·.1)).Nodup) (fuel : Nat)
    (enough : 2 * ((memberText (depth + 1) k v).length
      + (behind (depth + 1) (writeMembers (depth + 1) xs)).length) ≤ fuel + 1) :
    members (fuel + 2) room done (memberText (depth + 1) k v
        ++ (behind (depth + 1) (writeMembers (depth + 1) xs)
          ++ (newLine depth ++ .scalar '\x7d' :: rest)))
      = .ok (.obj (done ++ (k, v) :: xs), rest) := by
  induction xs generalizing k v done fuel with
  | nil =>
    have reads : Reads room v := each (k, v) List.mem_cons_self
    have shorter := length_le_memberText (depth + 1) k v
    rw [writeMembers, behind, List.flatMap_nil, List.nil_append,
      members_last done (key_memberText (depth + 1) k reads.plain _)
        (reads.read (depth + 1) fuel (newLine depth ++ _) (ends_cons (by decide) _) (by omega))
        (skipSpaces_newLine depth _),
      put_once once]
  | cons y ys ih =>
    obtain ⟨l, w⟩ := y
    have reads : Reads room v := each (k, v) List.mem_cons_self
    have shorter := length_le_memberText (depth + 1) k v
    have longer := length_behind_cons (depth + 1) (memberText (depth + 1) l w)
      (writeMembers (depth + 1) ys)
    rw [writeMembers_cons] at enough
    obtain ⟨fuel, rfl⟩ : ∃ more, fuel = more + 1 := ⟨fuel - 1, by omega⟩
    have moved : done ++ (k, v) :: (l, w) :: ys = done ++ [(k, v)] ++ (l, w) :: ys := by simp
    rw [writeMembers_cons, behind_cons,
      members_more done (key_memberText (depth + 1) k reads.plain _)
        (reads.read (depth + 1) (fuel + 1) _ (ends_cons (by decide) _) (by omega)) rfl,
      put_once once, skipSpaces_newLine, ((begins_memberText (depth + 1) l w).append _).skipSpaces,
      moved]
    rw [moved] at once
    exact ih l w (List.forall_mem_cons.1 each).2 _ once fuel (by omega)

theorem depth_le_depthOfItems {v : Json} {items : List Json} (member : v ∈ items) :
    v.depth ≤ depthOfItems items := by
  induction items with
  | nil => cases member
  | cons x xs ih =>
    rw [depthOfItems]
    rcases List.mem_cons.1 member with rfl | further
    · exact Nat.le_max_left ..
    · exact (ih further).trans (Nat.le_max_right ..)

theorem depth_le_depthOfMembers {m : Text × Json} {members : Object} (member : m ∈ members) :
    m.2.depth ≤ depthOfMembers members := by
  induction members with
  | nil => cases member
  | cons x xs ih =>
    rw [depthOfMembers]
    rcases List.mem_cons.1 member with rfl | further
    · exact Nat.le_max_left ..
    · exact (ih further).trans (Nat.le_max_right ..)

theorem reads_arr {room : Nat} {items : List Json} (each : ∀ v ∈ items, Reads room v) :
    Reads (room + 1) (.arr items) := by
  refine ⟨.arr items fun v member => (each v member).plain, fun depth fuel rest _ enough => ?_⟩
  cases items with
  | nil => rfl
  | cons x xs =>
    have begins := (each x List.mem_cons_self).plain.begins (depth + 1)
    have written : writeAt depth (.arr (x :: xs)) = .scalar '[' :: (newLine (depth + 1)
        ++ (writeAt (depth + 1) x ++ (behind (depth + 1) (writeItems (depth + 1) xs)
          ++ (newLine depth ++ [.scalar ']'])))) := by
      simp [writeAt, writeItems, block_cons]
    rw [written] at enough ⊢
    simp only [List.length_cons, List.length_append, List.length_nil] at enough
    have some_char := begins.length_pos
    obtain ⟨fuel, rfl⟩ : ∃ more, fuel = more + 2 := ⟨fuel - 2, by omega⟩
    have read := items_written depth room rest x xs each [] fuel (by omega)
    simp only [List.cons_append, List.append_assoc, List.nil_append]
    rw [value_bracket _ _ _ (begins.append _), read]
    rfl

theorem reads_obj {room : Nat} {members : Object} (once : (members.map (·.1)).Nodup)
    (each : ∀ m ∈ members, Reads room m.2) : Reads (room + 1) (.obj members) := by
  refine ⟨.obj members once fun m member => (each m member).plain,
    fun depth fuel rest _ enough => ?_⟩
  cases members with
  | nil => rfl
  | cons x xs =>
    obtain ⟨k, v⟩ := x
    have begins := begins_memberText (depth + 1) k v
    have written : writeAt depth (.obj ((k, v) :: xs)) = .scalar '\x7b' :: (newLine (depth + 1)
        ++ (memberText (depth + 1) k v ++ (behind (depth + 1) (writeMembers (depth + 1) xs)
          ++ (newLine depth ++ [.scalar '\x7d'])))) := by
      simp [writeAt, writeMembers_cons, block_cons]
    rw [written] at enough ⊢
    simp only [List.length_cons, List.length_append, List.length_nil] at enough
    have some_char := begins.length_pos
    obtain ⟨fuel, rfl⟩ : ∃ more, fuel = more + 2 := ⟨fuel - 2, by omega⟩
    have read := members_written depth room rest k v xs each [] once fuel (by omega)
    simp only [List.cons_append, List.append_assoc, List.nil_append]
    rw [value_brace _ _ _ (begins.append _), read]
    rfl

theorem Plain.reads {v : Json} (plain : Plain v) (writable : v.isWritable = true) (room : Nat)
    (shallow : v.depth ≤ room) : Reads room v := by
  induction plain generalizing room with
  | null => exact ⟨.null, fun _ _ _ _ _ => rfl⟩
  | bool b => cases b <;> exact ⟨.bool _, fun _ _ _ _ _ => rfl⟩
  | int n =>
    rw [isWritable_int] at writable
    exact ⟨.int n, fun _ fuel rest ends _ => value_decimal writable ends fuel room⟩
  | str t => exact ⟨.str t, fun _ fuel rest _ _ => value_writeString t rest fuel room⟩
  | arr items each ih =>
    rw [isWritable_arr, List.all_eq_true] at writable
    rw [Json.depth] at shallow
    obtain ⟨room, rfl⟩ : ∃ more, room = more + 1 := ⟨room - 1, by omega⟩
    refine reads_arr fun v member => ih v member (writable v member) room ?_
    exact (depth_le_depthOfItems member).trans (by omega)
  | obj members once each ih =>
    rw [isWritable_obj, List.all_eq_true] at writable
    rw [Json.depth] at shallow
    obtain ⟨room, rfl⟩ : ∃ more, room = more + 1 := ⟨room - 1, by omega⟩
    refine reads_obj once fun m member => ih m member (writable m member) room ?_
    exact (depth_le_depthOfMembers member).trans (by omega)

/-- A text that is written for a value can be read, and gives the value again. -/
theorem Plain.read_writeAt {v : Json} (plain : Plain v) (writable : v.isWritable = true)
    (shallow : v.depth ≤ maxRoom) : read (writeAt 0 v) = .ok v := by
  have begins := plain.begins 0
  have value := (plain.reads writable maxRoom shallow).read 0 (2 * (writeAt 0 v).length + 1) []
    nofun (by omega)
  rw [List.append_nil] at value
  have unmarked : (writeAt 0 v).head? ≠ some (.scalar '\uFEFF') := by
    obtain ⟨c, u, written, -, -, -, other⟩ := begins
    simpa [written] using other
  have whole : document (writeAt 0 v) = .ok v := by
    rw [document, if_neg unmarked, begins.skipSpaces, value]
    rfl
  rw [read, whole]
  rfl

end LabelAtlas.Json
