import LabelAtlas.Proofs.Depth
import LabelAtlas.Proofs.JsonText

/-! The tokens of JSON texts, told without the reader. A token stands at the start of a text, and
the rest of the text stands behind it. The reader takes what stands there as far as it goes. -/
namespace LabelAtlas

theorem bind_error {ε α β : Type} {x : Except ε α} {next : α → Except ε β} {e : ε}
    (failed : (x >>= next) = .error e) : x = .error e ∨ ∃ a, x = .ok a ∧ next a = .error e := by
  cases x with
  | error e =>
    cases failed
    exact .inl rfl
  | ok a => exact .inr ⟨a, rfl, failed⟩

theorem map_error {ε α β : Type} {x : Except ε α} {f : α → β} {e : ε}
    (failed : x.map f = .error e) : x = .error e := by
  cases x with
  | error e =>
    cases failed
    rfl
  | ok a => cases failed

namespace Json

/-- A text starts with spaces, behind which the rest stands. -/
def Spaces (t rest : Text) : Prop :=
  ∃ s, (∀ c ∈ s, isSpace c = true) ∧ t = s ++ rest

def hexDigits : Text := "0123456789abcdefABCDEF"

/-- A string from behind its opening quote to behind its closing quote. -/
inductive Chars : Text → Text → Prop where
  | close (rest : Text) : Chars (.scalar '"' :: rest) rest
  | plain {c : CodePoint} {t rest : Text} (visible : 0x20 ≤ c.toNat) (noQuote : c ≠ '"')
    (noSlash : c ≠ '\\') (more : Chars t rest) : Chars (c :: t) rest
  | escape {c : CodePoint} {t rest : Text} (named : c ∈ ("\"\\/bfnrt" : Text))
    (more : Chars t rest) : Chars (.scalar '\\' :: c :: t) rest
  | unicode {digits t rest : Text} (four : digits.length = 4)
    (hex : ∀ d ∈ digits, d ∈ hexDigits) (more : Chars t rest) :
    Chars (.scalar '\\' :: .scalar 'u' :: (digits ++ t)) rest

def valueWords : List Text := ["null", "true", "false", "NaN", "Infinity", "-Infinity"]

def IsDigits (t : Text) : Prop :=
  t ≠ [] ∧ ∀ c ∈ t, c.isDigit = true

/-- A zero in front stands alone. -/
def IsWhole (t : Text) : Prop :=
  t = "0" ∨ IsDigits t ∧ t.head? ≠ some (.scalar '0')

def IsFraction (t : Text) : Prop :=
  ∃ digits, IsDigits digits ∧ t = .scalar '.' :: digits

def IsExponent (t : Text) : Prop :=
  ∃ mark sign digits, mark ∈ ("eE" : Text) ∧ sign ∈ ([[], "+", "-"] : List Text) ∧
    IsDigits digits ∧ t = mark :: (sign ++ digits)

/-- The parts of a number, of which all but the whole digits may be missing. -/
structure IsNumber (sign whole fraction exponent : Text) : Prop where
  sign : sign = [] ∨ sign = "-"
  whole : IsWhole whole
  fraction : fraction = [] ∨ IsFraction fraction
  exponent : exponent = [] ∨ IsExponent exponent

/-- The key of a member, the colon and the spaces around it. -/
def Key (t rest : Text) : Prop :=
  ∃ u v w, t = .scalar '"' :: u ∧ Chars u v ∧ Spaces v (.scalar ':' :: w) ∧ Spaces w rest

/-- What a whole number can go on with. -/
def Continues (t : Text) : Prop :=
  IsDigits t ∨ IsFraction t ∨ IsExponent t

/-- A whole number in front of a text does not go on in it. -/
def WholeEnds (t : Text) : Prop :=
  ∀ a b, t = a ++ b → ¬Continues a

/-- A whole number with too many digits stands at the start of a text. -/
def IsLong (digits : Nat) (t : Text) : Prop :=
  ∃ sign whole rest, IsNumber sign whole [] [] ∧ t = sign ++ (whole ++ rest) ∧
    WholeEnds rest ∧ whole.length = digits ∧ Numeral.maxDigits < digits

/-! ### Spaces and strings -/

theorem spaces_skipSpaces (t : Text) : Spaces t (skipSpaces t) :=
  ⟨t.takeWhile isSpace, fun _ => List.mem_takeWhile_imp, List.takeWhile_append_dropWhile.symm⟩

theorem spaces_of_skipSpaces {t rest : Text} (skipped : skipSpaces t = rest) : Spaces t rest :=
  skipped ▸ spaces_skipSpaces t

theorem Spaces.length_le {t rest : Text} (spaces : Spaces t rest) : rest.length ≤ t.length := by
  obtain ⟨s, -, rfl⟩ := spaces
  simp

/-- A run of such characters in front of a text does not go on in it. -/
def Stops (such : CodePoint → Bool) (t : Text) : Prop :=
  ∀ c ∈ t.head?, such c = false

theorem stops_nil (such : CodePoint → Bool) : Stops such [] := by
  intro c first
  cases first

theorem stops_cons {such : CodePoint → Bool} {c : CodePoint} (other : such c = false) (t : Text) :
    Stops such (c :: t) := by
  intro d first
  obtain rfl := Option.mem_some.mp first
  exact other

theorem Stops.dropWhile_eq {such : CodePoint → Bool} {t : Text} (stops : Stops such t) :
    t.dropWhile such = t := by
  cases t with
  | nil => rfl
  | cons c t => exact List.dropWhile_cons_of_neg (by simp [stops c rfl])

theorem Stops.takeWhile_eq {such : CodePoint → Bool} {t : Text} (stops : Stops such t) :
    t.takeWhile such = [] := by
  cases t with
  | nil => rfl
  | cons c t => exact List.takeWhile_cons_of_neg (by simp [stops c rfl])

theorem Spaces.skip {t rest : Text} (spaces : Spaces t rest) (visible : Stops isSpace rest) :
    skipSpaces t = rest := by
  obtain ⟨s, all_spaces, rfl⟩ := spaces
  rw [skipSpaces, List.dropWhile_append_of_pos all_spaces, visible.dropWhile_eq]

theorem hexDigit?_of_mem : ∀ d ∈ hexDigits, (hexDigit? d).isSome = true := by
  decide

theorem mem_of_hexDigit? {d : CodePoint} {n : Nat} (read : hexDigit? d = some n) :
    d ∈ hexDigits := by
  have range : d.isDigit = true ∨ 97 ≤ d.toNat ∧ d.toNat ≤ 102 ∨ 65 ≤ d.toNat ∧ d.toNat ≤ 70 := by
    unfold hexDigit? Numeral.letterValue? at read
    split at read
    · exact .inl ‹_›
    · split at read
      · exact .inr (.inl ‹_›)
      · split at read
        · exact .inr (.inr ‹_›)
        · cases read
  cases d with
  | surrogate m =>
    simp only [CodePoint.isDigit, CodePoint.passes, CodePoint.toNat, CodePoint.firstSurrogate,
      Bool.false_eq_true, false_or] at range
    omega
  | scalar c =>
    simp only [CodePoint.isDigit, CodePoint.passes, CodePoint.toNat, Char.isDigit_iff_toNat]
      at range
    change 48 ≤ c.toNat ∧ c.toNat ≤ 57 ∨ _ at range
    rw [← Char.ofNat_toNat c]
    generalize c.toNat = m at range
    rcases range with ⟨low, high⟩ | ⟨low, high⟩ | ⟨low, high⟩ <;> interval_cases m <;> decide

theorem hex4?_eq_some {t : Text} {n : Nat} (read : hex4? t = some n) :
    ∃ digits rest, digits.length = 4 ∧ (∀ d ∈ digits, d ∈ hexDigits) ∧
      t = digits ++ rest := by
  unfold hex4? at read
  split at read
  next a b c d rest =>
    simp only [Option.bind_eq_bind, Option.bind_eq_some_iff] at read
    obtain ⟨_, first, _, second, _, third, _, fourth, -⟩ := read
    refine ⟨[a, b, c, d], rest, rfl, ?_, rfl⟩
    simpa using ⟨mem_of_hexDigit? first, mem_of_hexDigit? second, mem_of_hexDigit? third,
      mem_of_hexDigit? fourth⟩
  · cases read

theorem hex4?_digits {digits : Text} (four : digits.length = 4)
    (hex : ∀ d ∈ digits, d ∈ hexDigits) (rest : Text) :
    ∃ n, hex4? (digits ++ rest) = some n := by
  obtain ⟨a, b, c, d, rfl⟩ := List.length_eq_four.mp four
  simp only [List.forall_mem_cons] at hex
  obtain ⟨i, first⟩ := Option.isSome_iff_exists.mp (hexDigit?_of_mem a hex.1)
  obtain ⟨j, second⟩ := Option.isSome_iff_exists.mp (hexDigit?_of_mem b hex.2.1)
  obtain ⟨k, third⟩ := Option.isSome_iff_exists.mp (hexDigit?_of_mem c hex.2.2.1)
  obtain ⟨l, fourth⟩ := Option.isSome_iff_exists.mp (hexDigit?_of_mem d hex.2.2.2.1)
  refine ⟨((i * 16 + j) * 16 + k) * 16 + l, ?_⟩
  simp [hex4?, first, second, third, fourth]

theorem Chars.length_lt {t rest : Text} (chars : Chars t rest) : rest.length < t.length := by
  induction chars with
  | close rest => simp
  | plain | escape | unicode =>
    simp only [List.length_cons, List.length_append]
    omega

theorem Chars.ne_nil {t rest : Text} (chars : Chars t rest) : t ≠ [] :=
  List.length_pos_iff.mp (Nat.zero_lt_of_lt chars.length_lt)

theorem chars_of_unicodeEscape {t u rest : Text} {c : CodePoint}
    (read : unicodeEscape t = .ok (c, u)) (more : Chars u rest) :
    Chars (.scalar '\\' :: .scalar 'u' :: t) rest := by
  unfold unicodeEscape at read
  split at read
  · cases read
  next n hex =>
    obtain ⟨digits, after, four, hexadecimal, rfl⟩ := hex4?_eq_some hex
    refine .unicode four hexadecimal ?_
    simp only [List.drop_left' four] at read
    split at read
    · cases read
    · split at read
      next v _ =>
        split at read
        · split at read
          · cases read
          next low pair =>
            split at read
            · obtain ⟨digits, after, four, hexadecimal, rfl⟩ := hex4?_eq_some pair
              obtain rfl := (Prod.mk.inj (Except.ok.inj read)).2
              rw [List.drop_left' four] at more
              exact .unicode four hexadecimal more
            · obtain rfl := (Prod.mk.inj (Except.ok.inj read)).2
              exact more
        · obtain rfl := (Prod.mk.inj (Except.ok.inj read)).2
          exact more
      · obtain rfl := (Prod.mk.inj (Except.ok.inj read)).2
        exact more

/-- Four digits are read alone or together with four more. -/
theorem unicodeEscape_of_chars {digits t rest : Text} (four : digits.length = 4)
    (hexadecimal : ∀ d ∈ digits, d ∈ hexDigits) (more : Chars t rest) :
    ∃ c u, unicodeEscape (digits ++ t) = .ok (c, u) ∧ Chars u rest ∧ u.length ≤ t.length := by
  obtain ⟨n, hex⟩ := hex4?_digits four hexadecimal t
  simp only [unicodeEscape, hex, List.drop_left' four, List.isEmpty_iff, more.ne_nil, if_false]
  split
  next v =>
    -- A second escape is looked at, if the first one is half of a pair.
    split
    · cases more with
      | plain _ _ noSlash => exact absurd rfl noSlash
      | escape named => exact absurd named (by decide)
      | @unicode digits t _ four hexadecimal more =>
        obtain ⟨low, pair⟩ := hex4?_digits four hexadecimal t
        simp only [pair, List.drop_left' four]
        split
        · refine ⟨_, _, rfl, more, ?_⟩
          simp only [List.length_cons, List.length_append]
          omega
        · exact ⟨_, _, rfl, .unicode four hexadecimal more, Nat.le_refl _⟩
    · exact ⟨_, _, rfl, more, Nat.le_refl _⟩
  · exact ⟨_, _, rfl, more, Nat.le_refl _⟩

theorem simpleEscape?_of_mem : ∀ c ∈ ("\"\\/bfnrt" : Text), (simpleEscape? c).isSome = true := by
  decide

theorem mem_of_simpleEscape? {c : CodePoint} {d : Char} (read : simpleEscape? c = some d) :
    c ∈ ("\"\\/bfnrt" : Text) := by
  unfold simpleEscape? at read
  split at read
  case h_9 => cases read
  all_goals decide

theorem chars_of_stringFrom {start fuel : Nat} {done t s rest : Text}
    (read : stringFrom start fuel done t = .ok (s, rest)) : Chars t rest := by
  fun_induction stringFrom start fuel done t with
  | case1 | case2 | case4 | case7 | case8 => cases read
  | case3 fuel done t =>
    obtain rfl := (Prod.mk.inj (Except.ok.inj read)).2
    exact .close _
  | case5 fuel done u _ ih =>
    obtain ⟨⟨d, v⟩, code, more⟩ := bind_ok read
    exact chars_of_unicodeEscape code (ih d v more)
  | case6 fuel done e u _ d named _ ih => exact .escape (mem_of_simpleEscape? named) (ih read)
  | case9 fuel done c t noQuote noSlash visible ih =>
    exact .plain (Nat.not_lt.mp visible) noQuote noSlash (ih read)

theorem stringFrom_of_chars {t rest : Text} (chars : Chars t rest) (start fuel : Nat) (done : Text)
    (enough : t.length ≤ fuel) : ∃ s, stringFrom start fuel done t = .ok (s, rest) := by
  -- The reader may take two escapes at once, so the induction follows it and not the string.
  fun_induction stringFrom start fuel done t with
  | case1 => exact absurd chars.length_lt (by omega)
  | case2 => exact absurd rfl chars.ne_nil
  | case3 fuel done t =>
    cases chars with
    | close => exact ⟨_, rfl⟩
    | plain _ noQuote => exact absurd rfl noQuote
  | case4 =>
    cases chars with
    | plain _ _ noSlash => exact absurd rfl noSlash
  | case5 fuel done u _ ih =>
    cases chars with
    | plain _ _ noSlash => exact absurd rfl noSlash
    | escape named => exact absurd named (by decide)
    | unicode four hexadecimal more =>
      obtain ⟨c, v, code, more, shorter⟩ := unicodeEscape_of_chars four hexadecimal more
      rw [code]
      simp only [List.length_cons, List.length_append] at enough
      exact ih c v more (by omega)
  | case6 fuel done e u other d named _ ih =>
    cases chars with
    | plain _ _ noSlash => exact absurd rfl noSlash
    | escape _ more => exact ih more (by simp only [List.length_cons] at enough; omega)
    | unicode => exact absurd rfl other
  | case7 fuel done e u other unnamed =>
    cases chars with
    | plain _ _ noSlash => exact absurd rfl noSlash
    | escape named =>
      have known := simpleEscape?_of_mem e named
      rw [unnamed] at known
      cases known
    | unicode => exact absurd rfl other
  | case8 fuel done c t noQuote noSlash control =>
    cases chars with
    | close => exact absurd rfl noQuote
    | plain visible => omega
    | escape | unicode => exact absurd rfl noSlash
  | case9 fuel done c t noQuote noSlash visible ih =>
    cases chars with
    | close => exact absurd rfl noQuote
    | plain _ _ _ more => exact ih more (by simp only [List.length_cons] at enough; omega)
    | escape | unicode => exact absurd rfl noSlash

theorem string_of_chars {t rest : Text} (chars : Chars t rest) :
    ∃ s, string t = .ok (s, rest) :=
  stringFrom_of_chars chars _ _ [] (Nat.le_succ _)

/-- A place in a text is complained about, and no limit is met. -/
def Stop.Complains (stop : Stop) : Prop :=
  ∃ complaint left, stop = .at complaint left

theorem unicodeEscape_complains {t : Text} {stop : Stop} (failed : unicodeEscape t = .error stop) :
    stop.Complains := by
  unfold unicodeEscape at failed
  split at failed
  · cases failed
    exact ⟨_, _, rfl⟩
  · dsimp only at failed
    split at failed
    · cases failed
      exact ⟨_, _, rfl⟩
    · split at failed
      · split at failed
        · split at failed
          · cases failed
            exact ⟨_, _, rfl⟩
          · split at failed <;> cases failed
        · cases failed
      · cases failed

theorem stringFrom_complains {start fuel : Nat} {done t : Text} {stop : Stop}
    (failed : stringFrom start fuel done t = .error stop) : stop.Complains := by
  fun_induction stringFrom start fuel done t with
  | case1 | case2 | case4 | case7 | case8 =>
    cases failed
    exact ⟨_, _, rfl⟩
  | case3 => cases failed
  | case5 fuel done u _ ih =>
    obtain unread | ⟨code, -, more⟩ := bind_error failed
    · exact unicodeEscape_complains unread
    · exact ih code.1 code.2 more
  | case6 fuel done e u _ d _ _ ih => exact ih failed
  | case9 fuel done c t _ _ _ ih => exact ih failed

theorem key_ok {t name rest : Text} (read : key t = .ok (name, rest)) : Key t rest := by
  unfold key at read
  split at read
  next u =>
    obtain ⟨⟨s, v⟩, chars, colon⟩ := bind_ok read
    have spaces := spaces_skipSpaces v
    dsimp only at colon
    split at colon
    next w same =>
      obtain ⟨rfl, rfl⟩ := Prod.mk.inj (Except.ok.inj colon)
      rw [same] at spaces
      exact ⟨u, v, w, rfl, chars_of_stringFrom chars, spaces, spaces_skipSpaces w⟩
    · cases colon
  · cases read

theorem key_complains {t : Text} {stop : Stop} (failed : key t = .error stop) :
    stop.Complains := by
  unfold key at failed
  split at failed
  · obtain unread | ⟨p, -, colon⟩ := bind_error failed
    · exact stringFrom_complains unread
    · dsimp only at colon
      split at colon
      · cases colon
      · cases colon
        exact ⟨_, _, rfl⟩
  · cases failed
    exact ⟨_, _, rfl⟩

theorem key_of_phrase {t rest : Text} (phrase : Key t rest) (visible : Stops isSpace rest) :
    ∃ name, key t = .ok (name, rest) := by
  obtain ⟨u, v, w, rfl, chars, colon, spaces⟩ := phrase
  obtain ⟨name, read⟩ := string_of_chars chars
  have found := colon.skip (stops_cons rfl w)
  refine ⟨name, ?_⟩
  rw [← spaces.skip visible]
  simp [key, read, found, bind, Except.bind]

/-! ### Numbers and words -/

abbrev NoDigit (t : Text) : Prop :=
  Stops CodePoint.isDigit t

theorem ne_of_isDigit {c : CodePoint} (digit : c.isDigit = true) {w : Char}
    (other : CodePoint.isDigit w = false) : c ≠ .scalar w := by
  rintro rfl
  exact Bool.false_ne_true (other.symm.trans digit)

theorem digitsOf_append {digits rest : Text} (all_digits : ∀ c ∈ digits, c.isDigit = true)
    (ends : NoDigit rest) : digitsOf (digits ++ rest) = (digits, rest) := by
  rw [digitsOf, List.takeWhile_append_of_pos all_digits, List.dropWhile_append_of_pos all_digits,
    ends.takeWhile_eq, ends.dropWhile_eq, List.append_nil]

theorem digitsOf_spec (t : Text) : t = (digitsOf t).1 ++ (digitsOf t).2 ∧
    (∀ c ∈ (digitsOf t).1, c.isDigit = true) ∧ NoDigit (digitsOf t).2 := by
  refine ⟨List.takeWhile_append_dropWhile.symm, fun _ => List.mem_takeWhile_imp, ?_⟩
  intro c first
  have stopped := List.head?_dropWhile_not CodePoint.isDigit t
  rw [digitsOf, Option.mem_def] at first
  rwa [first] at stopped

/-- A run of digits in front is found. -/
theorem digitsOf_ne_nil {digits : Text} (some_digits : IsDigits digits) (rest : Text) :
    (digitsOf (digits ++ rest)).1 ≠ [] := by
  obtain ⟨c, digits, rfl⟩ := List.exists_cons_of_ne_nil some_digits.1
  simp [digitsOf, some_digits.2 c List.mem_cons_self]

theorem wholeDigits?_append {whole rest : Text} (digits : IsWhole whole) (ends : NoDigit rest) :
    wholeDigits? (whole ++ rest) = some (whole, rest) := by
  obtain rfl | ⟨⟨some_digit, all_digits⟩, noZero⟩ := digits
  · rfl
  · have found := digitsOf_append all_digits ends
    obtain ⟨c, whole, rfl⟩ := List.exists_cons_of_ne_nil some_digit
    unfold wholeDigits?
    split
    next u same => exact absurd (congrArg some (List.cons.inj same).1) noZero
    next => rw [found]; rfl

theorem wholeDigits?_eq_some {t whole rest : Text} (read : wholeDigits? t = some (whole, rest)) :
    t = whole ++ rest ∧ IsWhole whole ∧ (1 < whole.length → NoDigit rest) := by
  unfold wholeDigits? at read
  split at read
  next u =>
    obtain ⟨rfl, rfl⟩ := Prod.mk.inj (Option.some.inj read)
    exact ⟨rfl, .inl rfl, fun long => absurd long (by decide)⟩
  next noZero =>
    split at read
    · cases read
    next some_digit =>
      obtain ⟨split, all_digits, ends⟩ := digitsOf_spec t
      rw [Option.some.inj read] at split all_digits ends some_digit
      rw [List.isEmpty_iff] at some_digit
      refine ⟨split, .inr ⟨⟨some_digit, all_digits⟩, fun zero => ?_⟩, fun _ => ends⟩
      obtain ⟨more, rfl⟩ := List.head?_eq_some_iff.mp zero
      exact noZero _ split

/-- An optional part of a number is taken from the front of a text, if it stands there. -/
structure Takes {α : Type} (IsPart : Text → Prop) (t : Text) (read : Option α × Text)
    (part : Text) : Prop where
  fits : part = [] ∨ IsPart part
  split : t = part ++ read.2
  missing : read.1 = none ↔ part = []
  absent : part = [] → ∀ a b, t = a ++ b → ¬IsPart a

theorem Takes.nothing {α : Type} {IsPart : Text → Prop} {t part : Text} {read : Option α × Text}
    (takes : Takes IsPart t read part) (absent : ∀ a b, t = a ++ b → ¬IsPart a) :
    read = (none, t) := by
  obtain rfl : part = [] := takes.fits.resolve_right (absent part read.2 takes.split)
  exact Prod.ext (takes.missing.mpr rfl) takes.split.symm

theorem takes_nothing {α : Type} {IsPart : Text → Prop} {t : Text} {read : Option α × Text}
    (left : read = (none, t)) (absent : ∀ a b, t = a ++ b → ¬IsPart a) :
    Takes IsPart t read [] := by
  subst left
  exact ⟨.inl rfl, rfl, iff_of_true rfl rfl, fun _ => absent⟩

theorem fractionDigits_takes (t : Text) : ∃ part, Takes IsFraction t (fractionDigits t) part := by
  unfold fractionDigits
  split
  next u =>
    obtain ⟨split, all_digits, -⟩ := digitsOf_spec u
    split
    next no_digit =>
      refine ⟨[], takes_nothing rfl ?_⟩
      rintro a b same ⟨digits, some_digits, rfl⟩
      rw [(List.cons.inj same).2] at no_digit
      exact digitsOf_ne_nil some_digits b (List.isEmpty_iff.mp no_digit)
    next some_digit =>
      rw [List.isEmpty_iff] at some_digit
      exact ⟨_, .inr ⟨_, ⟨some_digit, all_digits⟩, rfl⟩, congrArg (.scalar '.' :: ·) split,
        by simp, fun none => by cases none⟩
  next noPoint =>
    refine ⟨[], takes_nothing rfl ?_⟩
    rintro a b rfl ⟨digits, some_digits, rfl⟩
    exact noPoint _ rfl

theorem fractionDigits_append {fraction rest : Text} (digits : IsFraction fraction)
    (ends : NoDigit rest) : ∃ f, fractionDigits (fraction ++ rest) = (some f, rest) := by
  obtain ⟨digits, ⟨some_digit, all_digits⟩, rfl⟩ := digits
  refine ⟨digits, ?_⟩
  simp [fractionDigits, digitsOf_append all_digits ends, some_digit]

theorem exponentSign_append {sign digits : Text} (signed : sign ∈ ([[], "+", "-"] : List Text))
    (some_digits : IsDigits digits) (rest : Text) :
    (exponentSign (sign ++ (digits ++ rest))).2 = digits ++ rest := by
  obtain ⟨c, digits, rfl⟩ := List.exists_cons_of_ne_nil some_digits.1
  have digit := some_digits.2 c List.mem_cons_self
  simp only [List.mem_cons, List.not_mem_nil, or_false] at signed
  rcases signed with rfl | rfl | rfl
  · unfold exponentSign
    split
    next same => exact absurd (List.cons.inj same).1 (ne_of_isDigit digit rfl)
    next same => exact absurd (List.cons.inj same).1 (ne_of_isDigit digit rfl)
    next => rfl
  · rfl
  · rfl

theorem exponentSign_spec (t : Text) :
    ∃ sign ∈ ([[], "+", "-"] : List Text), t = sign ++ (exponentSign t).2 := by
  unfold exponentSign
  split
  · exact ⟨"-", by simp, rfl⟩
  · exact ⟨"+", by simp, rfl⟩
  · exact ⟨[], by simp, rfl⟩

theorem exponentDigits_append {exponent rest : Text} (digits : IsExponent exponent)
    (ends : NoDigit rest) : ∃ n, exponentDigits (exponent ++ rest) = (some n, rest) := by
  obtain ⟨mark, sign, digits, marked, signed, some_digits, rfl⟩ := digits
  have letter : (mark = 'e' || mark = 'E') = true := by simpa using marked
  have behind := exponentSign_append signed some_digits rest
  have found := digitsOf_append some_digits.2 ends
  simp only [List.cons_append, List.append_assoc, exponentDigits, letter, if_true]
  rw [behind, found]
  simp [some_digits.1]

theorem exponentDigits_takes (t : Text) : ∃ part, Takes IsExponent t (exponentDigits t) part := by
  cases t with
  | nil =>
    refine ⟨[], takes_nothing rfl ?_⟩
    rintro a b same ⟨mark, sign, digits, -, -, -, rfl⟩
    cases same
  | cons c u =>
    by_cases letter : (c = 'e' || c = 'E') = true
    · obtain ⟨sign, signed, split⟩ := exponentSign_spec u
      obtain ⟨more, all_digits, -⟩ := digitsOf_spec (exponentSign u).2
      by_cases no_digit : (digitsOf (exponentSign u).2).1.isEmpty = true
      · have read : exponentDigits (c :: u) = (none, c :: u) := by
          simp only [exponentDigits, letter, no_digit, if_true]
        refine ⟨[], takes_nothing read ?_⟩
        rintro a b same ⟨mark, sign, digits, -, signed, some_digits, rfl⟩
        have behind : u = sign ++ (digits ++ b) :=
          (List.cons.inj same).2.trans (List.append_assoc ..)
        rw [behind, exponentSign_append signed some_digits] at no_digit
        exact digitsOf_ne_nil some_digits b (List.isEmpty_iff.mp no_digit)
      · have rest : (exponentDigits (c :: u)).2 = (digitsOf (exponentSign u).2).2 := by
          simp only [exponentDigits, letter, no_digit, if_true, Bool.false_eq_true, if_false]
        have found : (exponentDigits (c :: u)).1 ≠ none := by
          simp [exponentDigits, letter, no_digit]
        rw [List.isEmpty_iff] at no_digit
        refine ⟨c :: (sign ++ (digitsOf (exponentSign u).2).1),
          .inr ⟨c, sign, _, by simpa using letter, signed, ⟨no_digit, all_digits⟩, rfl⟩, ?_,
          iff_of_false found (List.cons_ne_nil _ _), fun none => by cases none⟩
        rw [rest, List.cons_append, List.append_assoc, ← more, ← split]
    · have read : exponentDigits (c :: u) = (none, c :: u) := by
        simp [exponentDigits, letter]
      refine ⟨[], takes_nothing read ?_⟩
      rintro a b same ⟨mark, sign, digits, marked, -, -, rfl⟩
      rw [(List.cons.inj same).1] at letter
      exact letter (by simpa using marked)

/-- The parts of a number behind its sign. -/
def unsignedParts? (negative : Bool) (t : Text) : Option (NumberParts × Text) :=
  (wholeDigits? t).map fun p =>
    (⟨negative, p.1, (fractionDigits p.2).1, (exponentDigits (fractionDigits p.2).2).1⟩,
      (exponentDigits (fractionDigits p.2).2).2)

theorem numberParts?_minus (t : Text) :
    numberParts? (.scalar '-' :: t) = unsignedParts? true t :=
  rfl

theorem numberParts?_unsigned {t : Text} (noSign : ∀ u, t = .scalar '-' :: u → False) :
    numberParts? t = unsignedParts? false t := by
  unfold numberParts?
  split
  next same =>
    split at same
    next u => exact absurd rfl (noSign u)
    next => cases same; rfl

theorem unsignedParts?_eq_some {negative : Bool} {t rest : Text} {parts : NumberParts}
    (read : unsignedParts? negative t = some (parts, rest)) :
    ∃ fraction exponent, IsNumber [] parts.whole fraction exponent ∧
      t = parts.whole ++ (fraction ++ (exponent ++ rest)) ∧
      (parts.fraction = none ↔ fraction = []) ∧ (parts.exponent = none ↔ exponent = []) ∧
      (1 < parts.whole.length → fraction = [] → exponent = [] → WholeEnds rest) := by
  obtain ⟨⟨whole, u⟩, found, made⟩ := Option.map_eq_some_iff.mp read
  obtain ⟨rfl, digits, ends⟩ := wholeDigits?_eq_some found
  obtain ⟨fraction, takenFraction⟩ := fractionDigits_takes u
  obtain ⟨exponent, takenExponent⟩ := exponentDigits_takes (fractionDigits u).2
  obtain ⟨rfl, rfl⟩ := Prod.mk.inj made
  refine ⟨fraction, exponent, ⟨.inl rfl, digits, takenFraction.fits, takenExponent.fits⟩, ?_,
    takenFraction.missing, takenExponent.missing, ?_⟩
  · rw [← takenExponent.split, ← takenFraction.split]
  · rintro long rfl rfl a b same
    have behind : (fractionDigits u).2 = a ++ b := takenExponent.split.trans same
    have split : u = a ++ b := takenFraction.split.trans behind
    rintro (⟨some_digit, all_digits⟩ | part | part)
    · obtain ⟨c, a, rfl⟩ := List.exists_cons_of_ne_nil some_digit
      have digit := all_digits c List.mem_cons_self
      rw [ends long c (by rw [split]; rfl)] at digit
      cases digit
    · exact takenFraction.absent rfl a b split part
    · exact takenExponent.absent rfl a b behind part

theorem WholeEnds.noDigit {t : Text} (ends : WholeEnds t) : NoDigit t := by
  intro c first
  obtain ⟨u, rfl⟩ := List.head?_eq_some_iff.mp first
  by_contra digit
  exact ends [c] u rfl (.inl ⟨List.cons_ne_nil c [], by simpa using digit⟩)

theorem IsExponent.noDigit {exponent : Text} (part : IsExponent exponent) (rest : Text) :
    NoDigit (exponent ++ rest) ∧ ∀ a b, exponent ++ rest = a ++ b → ¬IsFraction a := by
  obtain ⟨mark, sign, digits, marked, -, -, rfl⟩ := part
  have letter : mark = .scalar 'e' ∨ mark = .scalar 'E' := by simpa using marked
  constructor
  · rcases letter with rfl | rfl <;> exact stops_cons rfl _
  · rintro a b same ⟨digits, -, rfl⟩
    rw [(List.cons.inj same).1] at letter
    exact absurd letter (by decide)

theorem IsFraction.noDigit {fraction : Text} (part : IsFraction fraction) (rest : Text) :
    NoDigit (fraction ++ rest) := by
  obtain ⟨digits, -, rfl⟩ := part
  exact stops_cons rfl _

theorem unsignedParts?_append {sign whole fraction exponent rest : Text}
    (parts : IsNumber sign whole fraction exponent) (ends : WholeEnds rest) (negative : Bool) :
    ∃ p, unsignedParts? negative (whole ++ (fraction ++ (exponent ++ rest))) = some (p, rest) ∧
      p.whole = whole ∧ (p.fraction = none ↔ fraction = []) ∧
      (p.exponent = none ↔ exponent = []) := by
  have behind : NoDigit (exponent ++ rest) ∧ ∀ a b, exponent ++ rest = a ++ b → ¬IsFraction a := by
    obtain rfl | part := parts.exponent
    · exact ⟨ends.noDigit, fun a b same part => ends a b same (.inr (.inl part))⟩
    · exact part.noDigit rest
  have readExponent : ∃ e, exponentDigits (exponent ++ rest) = (e, rest) ∧
      (e = none ↔ exponent = []) := by
    obtain rfl | part := parts.exponent
    · obtain ⟨_, takes⟩ := exponentDigits_takes rest
      exact ⟨none, takes.nothing fun a b same part => ends a b same (.inr (.inr part)), by simp⟩
    · obtain ⟨n, read⟩ := exponentDigits_append part ends.noDigit
      obtain ⟨mark, sign, digits, -, -, -, rfl⟩ := part
      exact ⟨some n, read, by simp⟩
  have readFraction : ∃ f, fractionDigits (fraction ++ (exponent ++ rest)) = (f, exponent ++ rest) ∧
      (f = none ↔ fraction = []) := by
    obtain rfl | part := parts.fraction
    · obtain ⟨_, takes⟩ := fractionDigits_takes (exponent ++ rest)
      exact ⟨none, takes.nothing behind.2, by simp⟩
    · obtain ⟨digits, read⟩ := fractionDigits_append part behind.1
      obtain ⟨_, -, rfl⟩ := part
      exact ⟨some digits, read, by simp⟩
  have ahead : NoDigit (fraction ++ (exponent ++ rest)) := by
    obtain rfl | part := parts.fraction
    · exact behind.1
    · exact part.noDigit _
  have readWhole := wholeDigits?_append parts.whole ahead
  obtain ⟨e, readExponent, noExponent⟩ := readExponent
  obtain ⟨f, readFraction, noFraction⟩ := readFraction
  refine ⟨⟨negative, whole, f, e⟩, ?_, rfl, noFraction, noExponent⟩
  simp only [unsignedParts?, readWhole, Option.map_some, readFraction, readExponent]

theorem IsWhole.exists_digit {whole : Text} (digits : IsWhole whole) :
    ∃ c more, whole = c :: more ∧ c.isDigit = true := by
  obtain rfl | ⟨⟨some_digit, all_digits⟩, -⟩ := digits
  · exact ⟨_, _, rfl, rfl⟩
  · obtain ⟨c, more, rfl⟩ := List.exists_cons_of_ne_nil some_digit
    exact ⟨c, more, rfl, all_digits c List.mem_cons_self⟩

theorem numberParts?_sign {sign whole : Text} (signed : sign = [] ∨ sign = "-")
    (digits : IsWhole whole) (t : Text) :
    ∃ negative, numberParts? (sign ++ (whole ++ t)) = unsignedParts? negative (whole ++ t) := by
  obtain rfl | rfl := signed
  · obtain ⟨c, more, rfl, digit⟩ := digits.exists_digit
    exact ⟨false, numberParts?_unsigned fun u same =>
      ne_of_isDigit digit rfl (List.cons.inj same).1⟩
  · exact ⟨true, numberParts?_minus _⟩

/-- No word is the start of a number. -/
theorem after?_word_number {sign whole : Text} (signed : sign = [] ∨ sign = "-")
    (digits : IsWhole whole) (t : Text) {word : Text} (known : word ∈ valueWords) :
    Text.after? word (sign ++ (whole ++ t)) = none := by
  obtain ⟨c, more, rfl, digit⟩ := digits.exists_digit
  have unlike (w : Char) (letter : CodePoint.isDigit w = false) : CodePoint.scalar w ≠ c :=
    (ne_of_isDigit digit letter).symm
  simp only [valueWords, List.mem_cons, List.not_mem_nil, or_false] at known
  rcases known with rfl | rfl | rfl | rfl | rfl | rfl
  all_goals
    rcases signed with rfl | rfl
    · exact after?_other (unlike _ rfl) _ _
    · simp [Text.after?, unlike 'I' rfl]

theorem mem_valueWords {word : Text} {v : Json} (member : (word, v) ∈ words) :
    word ∈ valueWords :=
  List.mem_map_of_mem (f := Prod.fst) member

theorem scalar_word {word : Text} (known : word ∈ valueWords) (rest : Text) :
    ∃ v, scalar (word ++ rest) = .ok (v, rest) := by
  simp only [valueWords, List.mem_cons, List.not_mem_nil, or_false] at known
  rcases known with rfl | rfl | rfl | rfl | rfl | rfl <;> exact ⟨_, rfl⟩

theorem scalar_eq_number {sign whole : Text} (signed : sign = [] ∨ sign = "-")
    (digits : IsWhole whole) (t : Text) {p : NumberParts} {rest : Text}
    (read : numberParts? (sign ++ (whole ++ t)) = some (p, rest)) :
    scalar (sign ++ (whole ++ t)) = p.value.map (·, rest) := by
  unfold scalar
  split
  next found =>
    obtain ⟨⟨word, v⟩, member, behind⟩ := List.exists_of_findSome?_eq_some found
    obtain ⟨u, after, -⟩ := Option.map_eq_some_iff.mp behind
    rw [after?_word_number signed digits t (mem_valueWords member)] at after
    cases after
  next => rw [read]

theorem scalar_number {sign whole fraction exponent rest : Text}
    (parts : IsNumber sign whole fraction exponent)
    (short : fraction = [] → exponent = [] → whole.length ≤ Numeral.maxDigits)
    (ends : WholeEnds rest) :
    ∃ v, scalar (sign ++ (whole ++ (fraction ++ (exponent ++ rest)))) = .ok (v, rest) := by
  obtain ⟨negative, unsigned⟩ := numberParts?_sign parts.sign parts.whole
    (fraction ++ (exponent ++ rest))
  obtain ⟨p, read, rfl, noFraction, noExponent⟩ := unsignedParts?_append parts ends negative
  rw [scalar_eq_number parts.sign parts.whole _ (unsigned.trans read)]
  unfold NumberParts.value
  split
  next whole =>
    rw [Bool.and_eq_true, Option.isNone_iff_eq_none, Option.isNone_iff_eq_none] at whole
    have limit := short (noFraction.mp whole.1) (noExponent.mp whole.2)
    rw [if_neg (Nat.not_lt.mpr limit)]
    exact ⟨_, rfl⟩
  · exact ⟨_, rfl⟩

theorem scalar_long {n : Nat} {t : Text} (long : IsLong n t) :
    scalar t = .error (.longInteger n) := by
  obtain ⟨sign, whole, rest, parts, rfl, ends, rfl, long⟩ := long
  obtain ⟨negative, unsigned⟩ := numberParts?_sign parts.sign parts.whole rest
  obtain ⟨p, read, rfl, noFraction, noExponent⟩ := unsignedParts?_append parts ends negative
  rw [scalar_eq_number parts.sign parts.whole _ (unsigned.trans read)]
  simp [NumberParts.value, noFraction, noExponent, long, Except.map]

theorem numberParts?_eq_some {t rest : Text} {p : NumberParts}
    (read : numberParts? t = some (p, rest)) :
    ∃ sign fraction exponent, IsNumber sign p.whole fraction exponent ∧
      t = sign ++ (p.whole ++ (fraction ++ (exponent ++ rest))) ∧
      (p.fraction = none ↔ fraction = []) ∧ (p.exponent = none ↔ exponent = []) ∧
      (1 < p.whole.length → fraction = [] → exponent = [] → WholeEnds rest) := by
  by_cases negative : ∃ u, t = .scalar '-' :: u
  · obtain ⟨u, rfl⟩ := negative
    obtain ⟨fraction, exponent, parts, rfl, more⟩ := unsignedParts?_eq_some read
    exact ⟨"-", fraction, exponent, { parts with sign := .inr rfl }, rfl, more⟩
  · rw [numberParts?_unsigned fun u same => negative ⟨u, same⟩] at read
    obtain ⟨fraction, exponent, parts, rfl, more⟩ := unsignedParts?_eq_some read
    exact ⟨[], fraction, exponent, parts, rfl, more⟩

theorem after?_eq_some {word t rest : Text} (after : Text.after? word t = some rest) :
    t = word ++ rest := by
  unfold Text.after? at after
  split at after
  next start =>
    obtain ⟨u, rfl⟩ := List.isPrefixOf_iff_prefix.mp start
    rw [List.drop_left] at after
    rw [Option.some.inj after]
  · cases after

theorem NumberParts.value_ok {p : NumberParts} {v : Json} (made : p.value = .ok v)
    (noFraction : p.fraction = none) (noExponent : p.exponent = none) :
    p.whole.length ≤ Numeral.maxDigits := by
  by_contra long
  simp [NumberParts.value, noFraction, noExponent, Nat.not_le.mp long] at made

theorem NumberParts.value_error {p : NumberParts} {stop : Stop} (failed : p.value = .error stop) :
    p.fraction = none ∧ p.exponent = none ∧ Numeral.maxDigits < p.whole.length ∧
      stop = .longInteger p.whole.length := by
  unfold NumberParts.value at failed
  split at failed
  next whole =>
    rw [Bool.and_eq_true, Option.isNone_iff_eq_none, Option.isNone_iff_eq_none] at whole
    split at failed
    next long =>
      cases failed
      exact ⟨whole.1, whole.2, long, rfl⟩
    · cases failed
  · cases failed

theorem scalar_error {t : Text} {stop : Stop} (failed : scalar t = .error stop) :
    stop.Complains ∨ ∃ n, stop = .longInteger n ∧ IsLong n t := by
  unfold scalar at failed
  split at failed
  · cases failed
  · split at failed
    · cases failed
      exact .inl ⟨_, _, rfl⟩
    next p u number =>
      obtain ⟨sign, fraction, exponent, parts, rfl, noFraction, noExponent, ends⟩ :=
        numberParts?_eq_some number
      obtain ⟨none, none', long, rfl⟩ := NumberParts.value_error (map_error failed)
      obtain rfl := noFraction.mp none
      obtain rfl := noExponent.mp none'
      have several : 1 < p.whole.length := Nat.lt_trans (by decide) long
      exact .inr ⟨_, rfl, sign, p.whole, u, parts, rfl, ends several rfl rfl, rfl, long⟩

end Json

end LabelAtlas
