import LabelAtlas.Proofs.Tokens

/-! The language of JSON texts, told without the reader. A phrase stands at the start of a text, and
the rest of the text stands behind it. The reader accepts the texts of the language and no other,
and where it stops for a limit, a value stands that is beyond it. -/
namespace LabelAtlas.Json

/-- Items and members go from the first one to behind the closing bracket. -/
inductive Phrase where
  | value
  | items
  | members

/-- A phrase stands at the start of a text. Brackets lie in each other at most `room` deep, and a
whole number keeps to the limit. -/
inductive Derives : Phrase → Nat → Text → Text → Prop where
  | word {room : Nat} {word : Text} (known : word ∈ valueWords) (rest : Text) :
    Derives .value room (word ++ rest) rest
  | string {room : Nat} {t rest : Text} (chars : Chars t rest) :
    Derives .value room (.scalar '"' :: t) rest
  | number {room : Nat} {sign whole fraction exponent : Text}
    (parts : IsNumber sign whole fraction exponent)
    (short : fraction = [] → exponent = [] → whole.length ≤ Numeral.maxDigits) (rest : Text) :
    Derives .value room (sign ++ (whole ++ (fraction ++ (exponent ++ rest)))) rest
  | emptyArray {room : Nat} {t rest : Text} (spaces : Spaces t (.scalar ']' :: rest)) :
    Derives .value (room + 1) (.scalar '[' :: t) rest
  | array {room : Nat} {t u rest : Text} (spaces : Spaces t u)
    (items : Derives .items room u rest) :
    Derives .value (room + 1) (.scalar '[' :: t) rest
  | emptyObject {room : Nat} {t rest : Text} (spaces : Spaces t (.scalar '\x7d' :: rest)) :
    Derives .value (room + 1) (.scalar '\x7b' :: t) rest
  | object {room : Nat} {t u rest : Text} (spaces : Spaces t u)
    (members : Derives .members room u rest) :
    Derives .value (room + 1) (.scalar '\x7b' :: t) rest
  | lastItem {room : Nat} {t u rest : Text} (value : Derives .value room t u)
    (close : Spaces u (.scalar ']' :: rest)) : Derives .items room t rest
  | nextItem {room : Nat} {t u v w rest : Text} (value : Derives .value room t u)
    (comma : Spaces u (.scalar ',' :: v)) (spaces : Spaces v w)
    (more : Derives .items room w rest) : Derives .items room t rest
  | lastMember {room : Nat} {t u v rest : Text} (key : Key t u) (value : Derives .value room u v)
    (close : Spaces v (.scalar '\x7d' :: rest)) : Derives .members room t rest
  | nextMember {room : Nat} {t u v w x rest : Text} (key : Key t u)
    (value : Derives .value room u v) (comma : Spaces v (.scalar ',' :: w)) (spaces : Spaces w x)
    (more : Derives .members room x rest) : Derives .members room t rest

/-- The start of a phrase leads to a place inside it where a value has to stand, which brackets may
fill `left` deep. -/
inductive Leads : Phrase → Nat → Text → Nat → Text → Prop where
  | here (left : Nat) (t : Text) : Leads .value left t left t
  | array {room left : Nat} {t u rest : Text} (spaces : Spaces t u)
    (items : Leads .items room u left rest) : Leads .value (room + 1) (.scalar '[' :: t) left rest
  | object {room left : Nat} {t u rest : Text} (spaces : Spaces t u)
    (members : Leads .members room u left rest) :
    Leads .value (room + 1) (.scalar '\x7b' :: t) left rest
  | item {room left : Nat} {t rest : Text} (value : Leads .value room t left rest) :
    Leads .items room t left rest
  | nextItem {room left : Nat} {t u v w rest : Text} (value : Derives .value room t u)
    (comma : Spaces u (.scalar ',' :: v)) (spaces : Spaces v w)
    (more : Leads .items room w left rest) : Leads .items room t left rest
  | member {room left : Nat} {t u rest : Text} (key : Key t u)
    (value : Leads .value room u left rest) : Leads .members room t left rest
  | nextMember {room left : Nat} {t u v w x rest : Text} (key : Key t u)
    (value : Derives .value room u v) (comma : Spaces v (.scalar ',' :: w)) (spaces : Spaces w x)
    (more : Leads .members room x left rest) : Leads .members room t left rest

/-- A text is one value with nothing but spaces around it. -/
def IsDocument (t : Text) : Prop :=
  ∃ u v, Spaces t u ∧ Derives .value maxRoom u v ∧ Spaces v []

/-- A bracket is opened. -/
def Opens (t : Text) : Prop :=
  ∃ u, t = .scalar '[' :: u ∨ t = .scalar '\x7b' :: u

/-! ### What comes of reading -/

theorem scalar_ok {t rest : Text} {v : Json} (read : scalar t = .ok (v, rest)) (room : Nat) :
    Derives .value room t rest := by
  unfold scalar at read
  split at read
  next found =>
    obtain ⟨⟨word, v⟩, member, behind⟩ := List.exists_of_findSome?_eq_some found
    obtain ⟨u, after, rfl⟩ := Option.map_eq_some_iff.mp behind
    obtain ⟨-, rfl⟩ := Prod.mk.inj (Except.ok.inj read)
    rw [after?_eq_some after]
    exact .word (mem_valueWords member) u
  next =>
    split at read
    · cases read
    next p u number =>
      obtain ⟨sign, fraction, exponent, parts, rfl, noFraction, noExponent, -⟩ :=
        numberParts?_eq_some number
      obtain ⟨w, made, same⟩ := map_ok read
      obtain ⟨-, rfl⟩ := Prod.mk.inj same
      exact .number parts
        (fun none none' => NumberParts.value_ok made (noFraction.mpr none) (noExponent.mpr none')) u

/-- A value that stands where brackets may be opened `left` deep is beyond a limit. -/
inductive Exceeds : Stop → Nat → Text → Prop where
  | deep {t : Text} (opens : Opens t) : Exceeds .tooDeep 0 t
  | long {n : Nat} {t : Text} (left : Nat) (long : IsLong n t) : Exceeds (.longInteger n) left t

/-- Reading a phrase stops where something is complained about or a value is beyond a limit. -/
def Stopped (p : Phrase) (room : Nat) (t : Text) (stop : Stop) : Prop :=
  stop.Complains ∨ ∃ left u, Leads p room t left u ∧ Exceeds stop left u

theorem Stopped.behind {p q : Phrase} {room more : Nat} {t u : Text} {stop : Stop}
    (stopped : Stopped p room t stop)
    (leads : ∀ {left rest}, Leads p room t left rest → Leads q more u left rest) :
    Stopped q more u stop := by
  obtain complains | ⟨left, rest, there, exceeds⟩ := stopped
  · exact .inl complains
  · exact .inr ⟨left, rest, leads there, exceeds⟩

/-- What comes of reading a phrase. -/
structure Outcome (p : Phrase) (room : Nat) (t : Text) (result : Except Stop (Json × Text)) :
    Prop where
  read : ∀ v rest, result = .ok (v, rest) → Derives p room t rest
  stopped : ∀ stop, result = .error stop → Stopped p room t stop

theorem outcome_ok {p : Phrase} {room : Nat} {t rest : Text} (derives : Derives p room t rest)
    (v : Json) : Outcome p room t (.ok (v, rest)) where
  read := by
    intro v rest same
    cases same
    exact derives
  stopped := by
    intro stop same
    cases same

theorem outcome_complaint (p : Phrase) (room : Nat) (t : Text) (complaint : Complaint)
    (left : Nat) : Outcome p room t (.error (.at complaint left)) where
  read := by
    intro v rest same
    cases same
  stopped := by
    intro stop same
    cases same
    exact .inl ⟨_, _, rfl⟩

theorem outcome_deep {t : Text} (opens : Opens t) : Outcome .value 0 t (.error .tooDeep) where
  read := by
    intro v rest same
    cases same
  stopped := by
    intro stop same
    cases same
    exact .inr ⟨0, t, .here 0 t, .deep opens⟩

theorem outcome_scalar (room : Nat) (t : Text) : Outcome .value room t (scalar t) where
  read v rest read := scalar_ok read room
  stopped stop failed := by
    obtain complains | ⟨n, rfl, long⟩ := scalar_error failed
    · exact .inl complains
    · exact .inr ⟨room, t, .here room t, .long room long⟩

theorem outcome_string (room : Nat) (t : Text) :
    Outcome .value room (.scalar '"' :: t) ((string t).map fun p => (.str p.1, p.2)) where
  read v rest read := by
    obtain ⟨p, chars, same⟩ := map_ok read
    obtain ⟨-, rfl⟩ := Prod.mk.inj same
    exact .string (chars_of_stringFrom chars)
  stopped stop failed := .inl (stringFrom_complains (map_error failed))

theorem Outcome.array {room : Nat} {t : Text} {result : Except Stop (Json × Text)}
    (items : Outcome .items room (skipSpaces t) result) :
    Outcome .value (room + 1) (.scalar '[' :: t) result where
  read v rest same := .array (spaces_skipSpaces t) (items.read v rest same)
  stopped stop same := (items.stopped stop same).behind (.array (spaces_skipSpaces t))

theorem Outcome.object {room : Nat} {t : Text} {result : Except Stop (Json × Text)}
    (members : Outcome .members room (skipSpaces t) result) :
    Outcome .value (room + 1) (.scalar '\x7b' :: t) result where
  read v rest same := .object (spaces_skipSpaces t) (members.read v rest same)
  stopped stop same := (members.stopped stop same).behind (.object (spaces_skipSpaces t))

theorem value_outcome {fuel : Nat}
    (items : ∀ room t, Outcome .items room t (items fuel room [] t))
    (members : ∀ room t, Outcome .members room t (members fuel room [] t)) (room : Nat) (t : Text) :
    Outcome .value room t (value (fuel + 1) room t) := by
  unfold value
  split
  · exact outcome_string room _
  next u =>
    split
    · exact outcome_deep ⟨u, .inr rfl⟩
    next closed => exact outcome_ok (.emptyObject (spaces_of_skipSpaces closed)) _
    next => exact (members _ _).object
  next u =>
    split
    · exact outcome_deep ⟨u, .inl rfl⟩
    next closed => exact outcome_ok (.emptyArray (spaces_of_skipSpaces closed)) _
    next => exact (items _ _).array
  next => exact outcome_scalar room t

theorem items_outcome {fuel : Nat} (values : ∀ room t, Outcome .value room t (value fuel room t))
    (more : ∀ room done t, Outcome .items room t (items fuel room done t)) (room : Nat)
    (done : List Json) (t : Text) : Outcome .items room t (items (fuel + 1) room done t) where
  read v rest read := by
    unfold items at read
    obtain ⟨⟨w, u⟩, first, read⟩ := bind_ok read
    have value := (values room t).read w u first
    dsimp only at read
    split at read
    next close =>
      obtain ⟨-, rfl⟩ := Prod.mk.inj (Except.ok.inj read)
      exact .lastItem value (spaces_of_skipSpaces close)
    next comma =>
      exact .nextItem value (spaces_of_skipSpaces comma) (spaces_skipSpaces _)
        ((more room _ _).read v rest read)
    next => cases read
  stopped stop failed := by
    unfold items at failed
    obtain unread | ⟨⟨w, u⟩, first, failed⟩ := bind_error failed
    · exact ((values room t).stopped stop unread).behind .item
    · have value := (values room t).read w u first
      dsimp only at failed
      split at failed
      next => cases failed
      next comma =>
        exact ((more room _ _).stopped stop failed).behind
          (.nextItem value (spaces_of_skipSpaces comma) (spaces_skipSpaces _))
      next =>
        cases failed
        exact .inl ⟨_, _, rfl⟩

theorem members_outcome {fuel : Nat} (values : ∀ room t, Outcome .value room t (value fuel room t))
    (more : ∀ room done t, Outcome .members room t (members fuel room done t)) (room : Nat)
    (done : Object) (t : Text) : Outcome .members room t (members (fuel + 1) room done t) where
  read v rest read := by
    unfold members at read
    obtain ⟨⟨name, u⟩, named, read⟩ := bind_ok read
    obtain ⟨⟨w, x⟩, first, read⟩ := bind_ok read
    have key := key_ok named
    have value := (values room u).read w x first
    dsimp only at read
    split at read
    next close =>
      obtain ⟨-, rfl⟩ := Prod.mk.inj (Except.ok.inj read)
      exact .lastMember key value (spaces_of_skipSpaces close)
    next comma =>
      exact .nextMember key value (spaces_of_skipSpaces comma) (spaces_skipSpaces _)
        ((more room _ _).read v rest read)
    next => cases read
  stopped stop failed := by
    unfold members at failed
    obtain unread | ⟨⟨name, u⟩, named, failed⟩ := bind_error failed
    · exact .inl (key_complains unread)
    have key := key_ok named
    obtain unread | ⟨⟨w, x⟩, first, failed⟩ := bind_error failed
    · exact ((values room u).stopped stop unread).behind (.member key)
    · have value := (values room u).read w x first
      dsimp only at failed
      split at failed
      next => cases failed
      next comma =>
        exact ((more room _ _).stopped stop failed).behind
          (.nextMember key value (spaces_of_skipSpaces comma) (spaces_skipSpaces _))
      next =>
        cases failed
        exact .inl ⟨_, _, rfl⟩

theorem outcomes (fuel : Nat) :
    (∀ room t, Outcome .value room t (value fuel room t)) ∧
    (∀ room done t, Outcome .items room t (items fuel room done t)) ∧
    ∀ room done t, Outcome .members room t (members fuel room done t) := by
  -- The readers call each other, and fuel is what all of them run down.
  induction fuel with
  | zero =>
    exact ⟨fun room t => outcome_complaint .., fun room done t => outcome_complaint ..,
      fun room done t => outcome_complaint ..⟩
  | succ fuel ih =>
    obtain ⟨values, items, members⟩ := ih
    exact ⟨value_outcome (fun room t => items room [] t) (fun room t => members room [] t),
      items_outcome values items, members_outcome values members⟩

/-! ### What is read -/

theorem ends_nil : Ends [] := by
  intro c first
  cases first

theorem ends_of_spaces {t rest : Text} (spaces : Spaces t rest) (ends : Ends rest) : Ends t := by
  obtain ⟨s, all_spaces, rfl⟩ := spaces
  cases s with
  | nil => exact ends
  | cons c s =>
    intro d first
    obtain rfl := Option.mem_some.mp first
    have space := all_spaces c List.mem_cons_self
    simp only [isSpace, Bool.or_eq_true, decide_eq_true_eq] at space
    rcases space with ((rfl | rfl) | rfl) | rfl <;> decide

theorem Ends.wholeEnds {t : Text} (ends : Ends t) : WholeEnds t := by
  rintro a b rfl (⟨some_digit, all_digits⟩ | ⟨digits, -, rfl⟩ |
    ⟨mark, sign, digits, marked, -, -, rfl⟩)
  · obtain ⟨c, a, rfl⟩ := List.exists_cons_of_ne_nil some_digit
    have other := (ends c rfl).1
    rw [all_digits c List.mem_cons_self] at other
    cases other
  · exact (ends _ rfl).2.1 rfl
  · have letter : mark = .scalar 'e' ∨ mark = .scalar 'E' := by simpa using marked
    exact letter.elim (ends _ rfl).2.2.1 (ends _ rfl).2.2.2

theorem begins_digit {c : CodePoint} (digit : c.isDigit = true) (t : Text) : Begins (c :: t) := by
  have unlike (w : Char) (other : CodePoint.isDigit w = false) : c ≠ .scalar w :=
    ne_of_isDigit digit other
  refine ⟨c, t, rfl, ?_, unlike _ rfl, unlike _ rfl, unlike _ rfl⟩
  simp [isSpace, unlike ' ' rfl, unlike '\t' rfl, unlike '\n' rfl, unlike '\r' rfl]

theorem begins_number {sign whole : Text} (signed : sign = [] ∨ sign = "-") (digits : IsWhole whole)
    (t : Text) : Begins (sign ++ (whole ++ t)) := by
  obtain rfl | rfl := signed
  · obtain ⟨c, more, rfl, digit⟩ := digits.exists_digit
    exact begins_digit digit _
  · exact ⟨_, _, rfl, by decide⟩

theorem Key.begins {t rest : Text} (key : Key t rest) : Begins t := by
  obtain ⟨u, v, w, rfl, -⟩ := key
  exact ⟨_, _, rfl, by decide⟩

theorem Derives.begins {p : Phrase} {room : Nat} {t rest : Text} (derives : Derives p room t rest) :
    Begins t := by
  induction derives with
  | word known rest =>
    simp only [valueWords, List.mem_cons, List.not_mem_nil, or_false] at known
    rcases known with rfl | rfl | rfl | rfl | rfl | rfl <;> exact ⟨_, _, rfl, by decide⟩
  | number parts _ rest => exact begins_number parts.sign parts.whole _
  | string | emptyArray | array | emptyObject | object => exact ⟨_, _, rfl, by decide⟩
  | lastItem _ _ ih => exact ih
  | nextItem _ _ _ _ ih => exact ih
  | lastMember key | nextMember key => exact key.begins

theorem Exceeds.begins {stop : Stop} {left : Nat} {t : Text} (exceeds : Exceeds stop left t) :
    Begins t := by
  cases exceeds with
  | deep opens => obtain ⟨u, rfl | rfl⟩ := opens <;> exact ⟨_, _, rfl, by decide⟩
  | long _ long =>
    obtain ⟨sign, whole, rest, parts, rfl, -⟩ := long
    exact begins_number parts.sign parts.whole rest

theorem Leads.begins {p : Phrase} {room left : Nat} {t rest : Text}
    (leads : Leads p room t left rest) (begins : Begins rest) : Begins t := by
  induction leads with
  | here => exact begins
  | array | object => exact ⟨_, _, rfl, by decide⟩
  | item _ ih => exact ih begins
  | nextItem value => exact value.begins
  | member key | nextMember key => exact key.begins

theorem Begins.visible {t : Text} (begins : Begins t) : Stops isSpace t := by
  obtain ⟨c, u, rfl, visible, -⟩ := begins
  exact stops_cons visible u

theorem Key.length_lt {t rest : Text} (key : Key t rest) : rest.length < t.length := by
  obtain ⟨u, v, w, rfl, chars, colon, spaces⟩ := key
  have := chars.length_lt
  have := colon.length_le
  have := spaces.length_le
  simp only [List.length_cons] at *
  omega

theorem Derives.length_lt {p : Phrase} {room : Nat} {t rest : Text}
    (derives : Derives p room t rest) : rest.length < t.length := by
  induction derives with
  | word known rest =>
    have some_char : ∀ word ∈ valueWords, 0 < word.length := by decide
    have := some_char _ known
    rw [List.length_append]
    omega
  | number parts _ rest =>
    obtain ⟨c, more, rfl, -⟩ := parts.whole.exists_digit
    simp only [List.length_append, List.length_cons]
    omega
  | string chars =>
    have := chars.length_lt
    rw [List.length_cons]
    omega
  | emptyArray spaces | emptyObject spaces =>
    have := spaces.length_le
    simp only [List.length_cons] at *
    omega
  | array spaces _ ih | object spaces _ ih =>
    have := spaces.length_le
    rw [List.length_cons]
    omega
  | lastItem _ close ih =>
    have := close.length_le
    rw [List.length_cons] at this
    omega
  | nextItem _ comma spaces _ value more =>
    have := comma.length_le
    have := spaces.length_le
    simp only [List.length_cons] at *
    omega
  | lastMember key _ close ih =>
    have := key.length_lt
    have := close.length_le
    simp only [List.length_cons] at *
    omega
  | nextMember key _ comma spaces _ value more =>
    have := key.length_lt
    have := comma.length_le
    have := spaces.length_le
    simp only [List.length_cons] at *
    omega

/-- What reading a phrase gives, with as much fuel as the text may need. Each value takes a unit of
fuel and each place of a list another, and each of them at least one character. -/
def Phrase.Gives (room : Nat) (t : Text) (result : Except Stop (Json × Text) → Prop) :
    Phrase → Prop
  | value => ∀ fuel, 2 * t.length ≤ fuel + 1 → result (Json.value (fuel + 1) room t)
  | items => ∀ done fuel, 2 * t.length ≤ fuel → result (Json.items (fuel + 1) room done t)
  | members => ∀ done fuel, 2 * t.length ≤ fuel → result (Json.members (fuel + 1) room done t)

theorem value_scalar {t : Text} (other : ∀ c ∈ t.head?, c ≠ '"' ∧ c ≠ '\x7b' ∧ c ≠ '[')
    (fuel room : Nat) : value (fuel + 1) room t = scalar t := by
  unfold value
  split
  · exact absurd rfl (other _ rfl).1
  · exact absurd rfl (other _ rfl).2.1
  · exact absurd rfl (other _ rfl).2.2
  · rfl

theorem value_array {fuel room : Nat} {t u : Text} (spaces : Spaces t u) (begins : Begins u) :
    value (fuel + 1) (room + 1) (.scalar '[' :: t) = items fuel room [] u := by
  have skipped := spaces.skip begins.visible
  obtain ⟨c, v, rfl, -, other, -⟩ := begins
  simp [value, skipped, other]

theorem value_object {fuel room : Nat} {t u : Text} (spaces : Spaces t u) (begins : Begins u) :
    value (fuel + 1) (room + 1) (.scalar '\x7b' :: t) = members fuel room [] u := by
  have skipped := spaces.skip begins.visible
  obtain ⟨c, v, rfl, -, -, other, -⟩ := begins
  simp [value, skipped, other]

theorem number_start {sign whole : Text} (signed : sign = [] ∨ sign = "-") (digits : IsWhole whole)
    (t : Text) : ∀ c ∈ (sign ++ (whole ++ t)).head?, c ≠ '"' ∧ c ≠ '\x7b' ∧ c ≠ '[' := by
  intro c first
  obtain rfl | rfl := signed
  · obtain ⟨d, more, rfl, digit⟩ := digits.exists_digit
    obtain rfl := Option.mem_some.mp first
    exact ⟨ne_of_isDigit digit rfl, ne_of_isDigit digit rfl, ne_of_isDigit digit rfl⟩
  · obtain rfl := Option.mem_some.mp first
    decide

theorem word_start {word : Text} (known : word ∈ valueWords) (t : Text) :
    ∀ c ∈ (word ++ t).head?, c ≠ '"' ∧ c ≠ '\x7b' ∧ c ≠ '[' := by
  intro c first
  simp only [valueWords, List.mem_cons, List.not_mem_nil, or_false] at known
  rcases known with rfl | rfl | rfl | rfl | rfl | rfl <;>
  · obtain rfl := Option.mem_some.mp first
    decide

section Fuel

variable {room : Nat} {t u : Text} {result : Except Stop (Json × Text) → Prop}

theorem gives_array (spaces : Spaces t u) (begins : Begins u)
    (items : Phrase.items.Gives room u result) :
    Phrase.value.Gives (room + 1) (.scalar '[' :: t) result := by
  intro fuel enough
  have shorter := spaces.length_le
  rw [List.length_cons] at enough
  obtain ⟨fuel, rfl⟩ : ∃ more, fuel = more + 1 := ⟨fuel - 1, by omega⟩
  rw [value_array spaces begins]
  exact items [] fuel (by omega)

theorem gives_object (spaces : Spaces t u) (begins : Begins u)
    (members : Phrase.members.Gives room u result) :
    Phrase.value.Gives (room + 1) (.scalar '\x7b' :: t) result := by
  intro fuel enough
  have shorter := spaces.length_le
  rw [List.length_cons] at enough
  obtain ⟨fuel, rfl⟩ : ∃ more, fuel = more + 1 := ⟨fuel - 1, by omega⟩
  rw [value_object spaces begins]
  exact members [] fuel (by omega)

theorem shorter_behind_comma {v w : Text} (value : Derives .value room t u)
    (comma : Spaces u (.scalar ',' :: v)) (spaces : Spaces v w) : w.length + 2 ≤ t.length := by
  have first := value.length_lt
  have second := comma.length_le
  have third := spaces.length_le
  rw [List.length_cons] at second
  omega

/-- Further items are read behind a first one. -/
theorem gives_nextItem {v w : Text} (value : Derives .value room t u)
    (read : Phrase.value.Gives room t fun result => ∃ v, result = .ok (v, u))
    (comma : Spaces u (.scalar ',' :: v)) (spaces : Spaces v w) (begins : Begins w)
    (more : Phrase.items.Gives room w result) : Phrase.items.Gives room t result := by
  intro done fuel enough
  have shorter := shorter_behind_comma value comma spaces
  obtain ⟨fuel, rfl⟩ : ∃ more, fuel = more + 1 := ⟨fuel - 1, by omega⟩
  obtain ⟨x, first⟩ := read fuel (by omega)
  rw [items_more done first (comma.skip (stops_cons rfl v)), spaces.skip begins.visible]
  exact more (x :: done) fuel (by omega)

/-- Further members are read behind a first one. -/
theorem gives_nextMember {v w x : Text} (key : Key t u) (value : Derives .value room u v)
    (read : Phrase.value.Gives room u fun result => ∃ x, result = .ok (x, v))
    (comma : Spaces v (.scalar ',' :: w)) (spaces : Spaces w x) (begins : Begins x)
    (more : Phrase.members.Gives room x result) : Phrase.members.Gives room t result := by
  intro done fuel enough
  have shorter := shorter_behind_comma value comma spaces
  have behind := key.length_lt
  obtain ⟨fuel, rfl⟩ : ∃ more, fuel = more + 1 := ⟨fuel - 1, by omega⟩
  obtain ⟨name, named⟩ := key_of_phrase key value.begins.visible
  obtain ⟨y, first⟩ := read fuel (by omega)
  rw [members_more done named first (comma.skip (stops_cons rfl w)), spaces.skip begins.visible]
  exact more (put name y done) fuel (by omega)

end Fuel

/-- A phrase of the language is read to its end. -/
theorem Derives.gives {p : Phrase} {room : Nat} {t rest : Text} (derives : Derives p room t rest)
    (ends : Ends rest) : p.Gives room t fun result => ∃ v, result = .ok (v, rest) := by
  induction derives with
  | word known rest =>
    intro fuel enough
    rw [value_scalar (word_start known rest)]
    exact scalar_word known rest
  | number parts short rest =>
    intro fuel enough
    rw [value_scalar (number_start parts.sign parts.whole _)]
    exact scalar_number parts short ends.wholeEnds
  | @string room t rest chars =>
    intro fuel enough
    obtain ⟨s, read⟩ := string_of_chars chars
    refine ⟨.str s, ?_⟩
    simp [Json.value, read, Except.map]
  | @emptyArray room t rest spaces =>
    intro fuel enough
    refine ⟨.arr [], ?_⟩
    simp [Json.value, spaces.skip (stops_cons rfl rest)]
  | array spaces items ih => exact gives_array spaces items.begins (ih ends)
  | @emptyObject room t rest spaces =>
    intro fuel enough
    refine ⟨.obj [], ?_⟩
    simp [Json.value, spaces.skip (stops_cons rfl rest)]
  | object spaces members ih => exact gives_object spaces members.begins (ih ends)
  | lastItem value close ih =>
    intro done fuel enough
    have shorter := value.length_lt
    obtain ⟨fuel, rfl⟩ : ∃ more, fuel = more + 1 := ⟨fuel - 1, by omega⟩
    obtain ⟨x, first⟩ := ih (ends_of_spaces close (ends_cons (by decide) _)) fuel (by omega)
    exact ⟨_, items_last done first (close.skip (stops_cons rfl _))⟩
  | nextItem value comma spaces more ihValue ihMore =>
    -- A number goes on as far as it can, so what stands behind it must not continue it.
    have between := ends_of_spaces comma (ends_cons (by decide) _)
    exact gives_nextItem value (ihValue between) comma spaces more.begins (ihMore ends)
  | lastMember key value close ih =>
    intro done fuel enough
    have shorter := value.length_lt
    have behind := key.length_lt
    obtain ⟨fuel, rfl⟩ : ∃ more, fuel = more + 1 := ⟨fuel - 1, by omega⟩
    obtain ⟨name, named⟩ := key_of_phrase key value.begins.visible
    obtain ⟨x, first⟩ := ih (ends_of_spaces close (ends_cons (by decide) _)) fuel (by omega)
    exact ⟨_, members_last done named first (close.skip (stops_cons rfl _))⟩
  | nextMember key value comma spaces more ihValue ihMore =>
    have between := ends_of_spaces comma (ends_cons (by decide) _)
    exact gives_nextMember key value (ihValue between) comma spaces more.begins (ihMore ends)

theorem Exceeds.value_eq {stop : Stop} {left : Nat} {t : Text} (exceeds : Exceeds stop left t)
    (fuel : Nat) : value (fuel + 1) left t = .error stop := by
  cases exceeds with
  | deep opens => obtain ⟨u, rfl | rfl⟩ := opens <;> simp [value]
  | long _ long =>
    rw [← scalar_long long]
    obtain ⟨sign, whole, rest, parts, rfl, -⟩ := long
    exact value_scalar (number_start parts.sign parts.whole rest) fuel left

/-- Reading stops at a value beyond a limit that the text in front of it leads to. -/
theorem Leads.gives {p : Phrase} {room left : Nat} {t rest : Text} {stop : Stop}
    (leads : Leads p room t left rest) (exceeds : Exceeds stop left rest) :
    p.Gives room t (· = .error stop) := by
  induction leads with
  | here => exact fun fuel _ => exceeds.value_eq fuel
  | array spaces items ih => exact gives_array spaces (items.begins exceeds.begins) (ih exceeds)
  | object spaces members ih =>
    exact gives_object spaces (members.begins exceeds.begins) (ih exceeds)
  | item value ih =>
    intro done fuel enough
    have some_char := (value.begins exceeds.begins).length_pos
    obtain ⟨fuel, rfl⟩ : ∃ more, fuel = more + 1 := ⟨fuel - 1, by omega⟩
    have stopped := ih exceeds fuel (by omega)
    simp [items, stopped, bind, Except.bind]
  | nextItem value comma spaces more ih =>
    have between := ends_of_spaces comma (ends_cons (by decide) _)
    exact gives_nextItem value (value.gives between) comma spaces (more.begins exceeds.begins)
      (ih exceeds)
  | member key value ih =>
    intro done fuel enough
    have behind := key.length_lt
    have begins := value.begins exceeds.begins
    obtain ⟨fuel, rfl⟩ : ∃ more, fuel = more + 1 := ⟨fuel - 1, by omega⟩
    obtain ⟨name, named⟩ := key_of_phrase key begins.visible
    have stopped := ih exceeds fuel (by omega)
    simp [members, named, stopped, bind, Except.bind]
  | nextMember key value comma spaces more ih =>
    have between := ends_of_spaces comma (ends_cons (by decide) _)
    exact gives_nextMember key value (value.gives between) comma spaces
      (more.begins exceeds.begins) (ih exceeds)

/-! ### Documents -/

/-- A text leads to a value that is beyond a limit. -/
def LeadsBeyond (stop : Stop) (t : Text) : Prop :=
  ∃ u left v, Spaces t u ∧ Leads .value maxRoom u left v ∧ Exceeds stop left v

theorem no_mark_of_spaces {t u : Text} (spaces : Spaces t u) (begins : Begins u) :
    t.head? ≠ some (.scalar '\uFEFF') := by
  obtain ⟨s, all_spaces, rfl⟩ := spaces
  cases s with
  | nil =>
    obtain ⟨c, v, rfl, -, -, -, other⟩ := begins
    simpa using other
  | cons c s =>
    intro mark
    have space := all_spaces c List.mem_cons_self
    rw [Option.some.inj mark] at space
    exact absurd space (by decide)

theorem IsDocument.read {t : Text} (written : IsDocument t) : ∃ v, document t = .ok v := by
  obtain ⟨u, rest, spaces, derives, behind⟩ := written
  have shorter := spaces.length_le
  obtain ⟨v, read⟩ := derives.gives (ends_of_spaces behind ends_nil) (2 * t.length + 1) (by omega)
  have unmarked := no_mark_of_spaces spaces derives.begins
  refine ⟨v, ?_⟩
  simp [document, unmarked, spaces.skip derives.begins.visible, read, behind.skip (stops_nil _),
    bind, Except.bind]

theorem isDocument_of_read {t : Text} {v : Json} (read : document t = .ok v) : IsDocument t := by
  unfold document at read
  split at read
  · cases read
  · obtain ⟨⟨w, rest⟩, value, read⟩ := bind_ok read
    have derives := ((outcomes _).1 maxRoom (skipSpaces t)).read w rest value
    dsimp only at read
    split at read
    next behind =>
      exact ⟨_, rest, spaces_skipSpaces t, derives, spaces_of_skipSpaces behind⟩
    · cases read

theorem LeadsBeyond.document_eq {stop : Stop} {t : Text} (beyond : LeadsBeyond stop t) :
    document t = .error stop := by
  obtain ⟨u, left, v, spaces, leads, exceeds⟩ := beyond
  have begins := leads.begins exceeds.begins
  have shorter := spaces.length_le
  have stopped := leads.gives exceeds (2 * t.length + 1) (by omega)
  have unmarked := no_mark_of_spaces spaces begins
  simp [document, unmarked, spaces.skip begins.visible, stopped, bind, Except.bind]

theorem document_error {t : Text} {stop : Stop} (failed : document t = .error stop) :
    stop.Complains ∨ LeadsBeyond stop t := by
  unfold document at failed
  split at failed
  · cases failed
    exact .inl ⟨_, _, rfl⟩
  · obtain unread | ⟨⟨w, rest⟩, -, failed⟩ := bind_error failed
    · obtain complains | ⟨left, v, leads, exceeds⟩ :=
        ((outcomes _).1 maxRoom (skipSpaces t)).stopped stop unread
      · exact .inl complains
      · exact .inr ⟨_, left, v, spaces_skipSpaces t, leads, exceeds⟩
    · dsimp only at failed
      split at failed
      · cases failed
      · cases failed
        exact .inl ⟨_, _, rfl⟩

/-- The value of a text is an object. -/
def IsObject (t : Text) : Prop :=
  ∃ u, Spaces t (.scalar '\x7b' :: u)

theorem items_arr {fuel room : Nat} {done : List Json} {t rest : Text} {v : Json}
    (read : items fuel room done t = .ok (v, rest)) : ∃ xs, v = .arr xs := by
  induction fuel generalizing done t with
  | zero => cases read
  | succ fuel ih =>
    unfold items at read
    obtain ⟨⟨w, u⟩, -, read⟩ := bind_ok read
    dsimp only at read
    split at read
    · obtain ⟨rfl, -⟩ := Prod.mk.inj (Except.ok.inj read)
      exact ⟨_, rfl⟩
    · exact ih read
    · cases read

theorem members_obj {fuel room : Nat} {done : Object} {t rest : Text} {v : Json}
    (read : members fuel room done t = .ok (v, rest)) : ∃ xs, v = .obj xs := by
  induction fuel generalizing done t with
  | zero => cases read
  | succ fuel ih =>
    unfold members at read
    obtain ⟨⟨name, u⟩, -, read⟩ := bind_ok read
    obtain ⟨⟨w, u⟩, -, read⟩ := bind_ok read
    dsimp only at read
    split at read
    · obtain ⟨rfl, -⟩ := Prod.mk.inj (Except.ok.inj read)
      exact ⟨_, rfl⟩
    · exact ih read
    · cases read

theorem scalar_not_obj {t rest : Text} {v : Json} (read : scalar t = .ok (v, rest))
    (members : Object) : v ≠ .obj members := by
  unfold scalar at read
  split at read
  next found =>
    obtain ⟨⟨word, v⟩, member, behind⟩ := List.exists_of_findSome?_eq_some found
    obtain ⟨u, -, rfl⟩ := Option.map_eq_some_iff.mp behind
    obtain ⟨rfl, -⟩ := Prod.mk.inj (Except.ok.inj read)
    simp only [words, List.mem_cons, List.not_mem_nil, or_false, Prod.mk.injEq] at member
    rintro rfl
    simp at member
  next =>
    split at read
    · cases read
    · obtain ⟨w, made, same⟩ := map_ok read
      obtain ⟨rfl, -⟩ := Prod.mk.inj same
      unfold NumberParts.value at made
      rintro rfl
      split at made
      · split at made <;> cases made
      · cases made

theorem value_obj_iff {fuel room : Nat} {t rest : Text} {v : Json}
    (read : value fuel room t = .ok (v, rest)) :
    (∃ members, v = .obj members) ↔ ∃ u, t = .scalar '\x7b' :: u := by
  cases fuel with
  | zero => cases read
  | succ fuel =>
    unfold value at read
    split at read
    · obtain ⟨s, -, same⟩ := map_ok read
      obtain ⟨rfl, -⟩ := Prod.mk.inj same
      simp
    next u =>
      refine iff_of_true ?_ ⟨u, rfl⟩
      split at read
      · cases read
      · obtain ⟨rfl, -⟩ := Prod.mk.inj (Except.ok.inj read)
        exact ⟨[], rfl⟩
      · exact members_obj read
    next u =>
      have array : ∃ xs, v = .arr xs := by
        split at read
        · cases read
        · obtain ⟨rfl, -⟩ := Prod.mk.inj (Except.ok.inj read)
          exact ⟨[], rfl⟩
        · exact items_arr read
      obtain ⟨xs, rfl⟩ := array
      simp
    next other _ =>
      refine iff_of_false ?_ ?_
      · rintro ⟨members, same⟩
        exact scalar_not_obj read members same
      · rintro ⟨u, brace⟩
        exact other u brace

theorem document_obj_iff {t : Text} {v : Json} (read : document t = .ok v) :
    (∃ members, v = .obj members) ↔ IsObject t := by
  unfold document at read
  split at read
  · cases read
  · obtain ⟨⟨w, rest⟩, value, read⟩ := bind_ok read
    dsimp only at read
    split at read
    · cases read
      rw [value_obj_iff value]
      constructor
      · rintro ⟨u, skipped⟩
        exact ⟨u, spaces_of_skipSpaces skipped⟩
      · rintro ⟨u, spaces⟩
        exact ⟨u, spaces.skip (stops_cons rfl u)⟩
    · cases read

end LabelAtlas.Json
