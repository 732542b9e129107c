import Mathlib.Data.Nat.Digits.Defs
import LabelAtlas.Export.Value
import LabelAtlas.Proofs.Characters

/-! The notations for a value. A value is written in one of seven ways, and a text is read as a
number exactly if it is written in one of them. It is then the number that its digits stand for by
their places. -/
namespace LabelAtlas

/-- What may stand in front of digits to name their base. -/
def Base.front : Base → Text
  | two => "0b"
  | ten => []
  | sixteen => "0x"

namespace Numeral

open Text

variable {b : Base}

/-- Digits, the highest first, as they are written in lower case. -/
def spell (ds : List (Fin b.value)) : Text :=
  ds.map fun d : Fin b.value => .scalar (Nat.digitChar d)

/-- The number that digits stand for by their places. -/
def positional (ds : List (Fin b.value)) : Nat :=
  Nat.ofDigits b.value (ds.map Fin.val).reverse

/-- One or more digits, and the number they stand for. Decimal digits are limited in number. -/
inductive IsDigits (b : Base) : Text → Nat → Prop where
  | intro (ds : List (Fin b.value)) (some_digit : ds ≠ [])
      (short : b = .ten → ds.length ≤ maxDigits) : IsDigits b (spell ds) (positional ds)

theorem IsDigits.of_sixteen {ds : List (Fin Base.sixteen.value)} (some_digit : ds ≠ []) :
    IsDigits .sixteen (spell ds) (positional ds) := by
  refine .intro ds some_digit ?_
  intro decimal
  cases decimal

/-- Digits with or without the front of their base. -/
inductive IsUnsigned (b : Base) : Text → Nat → Prop where
  | plain {t : Text} {n : Nat} (digits : IsDigits b t n) : IsUnsigned b t n
  | fronted {t : Text} {n : Nat} (digits : IsDigits b t n) : IsUnsigned b (b.front ++ t) n

/-- A numeral with or without a sign, and the number it stands for. -/
inductive IsSigned (b : Base) : Text → Int → Prop where
  | plain {t : Text} {n : Nat} (unsigned : IsUnsigned b t n) : IsSigned b t n
  | plus {t : Text} {n : Nat} (unsigned : IsUnsigned b t n) : IsSigned b (.scalar '+' :: t) n
  | minus {t : Text} {n : Nat} (unsigned : IsUnsigned b t n) : IsSigned b (.scalar '-' :: t) (-n)

/-! ## Characters of numerals -/

/-- The ASCII characters that are neither blanks nor capital letters. -/
def isNormal (c : CodePoint) : Bool :=
  c.toNat < 128 && !isBlank c && !inRanges [(65, 90)] c.toNat

theorem exists_ascii {c : CodePoint} (ascii : c.toNat < 128) :
    ∃ i : Fin 128, c = .scalar (Char.ofNat i) := by
  cases c with
  | scalar c => exact ⟨⟨c.toNat, ascii⟩, congrArg CodePoint.scalar (Char.ofNat_toNat c).symm⟩
  | surrogate n =>
    simp only [CodePoint.toNat, CodePoint.firstSurrogate] at ascii
    omega

theorem exists_normal {c : CodePoint} (normal : isNormal c = true) :
    ∃ i : Fin 128, c = .scalar (Char.ofNat i) := by
  simp only [isNormal, Bool.and_eq_true, decide_eq_true_eq] at normal
  exact exists_ascii normal.1.1

theorem not_isBlank_of_isNormal {c : CodePoint} (normal : isNormal c = true) :
    isBlank c = false := by
  simp only [isNormal, Bool.and_eq_true, Bool.not_eq_true'] at normal
  exact normal.1.2

/-- A character is a digit only if it is written for one. -/
theorem digit?_eq_some {c : CodePoint} (normal : isNormal c = true) {n : Nat}
    (read : digit? b c = some n) : ∃ d : Fin b.value, n = d ∧ c = .scalar (Nat.digitChar d) := by
  have each : ∀ i : Fin 128, isNormal (.scalar (Char.ofNat i)) = true →
      ∀ n ∈ digit? b (.scalar (Char.ofNat i)),
        n < b.value ∧ CodePoint.scalar (Char.ofNat i) = .scalar (Nat.digitChar n) := by
    cases b <;> decide +kernel
  obtain ⟨i, rfl⟩ := exists_normal normal
  obtain ⟨small, same⟩ := each i normal n read
  exact ⟨⟨n, small⟩, rfl, same⟩

theorem digit?_digitChar (d : Fin b.value) :
    digit? b (.scalar (Nat.digitChar d)) = some d.val := by
  revert d
  cases b <;> decide +kernel

/-- No digit is the letter that names the base. -/
theorem marker_digitChar (d : Fin b.value) :
    b.marker.contains (.scalar (Nat.digitChar d)) = false := by
  revert d
  cases b <;> decide +kernel

/-! ## Digits -/

theorem mem_spell {c : CodePoint} {ds : List (Fin b.value)} (member : c ∈ spell ds) :
    ∃ d : Fin b.value, c = .scalar (Nat.digitChar d) := by
  obtain ⟨d, -, rfl⟩ := List.mem_map.mp member
  exact ⟨d, rfl⟩

theorem mapM_digit?_spell (ds : List (Fin b.value)) :
    (spell ds).mapM (digit? b) = some (ds.map Fin.val) := by
  induction ds with
  | nil => rfl
  | cons d ds ih =>
    rw [spell] at ih ⊢
    rw [List.map_cons, List.mapM_cons, digit?_digitChar, ih]
    rfl

theorem exists_spell {t : Text} (normal : ∀ c ∈ t, isNormal c = true) {ns : List Nat}
    (read : t.mapM (digit? b) = some ns) :
    ∃ ds : List (Fin b.value), t = spell ds ∧ ns = ds.map Fin.val := by
  induction t generalizing ns with
  | nil =>
    cases read
    exact ⟨[], rfl, rfl⟩
  | cons c t ih =>
    rw [List.forall_mem_cons] at normal
    rw [List.mapM_cons] at read
    obtain ⟨n, first, read⟩ := Option.bind_eq_some_iff.mp read
    obtain ⟨rest, others, read⟩ := Option.bind_eq_some_iff.mp read
    cases read
    obtain ⟨d, rfl, rfl⟩ := digit?_eq_some normal.1 first
    obtain ⟨ds, rfl, rfl⟩ := ih normal.2 others
    exact ⟨d :: ds, rfl, rfl⟩

theorem ofDigits_eq_positional (ds : List (Fin b.value)) :
    ofDigits b (ds.map Fin.val) = positional ds := by
  rw [positional, Nat.ofDigits_eq_foldr, List.foldr_reverse, ofDigits]
  simp only [Nat.cast_id, Nat.mul_comm, Nat.add_comm]

theorem positional_concat (ds : List (Fin b.value)) (d : Fin b.value) :
    positional (ds ++ [d]) = positional ds * b.value + d := by
  rw [← ofDigits_eq_positional, ← ofDigits_eq_positional, List.map_append, ofDigits,
    List.foldl_append]
  rfl

/-- The digits that are written for a number stand for it. -/
theorem exists_digits (b : Base) (n : Nat) :
    ∃ ds : List (Fin b.value), ds ≠ [] ∧ digits b.value n = spell ds ∧ positional ds = n := by
  have base : 1 < b.value := by cases b <;> decide
  induction n using Nat.strongRecOn with
  | _ n ih =>
    -- The last digit is written behind the digits of what is left without it.
    by_cases small : n < b.value
    · refine ⟨[⟨n, small⟩], List.cons_ne_nil _ _, ?_, Nat.ofDigits_singleton⟩
      rw [digits, Nat.toDigits_of_lt_base small]
      rfl
    · obtain ⟨ds, -, written, value⟩ := ih (n / b.value) (Nat.div_lt_self (by omega) base)
      refine ⟨ds ++ [⟨n % b.value, Nat.mod_lt n (by omega)⟩], by simp, ?_, ?_⟩
      · rw [digits] at written
        rw [digits, Nat.toDigits_of_base_le base (by omega), List.map_append, written, spell, spell,
          List.map_append]
        rfl
      · rw [positional_concat, value]
        exact Nat.div_add_mod' n b.value

/-- Digits are read as what they stand for, and nothing else is read. -/
theorem natOf?_eq_some_iff {t : Text} (normal : ∀ c ∈ t, isNormal c = true) {n : Nat} :
    natOf? b t = some n ↔ IsDigits b t n := by
  have allowed (ds : List (Fin b.value)) :
      ((spell ds).isEmpty || (decide (b = .ten) && decide (maxDigits < (spell ds).length))) = false
        ↔ ds ≠ [] ∧ (b = .ten → ds.length ≤ maxDigits) := by
    simp [spell]
  constructor
  · intro read
    rw [natOf?] at read
    split at read
    · cases read
    · rename_i limits
      obtain ⟨ns, each, rfl⟩ := Option.map_eq_some_iff.mp read
      obtain ⟨ds, rfl, rfl⟩ := exists_spell normal each
      obtain ⟨some_digit, short⟩ := (allowed ds).mp (Bool.not_eq_true _ ▸ limits)
      rw [ofDigits_eq_positional]
      exact .intro ds some_digit short
  · rintro ⟨ds, some_digit, short⟩
    rw [natOf?, (allowed ds).mpr ⟨some_digit, short⟩, mapM_digit?_spell, ← ofDigits_eq_positional]
    rfl

/-! ## Fronts and signs -/

theorem IsDigits.dropMarker_eq {t : Text} {n : Nat} (digits : IsDigits b t n) :
    dropMarker b t = t := by
  obtain ⟨ds, -, -⟩ := digits
  match ds with
  | [] => rfl
  | [d] => rfl
  | d :: e :: ds =>
    show dropMarker b (.scalar (Nat.digitChar d) :: .scalar (Nat.digitChar e) :: spell ds) = _
    rw [dropMarker, marker_digitChar, Bool.and_false, if_neg (by simp)]
    rfl

theorem IsDigits.dropMarker_front {t : Text} {n : Nat} (digits : IsDigits b t n) :
    dropMarker b (b.front ++ t) = t := by
  cases b with
  | two => rfl
  | ten => exact digits.dropMarker_eq
  | sixteen => rfl

/-- If something is dropped, it is the front of the base. -/
theorem dropMarker_cases (b : Base) {t : Text} (normal : ∀ c ∈ t, isNormal c = true) :
    dropMarker b t = t ∨ t = b.front ++ dropMarker b t := by
  unfold dropMarker
  split
  · rename_i z m t
    split
    · rename_i marked
      rw [List.forall_mem_cons, List.forall_mem_cons] at normal
      obtain ⟨i, rfl⟩ := exists_normal normal.1
      obtain ⟨j, rfl⟩ := exists_normal normal.2.1
      have zero : ∀ i : Fin 128, decimalValue? (.scalar (Char.ofNat i)) = some 0 →
          Char.ofNat i = '0' := by decide +kernel
      have letter : ∀ j : Fin 128, isNormal (.scalar (Char.ofNat j)) = true →
          b.marker.contains (.scalar (Char.ofNat j)) = true →
          b.front = [.scalar '0', .scalar (Char.ofNat j)] := by
        cases b <;> decide +kernel
      simp only [Bool.and_eq_true, decide_eq_true_eq] at marked
      right
      rw [letter j normal.2.1 marked.2, zero i marked.1]
      rfl
    · exact .inl rfl
  · exact .inl rfl

theorem natOf?_dropMarker_iff {t : Text} (normal : ∀ c ∈ t, isNormal c = true) {n : Nat} :
    natOf? b (dropMarker b t) = some n ↔ IsUnsigned b t n := by
  constructor
  · intro read
    rcases dropMarker_cases b normal with kept | dropped
    · rw [kept] at read
      exact .plain ((natOf?_eq_some_iff normal).mp read)
    · have inside : ∀ c ∈ dropMarker b t, isNormal c = true :=
        fun c member => normal c (dropped ▸ List.mem_append_right _ member)
      rw [dropped]
      exact .fronted ((natOf?_eq_some_iff inside).mp read)
  · intro unsigned
    cases unsigned with
    | plain digits =>
      rw [digits.dropMarker_eq]
      exact (natOf?_eq_some_iff normal).mpr digits
    | fronted digits =>
      rw [digits.dropMarker_front]
      exact (natOf?_eq_some_iff fun c member => normal c (List.mem_append_right _ member)).mpr digits

/-- A numeral starts with a digit if it has no sign. -/
theorem IsUnsigned.exists_digit {t : Text} {n : Nat} (unsigned : IsUnsigned b t n) :
    ∃ (d : Fin b.value) (u : Text), t = .scalar (Nat.digitChar d) :: u := by
  have first {t : Text} {n : Nat} (digits : IsDigits b t n) :
      ∃ (d : Fin b.value) (u : Text), t = .scalar (Nat.digitChar d) :: u := by
    obtain ⟨ds, some_digit, -⟩ := digits
    obtain ⟨d, ds, rfl⟩ := List.exists_cons_of_ne_nil some_digit
    exact ⟨d, spell ds, rfl⟩
  cases unsigned with
  | plain digits => exact first digits
  | fronted digits =>
    cases b with
    | two => exact ⟨⟨0, by decide⟩, _, rfl⟩
    | ten => exact first digits
    | sixteen => exact ⟨⟨0, by decide⟩, _, rfl⟩

/-- Without blanks there are no margins. -/
theorem trim_solid {t : Text} (solid : ∀ c ∈ t, isBlank c = false) :
    dropEndWhile isMargin (t.dropWhile isMargin) = t := by
  have margin : ∀ c ∈ t, isMargin c = false := by
    intro c member
    rw [isMargin, solid c member, Bool.false_and]
  have start : t.dropWhile isMargin = t := by
    cases t with
    | nil => rfl
    | cons c t => exact List.dropWhile_cons_of_neg (by simp [margin])
  rw [start, dropEndWhile_eq_self margin]

/-- A sign is put on a number after it has become an integer. -/
theorem map_cast (f : Int → Int) (x : Option Nat) :
    Option.map f (x >>= fun m => pure (m : Int)) = x.map fun m : Nat => f m := by
  cases x <;> rfl

/-- A text is read as a number exactly if it is a numeral of the base. -/
theorem intOf?_eq_some_iff {t : Text} (normal : ∀ c ∈ t, isNormal c = true) {n : Int} :
    intOf? b t = some n ↔ IsSigned b t n := by
  have behind {c : CodePoint} {u : Text} (whole : t = c :: u) : ∀ d ∈ u, isNormal d = true :=
    fun d member => normal d (whole ▸ List.mem_cons_of_mem c member)
  have unlike (d : Fin b.value) : Nat.digitChar d ≠ '+' ∧ Nat.digitChar d ≠ '-' := by
    revert d
    cases b <;> decide
  unfold intOf? signed?
  rw [trim_solid fun c member => not_isBlank_of_isNormal (normal c member)]
  simp only [map_cast]
  constructor
  · intro read
    split at read
    · obtain ⟨m, found, rfl⟩ := Option.map_eq_some_iff.mp read
      exact .minus ((natOf?_dropMarker_iff (behind rfl)).mp found)
    · obtain ⟨m, found, rfl⟩ := Option.map_eq_some_iff.mp read
      exact .plus ((natOf?_dropMarker_iff (behind rfl)).mp found)
    · obtain ⟨m, found, rfl⟩ := Option.map_eq_some_iff.mp read
      exact .plain ((natOf?_dropMarker_iff normal).mp found)
  · intro signed
    cases signed with
    | plain unsigned =>
      obtain ⟨d, u, rfl⟩ := unsigned.exists_digit
      have found := (natOf?_dropMarker_iff normal).mpr unsigned
      split
      · rename_i same
        cases (unlike d).2 (CodePoint.scalar.inj (List.cons.inj same).1)
      · rename_i same
        cases (unlike d).1 (CodePoint.scalar.inj (List.cons.inj same).1)
      · rw [found]
        rfl
    | plus unsigned =>
      have found := (natOf?_dropMarker_iff (behind rfl)).mpr unsigned
      exact congrArg (Option.map _) found
    | minus unsigned =>
      have found := (natOf?_dropMarker_iff (behind rfl)).mpr unsigned
      exact congrArg (Option.map _) found

/-- The characters of numerals. -/
def alphabet (b : Base) : Text :=
  "+-" ++ b.front ++ spell (List.finRange b.value)

theorem spell_subset (ds : List (Fin b.value)) : spell ds ⊆ alphabet b := by
  intro c member
  obtain ⟨d, rfl⟩ := mem_spell member
  apply List.mem_append_right
  exact List.mem_map_of_mem (List.mem_finRange d)

theorem IsSigned.subset {t : Text} {n : Int} (signed : IsSigned b t n) : t ⊆ alphabet b := by
  have digits {t : Text} {n : Nat} (digits : IsDigits b t n) : t ⊆ alphabet b := by
    obtain ⟨ds, -, -⟩ := digits
    exact spell_subset ds
  have unsigned {t : Text} {n : Nat} (unsigned : IsUnsigned b t n) : t ⊆ alphabet b := by
    cases unsigned with
    | plain inner => exact digits inner
    | fronted inner =>
      refine List.append_subset.mpr ⟨?_, digits inner⟩
      exact List.subset_append_of_subset_left _ (List.subset_append_right _ _)
  have sign : ∀ c ∈ ("+-" : Text), c ∈ alphabet b := by
    intro c member
    exact List.mem_append_left _ (List.mem_append_left _ member)
  cases signed with
  | plain inner => exact unsigned inner
  | plus inner => exact List.cons_subset.mpr ⟨sign _ (by decide), unsigned inner⟩
  | minus inner => exact List.cons_subset.mpr ⟨sign _ (by decide), unsigned inner⟩

end Numeral

namespace Export

open Text Numeral

/-- The notations for a value, in lower case, and the number that each stands for. -/
inductive Literal : Text → Int → Prop where
  | zeroX {t : Text} {n : Int} (signed : IsSigned .sixteen t n) : Literal ("0x" ++ t) n
  | dollar {t : Text} {n : Int} (signed : IsSigned .sixteen t n) : Literal (.scalar '$' :: t) n
  | hash {t : Text} {n : Int} (signed : IsSigned .sixteen t n) : Literal (.scalar '#' :: t) n
  /-- Hexadecimal digits, the first of them a decimal one, in front of the letter. -/
  | suffixed (d : Fin Base.sixteen.value) (small : d.val < 10)
      (ds : List (Fin Base.sixteen.value)) :
    Literal (spell (d :: ds) ++ [.scalar 'h']) (positional (d :: ds))
  | zeroB {t : Text} {n : Int} (signed : IsSigned .two t n) : Literal ("0b" ++ t) n
  | percent {t : Text} {n : Int} (signed : IsSigned .two t n) : Literal (.scalar '%' :: t) n
  | decimal {t : Text} {n : Int} (signed : IsSigned .ten t n) : Literal t n

/-! ## Which notation it is -/

variable {t : Text}

theorem numeralOf?_suffixed (no_x : .scalar 'x' ∉ t) (no_dollar : .scalar '$' ∉ t)
    (no_hash : .scalar '#' ∉ t) (ends : endsWithH t = true) (starts : startsWithDigit t = true) :
    numeralOf? t = intOf? .sixteen t.dropLast := by
  unfold numeralOf?
  split
  · simp at no_x
  · simp at no_dollar
  · simp at no_hash
  · rw [ends, starts, Bool.and_true, if_pos rfl]

theorem numeralOf?_zeroB (ends : endsWithH (.scalar '0' :: .scalar 'b' :: t) = false) :
    numeralOf? (.scalar '0' :: .scalar 'b' :: t) = intOf? .two t := by
  refine (if_neg ?_ : numeralOf? (.scalar '0' :: .scalar 'b' :: t) = _)
  rw [ends, Bool.false_and]
  exact Bool.false_ne_true

theorem numeralOf?_percent (t : Text) : numeralOf? (.scalar '%' :: t) = intOf? .two t := by
  refine (if_neg ?_ : numeralOf? (.scalar '%' :: t) = _)
  have starts : startsWithDigit (.scalar '%' :: t) = false := by
    show (decimalValue? (.scalar '%')).isSome = false
    decide +kernel
  rw [starts, Bool.and_false]
  exact Bool.false_ne_true

theorem numeralOf?_decimal (no_x : .scalar 'x' ∉ t) (no_dollar : .scalar '$' ∉ t)
    (no_hash : .scalar '#' ∉ t) (no_b : .scalar 'b' ∉ t) (no_percent : .scalar '%' ∉ t)
    (no_h : .scalar 'h' ∉ t) : numeralOf? t = intOf? .ten t := by
  have ends : endsWithH t = false :=
    decide_eq_false fun last => no_h (List.mem_of_getLast? last)
  unfold numeralOf?
  split
  · simp at no_x
  · simp at no_dollar
  · simp at no_hash
  · rw [ends, Bool.false_and, if_neg (by simp)]
    split
    · simp at no_b
    · simp at no_percent
    · rfl

theorem startsWithDigit_spell (d : Fin Base.sixteen.value) (u : Text) :
    startsWithDigit (.scalar (Nat.digitChar d) :: u) = true ↔ d.val < 10 := by
  have each : ∀ d : Fin Base.sixteen.value,
      (decimalValue? (.scalar (Nat.digitChar d))).isSome = true ↔ d.val < 10 := by decide +kernel
  exact each d

/-- What is hexadecimal because of the letter behind it has neither a sign nor a front. -/
theorem Literal.of_suffix {n : Int} (signed : IsSigned .sixteen t n)
    (starts : startsWithDigit (t ++ [.scalar 'h']) = true)
    (unfronted : ∀ u, t ++ [.scalar 'h'] ≠ .scalar '0' :: .scalar 'x' :: u) :
    Literal (t ++ [.scalar 'h']) n := by
  have digit : ∀ c : CodePoint, ∀ u, startsWithDigit (c :: u) = (decimalValue? c).isSome :=
    fun _ _ => rfl
  cases signed with
  | plain unsigned =>
    cases unsigned with
    | plain digits =>
      obtain ⟨ds, some_digit, -⟩ := digits
      obtain ⟨d, ds, rfl⟩ := List.exists_cons_of_ne_nil some_digit
      exact .suffixed d ((startsWithDigit_spell d _).mp starts) ds
    | fronted digits => cases unfronted _ rfl
  | plus unsigned =>
    rw [List.cons_append, digit] at starts
    exact absurd starts (by decide +kernel)
  | minus unsigned =>
    rw [List.cons_append, digit] at starts
    exact absurd starts (by decide +kernel)

theorem exists_of_endsWithH (ends : endsWithH t = true) : ∃ u, t = u ++ [.scalar 'h'] := by
  obtain ⟨u, same⟩ := List.getLast?_eq_some_iff.mp (of_decide_eq_true ends)
  exact ⟨u, same⟩

/-- Digits in front of the letter are read in base sixteen, if the first one is decimal. -/
theorem numeralOf?_digits_h (d : Fin Base.sixteen.value) (small : d.val < 10)
    (ds : List (Fin Base.sixteen.value)) :
    numeralOf? (spell (d :: ds) ++ [.scalar 'h']) = intOf? .sixteen (spell (d :: ds)) := by
  have other (c : CodePoint) (unlike : c ≠ .scalar 'h')
      (no_digit : ∀ e : Fin Base.sixteen.value, c ≠ .scalar (Nat.digitChar e)) :
      c ∉ spell (d :: ds) ++ [.scalar 'h'] := by
    intro member
    rcases List.mem_append.mp member with digit | last
    · obtain ⟨e, same⟩ := mem_spell digit
      exact no_digit e same
    · exact unlike (List.mem_singleton.mp last)
  have ends : endsWithH (spell (d :: ds) ++ [.scalar 'h']) = true := by
    rw [endsWithH, List.getLast?_concat, decide_eq_true rfl]
  have starts := (startsWithDigit_spell d (spell ds ++ [.scalar 'h'])).mpr small
  rw [numeralOf?_suffixed (other _ (by decide) (by decide)) (other _ (by decide) (by decide))
    (other _ (by decide) (by decide)) ends starts, List.dropLast_concat]

theorem not_endsWithH_of_binary {n : Int} (signed : IsSigned .two t n) :
    endsWithH (.scalar '0' :: .scalar 'b' :: t) = false := by
  apply decide_eq_false
  intro last
  have inside : .scalar '0' :: .scalar 'b' :: t ⊆ alphabet .two :=
    List.cons_subset.mpr ⟨by decide, List.cons_subset.mpr ⟨by decide, signed.subset⟩⟩
  exact absurd (inside (List.mem_of_getLast? last)) (by decide)

/-- A normalized text is read as a number exactly if it is written in one of the notations. -/
theorem numeralOf?_eq_some_iff (normal : ∀ c ∈ t, isNormal c = true) {n : Int} :
    numeralOf? t = some n ↔ Literal t n := by
  have behind {c : CodePoint} {u : Text} (whole : t = c :: u) : ∀ d ∈ u, isNormal d = true :=
    fun d member => normal d (whole ▸ List.mem_cons_of_mem c member)
  have behind_two {c d : CodePoint} {u : Text} (whole : t = c :: d :: u) :
      ∀ e ∈ u, isNormal e = true :=
    fun e member => behind whole e (List.mem_cons_of_mem d member)
  have before {u : Text} (whole : t = u ++ [.scalar 'h']) : ∀ d ∈ u, isNormal d = true :=
    fun d member => normal d (whole ▸ List.mem_append_left _ member)
  constructor
  · intro read
    unfold numeralOf? at read
    split at read
    · exact .zeroX ((intOf?_eq_some_iff (behind_two rfl)).mp read)
    · exact .dollar ((intOf?_eq_some_iff (behind rfl)).mp read)
    · exact .hash ((intOf?_eq_some_iff (behind rfl)).mp read)
    · rename_i unfronted _ _
      split at read
      · -- The letter behind goes before a binary front, which is then two digits.
        rename_i suffix
        obtain ⟨ends, starts⟩ := Bool.and_eq_true_iff.mp suffix
        obtain ⟨u, rfl⟩ := exists_of_endsWithH ends
        rw [List.dropLast_concat] at read
        exact .of_suffix ((intOf?_eq_some_iff (before rfl)).mp read) starts unfronted
      · split at read
        · exact .zeroB ((intOf?_eq_some_iff (behind_two rfl)).mp read)
        · exact .percent ((intOf?_eq_some_iff (behind rfl)).mp read)
        · exact .decimal ((intOf?_eq_some_iff normal).mp read)
  · intro literal
    cases literal with
    | zeroX signed => exact (intOf?_eq_some_iff (behind_two rfl)).mpr signed
    | dollar signed => exact (intOf?_eq_some_iff (behind rfl)).mpr signed
    | hash signed => exact (intOf?_eq_some_iff (behind rfl)).mpr signed
    | suffixed d small ds =>
      rw [numeralOf?_digits_h d small ds]
      apply (intOf?_eq_some_iff (before rfl)).mpr
      exact .plain (.plain (.of_sixteen (List.cons_ne_nil d ds)))
    | zeroB signed =>
      have read := (intOf?_eq_some_iff (behind_two rfl)).mpr signed
      exact (numeralOf?_zeroB (not_endsWithH_of_binary signed)).trans read
    | percent signed =>
      exact (numeralOf?_percent _).trans ((intOf?_eq_some_iff (behind rfl)).mpr signed)
    | decimal signed =>
      have other (c : CodePoint) (unlike : c ∉ alphabet .ten) : c ∉ t := fun member =>
        unlike (signed.subset member)
      rw [numeralOf?_decimal (other _ (by decide)) (other _ (by decide)) (other _ (by decide))
        (other _ (by decide)) (other _ (by decide)) (other _ (by decide))]
      exact (intOf?_eq_some_iff normal).mpr signed

/-! ## Values -/

theorem mem_strip {c : CodePoint} (member : c ∈ strip t) : c ∈ t :=
  List.dropWhile_subset isBlank (stripEnd_subset member)

/-- Lower case is all that a solid ASCII text lacks to be normal. -/
theorem isNormal_toLower {c : CodePoint} (ascii : c.toNat < 128) (solid : isBlank c = false) :
    isNormal c.toLower = true := by
  have each : ∀ i : Fin 128, isBlank (.scalar (Char.ofNat i)) = false →
      isNormal (CodePoint.toLower (.scalar (Char.ofNat i))) = true := by decide +kernel
  obtain ⟨i, rfl⟩ := exists_ascii ascii
  exact each i solid

theorem normalize_normal (ascii : ∀ c ∈ t, c.toNat < 128)
    (solid : ∀ c ∈ strip t, isBlank c = false) : ∀ c ∈ normalize t, isNormal c = true := by
  intro c member
  obtain ⟨d, kept, rfl⟩ := List.mem_map.mp member
  have inside := List.mem_of_mem_filter kept
  exact isNormal_toLower (ascii d (mem_strip inside)) (solid d inside)

/-- A literal is read as it stands, in upper or lower case. -/
theorem value?_of_literal {n : Int} (normal : ∀ c ∈ t, isNormal c.toLower = true)
    (no_underscore : .scalar '_' ∉ t) (literal : Literal (t.map CodePoint.toLower) n) :
    value? t = some n := by
  have solid : ∀ c ∈ t, isBlank c = false := by
    intro c member
    by_contra blank
    rw [Bool.not_eq_false] at blank
    have other := not_isBlank_of_isNormal (normal c member)
    rw [toLower_of_isBlank blank, blank] at other
    cases other
  have kept : t.filter (fun c => c ≠ .scalar '_') = t := by
    rw [List.filter_eq_self]
    intro c member
    exact decide_eq_true fun same => no_underscore (same ▸ member)
  rw [value?, normalize, strip, stripStart_solid solid, stripEnd_solid solid, kept]
  apply (numeralOf?_eq_some_iff ?_).mpr literal
  exact List.forall_mem_map.mpr normal

/-- An ASCII text without blanks inside is read as a number exactly if, without margins, underscores
and upper case, it is written in one of the notations. It is then the number that is written, and
else it is none. -/
theorem number_iff_literal {t : Text} (ascii : ∀ c ∈ t, c.toNat < 128)
    (solid : ∀ c ∈ strip t, isBlank c = false) :
    (∀ n, value? t = some n ↔ Literal (normalize t) n) ∧
    (value? t = none ↔ ¬∃ n, Literal (normalize t) n) := by
  have normal := normalize_normal ascii solid
  have number (n : Int) : value? t = some n ↔ Literal (normalize t) n :=
    numeralOf?_eq_some_iff normal
  refine ⟨number, ?_⟩
  rw [Option.eq_none_iff_forall_ne_some, not_exists]
  exact forall_congr' fun n => not_congr (number n)

/-- What looks like a binary front belongs to the digits if the letter is behind them. -/
theorem number_iff_literal_suffix :
    let t : Text := " 0B_1H\t"
    (∀ c ∈ t, c.toNat < 128) ∧ (∀ c ∈ strip t, isBlank c = false) ∧
    Literal (normalize t) 0xB1 ∧ value? t = some 0xB1 := by
  intro t
  have ascii : ∀ c ∈ t, c.toNat < 128 := by decide
  have solid : ∀ c ∈ strip t, isBlank c = false := by decide
  have literal : Literal (normalize t) 0xB1 :=
    .suffixed ⟨0, by decide⟩ (by decide) [⟨11, by decide⟩, ⟨1, by decide⟩]
  exact ⟨ascii, solid, literal, ((number_iff_literal ascii solid).1 _).mpr literal⟩

end Export

end LabelAtlas
