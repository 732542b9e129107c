import LabelAtlas.Proofs.Decoding
import LabelAtlas.Proofs.Grammar
import LabelAtlas.Settings.File

/-! Settings files that are refused. The line breaks of a file are made one kind before it is read,
which does not change what it says: a line break only stands where a space may stand. -/
namespace LabelAtlas

/-! ## Line breaks -/

namespace Text

/-- A text in which no line ends. -/
def Unbroken (t : Text) : Prop :=
  ∀ c ∈ t, c ≠ .scalar '\r' ∧ c ≠ .scalar '\n'

instance (t : Text) : Decidable (Unbroken t) :=
  inferInstanceAs (Decidable (∀ c ∈ t, c ≠ .scalar '\r' ∧ c ≠ .scalar '\n'))

theorem unifyBreaks_cons {c : CodePoint} (other : c ≠ .scalar '\r') (t : Text) :
    unifyBreaks (c :: t) = c :: unifyBreaks t := by
  rw [unifyBreaks.eq_3 c t fun _ same _ => other same, if_neg other]

theorem unifyBreaks_unbroken {s : Text} (unbroken : Unbroken s) (t : Text) :
    unifyBreaks (s ++ t) = s ++ unifyBreaks t := by
  induction s with
  | nil => rfl
  | cons c s ih =>
    obtain ⟨first, others⟩ := List.forall_mem_cons.mp unbroken
    rw [List.cons_append, unifyBreaks_cons first.1, ih others, List.cons_append]

/-- Texts are joined as they are, unless one break is made of both. -/
theorem unifyBreaks_append (s : Text) {t : Text} (apart : t.head? ≠ some (.scalar '\n')) :
    unifyBreaks (s ++ t) = unifyBreaks s ++ unifyBreaks t := by
  fun_induction unifyBreaks s with
  | case1 => rfl
  | case2 s ih => exact congrArg (.scalar '\n' :: ·) ih
  | case3 c s alone ih =>
    have still : ∀ u, c = .scalar '\r' → s ++ t = .scalar '\n' :: u → False := by
      intro u carriage feed
      cases s with
      | nil => exact apart (congrArg List.head? feed)
      | cons d s => exact alone s carriage (congrArg (· :: s) (List.cons.inj feed).1)
    rw [List.cons_append, unifyBreaks.eq_3 c (s ++ t) still, ih, List.cons_append]

/-- A text with its breaks unified splits only where the text itself splits. -/
theorem exists_split {t a b : Text} (split : unifyBreaks t = a ++ b) :
    ∃ s u, t = s ++ u ∧ unifyBreaks s = a ∧ unifyBreaks u = b := by
  fun_induction unifyBreaks t generalizing a with
  | case1 =>
    obtain ⟨rfl, rfl⟩ := List.append_eq_nil_iff.mp split.symm
    exact ⟨[], [], rfl, rfl, rfl⟩
  | case2 t ih =>
    cases a with
    | nil => exact ⟨[], _, rfl, rfl, split⟩
    | cons d a =>
      obtain ⟨rfl, rest⟩ := List.cons.inj split
      obtain ⟨s, u, rfl, front, back⟩ := ih rest
      exact ⟨.scalar '\r' :: .scalar '\n' :: s, u, rfl, congrArg _ front, back⟩
  | case3 c t alone ih =>
    cases a with
    | nil => exact ⟨[], c :: t, rfl, rfl, (unifyBreaks.eq_3 c t alone).trans split⟩
    | cons d a =>
      obtain ⟨rfl, rest⟩ := List.cons.inj split
      obtain ⟨s, u, rfl, rfl, back⟩ := ih rest
      refine ⟨c :: s, u, rfl, unifyBreaks.eq_3 c s fun v carriage feed => ?_, back⟩
      exact alone (v ++ u) carriage (congrArg (· ++ u) feed)

theorem eq_nil_of_unifyBreaks {t : Text} (none : unifyBreaks t = []) : t = [] := by
  fun_cases unifyBreaks t with
  | case1 => rfl
  | case2 => cases none
  | case3 c t alone =>
    rw [unifyBreaks.eq_3 c t alone] at none
    cases none

theorem cons_of_unifyBreaks {t rest : Text} {c : CodePoint} (other : c ≠ .scalar '\n')
    (start : unifyBreaks t = c :: rest) : ∃ u, t = c :: u ∧ unifyBreaks u = rest := by
  fun_cases unifyBreaks t with
  | case1 => cases start
  | case2 t => exact absurd (List.cons.inj start).1.symm other
  | case3 d t alone =>
    rw [unifyBreaks.eq_3 d t alone] at start
    obtain ⟨first, rest⟩ := List.cons.inj start
    split at first
    · exact absurd first.symm other
    · exact ⟨t, congrArg (· :: t) first, rest⟩

theorem append_of_unifyBreaks {t s rest : Text} (unbroken : Unbroken s)
    (start : unifyBreaks t = s ++ rest) : ∃ u, t = s ++ u ∧ unifyBreaks u = rest := by
  induction s generalizing t with
  | nil => exact ⟨t, rfl, start⟩
  | cons c s ih =>
    obtain ⟨first, others⟩ := List.forall_mem_cons.mp unbroken
    obtain ⟨u, rfl, behind⟩ := cons_of_unifyBreaks first.2 start
    obtain ⟨v, rfl, rest⟩ := ih others behind
    exact ⟨v, rfl, rest⟩

theorem mem_unifyBreaks {c : CodePoint} {t : Text} (member : c ∈ unifyBreaks t) :
    c = .scalar '\n' ∨ c ∈ t := by
  fun_induction unifyBreaks t with
  | case1 => cases member
  | case2 t ih =>
    rcases List.mem_cons.mp member with feed | later
    · exact .inl feed
    · exact (ih later).imp_right fun there => List.mem_cons_of_mem _ (List.mem_cons_of_mem _ there)
  | case3 d t alone ih =>
    rcases List.mem_cons.mp member with first | later
    · split at first
      · exact .inl first
      · exact .inr (first ▸ List.mem_cons_self)
    · exact (ih later).imp_right (List.mem_cons_of_mem _)

theorem mem_of_unifyBreaks {c : CodePoint} {t : Text} (member : c ∈ t) :
    c = .scalar '\r' ∨ c ∈ unifyBreaks t := by
  fun_induction unifyBreaks t with
  | case1 => cases member
  | case2 t ih =>
    rcases List.mem_cons.mp member with carriage | later
    · exact .inl carriage
    · rcases List.mem_cons.mp later with rfl | later
      · exact .inr List.mem_cons_self
      · exact (ih later).imp_right (List.mem_cons_of_mem _)
  | case3 d t alone ih =>
    rcases List.mem_cons.mp member with rfl | later
    · by_cases carriage : c = .scalar '\r'
      · exact .inl carriage
      · rw [if_neg carriage]
        exact .inr List.mem_cons_self
    · exact (ih later).imp_right (List.mem_cons_of_mem _)

end Text

namespace Json

open Text (unifyBreaks Unbroken)

theorem Spaces.unify {t rest : Text} (spaces : Spaces t rest)
    (apart : rest.head? ≠ some (.scalar '\n')) : Spaces (unifyBreaks t) (unifyBreaks rest) := by
  obtain ⟨s, all_spaces, rfl⟩ := spaces
  refine ⟨unifyBreaks s, fun c member => ?_, Text.unifyBreaks_append s apart⟩
  obtain rfl | there := Text.mem_unifyBreaks member
  · rfl
  · exact all_spaces c there

theorem Spaces.of_unify {t r : Text} (spaces : Spaces (unifyBreaks t) r) :
    ∃ rest, unifyBreaks rest = r ∧ Spaces t rest := by
  obtain ⟨s, all_spaces, split⟩ := spaces
  obtain ⟨a, rest, rfl, rfl, behind⟩ := Text.exists_split split
  refine ⟨rest, behind, a, fun c member => ?_, rfl⟩
  obtain rfl | there := Text.mem_of_unifyBreaks member
  · rfl
  · exact all_spaces c there

theorem Spaces.unify_mark {t rest : Text} {c : CodePoint} (spaces : Spaces t (c :: rest))
    (mark : Unbroken [c]) : Spaces (unifyBreaks t) (c :: unifyBreaks rest) := by
  obtain ⟨noReturn, noFeed⟩ := mark c List.mem_cons_self
  have unified := spaces.unify fun first => noFeed (Option.some.inj first)
  rwa [Text.unifyBreaks_cons noReturn] at unified

theorem Spaces.of_unify_mark {t r : Text} {c : CodePoint} (other : c ≠ .scalar '\n')
    (spaces : Spaces (unifyBreaks t) (c :: r)) :
    ∃ rest, unifyBreaks rest = r ∧ Spaces t (c :: rest) := by
  obtain ⟨u, start, spaces⟩ := spaces.of_unify
  obtain ⟨rest, rfl, behind⟩ := Text.cons_of_unifyBreaks other start
  exact ⟨rest, behind, spaces⟩

theorem unbroken_of_isDigit {t : Text} (all_digits : ∀ c ∈ t, c.isDigit = true) : Unbroken t := by
  intro c member
  have digit := all_digits c member
  constructor <;>
  · rintro rfl
    exact absurd digit (by decide)

theorem unbroken_append {s t : Text} (first : Unbroken s) (second : Unbroken t) :
    Unbroken (s ++ t) :=
  fun c member => (List.mem_append.mp member).elim (first c) (second c)

theorem IsDigits.unbroken {t : Text} (digits : IsDigits t) : Unbroken t :=
  unbroken_of_isDigit digits.2

theorem IsWhole.unbroken {t : Text} (digits : IsWhole t) : Unbroken t := by
  obtain rfl | ⟨digits, -⟩ := digits
  · decide
  · exact digits.unbroken

theorem IsFraction.unbroken {t : Text} (part : IsFraction t) : Unbroken t := by
  obtain ⟨digits, some_digits, rfl⟩ := part
  exact unbroken_append (s := [_]) (by decide) some_digits.unbroken

theorem IsExponent.unbroken {t : Text} (part : IsExponent t) : Unbroken t := by
  obtain ⟨mark, sign, digits, marked, signed, some_digits, rfl⟩ := part
  have letter : ∀ mark ∈ ("eE" : Text), Unbroken [mark] := by decide
  have signs : ∀ sign ∈ ([[], "+", "-"] : List Text), Unbroken sign := by decide
  exact unbroken_append (letter mark marked)
    (unbroken_append (signs sign signed) some_digits.unbroken)

theorem IsNumber.unbroken {sign whole fraction exponent : Text}
    (parts : IsNumber sign whole fraction exponent) :
    Unbroken sign ∧ Unbroken whole ∧ Unbroken fraction ∧ Unbroken exponent := by
  refine ⟨?_, parts.whole.unbroken, ?_, ?_⟩
  · obtain rfl | rfl := parts.sign <;> decide
  · obtain rfl | part := parts.fraction
    · decide
    · exact part.unbroken
  · obtain rfl | part := parts.exponent
    · decide
    · exact part.unbroken

theorem unbroken_word : ∀ word ∈ valueWords, Unbroken word := by
  decide

theorem unbroken_escape : ∀ c ∈ ("\"\\/bfnrt" : Text), Unbroken [.scalar '\\', c] := by
  decide

theorem unbroken_unicode {digits : Text} (hex : ∀ d ∈ digits, d ∈ hexDigits) :
    Unbroken (.scalar '\\' :: .scalar 'u' :: digits) := by
  have each : ∀ d ∈ hexDigits, d ≠ .scalar '\r' ∧ d ≠ .scalar '\n' := by decide
  exact unbroken_append (s := "\\u") (by decide) fun d member => each d (hex d member)

theorem unbroken_visible {c : CodePoint} (visible : 0x20 ≤ c.toNat) : Unbroken [c] := by
  intro d member
  obtain rfl := List.mem_singleton.mp member
  constructor <;>
  · rintro rfl
    exact absurd visible (by decide)

theorem Chars.unify {t rest : Text} (chars : Chars t rest) :
    Chars (unifyBreaks t) (unifyBreaks rest) := by
  induction chars with
  | close rest =>
    rw [Text.unifyBreaks_cons (by decide)]
    exact .close _
  | @plain c t _ visible noQuote noSlash _ ih =>
    have same : unifyBreaks (c :: t) = c :: unifyBreaks t :=
      Text.unifyBreaks_unbroken (unbroken_visible visible) t
    rw [same]
    exact .plain visible noQuote noSlash ih
  | @escape c t _ named _ ih =>
    have same : unifyBreaks (.scalar '\\' :: c :: t) = .scalar '\\' :: c :: unifyBreaks t :=
      Text.unifyBreaks_unbroken (unbroken_escape c named) t
    rw [same]
    exact .escape named ih
  | @unicode digits t _ four hex _ ih =>
    have same : unifyBreaks (.scalar '\\' :: .scalar 'u' :: (digits ++ t)) =
        .scalar '\\' :: .scalar 'u' :: (digits ++ unifyBreaks t) :=
      Text.unifyBreaks_unbroken (unbroken_unicode hex) t
    rw [same]
    exact .unicode four hex ih

theorem Chars.of_unify {w r : Text} (chars : Chars w r) {t : Text} (same : unifyBreaks t = w) :
    ∃ rest, unifyBreaks rest = r ∧ Chars t rest := by
  induction chars generalizing t with
  | close r =>
    obtain ⟨rest, rfl, behind⟩ := Text.cons_of_unifyBreaks (by decide) same
    exact ⟨rest, behind, .close rest⟩
  | @plain c _ _ visible noQuote noSlash _ ih =>
    obtain ⟨u, rfl, behind⟩ := Text.append_of_unifyBreaks (unbroken_visible visible) same
    obtain ⟨rest, last, more⟩ := ih behind
    exact ⟨rest, last, .plain visible noQuote noSlash more⟩
  | @escape c _ _ named _ ih =>
    obtain ⟨u, rfl, behind⟩ := Text.append_of_unifyBreaks (unbroken_escape c named) same
    obtain ⟨rest, last, more⟩ := ih behind
    exact ⟨rest, last, .escape named more⟩
  | unicode four hex _ ih =>
    obtain ⟨u, rfl, behind⟩ := Text.append_of_unifyBreaks (unbroken_unicode hex) same
    obtain ⟨rest, last, more⟩ := ih behind
    exact ⟨rest, last, .unicode four hex more⟩

theorem Key.unify {t rest : Text} (key : Key t rest) (apart : rest.head? ≠ some (.scalar '\n')) :
    Key (unifyBreaks t) (unifyBreaks rest) := by
  obtain ⟨u, v, w, rfl, chars, colon, spaces⟩ := key
  exact ⟨_, _, _, Text.unifyBreaks_cons (by decide) u, chars.unify, colon.unify_mark (by decide),
    spaces.unify apart⟩

theorem Key.of_unify {t r : Text} (key : Key (unifyBreaks t) r) :
    ∃ rest, unifyBreaks rest = r ∧ Key t rest := by
  obtain ⟨u', v', w', start, chars', colon', spaces'⟩ := key
  obtain ⟨u, rfl, behind⟩ := Text.cons_of_unifyBreaks (by decide) start
  obtain ⟨v, rfl, chars⟩ := chars'.of_unify behind
  obtain ⟨w, rfl, colon⟩ := colon'.of_unify_mark (by decide)
  obtain ⟨rest, same, spaces⟩ := spaces'.of_unify
  exact ⟨rest, same, u, v, w, rfl, chars, colon, spaces⟩

theorem Begins.apart {t : Text} (begins : Begins t) : t.head? ≠ some (.scalar '\n') := by
  obtain ⟨c, u, rfl, visible, -⟩ := begins
  intro first
  rw [Option.some.inj first] at visible
  exact absurd visible (by decide)

theorem unifyBreaks_number {sign whole fraction exponent : Text}
    (parts : IsNumber sign whole fraction exponent) (rest : Text) :
    unifyBreaks (sign ++ (whole ++ (fraction ++ (exponent ++ rest)))) =
      sign ++ (whole ++ (fraction ++ (exponent ++ unifyBreaks rest))) := by
  obtain ⟨first, second, third, fourth⟩ := parts.unbroken
  rw [Text.unifyBreaks_unbroken first, Text.unifyBreaks_unbroken second,
    Text.unifyBreaks_unbroken third, Text.unifyBreaks_unbroken fourth]

theorem number_of_unifyBreaks {sign whole fraction exponent t r : Text}
    (parts : IsNumber sign whole fraction exponent)
    (start : unifyBreaks t = sign ++ (whole ++ (fraction ++ (exponent ++ r)))) :
    ∃ rest, unifyBreaks rest = r ∧ t = sign ++ (whole ++ (fraction ++ (exponent ++ rest))) := by
  obtain ⟨first, second, third, fourth⟩ := parts.unbroken
  obtain ⟨u, rfl, digits⟩ := Text.append_of_unifyBreaks first start
  obtain ⟨v, rfl, point⟩ := Text.append_of_unifyBreaks second digits
  obtain ⟨w, rfl, mark⟩ := Text.append_of_unifyBreaks third point
  obtain ⟨rest, rfl, behind⟩ := Text.append_of_unifyBreaks fourth mark
  exact ⟨rest, behind, rfl⟩

theorem Derives.unify {p : Phrase} {room : Nat} {t rest : Text} (derives : Derives p room t rest) :
    Derives p room (unifyBreaks t) (unifyBreaks rest) := by
  induction derives with
  | word known rest =>
    rw [Text.unifyBreaks_unbroken (unbroken_word _ known)]
    exact .word known _
  | number parts short rest =>
    rw [unifyBreaks_number parts]
    exact .number parts short _
  | string chars =>
    rw [Text.unifyBreaks_cons (by decide)]
    exact .string chars.unify
  | emptyArray spaces =>
    rw [Text.unifyBreaks_cons (by decide)]
    exact .emptyArray (spaces.unify_mark (by decide))
  | array spaces items ih =>
    rw [Text.unifyBreaks_cons (by decide)]
    exact .array (spaces.unify items.begins.apart) ih
  | emptyObject spaces =>
    rw [Text.unifyBreaks_cons (by decide)]
    exact .emptyObject (spaces.unify_mark (by decide))
  | object spaces members ih =>
    rw [Text.unifyBreaks_cons (by decide)]
    exact .object (spaces.unify members.begins.apart) ih
  | lastItem _ close ih => exact .lastItem ih (close.unify_mark (by decide))
  | nextItem _ comma spaces more ihValue ihMore =>
    exact .nextItem ihValue (comma.unify_mark (by decide)) (spaces.unify more.begins.apart) ihMore
  | lastMember key value close ih =>
    exact .lastMember (key.unify value.begins.apart) ih (close.unify_mark (by decide))
  | nextMember key value comma spaces more ihValue ihMore =>
    exact .nextMember (key.unify value.begins.apart) ihValue (comma.unify_mark (by decide))
      (spaces.unify more.begins.apart) ihMore

theorem Derives.of_unify {p : Phrase} {room : Nat} {w r : Text} (derives : Derives p room w r)
    {t : Text} (same : unifyBreaks t = w) :
    ∃ rest, unifyBreaks rest = r ∧ Derives p room t rest := by
  -- No token has a break in it, so each one is found where it stood before.
  induction derives generalizing t with
  | word known r =>
    obtain ⟨rest, rfl, behind⟩ := Text.append_of_unifyBreaks (unbroken_word _ known) same
    exact ⟨rest, behind, .word known rest⟩
  | number parts short r =>
    obtain ⟨rest, behind, rfl⟩ := number_of_unifyBreaks parts same
    exact ⟨rest, behind, .number parts short rest⟩
  | string chars' =>
    obtain ⟨u, rfl, behind⟩ := Text.cons_of_unifyBreaks (by decide) same
    obtain ⟨rest, last, chars⟩ := chars'.of_unify behind
    exact ⟨rest, last, .string chars⟩
  | emptyArray spaces' =>
    obtain ⟨u, rfl, rfl⟩ := Text.cons_of_unifyBreaks (by decide) same
    obtain ⟨rest, last, spaces⟩ := spaces'.of_unify_mark (by decide)
    exact ⟨rest, last, .emptyArray spaces⟩
  | array spaces' _ ih =>
    obtain ⟨u, rfl, rfl⟩ := Text.cons_of_unifyBreaks (by decide) same
    obtain ⟨v, inside, spaces⟩ := spaces'.of_unify
    obtain ⟨rest, last, items⟩ := ih inside
    exact ⟨rest, last, .array spaces items⟩
  | emptyObject spaces' =>
    obtain ⟨u, rfl, rfl⟩ := Text.cons_of_unifyBreaks (by decide) same
    obtain ⟨rest, last, spaces⟩ := spaces'.of_unify_mark (by decide)
    exact ⟨rest, last, .emptyObject spaces⟩
  | object spaces' _ ih =>
    obtain ⟨u, rfl, rfl⟩ := Text.cons_of_unifyBreaks (by decide) same
    obtain ⟨v, inside, spaces⟩ := spaces'.of_unify
    obtain ⟨rest, last, members⟩ := ih inside
    exact ⟨rest, last, .object spaces members⟩
  | lastItem _ close' ih =>
    obtain ⟨u, rfl, value⟩ := ih same
    obtain ⟨rest, last, close⟩ := close'.of_unify_mark (by decide)
    exact ⟨rest, last, .lastItem value close⟩
  | nextItem _ comma' spaces' _ ihValue ihMore =>
    obtain ⟨u, rfl, value⟩ := ihValue same
    obtain ⟨v, rfl, comma⟩ := comma'.of_unify_mark (by decide)
    obtain ⟨x, inside, spaces⟩ := spaces'.of_unify
    obtain ⟨rest, last, more⟩ := ihMore inside
    exact ⟨rest, last, .nextItem value comma spaces more⟩
  | lastMember key' _ close' ih =>
    subst same
    obtain ⟨u, named, key⟩ := key'.of_unify
    obtain ⟨v, rfl, value⟩ := ih named
    obtain ⟨rest, last, close⟩ := close'.of_unify_mark (by decide)
    exact ⟨rest, last, .lastMember key value close⟩
  | nextMember key' _ comma' spaces' _ ihValue ihMore =>
    subst same
    obtain ⟨u, named, key⟩ := key'.of_unify
    obtain ⟨v, rfl, value⟩ := ihValue named
    obtain ⟨x, rfl, comma⟩ := comma'.of_unify_mark (by decide)
    obtain ⟨y, inside, spaces⟩ := spaces'.of_unify
    obtain ⟨rest, last, more⟩ := ihMore inside
    exact ⟨rest, last, .nextMember key value comma spaces more⟩

theorem Leads.unify {p : Phrase} {room left : Nat} {t rest : Text}
    (leads : Leads p room t left rest) (begins : Begins rest) :
    Leads p room (unifyBreaks t) left (unifyBreaks rest) := by
  induction leads with
  | here => exact .here _ _
  | array spaces items ih =>
    rw [Text.unifyBreaks_cons (by decide)]
    exact .array (spaces.unify (items.begins begins).apart) (ih begins)
  | object spaces members ih =>
    rw [Text.unifyBreaks_cons (by decide)]
    exact .object (spaces.unify (members.begins begins).apart) (ih begins)
  | item _ ih => exact .item (ih begins)
  | nextItem value comma spaces more ih =>
    exact .nextItem value.unify (comma.unify_mark (by decide))
      (spaces.unify (more.begins begins).apart) (ih begins)
  | member key value ih => exact .member (key.unify (value.begins begins).apart) (ih begins)
  | nextMember key value comma spaces more ih =>
    exact .nextMember (key.unify value.begins.apart) value.unify (comma.unify_mark (by decide))
      (spaces.unify (more.begins begins).apart) (ih begins)

theorem Leads.of_unify {p : Phrase} {room left : Nat} {w r : Text} (leads : Leads p room w left r)
    {t : Text} (same : unifyBreaks t = w) :
    ∃ rest, unifyBreaks rest = r ∧ Leads p room t left rest := by
  induction leads generalizing t with
  | here => exact ⟨t, same, .here _ t⟩
  | array spaces' _ ih =>
    obtain ⟨u, rfl, rfl⟩ := Text.cons_of_unifyBreaks (by decide) same
    obtain ⟨v, inside, spaces⟩ := spaces'.of_unify
    obtain ⟨rest, last, items⟩ := ih inside
    exact ⟨rest, last, .array spaces items⟩
  | object spaces' _ ih =>
    obtain ⟨u, rfl, rfl⟩ := Text.cons_of_unifyBreaks (by decide) same
    obtain ⟨v, inside, spaces⟩ := spaces'.of_unify
    obtain ⟨rest, last, members⟩ := ih inside
    exact ⟨rest, last, .object spaces members⟩
  | item _ ih =>
    obtain ⟨rest, last, value⟩ := ih same
    exact ⟨rest, last, .item value⟩
  | nextItem value' comma' spaces' _ ih =>
    obtain ⟨u, rfl, value⟩ := value'.of_unify same
    obtain ⟨v, rfl, comma⟩ := comma'.of_unify_mark (by decide)
    obtain ⟨x, inside, spaces⟩ := spaces'.of_unify
    obtain ⟨rest, last, more⟩ := ih inside
    exact ⟨rest, last, .nextItem value comma spaces more⟩
  | member key' _ ih =>
    subst same
    obtain ⟨u, named, key⟩ := key'.of_unify
    obtain ⟨rest, last, value⟩ := ih named
    exact ⟨rest, last, .member key value⟩
  | nextMember key' value' comma' spaces' _ ih =>
    subst same
    obtain ⟨u, named, key⟩ := key'.of_unify
    obtain ⟨v, rfl, value⟩ := value'.of_unify named
    obtain ⟨x, rfl, comma⟩ := comma'.of_unify_mark (by decide)
    obtain ⟨y, inside, spaces⟩ := spaces'.of_unify
    obtain ⟨rest, last, more⟩ := ih inside
    exact ⟨rest, last, .nextMember key value comma spaces more⟩

theorem Continues.unbroken {t : Text} (part : Continues t) : Unbroken t := by
  obtain digits | fraction | exponent := part
  · exact digits.unbroken
  · exact fraction.unbroken
  · exact exponent.unbroken

theorem wholeEnds_unifyBreaks (t : Text) : WholeEnds (unifyBreaks t) ↔ WholeEnds t := by
  constructor
  · rintro ends a b rfl part
    exact ends a _ (Text.unifyBreaks_unbroken part.unbroken b) part
  · intro ends a b split part
    obtain ⟨u, rfl, -⟩ := Text.append_of_unifyBreaks part.unbroken split
    exact ends a u rfl part

theorem isLong_unifyBreaks (n : Nat) (t : Text) : IsLong n (unifyBreaks t) ↔ IsLong n t := by
  constructor
  · rintro ⟨sign, whole, r, parts, start, ends, long⟩
    obtain ⟨rest, rfl, rfl⟩ := number_of_unifyBreaks parts start
    exact ⟨sign, whole, rest, parts, rfl, (wholeEnds_unifyBreaks rest).mp ends, long⟩
  · rintro ⟨sign, whole, rest, parts, rfl, ends, long⟩
    exact ⟨sign, whole, _, parts, unifyBreaks_number parts rest,
      (wholeEnds_unifyBreaks rest).mpr ends, long⟩

theorem opens_unifyBreaks (t : Text) : Opens (unifyBreaks t) ↔ Opens t := by
  constructor
  · rintro ⟨r, bracket | brace⟩
    · obtain ⟨u, rfl, -⟩ := Text.cons_of_unifyBreaks (by decide) bracket
      exact ⟨u, .inl rfl⟩
    · obtain ⟨u, rfl, -⟩ := Text.cons_of_unifyBreaks (by decide) brace
      exact ⟨u, .inr rfl⟩
  · rintro ⟨u, rfl | rfl⟩
    · exact ⟨_, .inl (Text.unifyBreaks_cons (by decide) u)⟩
    · exact ⟨_, .inr (Text.unifyBreaks_cons (by decide) u)⟩

theorem exceeds_unifyBreaks (stop : Stop) (left : Nat) (t : Text) :
    Exceeds stop left (unifyBreaks t) ↔ Exceeds stop left t := by
  constructor
  · intro exceeds
    cases exceeds with
    | deep opens => exact .deep ((opens_unifyBreaks t).mp opens)
    | long _ long => exact .long left ((isLong_unifyBreaks _ t).mp long)
  · intro exceeds
    cases exceeds with
    | deep opens => exact .deep ((opens_unifyBreaks t).mpr opens)
    | long _ long => exact .long left ((isLong_unifyBreaks _ t).mpr long)

/-- It does not matter how the lines of a document end. -/
theorem isDocument_unifyBreaks (t : Text) : IsDocument (unifyBreaks t) ↔ IsDocument t := by
  constructor
  · rintro ⟨u', v', spaces', derives', behind'⟩
    obtain ⟨u, rfl, spaces⟩ := spaces'.of_unify
    obtain ⟨v, rfl, derives⟩ := derives'.of_unify rfl
    obtain ⟨w, none, behind⟩ := behind'.of_unify
    rw [Text.eq_nil_of_unifyBreaks none] at behind
    exact ⟨u, v, spaces, derives, behind⟩
  · rintro ⟨u, v, spaces, derives, behind⟩
    exact ⟨_, _, spaces.unify derives.begins.apart, derives.unify,
      behind.unify (fun first => by cases first)⟩

theorem leadsBeyond_unifyBreaks (stop : Stop) (t : Text) :
    LeadsBeyond stop (unifyBreaks t) ↔ LeadsBeyond stop t := by
  constructor
  · rintro ⟨u', left, v', spaces', leads', exceeds⟩
    obtain ⟨u, rfl, spaces⟩ := spaces'.of_unify
    obtain ⟨v, rfl, leads⟩ := leads'.of_unify rfl
    exact ⟨u, left, v, spaces, leads, (exceeds_unifyBreaks stop left v).mp exceeds⟩
  · rintro ⟨u, left, v, spaces, leads, exceeds⟩
    have begins := leads.begins exceeds.begins
    exact ⟨_, left, _, spaces.unify begins.apart, leads.unify exceeds.begins,
      (exceeds_unifyBreaks stop left v).mpr exceeds⟩

theorem isObject_unifyBreaks (t : Text) : IsObject (unifyBreaks t) ↔ IsObject t := by
  constructor
  · rintro ⟨r, spaces'⟩
    obtain ⟨u, -, spaces⟩ := spaces'.of_unify_mark (by decide)
    exact ⟨u, spaces⟩
  · rintro ⟨u, spaces⟩
    exact ⟨_, spaces.unify_mark (by decide)⟩

end Json

/-! ## Settings files -/

namespace Settings

section File

variable {store : Store} {path : Path} {bytes : Utf8.Bytes}

theorem ofFile_undecodable (there : store.read path = .ok bytes) {e : Utf8.Error}
    (undecoded : Utf8.decode bytes = .error e) :
    ofFile store path = .error (.settingsUndecodable e) := by
  simp [ofFile, valueOfFile, there, undecoded, Except.mapError, bind, Except.bind]

theorem valueOfFile_decoded (there : store.read path = .ok bytes) {t : Text}
    (decoded : Utf8.decode bytes = .ok t) :
    valueOfFile store path = (Json.read (Text.unifyBreaks t)).mapError (faultOfJson path) := by
  simp [valueOfFile, there, decoded, Except.mapError, bind, Except.bind]

theorem ofFile_stopped (there : store.read path = .ok bytes) {t : Text}
    (decoded : Utf8.decode bytes = .ok t) {stop : Json.Stop}
    (stopped : Json.document (Text.unifyBreaks t) = .error stop) :
    ofFile store path =
      .error (faultOfJson path (Json.Error.locate (Text.unifyBreaks t) stop)) := by
  have failed := valueOfFile_decoded there decoded
  rw [Json.read, stopped] at failed
  simp [ofFile, failed, Except.mapError, bind, Except.bind]

theorem ofFile_object (there : store.read path = .ok bytes) {t : Text}
    (decoded : Utf8.decode bytes = .ok t) {members : Json.Object}
    (read : Json.document (Text.unifyBreaks t) = .ok (.obj members)) :
    ofFile store path = (ofJson members).map (under path.parent) := by
  have value := valueOfFile_decoded there decoded
  rw [Json.read, read] at value
  simp [ofFile, value, Except.mapError, bind, Except.bind]
  rfl

theorem ofFile_notObject (there : store.read path = .ok bytes) {t : Text}
    (decoded : Utf8.decode bytes = .ok t) {v : Json}
    (read : Json.document (Text.unifyBreaks t) = .ok v)
    (other : ¬∃ members, v = .obj members) :
    ofFile store path = .error (.settingsNotObject path) := by
  have value := valueOfFile_decoded there decoded
  rw [Json.read, read] at value
  cases v with
  | obj members => exact absurd ⟨members, rfl⟩ other
  | _ => simp [ofFile, value, Except.mapError, bind, Except.bind]

end File

theorem optionalPath_error {name : Text} {v : Option Json} {fault : Fault}
    (failed : optionalPath name v = .error fault) : fault = .notPath name := by
  unfold optionalPath at failed
  split at failed
  · cases failed
  · split at failed
    · split at failed <;> cases failed
      rfl
    · cases failed

theorem requiredPath_error {name : Text} {v : Json} {fault : Fault}
    (failed : requiredPath name v = .error fault) : fault = .notPath name := by
  unfold requiredPath at failed
  split at failed <;> cases failed
  rfl

/-- The members of an object are refused only for their shape. -/
theorem ofJson_error {members : Json.Object} {fault : Fault}
    (failed : ofJson members = .error fault) : fault.category = .shape := by
  unfold ofJson at failed
  obtain unread | ⟨_, -, rest⟩ := bind_error failed
  · rw [optionalPath_error unread]
    rfl
  obtain unread | ⟨_, -, rest⟩ := bind_error rest
  · rw [optionalPath_error unread]
    rfl
  obtain unread | ⟨_, -, rest⟩ := bind_error rest
  · rw [requiredPath_error unread]
    rfl
  · cases rest

/-- Settings are refused for what their file holds, and the file is named. -/
def NamesFile (path : Path) (result : Except Fault Settings) : Prop :=
  ∃ fault, result = .error fault ∧ fault.category = .input ∧ fault.path? = some path

section Content

variable {store : Store} {path : Path} {bytes : Utf8.Bytes} {t : Text}

theorem ofFile_limit (there : store.read path = .ok bytes) (decoded : Utf8.decode bytes = .ok t)
    {stop : Json.Stop} (beyond : Json.LeadsBeyond stop t) :
    (∃ n, stop = .longInteger n ∧ ofFile store path = .error (.settingsLongInteger n)) ∨
      stop = .tooDeep ∧ ofFile store path = .error .tooDeep := by
  have unified := (Json.leadsBeyond_unifyBreaks stop t).mpr beyond
  have stopped := ofFile_stopped there decoded unified.document_eq
  obtain ⟨u, left, v, -, -, exceeds⟩ := beyond
  cases exceeds with
  | deep => exact .inr ⟨rfl, stopped⟩
  | @long n _ _ long => exact .inl ⟨n, rfl, stopped⟩

theorem not_namesFile_limit (there : store.read path = .ok bytes)
    (decoded : Utf8.decode bytes = .ok t) {stop : Json.Stop} (beyond : Json.LeadsBeyond stop t) :
    ¬NamesFile path (ofFile store path) := by
  rintro ⟨fault, failed, input, -⟩
  obtain ⟨n, -, limit⟩ | ⟨-, limit⟩ := ofFile_limit there decoded beyond <;>
  · rw [Except.error.inj (failed.symm.trans limit)] at input
    cases input

theorem namesFile_iff (there : store.read path = .ok bytes) (decoded : Utf8.decode bytes = .ok t) :
    NamesFile path (ofFile store path) ↔
      Json.IsDocument t ∧ ¬Json.IsObject t ∨
      ¬Json.IsDocument t ∧ ∀ stop, ¬Json.LeadsBeyond stop t := by
  cases read : Json.document (Text.unifyBreaks t) with
  | ok v =>
    have document := (Json.isDocument_unifyBreaks t).mp (Json.isDocument_of_read read)
    have object := (Json.document_obj_iff read).trans (Json.isObject_unifyBreaks t)
    by_cases braced : Json.IsObject t
    · obtain ⟨members, rfl⟩ := object.mpr braced
      refine iff_of_false ?_ fun refused => ?_
      · rintro ⟨fault, failed, input, -⟩
        rw [ofFile_object there decoded read] at failed
        rw [ofJson_error (map_error failed)] at input
        cases input
      · exact refused.elim (fun other => other.2 braced) (fun other => other.1 document)
    · have refused := ofFile_notObject there decoded read (fun obj => braced (object.mp obj))
      exact iff_of_true ⟨_, refused, rfl, rfl⟩ (.inl ⟨document, braced⟩)
  | error stop =>
    have unwritten : ¬Json.IsDocument t := by
      intro document
      obtain ⟨v, accepted⟩ := ((Json.isDocument_unifyBreaks t).mpr document).read
      rw [read] at accepted
      cases accepted
    obtain ⟨complaint, left, rfl⟩ | beyond := Json.document_error read
    · have named : NamesFile path (ofFile store path) :=
        ⟨_, ofFile_stopped there decoded read, rfl, rfl⟩
      exact iff_of_true named
        (.inr ⟨unwritten, fun stop beyond => not_namesFile_limit there decoded beyond named⟩)
    · have limit := (Json.leadsBeyond_unifyBreaks stop t).mp beyond
      exact iff_of_false (not_namesFile_limit there decoded limit) fun refused =>
        refused.elim (fun other => unwritten other.1) (fun other => other.2 stop limit)

end Content

/-- A file that can be read is refused and named, if it holds a JSON document that is no object or
if it holds none. Bytes that are no UTF-8 are refused without the name of the file, and so is a text
that leads to a whole number with too many digits or to brackets that lie too deep. -/
theorem ofFile_by_content (store : Store) (path : Path) (bytes : Utf8.Bytes)
    (there : store.read path = .ok bytes) :
    (¬bytes.toByteArray.IsValidUTF8 → ∃ e, ofFile store path = .error (.settingsUndecodable e)) ∧
    ∀ s : String, bytes.toByteArray = s.toUTF8 →
      (NamesFile path (ofFile store path) ↔
        Json.IsDocument s ∧ ¬Json.IsObject s ∨
        ¬Json.IsDocument s ∧ ∀ stop, ¬Json.LeadsBeyond stop s) ∧
      (Json.IsDocument s → Json.IsObject s →
        ∃ members, ofFile store path = (ofJson members).map (under path.parent)) ∧
      (∀ n, Json.LeadsBeyond (.longInteger n) s →
        ofFile store path = .error (.settingsLongInteger n)) ∧
      (Json.LeadsBeyond .tooDeep s → ofFile store path = .error .tooDeep) := by
  refine ⟨fun invalid => ?_, fun s encoded => ?_⟩
  · cases decoded : Utf8.decode bytes with
    | ok t => exact absurd ((Utf8.isValidUTF8_iff bytes).mpr ⟨t, decoded⟩) invalid
    | error e => exact ⟨e, ofFile_undecodable there decoded⟩
  have decoded : Utf8.decode bytes = .ok s := (Utf8.decode_eq_ok_iff bytes s).mpr ⟨s, encoded, rfl⟩
  refine ⟨namesFile_iff there decoded, fun document braced => ?_, fun n beyond => ?_,
    fun beyond => ?_⟩
  · obtain ⟨v, read⟩ := ((Json.isDocument_unifyBreaks s).mpr document).read
    obtain ⟨members, rfl⟩ :=
      (Json.document_obj_iff read).mpr ((Json.isObject_unifyBreaks s).mpr braced)
    exact ⟨members, ofFile_object there decoded read⟩
  · obtain ⟨m, same, refused⟩ | ⟨other, -⟩ := ofFile_limit there decoded beyond
    · cases same
      exact refused
    · cases other
  · obtain ⟨m, other, -⟩ | ⟨-, refused⟩ := ofFile_limit there decoded beyond
    · cases other
    · exact refused

theorem leads_brackets (n left : Nat) (t : Text) :
    Json.Leads .value (n + left) (List.replicate n (.scalar '[') ++ t) left t := by
  induction n with
  | zero =>
    rw [Nat.zero_add]
    exact .here left t
  | succ n ih =>
    rw [Nat.succ_add]
    exact .array ⟨[], List.forall_mem_nil _, rfl⟩ (.item ih)

/-- An array is a document that is refused, and its file is named. Brackets can lie too deep, and a
whole number can have too many digits. -/
theorem ofFile_by_content_array :
    let path : Path := .ofText "a.json"
    let bytes : Utf8.Bytes := [0x5B, 0x0D, 0x5D]
    let store : Store := ⟨[({ names := ["a.json"] }, .file bytes)]⟩
    store.read path = .ok bytes ∧ Json.IsDocument "[\r]" ∧ ¬Json.IsObject "[\r]" ∧
      NamesFile path (ofFile store path) ∧
      Json.LeadsBeyond .tooDeep (List.replicate 991 (.scalar '[')) ∧
      Json.LeadsBeyond (.longInteger 4301) (List.replicate 4301 (.scalar '1')) := by
  intro path bytes store
  have there : store.read path = .ok bytes := by decide +kernel
  have document : Json.IsDocument "[\r]" :=
    ⟨_, [], ⟨[], List.forall_mem_nil _, rfl⟩, .emptyArray ⟨"\r", by decide, rfl⟩,
      [], List.forall_mem_nil _, rfl⟩
  have unbraced : ¬Json.IsObject "[\r]" := by
    rintro ⟨u, spaces⟩
    have first : (Json.skipSpaces "[\r]").head? = some (.scalar '\x7b') := by
      rw [spaces.skip (Json.stops_cons rfl u), List.head?_cons]
    exact absurd first (by decide)
  have content := (ofFile_by_content store path bytes there).2 "[\r]" (by decide)
  have deep : Json.LeadsBeyond .tooDeep (List.replicate 991 (.scalar '[')) := by
    refine ⟨_, 0, [.scalar '['], ⟨[], List.forall_mem_nil _, rfl⟩, ?_, .deep ⟨[], .inl rfl⟩⟩
    rw [List.replicate_succ']
    exact leads_brackets 990 0 [.scalar '[']
  have long : Json.LeadsBeyond (.longInteger 4301) (List.replicate 4301 (.scalar '1')) := by
    refine ⟨_, Json.maxRoom, _, ⟨[], List.forall_mem_nil _, rfl⟩, .here _ _, .long _ ?_⟩
    have digits : Json.IsWhole (List.replicate 4301 (.scalar '1')) := by
      rw [List.replicate_succ]
      refine .inr ⟨⟨List.cons_ne_nil _ _, fun c member => ?_⟩, by decide⟩
      rw [← List.replicate_succ] at member
      rw [List.eq_of_mem_replicate member]
      rfl
    exact ⟨[], _, [], ⟨.inl rfl, digits, .inl rfl, .inl rfl⟩, (List.append_nil _).symm,
      Json.ends_nil.wholeEnds, List.length_replicate, by decide⟩
  exact ⟨there, document, unbraced, content.1.mpr (.inl ⟨document, unbraced⟩), deep, long⟩

/-- A byte that is no UTF-8 is refused, but not as a fault of a file, and no file is named. -/
theorem undecodable_file_unnamed :
    let path : Path := .ofText "c.json"
    let store : Store := ⟨[({ names := ["c.json"] }, .file [0xFF])]⟩
    store.read path = .ok [0xFF] ∧ ¬(([0xFF] : Utf8.Bytes).toByteArray.IsValidUTF8) ∧
    ∃ fault, ofFile store path = .error fault ∧ fault.category = .value ∧ fault.path? = none := by
  intro path store
  have there : store.read path = .ok [0xFF] := by decide +kernel
  have undecoded : Utf8.decode [0xFF] = .error _ := rfl
  refine ⟨there, ?_, _, ofFile_undecodable there undecoded, rfl, rfl⟩
  rw [Utf8.isValidUTF8_iff]
  rintro ⟨t, decoded⟩
  rw [undecoded] at decoded
  cases decoded

end Settings

end LabelAtlas
