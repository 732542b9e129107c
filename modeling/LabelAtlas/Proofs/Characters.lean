import Mathlib.Data.List.DropRight
import LabelAtlas.Definition

/-! Which classes of characters exclude each other, and that blanks at the end of a line are never
read. -/
namespace LabelAtlas

namespace Text

/-! ## Classes -/

/-- No number is in a range of one list and in a range of the other. -/
def apart (a b : List (Nat × Nat)) : Bool :=
  a.all fun r => b.all fun s => r.2 < s.1 || s.2 < r.1

theorem inRanges_iff (ranges : List (Nat × Nat)) (n : Nat) :
    inRanges ranges n = true ↔ ∃ r ∈ ranges, r.1 ≤ n ∧ n ≤ r.2 := by
  simp [inRanges]

theorem not_inRanges_of_apart {a b : List (Nat × Nat)} (separate : apart a b = true) {n : Nat}
    (inside : inRanges a n = true) : inRanges b n = false := by
  obtain ⟨r, left, low, high⟩ := (inRanges_iff a n).mp inside
  rw [← Bool.not_eq_true, inRanges_iff]
  rintro ⟨s, right, from_s, to_s⟩
  have disjoint := List.all_eq_true.mp (List.all_eq_true.mp separate r left) s right
  simp only [Bool.or_eq_true, decide_eq_true_eq] at disjoint
  omega

theorem inRanges_append (a b : List (Nat × Nat)) (n : Nat) :
    inRanges (a ++ b) n = (inRanges a n || inRanges b n) :=
  List.any_append

/-- The ASCII characters of names. -/
def asciiNameRanges : List (Nat × Nat) :=
  [(0x21, 0x21), (0x23, 0x23), (0x2E, 0x2E), (0x30, 0x39), (0x3F, 0x5A), (0x5F, 0x5F), (0x61, 0x7A)]

theorem isAlphanum_inRanges (c : Char) (letter : c.isAlphanum = true) :
    inRanges asciiNameRanges c.toNat = true := by
  delta Char.isAlphanum Char.isAlpha Char.isUpper Char.isLower Char.isDigit at letter
  simp only [Bool.or_eq_true, Bool.and_eq_true, decide_eq_true_eq, ge_iff_le,
    UInt32.le_iff_toNat_le] at letter
  change ((65 ≤ c.toNat ∧ c.toNat ≤ 90) ∨ (97 ≤ c.toNat ∧ c.toNat ≤ 122)) ∨
    (48 ≤ c.toNat ∧ c.toNat ≤ 57) at letter
  simp only [inRanges, asciiNameRanges, List.any_cons, List.any_nil, Bool.or_false,
    Bool.or_eq_true, Bool.and_eq_true, decide_eq_true_eq]
  omega

theorem isNameChar_inRanges (c : CodePoint) (named : Source.isNameChar c = true) :
    inRanges (asciiNameRanges ++ letterRanges) c.toNat = true := by
  rw [inRanges_append, Bool.or_eq_true]
  simp only [Source.isNameChar, isWord, isAlnum, Bool.or_eq_true, decide_eq_true_eq] at named
  rcases named with (((((((ascii | letter) | rfl) | rfl) | rfl) | rfl) | rfl) | rfl)
  · cases c with
    | scalar c => exact Or.inl (isAlphanum_inRanges c ascii)
    | surrogate n => cases ascii
  · exact Or.inr letter
  all_goals exact Or.inl (by decide)

theorem not_isBlank_of_isNameChar {c : CodePoint} (named : Source.isNameChar c = true) :
    isBlank c = false :=
  not_inRanges_of_apart (by decide +kernel) (isNameChar_inRanges c named)

theorem not_isNameChar_of_isBlank {c : CodePoint} (blank : isBlank c = true) :
    Source.isNameChar c = false := by
  by_contra named
  rw [not_isBlank_of_isNameChar (by simpa using named)] at blank
  cases blank

theorem isNameChar_of_isLabelStart {c : CodePoint} (first : Source.isLabelStart c = true) :
    Source.isNameChar c = true := by
  simp only [Source.isLabelStart, Bool.or_eq_true, decide_eq_true_eq] at first
  rcases first with (((letter | rfl) | rfl) | rfl)
  · cases c with
    | scalar c =>
      have alphanumeric : c.isAlphanum = true := Bool.or_eq_true_iff.mpr (Or.inl letter)
      simp [Source.isNameChar, isWord, isAlnum, CodePoint.passes, alphanumeric]
    | surrogate n => cases letter
  all_goals decide +kernel

theorem not_isLabelStart_of_isBlank {c : CodePoint} (blank : isBlank c = true) :
    Source.isLabelStart c = false := by
  by_contra first
  have named := isNameChar_of_isLabelStart (by simpa using first)
  rw [not_isNameChar_of_isBlank blank] at named
  cases named

theorem toLower_of_isBlank {c : CodePoint} (blank : isBlank c = true) : c.toLower = c := by
  cases c with
  | surrogate n => rfl
  | scalar c =>
    have not_upper : ¬(c.val ≥ 'A'.val ∧ c.val ≤ 'Z'.val) := by
      intro upper
      have letter : inRanges [(65, 90)] (CodePoint.scalar c).toNat = true := by
        simp only [ge_iff_le, UInt32.le_iff_toNat_le] at upper
        change 65 ≤ c.toNat ∧ c.toNat ≤ 90 at upper
        exact (inRanges_iff _ _).mpr ⟨(65, 90), by simp, upper⟩
      have other := not_inRanges_of_apart (b := [(65, 90)]) (by decide) blank
      rw [other] at letter
      cases letter
    have kept : c.toLower = c := dif_neg not_upper
    show CodePoint.scalar c.toLower = .scalar c
    rw [kept]

/-! ## Blanks at both ends -/

theorem dropEndWhile_subset (p : CodePoint → Bool) (t : Text) : dropEndWhile p t ⊆ t :=
  (List.rdropWhile_prefix p t).subset

theorem stripEnd_subset {t : Text} {c : CodePoint} (member : c ∈ stripEnd t) : c ∈ t :=
  dropEndWhile_subset isBlank t member

theorem stripEnd_append_stripped (t : Text) :
    ∃ w, t = stripEnd t ++ w ∧ ∀ c ∈ w, isBlank c = true :=
  ⟨t.rtakeWhile isBlank, List.rdropWhile_append_rtakeWhile.symm,
    fun _ => List.mem_rtakeWhile_imp⟩

theorem stripEnd_of_blank {t : Text} (blank : ∀ c ∈ t, isBlank c = true) : stripEnd t = [] :=
  List.rdropWhile_eq_nil_iff.mpr blank

theorem stripEnd_concat (t : Text) (c : CodePoint) (solid : isBlank c = false) :
    stripEnd (t ++ [c]) = t ++ [c] :=
  List.rdropWhile_concat_neg isBlank t c (by simp [solid])

theorem stripEnd_cons (c : CodePoint) (t : Text) (solid : isBlank c = false) :
    stripEnd (c :: t) = c :: stripEnd t := by
  induction t using List.reverseRecOn with
  | nil => exact stripEnd_concat [] c solid
  | append_singleton t d ih =>
    have both (u : Text) : stripEnd (u ++ [d]) = if isBlank d then stripEnd u else u ++ [d] :=
      List.rdropWhile_concat isBlank u d
    rw [← List.cons_append, both, both, ih]
    split <;> rfl

theorem stripStart_solid {t : Text} (solid : ∀ c ∈ t, isBlank c = false) : stripStart t = t := by
  cases t with
  | nil => rfl
  | cons c t => exact List.dropWhile_cons_of_neg (by simp [solid c])

theorem dropEndWhile_eq_self {p : CodePoint → Bool} {t : Text} (other : ∀ c ∈ t, p c = false) :
    dropEndWhile p t = t := by
  apply List.rdropWhile_eq_self_iff.mpr
  intro some_char
  simp [other _ (List.getLast_mem some_char)]

theorem stripEnd_solid {t : Text} (solid : ∀ c ∈ t, isBlank c = false) : stripEnd t = t :=
  dropEndWhile_eq_self solid

theorem stripStart_append_blank (t w : Text) (blank : ∀ c ∈ w, isBlank c = true) :
    stripStart (t ++ w) = if stripStart t = [] then [] else stripStart t ++ w := by
  have gone : w.dropWhile isBlank = [] := by simpa using blank
  rw [stripStart, stripStart, List.dropWhile_append, gone]
  simp

/-- What cannot be part of a word does not change whether a text starts with it. -/
theorem afterWord?_append (word t w : Text) (other : ∀ c ∈ w, c.toLower ∉ word) :
    afterWord? word (t ++ w) = (afterWord? word t).map (· ++ w) := by
  unfold afterWord?
  by_cases long : word.length ≤ t.length
  · rw [List.take_append_of_le_length long, List.drop_append_of_le_length long]
    split <;> rfl
  · have short : (t.take word.length).map CodePoint.toLower ≠ word := by
      intro same
      have length := congrArg List.length same
      simp at length
      omega
    have longer : ((t ++ w).take word.length).map CodePoint.toLower ≠ word := by
      intro same
      cases w with
      | nil => exact short (by simpa using same)
      | cons c w =>
        have member : c ∈ (t ++ c :: w).take word.length := by
          rw [List.take_append]
          apply List.mem_append_right
          rw [show word.length - t.length = word.length - t.length - 1 + 1 by omega]
          simp
        exact other c (by simp) (same ▸ List.mem_map_of_mem member)
    rw [if_neg longer, if_neg short]
    rfl

end Text

namespace Source

open Text

theorem codeFrom_cons_blank (c : CodePoint) (t : Text) (blank : isBlank c = true)
    (afterAlnum : Bool) :
    codeFrom none afterAlnum (c :: t) = c :: codeFrom none (isAlnum c) t := by
  have no_mark : ∀ d : CodePoint, isBlank d = false → c ≠ d := by
    rintro d solid rfl
    rw [blank] at solid
    cases solid
  have unquoted : opensQuote afterAlnum c = false := by
    simp [opensQuote, no_mark '"' (by decide), no_mark '\'' (by decide)]
  rw [codeFrom, unquoted, if_neg (by simp), if_neg (no_mark ';' (by decide))]

theorem codeFrom_blank (w : Text) (blank : ∀ c ∈ w, isBlank c = true) (quote : Option CodePoint)
    (afterAlnum : Bool) : codeFrom quote afterAlnum w = w := by
  induction w generalizing quote afterAlnum with
  | nil => rfl
  | cons c w ih =>
    have rest := ih fun d member => blank d (List.mem_cons_of_mem c member)
    cases quote with
    | some q => rw [codeFrom, rest]
    | none => rw [codeFrom_cons_blank c w (blank c List.mem_cons_self), rest]

/-- Blanks behind a line stay behind its code or belong to its comment. -/
theorem codeFrom_append_blank (t w : Text) (blank : ∀ c ∈ w, isBlank c = true)
    (quote : Option CodePoint) (afterAlnum : Bool) :
    ∃ v, (∀ c ∈ v, isBlank c = true) ∧
      codeFrom quote afterAlnum (t ++ w) = codeFrom quote afterAlnum t ++ v := by
  induction t generalizing quote afterAlnum with
  | nil => exact ⟨w, blank, codeFrom_blank w blank quote afterAlnum⟩
  | cons c t ih =>
    cases quote with
    | some q =>
      obtain ⟨v, spaces, same⟩ := ih (if c = q then none else some q) (isAlnum c)
      exact ⟨v, spaces, by simp [codeFrom, same]⟩
    | none =>
      by_cases quotes : opensQuote afterAlnum c
      · obtain ⟨v, spaces, same⟩ := ih (some c) (isAlnum c)
        exact ⟨v, spaces, by simp [codeFrom, quotes, same]⟩
      · by_cases comment : c = ';'
        · subst comment
          exact ⟨[], by simp, by simp [codeFrom, quotes]⟩
        · obtain ⟨v, spaces, same⟩ := ih none (isAlnum c)
          exact ⟨v, spaces, by simp [codeFrom, quotes, comment, same]⟩

/-- Text without quotation marks and semicolons is passed over. -/
theorem codeFrom_plain_append (t rest : Text)
    (plain : ∀ c ∈ t, c ≠ .scalar '"' ∧ c ≠ .scalar '\'' ∧ c ≠ .scalar ';') (afterAlnum : Bool) :
    codeFrom none afterAlnum (t ++ rest) =
      t ++ codeFrom none (t.getLast?.elim afterAlnum isAlnum) rest := by
  induction t generalizing afterAlnum with
  | nil => rfl
  | cons c t ih =>
    obtain ⟨double, single, comment⟩ := plain c List.mem_cons_self
    have behind := ih (fun d member => plain d (List.mem_cons_of_mem c member)) (isAlnum c)
    have last : (c :: t).getLast?.elim afterAlnum isAlnum = t.getLast?.elim (isAlnum c) isAlnum := by
      rw [List.getLast?_cons]
      cases t.getLast? <;> rfl
    simp [codeFrom, opensQuote, double, single, comment, behind, last]

/-- A text without quotation marks and semicolons is all code. -/
theorem codeFrom_plain (t : Text)
    (plain : ∀ c ∈ t, c ≠ .scalar '"' ∧ c ≠ .scalar '\'' ∧ c ≠ .scalar ';') (afterAlnum : Bool) :
    codeFrom none afterAlnum t = t := by
  have whole := codeFrom_plain_append t [] plain afterAlnum
  rwa [List.append_nil, codeFrom, List.append_nil] at whole

theorem not_mark_of_isNameChar {c : CodePoint} (named : isNameChar c = true) :
    c ≠ .scalar '"' ∧ c ≠ .scalar '\'' ∧ c ≠ .scalar ';' := by
  refine ⟨?_, ?_, ?_⟩ <;> rintro rfl <;> revert named <;> decide +kernel

/-- The code of a line starts with the first character of the line, or there is none. -/
theorem codeFrom_cons (afterAlnum : Bool) (c : CodePoint) (t : Text) :
    codeFrom none afterAlnum (c :: t) = [] ∨ ∃ u, codeFrom none afterAlnum (c :: t) = c :: u := by
  rw [codeFrom]
  split
  · exact .inr ⟨_, rfl⟩
  · split
    · exact .inl rfl
    · exact .inr ⟨_, rfl⟩

theorem codeFrom_cons_name {c : CodePoint} (named : isNameChar c = true) (afterAlnum : Bool)
    (t : Text) : codeFrom none afterAlnum (c :: t) = c :: codeFrom none (isAlnum c) t := by
  obtain ⟨double, single, comment⟩ := not_mark_of_isNameChar named
  simp [codeFrom, opensQuote, double, single, comment]

/-- A name at the start of a line is code. -/
theorem takeName_codeFrom (afterAlnum : Bool) (t : Text) :
    (codeFrom none afterAlnum t).takeWhile isNameChar = t.takeWhile isNameChar := by
  induction t generalizing afterAlnum with
  | nil => rfl
  | cons c t ih =>
    by_cases named : isNameChar c
    · rw [codeFrom_cons_name named, List.takeWhile_cons_of_pos named,
        List.takeWhile_cons_of_pos named, ih]
    · rw [List.takeWhile_cons_of_neg named]
      rcases codeFrom_cons afterAlnum c t with none_left | ⟨u, starts⟩
      · rw [none_left]
        rfl
      · rw [starts, List.takeWhile_cons_of_neg named]

/-- The label of a line is the whole name that the line starts with. -/
theorem label?_eq (line : Text) :
    label? line =
      if line.head?.any isLabelStart then some (line.takeWhile isNameChar) else none := by
  cases line with
  | nil => rfl
  | cons c t =>
    rw [List.head?_cons, Option.any_some, label?, code]
    by_cases first : isLabelStart c
    · have named := isNameChar_of_isLabelStart first
      rw [if_pos first, codeFrom_cons_name named, List.takeWhile_cons_of_pos named, split,
        if_pos first, takeName_codeFrom]
    · rw [if_neg first]
      rcases codeFrom_cons false c t with none_left | ⟨u, starts⟩
      · rw [none_left]
        rfl
      · rw [starts, split, if_neg first]

end Source

namespace Definition

open Text Source

theorem afterWord?_stripStart_append (word : Text) (solid : ∀ c ∈ word, isBlank c = false)
    (some_letter : word ≠ []) (t w : Text) (blank : ∀ c ∈ w, isBlank c = true) :
    afterWord? word (stripStart (t ++ w)) = (afterWord? word (stripStart t)).map (· ++ w) := by
  have nothing : afterWord? word [] = none := by
    simp [afterWord?, Ne.symm some_letter]
  rw [stripStart_append_blank t w blank]
  split
  · rename_i empty
    rw [empty, nothing]
    rfl
  · apply afterWord?_append
    intro c member inside
    rw [toLower_of_isBlank (blank c member)] at inside
    have contrary := solid c inside
    rw [blank c member] at contrary
    cases contrary

theorem takeName_append_blank (t w : Text) (blank : ∀ c ∈ w, isBlank c = true) :
    (stripStart (t ++ w)).takeWhile isNameChar = (stripStart t).takeWhile isNameChar := by
  have none_named : w.takeWhile isNameChar = [] := by
    cases w with
    | nil => rfl
    | cons c w => simp [not_isNameChar_of_isBlank (blank c List.mem_cons_self)]
  rw [stripStart_append_blank t w blank]
  split
  · rename_i empty
    rw [empty]
  · rw [List.takeWhile_append, none_named]
    split
    · rename_i whole
      rw [List.append_nil]
      exact ((List.takeWhile_prefix _).eq_of_length whole).symm
    · rfl

theorem moduleName?_append_blank (t w : Text) (blank : ∀ c ∈ w, isBlank c = true) :
    moduleName? (t ++ w) = moduleName? t := by
  unfold moduleName?
  rw [afterWord?_stripStart_append _ (by decide) (by decide) t w blank]
  cases afterWord? "module" (stripStart t) with
  | none => rfl
  | some rest =>
    cases rest with
    | cons c rest => simp [takeName_append_blank rest w blank]
    | nil =>
      -- Only blanks follow the word, so they hold no name.
      cases w with
      | nil => rfl
      | cons c w =>
        have gone : stripStart w = [] := by
          simpa [stripStart] using fun d member => blank d (List.mem_cons_of_mem c member)
        simp [gone]

theorem startsWithWord_append (t w : Text) (other : ∀ c ∈ w, isWord c = false) :
    Export.startsWithWord (t ++ w) = Export.startsWithWord t := by
  cases t with
  | cons c t => rfl
  | nil =>
    cases w with
    | nil => rfl
    | cons c w => simp [Export.startsWithWord, other c List.mem_cons_self]

theorem endsModule_append_blank (t w : Text) (blank : ∀ c ∈ w, isBlank c = true) :
    endsModule (t ++ w) = endsModule t := by
  unfold endsModule
  rw [afterWord?_stripStart_append _ (by decide) (by decide) t w blank]
  have other : ∀ c ∈ w, isWord c = false := by
    intro c member
    have unnamed := not_isNameChar_of_isBlank (blank c member)
    simp only [isNameChar, Bool.or_eq_false_iff] at unnamed
    exact unnamed.1.1.1.1.1
  cases afterWord? "endmodule" (stripStart t) with
  | none => rfl
  | some rest =>
    cases starts : Export.startsWithWord rest <;>
      simp [Option.filter_some, startsWithWord_append rest w other, starts]

/-- Blanks at the end of a line do not change what it directs. -/
theorem directive?_stripEnd (line : Text) : directive? (stripEnd line) = directive? line := by
  obtain ⟨w, whole, blank⟩ := stripEnd_append_stripped line
  obtain ⟨v, spaces, same⟩ := codeFrom_append_blank (stripEnd line) w blank none false
  rw [← whole] at same
  have read : code line = code (stripEnd line) ++ v := same
  unfold directive?
  rw [read, moduleName?_append_blank _ v spaces, endsModule_append_blank _ v spaces]

end Definition

end LabelAtlas
