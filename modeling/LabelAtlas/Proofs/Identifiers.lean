import LabelAtlas.Proofs.Pages
import LabelAtlas.Proofs.Resolving

/-! The name on a line as a labels file and as a source read it. A source takes the whole identifier
that the line starts with. A labels file takes it too if an assignment follows, but else gives
characters back until one does, and finds it inside the identifier. -/
namespace LabelAtlas.Export

open Text Source Definition

/-- The identifier that a line starts with. -/
def identifier (line : Text) : Text :=
  line.takeWhile isNameChar

/-- An assignment follows the identifier that a line starts with. -/
def isAssigned (line : Text) : Bool :=
  (valueText? (line.dropWhile isNameChar)).isSome

/-! ## Assignments inside an identifier -/

theorem isNameChar_of_toLower {c : CodePoint} (named : isNameChar c.toLower = true) :
    isNameChar c = true := by
  cases c with
  | surrogate n => exact named
  | scalar c =>
    by_cases upper : c.val ≥ 'A'.val ∧ c.val ≤ 'Z'.val
    · have capital : c.isUpper = true := decide_eq_true upper
      have letter : c.isAlpha = true := Bool.or_eq_true_iff.mpr (Or.inl capital)
      have alphanumeric : c.isAlphanum = true := Bool.or_eq_true_iff.mpr (Or.inl letter)
      simp [isNameChar, isWord, isAlnum, CodePoint.passes, alphanumeric]
    · have kept : c.toLower = c := dif_neg upper
      have same : (CodePoint.scalar c).toLower = .scalar c := congrArg CodePoint.scalar kept
      rwa [same] at named

theorem exists_of_afterWord? {word t rest : Text} (read : afterWord? word t = some rest) :
    ∃ w, t = w ++ rest ∧ w.map CodePoint.toLower = word := by
  unfold afterWord? at read
  split at read
  · rename_i same
    refine ⟨t.take word.length, ?_, same⟩
    rw [← Option.some.inj read, List.take_append_drop]
  · cases read

/-- Where the rest of an identifier is read as an assignment, it starts with the word for one. -/
theorem assignment_in_name {t raw : Text} (named : startsWithNameChar t = true)
    (assigned : valueText? t = some raw) :
    ∃ word rest, t = word ++ rest ∧ word.map CodePoint.toLower = ("equ" : Text) ∧
      startsWithWord rest = false := by
  cases t with
  | nil => cases named
  | cons c t =>
    have named : isNameChar c = true := named
    have solid := not_isBlank_of_isNameChar named
    have other (d : CodePoint) (unnamed : isNameChar d = false) : c ≠ d := by
      rintro rfl
      rw [named] at unnamed
      cases unnamed
    have start : stripStart (c :: t) = c :: t := List.dropWhile_cons_of_neg (by simp [solid])
    have uncolon : dropColon (c :: t) = c :: t := by
      unfold dropColon
      split
      · rename_i same
        exact absurd (List.cons.inj same).1 (other _ (by decide +kernel))
      · rfl
    rw [valueText?, start, uncolon, start] at assigned
    obtain ⟨rest, found, -⟩ := Option.map_eq_some_iff.mp assigned
    unfold afterAssign? at found
    split at found
    · rename_i same
      exact absurd (List.cons.inj same).1 (other _ (by decide +kernel))
    · obtain ⟨read, ends⟩ := Option.filter_eq_some_iff.mp found
      obtain ⟨word, whole, lower⟩ := exists_of_afterWord? read
      exact ⟨word, rest, whole, lower, by simpa using ends⟩

/-- The word for an assignment belongs to the identifier in which it stands. -/
theorem takeName_word {word : Text} (lower : word.map CodePoint.toLower = ("equ" : Text))
    (rest : Text) :
    (word ++ rest).takeWhile isNameChar = word ++ rest.takeWhile isNameChar := by
  apply List.takeWhile_append_of_pos
  intro c member
  have letters : ∀ d ∈ ("equ" : Text), isNameChar d = true := by decide +kernel
  apply isNameChar_of_toLower
  apply letters
  rw [← lower]
  exact List.mem_map_of_mem member

theorem startsWithWord_takeName {t : Text} (ends : startsWithWord t = false) :
    startsWithWord (t.takeWhile isNameChar) = false := by
  cases t with
  | nil => rfl
  | cons c t =>
    rw [List.takeWhile_cons]
    split
    · exact ends
    · rfl

/-- A name that is not the whole identifier is followed in it by the word for an assignment, behind
which no word goes on. -/
theorem longest?_part {c : CodePoint} {t name raw : Text}
    (found : longest? (c :: t) = some (name, raw))
    (unassigned : valueText? (t.dropWhile isNameChar) = none) :
    ∃ word rest, c :: t.takeWhile isNameChar = name ++ (word ++ rest) ∧
      word.map CodePoint.toLower = ("equ" : Text) ∧ startsWithWord rest = false := by
  induction t generalizing c name with
  | nil =>
    have nothing : longest? [c] = none := by
      rw [longest?, show valueText? [] = none from unassigned]
      rfl
    rw [nothing] at found
    cases found
  | cons d t ih =>
    by_cases named : isNameChar d
    · have goes_on : startsWithNameChar (d :: t) = true := named
      rw [List.dropWhile_cons_of_pos named] at unassigned
      rw [List.takeWhile_cons_of_pos named]
      rw [longest?, goes_on, if_pos rfl] at found
      split at found
      · rename_i longer value inner
        obtain ⟨rfl, rfl⟩ := Prod.mk.inj (Option.some.inj found)
        obtain ⟨word, rest, whole, lower, ends⟩ := ih inner unassigned
        exact ⟨word, rest, congrArg (c :: ·) whole, lower, ends⟩
      · obtain ⟨value, assigned, same⟩ := Option.map_eq_some_iff.mp found
        obtain ⟨rfl, rfl⟩ := Prod.mk.inj same
        obtain ⟨word, rest, whole, lower, ends⟩ := assignment_in_name goes_on assigned
        refine ⟨word, rest.takeWhile isNameChar, ?_, lower, startsWithWord_takeName ends⟩
        rw [← takeName_word lower, ← whole, List.takeWhile_cons_of_pos named]
        rfl
    · -- The identifier ends here, so nothing can be given back.
      rw [List.dropWhile_cons_of_neg named] at unassigned
      have ended : startsWithNameChar (d :: t) = false := by simpa [startsWithNameChar] using named
      have nothing : longest? (c :: d :: t) = none := by
        rw [longest?, ended, unassigned]
        rfl
      rw [nothing] at found
      cases found

/-! ## Exported names -/

theorem line?_flush {c : CodePoint} {t : Text} (solid : isBlank c = false) :
    line? (c :: t) = if isNameStart c then longest? (c :: t) else none := by
  have start : stripStart (c :: t) = c :: t := List.dropWhile_cons_of_neg (by simp [solid])
  rw [line?, start]

theorem line?_of_exported? {line : Text} {p : Text × Text} (accepted : exported? line = some p) :
    line? line = some p := by
  unfold exported? at accepted
  split at accepted
  · cases accepted
  · exact accepted

/-- A line without a margin exports its identifier if an assignment follows it, or a part of it
behind which the word for an assignment stands. -/
theorem exported_part {line name raw : Text} (flush : line.head?.any isBlank = false)
    (accepted : exported? line = some (name, raw)) :
    (isAssigned line = true ∧ name = identifier line) ∨
    (isAssigned line = false ∧ ∃ word rest, identifier line = name ++ (word ++ rest) ∧
      word.map CodePoint.toLower = ("equ" : Text) ∧ startsWithWord rest = false) := by
  have read := line?_of_exported? accepted
  cases line with
  | nil => cases read
  | cons c t =>
    rw [line?_flush flush] at read
    split at read
    · rename_i first
      have named := isNameChar_of_isNameStart first
      rw [isAssigned, identifier, List.dropWhile_cons_of_pos named,
        List.takeWhile_cons_of_pos named]
      cases value : valueText? (t.dropWhile isNameChar) with
      | none => exact .inr ⟨rfl, longest?_part read value⟩
      | some v =>
        have ends : startsWithNameChar (t.dropWhile isNameChar) = false := by
          have stops := List.head?_dropWhile_not isNameChar t
          unfold startsWithNameChar
          cases behind : (t.dropWhile isNameChar).head? <;> simp_all
        have inside : IsNamed (t.takeWhile isNameChar) := fun d => List.mem_takeWhile_imp
        have whole := longest?_name c _ inside ends value
        rw [List.takeWhile_append_dropWhile, read] at whole
        exact .inl ⟨rfl, (Prod.mk.inj (Option.some.inj whole)).1⟩
    · cases read

/-- The name that is exported by a line without a margin is the label that a source finds on it
exactly if the line starts as a label does and an assignment follows the whole identifier. It is the
whole identifier exactly if one follows, and else the identifier goes on behind it with the word for
an assignment. -/
theorem exported_name_whole_iff {line name raw : Text} (flush : line.head?.any isBlank = false)
    (accepted : exported? line = some (name, raw)) :
    (label? line = some name ↔ line.head?.any isLabelStart = true ∧ isAssigned line = true) ∧
    (name = identifier line ↔ isAssigned line = true) ∧
    (isAssigned line = false → ∃ word rest, identifier line = name ++ (word ++ rest) ∧
      word.map CodePoint.toLower = ("equ" : Text) ∧ startsWithWord rest = false) := by
  have whole : name = identifier line ↔ isAssigned line = true := by
    rcases exported_part flush accepted with ⟨assigned, same⟩ | ⟨unassigned, word, rest, more⟩
    · exact iff_of_true same assigned
    · obtain ⟨part, lower, -⟩ := more
      refine iff_of_false (fun same => ?_) (by simp [unassigned])
      rw [← same] at part
      have empty : word = [] := (List.append_eq_nil_iff.mp (List.self_eq_append_right.mp part)).1
      rw [empty] at lower
      cases lower
  refine ⟨?_, whole, fun unassigned => ?_⟩
  · rw [label?_eq, ← whole]
    by_cases first : line.head?.any isLabelStart = true
    · rw [if_pos first, Option.some.injEq, eq_comm]
      exact (and_iff_right first).symm
    · rw [if_neg first]
      exact iff_of_false (fun same => nomatch same) fun both => first both.1
  · rcases exported_part flush accepted with ⟨assigned, _⟩ | ⟨_, part⟩
    · rw [assigned] at unassigned
      cases unassigned
    · exact part

/-- An identifier with the word for an assignment in it, which an assignment follows. -/
theorem exported_name_whole_iff_inside :
    let line : Text := "req.EQU?s: equ 5"
    let name : Text := "req.EQU?s"
    exported? line = some (name, ("5" : Text)) ∧ label? line = some name := by
  intro line name
  have accepted : exported? line = some (name, ("5" : Text)) := by decide +kernel
  exact ⟨accepted, (exported_name_whole_iff (by decide) accepted).1.mpr (by decide +kernel)⟩

/-- Not every exported name is the label on its line. Without an assignment behind it an identifier
that ends with the word for one is cut off in front of that word, and a letter outside ASCII that is
a case of an ASCII letter starts a name but no label. -/
theorem part_of_identifier_exported :
    let line : Text := "frequ 5"
    let part : Text := "fr"
    let dotless : Text := "\u0131 = 1"
    exported? line = some (part, ("5" : Text)) ∧ label? line = some ("frequ" : Text) ∧
    read line = ⟨[⟨part, some 5⟩], []⟩ ∧
    exported? dotless = some (("\u0131" : Text), ("1" : Text)) ∧ label? dotless = none := by
  decide +kernel

end LabelAtlas.Export
