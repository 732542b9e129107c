import LabelAtlas.Document.Build
import LabelAtlas.Proofs.Characters

/-! Steps that could fail. The lines above a label are looked up by their numbers, which could lie
outside the list, and the kind of a statement is that of its first word, which it might not have.
Neither ever happens: done with steps that can fail, the work comes to the same end. -/
namespace LabelAtlas

namespace Description

open Text Source

variable (lines : List Text) (view : Text → Text)

/-- Goes up from line `n` over blank lines. With `k` lines still above, line `k - 1` is the next to
be looked at. Ends below the nearest line that is not blank, or nowhere if there is none within the
tolerance. -/
def climb? (tolerance : Int) (n : Nat) : Nat → Option (Option Nat)
  | 0 => some none
  | k + 1 => do
    let line ← lines[k]?
    if !isBlankLine (view line) then some (some (k + 1))
    else if tolerance < n - k then some none
    else climb? tolerance n k

/-- The bodies of the comment lines directly above, the nearest first. -/
def bodies? : Nat → Option (List Text)
  | 0 => some []
  | k + 1 => do
    let line ← lines[k]?
    match commentBody? (view line) with
    | none => some []
    | some body => (bodies? k).map (body :: ·)

/-- The description of a label, found by line numbers. -/
def describeByNumber? (tolerance : Int) (line : Option Int) : Option (Option Text) :=
  match line with
  | some (.ofNat n) =>
    if lines.length < n then some none
    else do
      match ← climb? lines view tolerance n n with
      | none => some none
      | some k => (bodies? lines view k).map fun bodies => some (join "\n" bodies.reverse)
  | _ => some none

/-- What a label on line `k` has above it, the nearest line first. -/
def above (k : Nat) : List Text :=
  (lines.take k).reverse.map view

variable {lines}

theorem above_succ {k : Nat} (inside : k < lines.length) :
    above lines view (k + 1) = view lines[k] :: above lines view k := by
  rw [above, List.take_succ_eq_append_getElem inside, List.reverse_append, List.map_append]
  rfl

theorem length_above {k : Nat} (inside : k ≤ lines.length) : (above lines view k).length = k := by
  simp [above, inside]

theorem drop_above {k : Nat} (inside : k ≤ lines.length) (b : Nat) :
    (above lines view k).drop b = above lines view (k - b) := by
  induction b generalizing k with
  | zero => rfl
  | succ b ih =>
    cases k with
    | zero => simp [above]
    | succ k =>
      rw [above_succ view inside, List.drop_succ_cons, ih (by omega)]
      congr 1
      omega

theorem bodies?_eq {k : Nat} (inside : k ≤ lines.length) :
    bodies? lines view k = some (commentRun (above lines view k)) := by
  induction k with
  | zero => rfl
  | succ k ih =>
    have here : lines[k]? = some lines[k] := List.getElem?_eq_getElem inside
    rw [bodies?, here, above_succ view inside, commentRun, Option.bind_eq_bind, Option.bind_some]
    cases commentBody? (view lines[k]) with
    | none => rfl
    | some body => rw [ih (by omega)]; rfl

theorem blankCount_cons (line : Text) (rest : List Text) :
    blankCount (line :: rest) = if isBlankLine line then blankCount rest + 1 else 0 := by
  unfold blankCount
  cases blank : isBlankLine line <;> simp [blank]

/-- The climb ends below the blank lines, unless nothing is above them or they are too many. -/
theorem climb?_eq (tolerance : Int) {n k : Nat} (inside : k ≤ lines.length) :
    climb? lines view tolerance n k =
      let blanks := blankCount (above lines view k)
      if blanks = k ∨ (0 < blanks ∧ tolerance < n - k + blanks) then some none
      else some (some (k - blanks)) := by
  induction k with
  | zero => simp [climb?, above, blankCount]
  | succ k ih =>
    have here : lines[k]? = some lines[k] := List.getElem?_eq_getElem inside
    rw [climb?, here, above_succ view inside, blankCount_cons, Option.bind_eq_bind,
      Option.bind_some, ih (by omega)]
    cases isBlankLine (view lines[k]) with
    | false => simp
    | true =>
      generalize blankCount (above lines view k) = blanks
      simp only [Bool.not_true, Bool.false_eq_true, ↓reduceIte]
      by_cases many : tolerance < n - k
      · rw [if_pos many, if_pos (by omega)]
      · have same : (blanks = k ∨ (0 < blanks ∧ tolerance < (n : Int) - k + blanks)) ↔
            (blanks + 1 = k + 1 ∨
              (0 < blanks + 1 ∧ tolerance < (n : Int) - (k + 1 : Nat) + (blanks + 1 : Nat))) := by
          omega
        rw [if_neg many, Nat.add_sub_add_right]
        exact if_congr same rfl rfl

/-- No line is looked up that is not there. -/
theorem describeByNumber?_eq (tolerance : Int) (line : Option Int) :
    describeByNumber? lines view tolerance line = some (describe lines view tolerance line) := by
  match line with
  | none => rfl
  | some (.negSucc n) => rfl
  | some (.ofNat n) =>
    unfold describeByNumber? describe
    dsimp only
    by_cases inside : n ≤ lines.length
    · have ends : ofAbove tolerance (above lines view n) =
          let blanks := blankCount (above lines view n)
          if blanks = n ∨ (0 < blanks ∧ tolerance < (n : Int) - n + blanks) then none
          else some (join "\n" (commentRun (above lines view (n - blanks))).reverse) := by
        simp [ofAbove, length_above view inside, drop_above view inside]
      rw [if_neg (by omega), if_pos inside, climb?_eq view tolerance inside]
      refine Eq.trans ?_ (congrArg some ends.symm)
      dsimp only
      split
      · rfl
      · rw [Option.bind_eq_bind, Option.bind_some]
        dsimp only
        rw [bodies?_eq view (by omega)]
        rfl
    · rw [if_pos (by omega), if_neg inside]

end Description

namespace Source

open Text

theorem strip_eq_cons {t : Text} (some_char : strip t ≠ []) :
    ∃ c u, strip t = c :: u ∧ isBlank c = false := by
  unfold strip at some_char ⊢
  cases start : stripStart t with
  | nil => exact absurd (by rw [start]; rfl) some_char
  | cons c u =>
    have solid : isBlank c = false := by
      have first := List.head?_dropWhile_not isBlank t
      rw [stripStart] at start
      rw [start] at first
      simpa using first
    exact ⟨c, stripEnd u, stripEnd_cons c u solid, solid⟩

/-- A statement is a text without blanks at its ends. -/
theorem exists_statement_eq (line : Text) : ∃ t, statement line = strip t := by
  unfold statement
  cases code line with
  | nil => exact ⟨[], rfl⟩
  | cons c t =>
    rw [split]
    split
    · exact ⟨_, rfl⟩
    · exact ⟨_, rfl⟩

/-- A statement that is there has a first word. -/
theorem exists_firstWord {line : Text} (stated : statement line ≠ []) :
    ∃ word, firstWord? (statement line) = some word := by
  obtain ⟨t, same⟩ := exists_statement_eq line
  rw [same] at stated ⊢
  obtain ⟨c, u, whole, solid⟩ := strip_eq_cons stated
  have start : stripStart (c :: u) = c :: u := List.dropWhile_cons_of_neg (by simp [solid])
  rw [whole, firstWord?, start]
  exact ⟨_, rfl⟩

/-- The kind of the first line that has a statement, which must have a first word. -/
def firstKind? : List Text → Option Kind
  | [] => some .unknown
  | line :: rest =>
    if (statement line).isEmpty then firstKind? rest else statementKind? (statement line)

/-- The kind of the label on a line. -/
def kindByWord? (lines : List Text) (line : Option Int) (scan : Int) : Option Kind :=
  match line with
  | some (.ofNat n) => match lines[n]? with
    | none => some .unknown
    | some own => firstKind? (own :: following lines n scan)
  | _ => some .unknown

theorem firstKind?_eq (lines : List Text) : firstKind? lines = some (firstKind lines) := by
  induction lines with
  | nil => rfl
  | cons line rest ih =>
    rw [firstKind?]
    split
    · rename_i blank
      have skipped : statementKind? (statement line) = none := by
        rw [List.isEmpty_iff.mp blank]
        rfl
      rw [ih, firstKind, firstKind, List.findSome?_cons, skipped]
    · rename_i stated
      obtain ⟨word, found⟩ := exists_firstWord (by simpa using stated)
      have decided : statementKind? (statement line) = some (wordKind (word.map foldCase)) := by
        rw [statementKind?, found]
        rfl
      rw [firstKind, List.findSome?_cons, decided]
      rfl

/-- No kind is asked of a text without a word. -/
theorem kindByWord?_eq (lines : List Text) (line : Option Int) (scan : Int) :
    kindByWord? lines line scan = some (kindOf lines line scan) := by
  match line with
  | none => rfl
  | some (.negSucc n) => rfl
  | some (.ofNat n) =>
    unfold kindByWord? kindOf kindAt
    dsimp only
    cases lines[n]? with
    | none => rfl
    | some own => exact firstKind?_eq _

end Source

end LabelAtlas
