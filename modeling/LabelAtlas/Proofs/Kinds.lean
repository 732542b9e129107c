import LabelAtlas.Document.Given
import LabelAtlas.Proofs.Bounds

/-! What decides on the kind of a label. Its own line and the lines that are scanned behind it are one
stretch of the list, and the first statement in that stretch gives the kind. -/
namespace LabelAtlas.Source

open Text

/-- The lines from `n` to `n + scan`, as far as they are there. -/
def window (lines : List Text) (n scan : Nat) : List Text :=
  (lines.drop n).take (scan + 1)

/-! ## First statements -/

theorem statementKind?_eq_none_iff (line : Text) :
    statementKind? (statement line) = none ↔ statement line = [] := by
  constructor
  · intro undecided
    by_contra stated
    obtain ⟨word, found⟩ := exists_firstWord stated
    rw [statementKind?, found] at undecided
    cases undecided
  · intro blank
    rw [blank]
    rfl

theorem wordKind_ne_unknown (word : Text) : wordKind word ≠ .unknown := by
  unfold wordKind
  split
  · exact Kind.noConfusion
  · split <;> exact Kind.noConfusion

theorem statementKind?_ne_unknown (stated : Text) : statementKind? stated ≠ some .unknown := by
  intro decided
  obtain ⟨word, -, unknown⟩ := Option.map_eq_some_iff.mp decided
  exact wordKind_ne_unknown _ unknown

theorem firstKind_eq_unknown_iff (lines : List Text) :
    firstKind lines = .unknown ↔ ∀ line ∈ lines, statement line = [] := by
  simp only [← statementKind?_eq_none_iff]
  rw [← List.findSome?_eq_none_iff, firstKind]
  cases found : lines.findSome? fun line => statementKind? (statement line) with
  | none => simp
  | some kind =>
    obtain ⟨line, -, decided⟩ := List.exists_of_findSome?_eq_some found
    simp only [Option.getD_some, reduceCtorEq, iff_false]
    rintro rfl
    exact statementKind?_ne_unknown _ decided

theorem firstKind_append (front rest : List Text) :
    firstKind (front ++ rest) =
      if firstKind front = .unknown then firstKind rest else firstKind front := by
  have known := firstKind_eq_unknown_iff front
  simp only [← statementKind?_eq_none_iff] at known
  rw [← List.findSome?_eq_none_iff] at known
  split
  · rename_i unknown
    rw [firstKind, List.findSome?_append, known.mp unknown, Option.none_or, firstKind]
  · rename_i decided
    obtain ⟨kind, found⟩ := Option.ne_none_iff_exists'.mp (mt known.mpr decided)
    rw [firstKind, List.findSome?_append, found, Option.some_or, firstKind, found]

theorem firstKind_cons {line : Text} (stated : statement line ≠ []) (rest : List Text) :
    statementKind? (statement line) = some (firstKind (line :: rest)) := by
  have decided := mt (statementKind?_eq_none_iff line).mp stated
  obtain ⟨kind, found⟩ := Option.ne_none_iff_exists'.mp decided
  rw [firstKind, List.findSome?_cons, found]
  rfl

theorem firstKind_of_first {lines : List Text} {k : Nat} {line : Text}
    (here : lines[k]? = some line) (stated : statement line ≠ [])
    (earlier : ∀ j before, j < k → lines[j]? = some before → statement before = []) :
    statementKind? (statement line) = some (firstKind lines) := by
  obtain ⟨inside, same⟩ := List.getElem?_eq_some_iff.mp here
  have split : lines = lines.take k ++ line :: lines.drop (k + 1) := by
    rw [← same, ← List.drop_eq_getElem_cons inside, List.take_append_drop]
  have unknown : firstKind (lines.take k) = .unknown := by
    rw [firstKind_eq_unknown_iff]
    intro before member
    obtain ⟨j, bound, rfl⟩ := List.mem_take_iff_getElem.mp member
    exact earlier j _ (by omega) (List.getElem?_eq_getElem (by omega))
  have decided : firstKind lines = firstKind (line :: lines.drop (k + 1)) := calc
    firstKind lines = firstKind (lines.take k ++ line :: lines.drop (k + 1)) :=
      congrArg firstKind split
    _ = firstKind (line :: lines.drop (k + 1)) := by rw [firstKind_append, if_pos unknown]
  rw [decided]
  exact firstKind_cons stated _

/-! ## The lines that are looked at -/

/-- Scanned are the lines behind the label, up to the end of the list. -/
theorem following_eq (lines : List Text) (n scan : Nat) :
    following lines n scan = (lines.drop (n + 1)).take scan := by
  have stop : scanStop lines.length n scan = min lines.length (n + 1 + scan) := by
    unfold scanStop
    dsimp only
    omega
  rw [following, stop, Nat.min_comm, ← List.take_eq_take_min, List.drop_take,
    Nat.add_sub_cancel_left]

theorem window_eq_cons {lines : List Text} {n : Nat} (inside : n < lines.length) (scan : Nat) :
    window lines n scan = lines[n] :: following lines n scan := by
  rw [window, List.drop_eq_getElem_cons inside, List.take_succ_cons, following_eq]

theorem kindAt_eq {lines : List Text} {n : Nat} (inside : n < lines.length) (scan : Nat) :
    kindAt lines n scan = firstKind (window lines n scan) := by
  rw [kindAt, List.getElem?_eq_getElem inside, window_eq_cons inside]

theorem getElem?_window (lines : List Text) (n scan k : Nat) :
    (window lines n scan)[k]? = if k ≤ scan then lines[n + k]? else none := by
  rw [window, List.getElem?_take, List.getElem?_drop]
  simp only [Nat.lt_succ_iff]

theorem mem_window_iff (lines : List Text) (n scan : Nat) (line : Text) :
    line ∈ window lines n scan ↔ ∃ i, n ≤ i ∧ i ≤ n + scan ∧ lines[i]? = some line := by
  rw [List.mem_iff_getElem?]
  constructor
  · rintro ⟨k, here⟩
    rw [getElem?_window] at here
    split at here
    · exact ⟨n + k, by omega, by omega, here⟩
    · cases here
  · rintro ⟨i, low, high, here⟩
    refine ⟨i - n, ?_⟩
    rw [getElem?_window, if_pos (by omega), Nat.add_sub_cancel' low, here]

/-- Lists that agree from line `n` to line `n + scan` have the same window there. -/
theorem window_of_agree {lines others : List Text} {n scan : Nat}
    (agree : ∀ i, n ≤ i → i ≤ n + scan → others[i]? = lines[i]?) :
    window others n scan = window lines n scan := by
  apply List.ext_getElem?
  intro k
  rw [getElem?_window, getElem?_window]
  split
  · exact agree (n + k) (by omega) (by omega)
  · rfl

/-- A window goes on where a shorter one ends. -/
theorem window_append (lines : List Text) (n : Nat) {scan more : Nat} (longer : scan ≤ more) :
    ∃ rest, window lines n more = window lines n scan ++ rest := by
  refine ⟨((lines.drop n).drop (scan + 1)).take (more - scan), ?_⟩
  rw [window, window, ← List.take_add]
  congr 1
  omega

/-! ## Kinds -/

/-- The kind of a label is that of the first statement from its own line to the last line that is
scanned, and is unknown exactly if there is none. It is always found: a statement has a first word,
and whole numbers are no fault. No other line has a say in it, and once it is found a longer scan
finds the same. -/
theorem kind_of_first_statement (lines : List Text) (n scan : Nat) (inside : n < lines.length) :
    let kind := kindAt lines n scan
    kindByWord? lines (some n) scan = some kind ∧
    checkedKind lines (some (.whole n)) (some (.whole scan)) = .ok kind ∧
    (kind = .unknown ↔
      ∀ i, n ≤ i → i ≤ n + scan → ∀ line, lines[i]? = some line → statement line = []) ∧
    (∀ i line, n ≤ i → i ≤ n + scan → lines[i]? = some line → statement line ≠ [] →
      (∀ j before, n ≤ j → j < i → lines[j]? = some before → statement before = []) →
      statementKind? (statement line) = some kind) ∧
    (∀ others : List Text, (∀ i, n ≤ i → i ≤ n + scan → others[i]? = lines[i]?) →
      kindAt others n scan = kind) ∧
    (kind ≠ .unknown → ∀ more : Nat, scan ≤ more → kindAt lines n more = kind) := by
  intro kind
  have whole : kind = firstKind (window lines n scan) := kindAt_eq inside scan
  refine ⟨kindByWord?_eq lines (some n) scan, rfl, ?_, ?_, ?_, ?_⟩
  · rw [whole, firstKind_eq_unknown_iff]
    simp only [mem_window_iff]
    constructor
    · intro blank i low high line here
      exact blank line ⟨i, low, high, here⟩
    · rintro blank line ⟨i, low, high, here⟩
      exact blank i low high line here
  · intro i line low high here stated earlier
    rw [whole]
    have place : (window lines n scan)[i - n]? = some line := by
      rw [getElem?_window, if_pos (by omega), Nat.add_sub_cancel' low, here]
    apply firstKind_of_first place stated
    intro j before lower there
    rw [getElem?_window, if_pos (by omega)] at there
    exact earlier (n + j) before (by omega) (by omega) there
  · intro others agree
    have there : n < others.length := by
      apply (List.getElem?_eq_some_iff.mp ?_).1
      · exact lines[n]
      · rw [agree n (Nat.le_refl n) (by omega), List.getElem?_eq_getElem inside]
    rw [whole, kindAt_eq there, window_of_agree agree]
  · intro decided more longer
    obtain ⟨rest, goes_on⟩ := window_append lines n longer
    rw [kindAt_eq inside, goes_on, firstKind_append, ← whole, if_neg decided]

/-- The statement stands on the last line that is scanned. A shorter scan does not get there. -/
theorem kind_of_first_statement_last_line :
    let lines : List Text := ["buffer:", "; 16 bytes", "", " .DEFS 16", " ret"]
    0 < lines.length ∧ kindAt lines 0 2 = .unknown ∧ kindAt lines 0 3 = .data ∧
    ∀ more : Nat, 3 ≤ more → kindAt lines 0 more = .data := by
  intro lines
  have data : kindAt lines 0 (3 : Nat) = .data := by decide +kernel
  have inside : 0 < lines.length := by decide
  obtain ⟨-, -, -, -, -, stable⟩ := kind_of_first_statement lines 0 3 inside
  refine ⟨inside, by decide +kernel, data, ?_⟩
  intro more longer
  rw [stable (by rw [data]; exact Kind.noConfusion) more longer, data]

end LabelAtlas.Source
