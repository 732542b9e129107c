import Mathlib.Data.List.Forall2
import Mathlib.Data.Nat.Find
import LabelAtlas.Proofs.Bounds
import LabelAtlas.Proofs.Walks

/-! Descriptions told by line numbers: the longest run of blank lines directly above a label, and
the longest run of comment lines above that. Nothing beyond the line on which the second run stops
is ever looked at. -/
namespace LabelAtlas.Description

open Text Source

/-- A comment line and its body: the text behind its first semicolon, up to a line feed. -/
def HasBody (line body : Text) : Prop :=
  ∃ margin rest, isBlankLine margin = true ∧ line = margin ++ .scalar ';' :: rest ∧
    body = rest.takeWhile (· ≠ .scalar '\n')

/-- Whether the first character of a line that is no blank is a semicolon. -/
def isComment (line : Text) : Bool :=
  (line.find? (!isBlank ·)) = some (.scalar ';')

theorem commentBody?_eq_some_iff {line body : Text} :
    commentBody? line = some body ↔ HasBody line body := by
  constructor
  · intro read
    unfold commentBody? at read
    split at read
    · rename_i rest start
      refine ⟨line.takeWhile isBlank, rest, List.all_takeWhile, ?_, (Option.some.inj read).symm⟩
      rw [← start]
      exact List.takeWhile_append_dropWhile.symm
    · cases read
  · rintro ⟨margin, rest, blank, rfl, rfl⟩
    have start : stripStart (margin ++ .scalar ';' :: rest) = .scalar ';' :: rest := by
      rw [stripStart, List.dropWhile_append_of_pos (List.all_eq_true.mp blank)]
      rfl
    rw [commentBody?, start]
    rfl

theorem isComment_eq (line : Text) : isComment line = (commentBody? line).isSome := by
  have first : line.find? (!isBlank ·) = (stripStart line).head? := by
    simp only [List.find?_eq_head?_dropWhile_not, Bool.not_not, stripStart]
  rw [isComment, first, commentBody?]
  cases stripStart line with
  | nil => rfl
  | cons c rest =>
    by_cases semicolon : c = .scalar ';'
    · subst semicolon
      rfl
    · simp [semicolon]

/-- The comment lines are those that have a body. -/
theorem isComment_iff (line : Text) : isComment line = true ↔ ∃ body, HasBody line body := by
  simp only [isComment_eq, Option.isSome_iff_exists, commentBody?_eq_some_iff]

theorem HasBody.one_line {line body : Text} (has : HasBody line body) :
    CodePoint.scalar '\n' ∉ body := by
  obtain ⟨_, rest, _, _, rfl⟩ := has
  intro member
  simpa using List.mem_takeWhile_imp member

/-! ## Runs of lines -/

section Runs

variable (lines : List Text) (view : Text → Text) (p : Text → Bool)

/-- The `r` lines directly above line `k` all pass a test. -/
def PassAbove (k r : Nat) : Prop :=
  ∀ i < k, k ≤ i + r → lines[i]?.any (fun line => p (view line)) = true

instance (k : Nat) : DecidablePred (PassAbove lines view p k) := fun r =>
  inferInstanceAs (Decidable (∀ i < k, k ≤ i + r →
    lines[i]?.any (fun line => p (view line)) = true))

/-- The length of the longest run of lines that pass a test and end directly above line `k`. -/
def runAbove (k : Nat) : Nat :=
  Nat.findGreatest (PassAbove lines view p k) k

theorem runAbove_le (k : Nat) : runAbove lines view p k ≤ k :=
  Nat.findGreatest_le k

theorem passAbove_runAbove (k : Nat) : PassAbove lines view p k (runAbove lines view p k) := by
  have none_above : PassAbove lines view p k 0 := by
    intro i below near
    omega
  exact Nat.findGreatest_spec (Nat.zero_le k) none_above

variable {lines}

theorem passAbove_succ {k : Nat} (inside : k < lines.length) (r : Nat) :
    PassAbove lines view p (k + 1) (r + 1) ↔
      p (view lines[k]) = true ∧ PassAbove lines view p k r := by
  have here : lines[k]? = some lines[k] := List.getElem?_eq_getElem inside
  constructor
  · intro pass
    constructor
    · simpa [here] using pass k (by omega) (by omega)
    · intro i below near
      exact pass i (by omega) (by omega)
  · rintro ⟨nearest, others⟩ i below near
    rcases Nat.lt_succ_iff_lt_or_eq.mp below with further | rfl
    · exact others i further (by omega)
    · simpa [here] using nearest

/-- The nearest line takes part in a run or ends it. -/
theorem runAbove_succ {k : Nat} (inside : k < lines.length) :
    runAbove lines view p (k + 1) =
      if p (view lines[k]) then runAbove lines view p k + 1 else 0 := by
  have bound := runAbove_le lines view p k
  apply Nat.findGreatest_eq_iff.mpr
  split
  · rename_i nearest
    refine ⟨by omega, fun _ => ?_, ?_⟩
    · exact (passAbove_succ view p inside _).mpr ⟨nearest, passAbove_runAbove lines view p k⟩
    · intro r longer fits pass
      obtain ⟨r, rfl⟩ : ∃ s, r = s + 1 := ⟨r - 1, by omega⟩
      have others := ((passAbove_succ view p inside r).mp pass).2
      have most : r ≤ runAbove lines view p k := Nat.le_findGreatest (by omega) others
      omega
  · rename_i ends
    refine ⟨by omega, fun some_line => absurd rfl some_line, ?_⟩
    intro r longer fits pass
    obtain ⟨r, rfl⟩ : ∃ s, r = s + 1 := ⟨r - 1, by omega⟩
    exact ends ((passAbove_succ view p inside r).mp pass).1

/-- A run is what stands first when the lines are read upwards. -/
theorem runAbove_eq {k : Nat} (inside : k ≤ lines.length) :
    runAbove lines view p k = ((above lines view k).takeWhile p).length := by
  induction k with
  | zero => rfl
  | succ k ih =>
    rw [runAbove_succ view p inside, above_succ view inside, List.takeWhile_cons, ih (by omega)]
    split <;> rfl

end Runs

/-! ## The bodies of a run -/

section Bodies

variable {lines : List Text} (view : Text → Text)

/-- The bodies above a line belong to the lines of the run of comments above it, one to each and in
the same order. -/
theorem bodies_of_run {k : Nat} (inside : k ≤ lines.length) :
    let comments := runAbove lines view isComment k
    List.Forall₂ (fun i body => ∃ line ∈ lines[i]?, HasBody (view line) body)
      (List.range' (k - comments) comments) (commentRun (above lines view k)).reverse := by
  induction k with
  | zero => exact List.Forall₂.nil
  | succ k ih =>
    have bound := runAbove_le lines view isComment k
    dsimp only at ih ⊢
    rw [runAbove_succ view isComment inside, above_succ view inside, commentRun]
    cases read : commentBody? (view lines[k]) with
    | none =>
      rw [if_neg (by simp [isComment_eq, read])]
      exact List.Forall₂.nil
    | some body =>
      rw [if_pos (by simp [isComment_eq, read])]
      have here : ∃ line ∈ lines[k]?, HasBody (view line) body :=
        ⟨lines[k], List.getElem?_eq_getElem inside, commentBody?_eq_some_iff.mp read⟩
      have place : k - runAbove lines view isComment k + runAbove lines view isComment k = k := by
        omega
      rw [List.reverse_cons, Nat.add_sub_add_right, List.range'_concat, Nat.one_mul, place]
      exact List.rel_append (ih (by omega)) (.cons here .nil)

end Bodies

/-! ## What is looked at -/

theorem commentRun_eq (lines : List Text) :
    commentRun lines = (lines.takeWhile isComment).filterMap commentBody? := by
  induction lines with
  | nil => rfl
  | cons line rest ih =>
    rw [commentRun, List.takeWhile_cons]
    cases read : commentBody? line <;> simp [isComment_eq, read, ih]

theorem commentRun_one_line {lines : List Text} {body : Text} (member : body ∈ commentRun lines) :
    CodePoint.scalar '\n' ∉ body := by
  rw [commentRun_eq] at member
  obtain ⟨line, _, read⟩ := List.mem_filterMap.mp member
  exact (commentBody?_eq_some_iff.mp read).one_line

/-- The lines of a run and the one behind it decide how long it is. -/
theorem takeWhile_of_take_eq {α : Type} {p : α → Bool} {a b : List α}
    (same : a.take ((a.takeWhile p).length + 1) = b.take ((a.takeWhile p).length + 1)) :
    b.takeWhile p = a.takeWhile p := by
  induction a generalizing b with
  | nil =>
    have empty : b = [] := by simpa using same.symm
    rw [empty]
  | cons x a ih =>
    cases b with
    | nil => simp at same
    | cons y b =>
      rw [List.take_succ_cons, List.take_succ_cons] at same
      obtain ⟨rfl, rest⟩ := List.cons.inj same
      by_cases pass : p x
      · rw [List.takeWhile_cons_of_pos pass] at rest
        rw [List.takeWhile_cons_of_pos pass, List.takeWhile_cons_of_pos pass, ih rest]
      · rw [List.takeWhile_cons_of_neg pass, List.takeWhile_cons_of_neg pass]

/-- Read upwards, a description depends on the blank lines, the comment lines above them and one
line more. -/
theorem ofAbove_of_take_eq (tolerance : Int) {a b : List Text} (long : a.length = b.length)
    (same :
      let seen := blankCount a + ((a.drop (blankCount a)).takeWhile isComment).length + 1
      a.take seen = b.take seen) :
    ofAbove tolerance b = ofAbove tolerance a := by
  dsimp only at same
  have blanks : blankCount b = blankCount a := by
    apply congrArg List.length
    apply takeWhile_of_take_eq
    have part := congrArg (List.take (blankCount a + 1)) same
    rwa [List.take_take, List.take_take, Nat.min_eq_left (by omega)] at part
  have comments : commentRun (b.drop (blankCount a)) = commentRun (a.drop (blankCount a)) := by
    rw [commentRun_eq, commentRun_eq]
    apply congrArg
    apply takeWhile_of_take_eq
    have part := congrArg (List.drop (blankCount a)) same
    rwa [List.drop_take, List.drop_take, Nat.add_assoc, Nat.add_sub_cancel_left] at part
  unfold ofAbove
  dsimp only
  rw [blanks, comments, long]

section Window

variable {lines : List Text} (view : Text → Text)

theorem getElem?_above {k : Nat} (inside : k ≤ lines.length) (i : Nat) :
    (above lines view k)[i]? = if i < k then lines[k - 1 - i]?.map view else none := by
  rw [above, List.getElem?_map]
  split
  · rename_i below
    rw [List.getElem?_reverse (by simpa [inside] using below), List.length_take,
      Nat.min_eq_left inside, List.getElem?_take_of_lt (by omega)]
  · rename_i beyond
    rw [List.getElem?_eq_none (by simpa [inside] using beyond)]
    rfl

theorem take_above_eq {lines' : List Text} {view' : Text → Text} {k seen : Nat}
    (inside : k ≤ lines.length) (inside' : k ≤ lines'.length)
    (same : ∀ i < k, k ≤ i + seen → lines'[i]?.map view' = lines[i]?.map view) :
    (above lines view k).take seen = (above lines' view' k).take seen := by
  apply List.ext_getElem?
  intro j
  by_cases near : j < seen
  · rw [List.getElem?_take_of_lt near, List.getElem?_take_of_lt near, getElem?_above view inside,
      getElem?_above view' inside']
    split
    · exact (same _ (by omega) (by omega)).symm
    · rfl
  · rw [List.getElem?_take_eq_none (by omega), List.getElem?_take_eq_none (by omega)]

theorem describe_eq_ofAbove (tolerance : Int) {n : Nat} (inside : n ≤ lines.length) :
    describe lines view tolerance (some n) = ofAbove tolerance (above lines view n) :=
  if_pos inside

theorem describe_inside (tolerance : Nat) {n : Nat} (inside : n ≤ lines.length) :
    let blanks := runAbove lines view isBlankLine n
    describe lines view tolerance (some n) =
      if blanks = n ∨ tolerance < blanks then none
      else some (join "\n" (commentRun (above lines view (n - blanks))).reverse) := by
  intro blanks
  have count : blankCount (above lines view n) = blanks := (runAbove_eq view _ inside).symm
  rw [describe_eq_ofAbove view tolerance inside, ofAbove, count, length_above view inside,
    drop_above view inside]
  simp only [Bool.or_eq_true, Bool.and_eq_true, decide_eq_true_eq, Int.ofNat_lt]
  apply if_congr _ rfl rfl
  omega

/-- A description holds one line for each comment line of its run. -/
theorem exists_bodies {tolerance n : Nat} (inside : n ≤ lines.length) {t : Text}
    (found : describe lines view tolerance (some n) = some t) :
    let blanks := runAbove lines view isBlankLine n
    let comments := runAbove lines view isComment (n - blanks)
    ∃ bodies, List.Forall₂ (fun i body => ∃ line ∈ lines[i]?, HasBody (view line) body)
        (List.range' (n - blanks - comments) comments) bodies ∧
      t = join "\n" bodies ∧ (comments ≠ 0 → splitAt '\n' t = bodies) := by
  intro blanks comments
  have above_inside : n - blanks ≤ lines.length := by omega
  have bodies := bodies_of_run view above_inside
  have joined : t = join "\n" (commentRun (above lines view (n - blanks))).reverse := by
    rw [describe_inside view tolerance inside] at found
    split at found
    · cases found
    · exact (Option.some.inj found).symm
  refine ⟨_, bodies, joined, fun some_comment => ?_⟩
  rw [joined]
  apply splitAt_join
  · rw [← List.length_pos_iff, ← bodies.length_eq, List.length_range']
    exact Nat.pos_of_ne_zero some_comment
  · intro body member
    exact commentRun_one_line (List.mem_reverse.mp member)

theorem describe_outside (lines : List Text) (tolerance : Int) {n : Int}
    (outside : n < 0 ∨ lines.length < n) : describe lines view tolerance (some n) = none := by
  cases n with
  | negSucc n => rfl
  | ofNat n => exact if_neg (by simp at outside; omega)

/-- Lists that agree from the line that ends the comments on down to the label describe it alike. -/
theorem describe_of_agree (tolerance : Int) {lines' : List Text} {view' : Text → Text} {n : Nat}
    (inside : n ≤ lines.length) (inside' : n ≤ lines'.length)
    (same :
      let blanks := runAbove lines view isBlankLine n
      let comments := runAbove lines view isComment (n - blanks)
      ∀ i < n, n ≤ i + (blanks + comments + 1) → lines'[i]?.map view' = lines[i]?.map view) :
    describe lines' view' tolerance (some n) = describe lines view tolerance (some n) := by
  rw [describe_eq_ofAbove view' tolerance inside', describe_eq_ofAbove view tolerance inside]
  apply ofAbove_of_take_eq
  · rw [length_above view inside, length_above view' inside']
  · have blanks : blankCount (above lines view n) = runAbove lines view isBlankLine n :=
      (runAbove_eq view _ inside).symm
    dsimp only
    rw [blanks, drop_above view inside, ← runAbove_eq view isComment (by omega)]
    exact take_above_eq view inside inside' same

end Window

/-- The description of a label by line numbers. There is none for a label without a line or with one
outside the list, above which too many lines are blank, or above which all are. Every other one
holds the bodies of the longest run of comment lines behind the blank ones, a line for each of them
and in their order; a comment line is one that has a body. It does not depend on the line of the
label, the lines below it, and the lines above the first that is no comment, and no line is looked
up that is not there. -/
theorem describe_by_runs (lines : List Text) (view : Text → Text) (tolerance : Nat) (n : Int) :
    let described := describe lines view tolerance (some n)
    let blanks := runAbove lines view isBlankLine n.toNat
    let comments := runAbove lines view isComment (n.toNat - blanks)
    let first := n.toNat - blanks - comments
    (∀ line, isComment line = true ↔ ∃ body, HasBody line body) ∧
    describe lines view tolerance none = none ∧
    (described = none ↔ n < 0 ∨ lines.length < n ∨ tolerance < blanks ∨ (blanks : Int) = n) ∧
    (∀ t, described = some t → ∃ bodies,
      List.Forall₂ (fun i body => ∃ line ∈ lines[i]?, HasBody (view line) body)
        (List.range' first comments) bodies ∧
      t = join "\n" bodies ∧ (comments ≠ 0 → splitAt '\n' t = bodies)) ∧
    (∀ lines' view', n ≤ lines.length → n ≤ lines'.length →
      (∀ i : Nat, i < n → first ≤ i + 1 → lines'[i]?.map view' = lines[i]?.map view) →
      describe lines' view' tolerance (some n) = described) ∧
    describeByNumber? lines view tolerance (some n) = some described := by
  intro described blanks comments first
  have blanks_le : blanks ≤ n.toNat := runAbove_le _ _ _ _
  have comments_le : comments ≤ n.toNat - blanks := runAbove_le _ _ _ _
  refine ⟨isComment_iff, rfl, ?_, ?_, ?_, describeByNumber?_eq view tolerance (some n)⟩
  · by_cases outside : n < 0 ∨ lines.length < n
    · have nothing : described = none := describe_outside view lines tolerance outside
      simp only [nothing, true_iff]
      omega
    · obtain ⟨k, rfl⟩ : ∃ k : Nat, n = k := ⟨n.toNat, by omega⟩
      have found : described = _ := describe_inside view tolerance (n := k) (by omega)
      rw [found, ite_eq_left_iff]
      simp only [reduceCtorEq, imp_false, not_not]
      show blanks = k ∨ tolerance < blanks ↔ _
      omega
  · intro t found
    have inside : ¬(n < 0 ∨ lines.length < n) := by
      intro outside
      rw [show described = none from describe_outside view lines tolerance outside] at found
      cases found
    obtain ⟨k, rfl⟩ : ∃ k : Nat, n = k := ⟨n.toNat, by omega⟩
    exact exists_bodies view (by omega) found
  · intro lines' view' inside inside' same
    by_cases negative : n < 0
    · rw [describe_outside view' lines' tolerance (.inl negative)]
      exact (describe_outside view lines tolerance (.inl negative)).symm
    · obtain ⟨k, rfl⟩ : ∃ k : Nat, n = k := ⟨n.toNat, by omega⟩
      apply describe_of_agree view tolerance (by omega) (by omega)
      intro blanks' comments' i below near
      apply same i (by omega)
      show k - blanks' - comments' ≤ i + 1
      omega

end LabelAtlas.Description
