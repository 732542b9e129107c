import Mathlib.Data.List.Infix
import LabelAtlas.Definition

/-! Which name a line defines, said without a scan: a module is open at a line if counting the
module lines in between never closes it, and a local label belongs to the nearest label above it
that is not local. The scan is shown to agree with this at every line. -/
namespace LabelAtlas.Definition

open Text Source

/-- The name of the module that a line opens. -/
def opened? (line : Text) : Option Text :=
  match directive? line with
  | some (.openModule name) => some name
  | _ => none

def opens (line : Text) : Bool :=
  (opened? line).isSome

def closes (line : Text) : Bool :=
  directive? line = some .closeModule

/-- The lines behind line `j` up to line `k`. -/
def stretch (lines : List Text) (j k : Nat) : List Text :=
  (lines.drop (j + 1)).take (k - j)

/-- Nothing between lines `j` and `i` ends what line `j` opens: up to no line in between are more
modules ended than opened. -/
def StaysOpen (lines : List Text) (j i : Nat) : Prop :=
  ∀ k < i, j < k → (stretch lines j k).countP closes ≤ (stretch lines j k).countP opens

instance (lines : List Text) (j i : Nat) : Decidable (StaysOpen lines j i) :=
  inferInstanceAs (Decidable (∀ k < i, j < k →
    (stretch lines j k).countP closes ≤ (stretch lines j k).countP opens))

/-- The names of the modules that are open at a line, outermost first. -/
def modulePath (lines : List Text) (i : Nat) : List Text :=
  (List.range i).filterMap fun j =>
    if StaysOpen lines j i then lines[j]?.bind opened? else none

def directiveOn? (lines : List Text) (i : Nat) : Option Directive :=
  lines[i]?.bind directive?

/-- The label on a line. A directive has none. -/
def labelOn? (lines : List Text) (i : Nat) : Option Text :=
  if (directiveOn? lines i).isSome then none else lines[i]?.bind label?

def isLocal (label : Text) : Bool :=
  label.head? = some (.scalar '.')

/-- The full name of a label that is not local, in open modules. -/
def globalName (modules : List Text) (label : Text) : Text :=
  if label.head? = some (.scalar '@') then label.tail else join "." (modules ++ [label])

/-- The nearest line above line `i` with a label that is not local, if no directive stands in
between. -/
def anchorLine? (lines : List Text) (i : Nat) : Option Nat :=
  (List.range i).reverse.find? fun j =>
    (labelOn? lines j).any (!isLocal ·) ∧ ∀ k < i, j < k → directiveOn? lines k = none

/-- The name that local labels on line `i` are appended to, empty if there is none. -/
def anchorName (lines : List Text) (i : Nat) : Text :=
  ((anchorLine? lines i).bind fun j =>
    (labelOn? lines j).map (globalName (modulePath lines j))).getD []

/-- The full name of a local label: behind the anchor if that has a name, else behind the open
modules, and without its dot if there are none. -/
def localName (anchor : Text) (modules : List Text) (label : Text) : Text :=
  if anchor ≠ [] then anchor ++ label
  else if modules ≠ [] then join "." modules ++ label
  else label.tail

/-- The name that a line defines. -/
def nameOn? (lines : List Text) (i : Nat) : Option Text :=
  (labelOn? lines i).map fun label =>
    if isLocal label then localName (anchorName lines i) (modulePath lines i) label
    else globalName (modulePath lines i) label

/-! ## Open modules -/

/-- How many modules opened before some lines are ended in them. -/
def endings : List Text → Nat
  | [] => 0
  | line :: rest =>
    match directive? line with
    | some (.openModule _) => endings rest - 1
    | some .closeModule => endings rest + 1
    | none => endings rest

/-- The modules that are opened in some lines and not ended in them. -/
def leftOpen : List Text → List Text
  | [] => []
  | line :: rest =>
    match opened? line with
    | some name => if endings rest = 0 then name :: leftOpen rest else leftOpen rest
    | none => leftOpen rest

/-- Only directives change which modules are open. -/
theorem modules_next (s : Scope) (line : Text) :
    (s.next line).modules =
      (directive? line).elim s.modules fun d => (s.afterDirective d).modules := by
  unfold Scope.next
  cases directive? line with
  | some d => rfl
  | none =>
    cases label? line with
    | none => rfl
    | some label =>
      dsimp only
      unfold Scope.afterLabel
      split <;> rfl

/-- A run over any lines takes as many modules off the stack as they end, and puts on those they
leave open. Ends without an open module take nothing off. -/
theorem run_modules (lines : List Text) (s : Scope) :
    (lines.foldl Scope.next s).modules =
      s.modules.take (s.modules.length - endings lines) ++ leftOpen lines := by
  induction lines generalizing s with
  | nil => simp [endings, leftOpen]
  | cons line rest ih =>
    rw [List.foldl_cons, ih]
    cases read : directive? line with
    | none =>
      have kept : (s.next line).modules = s.modules := by rw [modules_next, read]; rfl
      simp [kept, endings, leftOpen, opened?, read]
    | some d =>
      cases d with
      | openModule name =>
        have pushed : (s.next line).modules = s.modules ++ [name] := by rw [modules_next, read]; rfl
        cases more : endings rest with
        | zero =>
          have whole : (s.modules ++ [name]).take (s.modules.length + 1) = s.modules ++ [name] :=
            List.take_of_length_le (by simp)
          simp [pushed, endings, leftOpen, opened?, read, more, whole]
        | succ n =>
          have bound : s.modules.length + 1 - (n + 1) = s.modules.length - n := by omega
          simp [pushed, endings, leftOpen, opened?, read, more, bound,
            List.take_append_of_le_length (Nat.sub_le s.modules.length n)]
      | closeModule =>
        have popped : (s.next line).modules = s.modules.dropLast := by rw [modules_next, read]; rfl
        simp only [popped, endings, leftOpen, opened?, read]
        rw [List.length_dropLast, List.dropLast_eq_take, List.take_take]
        congr 2
        omega

/-- The modules ended are told by counting. -/
theorem endings_le_iff (lines : List Text) (n : Nat) :
    endings lines ≤ n ↔
      ∀ k, (lines.take k).countP closes ≤ (lines.take k).countP opens + n := by
  induction lines generalizing n with
  | nil => simp [endings]
  | cons line rest ih =>
    have step : (∀ k, ((line :: rest).take k).countP closes ≤
          ((line :: rest).take k).countP opens + n) ↔
        ∀ k, (rest.take k).countP closes + (if closes line then 1 else 0) ≤
          (rest.take k).countP opens + (if opens line then 1 else 0) + n := by
      constructor
      · intro counted k
        simpa only [List.take_succ_cons, List.countP_cons] using counted (k + 1)
      · intro counted k
        cases k with
        | zero => simp
        | succ k => simpa only [List.take_succ_cons, List.countP_cons] using counted k
    rw [step]
    cases read : directive? line with
    | none =>
      simpa [endings, read, closes, opens, opened?] using ih n
    | some d =>
      cases d with
      | openModule name =>
        have more := ih (n + 1)
        simp only [endings, read, closes, opens, opened?]
        simp only [Option.some.injEq, reduceCtorEq, decide_false, Bool.false_eq_true, ↓reduceIte,
          Option.isSome_some, Nat.add_zero]
        rw [Nat.sub_le_iff_le_add, more]
        constructor <;> intro counted k <;> have := counted k <;> omega
      | closeModule =>
        simp only [endings, read, closes, opens, opened?]
        simp only [decide_true, ↓reduceIte, Option.isSome_none, Bool.false_eq_true, Nat.add_zero]
        cases n with
        | zero =>
          constructor
          · intro none_ended
            omega
          · intro counted
            simpa using counted 0
        | succ n =>
          rw [Nat.add_le_add_iff_right, ih n]
          constructor <;> intro counted k <;> have := counted k <;> omega

theorem staysOpen_iff (lines : List Text) (j i : Nat) :
    StaysOpen lines j i ↔ endings ((lines.take i).drop (j + 1)) = 0 := by
  rw [← Nat.le_zero, endings_le_iff]
  simp only [Nat.add_zero, List.drop_take, List.take_take]
  constructor
  · intro counted k
    by_cases none_between : min k (i - (j + 1)) = 0
    · simp [none_between]
    · have shifted := counted (j + min k (i - (j + 1))) (by omega) (by omega)
      rwa [stretch, Nat.add_sub_cancel_left] at shifted
  · intro counted k before behind
    have within := counted (k - j)
    rwa [Nat.min_eq_left (by omega)] at within

theorem leftOpen_eq (lines : List Text) :
    leftOpen lines = (List.range lines.length).filterMap fun j =>
      if endings (lines.drop (j + 1)) = 0 then lines[j]?.bind opened? else none := by
  induction lines with
  | nil => rfl
  | cons line rest ih =>
    have tail : leftOpen rest = (List.range rest.length).filterMap
        ((fun j => if endings ((line :: rest).drop (j + 1)) = 0 then
          (line :: rest)[j]?.bind opened? else none) ∘ Nat.succ) := ih
    rw [List.length_cons, List.range_succ_eq_map, List.filterMap_cons, List.filterMap_map, ← tail]
    cases read : opened? line with
    | none => simp [leftOpen, read]
    | some name => by_cases last : endings rest = 0 <;> simp [leftOpen, read, last]

theorem modulePath_eq (lines : List Text) (i : Nat) (inside : i ≤ lines.length) :
    modulePath lines i = leftOpen (lines.take i) := by
  rw [leftOpen_eq, List.length_take, Nat.min_eq_left inside, modulePath]
  apply List.filterMap_congr
  intro j member
  have before : j < i := List.mem_range.mp member
  simp only [staysOpen_iff, List.getElem?_take_of_lt before]

/-! ## The scan -/

/-- The scope in which the scan comes to a line. -/
def scopeAt (lines : List Text) (i : Nat) : Scope :=
  (lines.take i).foldl Scope.next {}

theorem scopeAt_succ (lines : List Text) (i : Nat) (inside : i < lines.length) :
    scopeAt lines (i + 1) = (scopeAt lines i).next lines[i] := by
  rw [scopeAt, ← List.take_append_getElem inside, List.foldl_append]
  rfl

theorem scopeAt_modules (lines : List Text) (i : Nat) (inside : i ≤ lines.length) :
    (scopeAt lines i).modules = modulePath lines i := by
  rw [modulePath_eq lines i inside, scopeAt, run_modules]
  simp

theorem anchorLine?_succ (lines : List Text) (i : Nat) :
    anchorLine? lines (i + 1) =
      if (labelOn? lines i).any (!isLocal ·) then some i
      else if directiveOn? lines i = none then anchorLine? lines i else none := by
  rw [anchorLine?, List.range_succ, List.reverse_append, List.reverse_singleton,
    List.singleton_append]
  by_cases own : (labelOn? lines i).any (!isLocal ·)
  · rw [if_pos own, List.find?_cons_of_pos]
    simp only [own, true_and, decide_eq_true_eq]
    omega
  · rw [if_neg own, List.find?_cons_of_neg (by simp [own])]
    by_cases free : directiveOn? lines i = none
    · have same (j : Nat) : (∀ k < i + 1, j < k → directiveOn? lines k = none) ↔
          ∀ k < i, j < k → directiveOn? lines k = none := by
        constructor
        · intro between k before
          exact between k (by omega)
        · intro between k before behind
          rcases Nat.lt_succ_iff_lt_or_eq.mp before with before | rfl
          · exact between k before behind
          · exact free
      simp only [if_pos free, anchorLine?, same]
    · rw [if_neg free, List.find?_eq_none]
      intro j member
      have before : j < i := by simpa using member
      simp only [decide_eq_true_eq, not_and]
      intro _ between
      exact free (between i (by omega) before)

theorem qualify_global (s : Scope) (label : Text) (global : isLocal label = false) :
    s.qualify label = globalName s.modules label := by
  unfold Scope.qualify globalName
  split
  · simp [isLocal] at global
  · rfl
  · rename_i not_marked
    cases label with
    | nil => rfl
    | cons c label =>
      have other : c ≠ .scalar '@' := fun same => not_marked label (by rw [same])
      simp [other]

/-- Module names are not empty, so open modules always give a path. -/
theorem join_modules_ne_nil (modules : List Text) (some_open : modules ≠ [])
    (named : ∀ name ∈ modules, name ≠ []) : join "." modules ≠ [] := by
  cases modules with
  | nil => exact absurd rfl some_open
  | cons name rest =>
    cases rest with
    | nil => simpa [join] using named name
    | cons next rest => simp [join, List.intercalate_cons_cons]

theorem moduleName?_ne_nil {text name : Text} (read : moduleName? text = some name) :
    name ≠ [] := by
  unfold moduleName? at read
  split at read
  · split at read
    · dsimp only at read
      split at read
      · cases read
      · rename_i nonempty
        cases read
        simpa using nonempty
    · cases read
  · cases read

theorem opened?_ne_nil {line name : Text} (read : opened? line = some name) : name ≠ [] := by
  unfold opened? directive? at read
  cases named : moduleName? (code line) with
  | none =>
    rw [named] at read
    cases ends : endsModule (code line) <;> simp [ends] at read
  | some other =>
    rw [named] at read
    cases read
    exact moduleName?_ne_nil named

theorem modulePath_named (lines : List Text) (i : Nat) :
    ∀ name ∈ modulePath lines i, name ≠ [] := by
  intro name member
  obtain ⟨j, _, read⟩ := List.mem_filterMap.mp member
  split at read
  · obtain ⟨line, _, opened⟩ := Option.bind_eq_some_iff.mp read
    exact opened?_ne_nil opened
  · cases read

theorem qualify_local (s : Scope) (label : Text) (is_local : isLocal label = true)
    (named : ∀ name ∈ s.modules, name ≠ []) :
    s.qualify label = localName s.anchor s.modules label := by
  obtain ⟨rest, rfl⟩ : ∃ rest, label = .scalar '.' :: rest := by
    cases label with
    | nil => simp [isLocal] at is_local
    | cons c rest => exact ⟨rest, by simpa [isLocal] using is_local⟩
  cases anchor : s.anchor with
  | cons c name => simp [Scope.qualify, localName, anchor]
  | nil =>
    by_cases none_open : s.modules = []
    · simp [Scope.qualify, localName, Scope.path, anchor, none_open, join]
    · have path := join_modules_ne_nil s.modules none_open named
      simp only [Scope.qualify, localName, Scope.path, anchor, List.isEmpty_nil, ↓reduceIte,
        List.isEmpty_iff, path, ne_eq, not_true_eq_false, none_open, not_false_eq_true]

theorem directiveOn?_inside (lines : List Text) (i : Nat) (inside : i < lines.length) :
    directiveOn? lines i = directive? lines[i] := by
  simp [directiveOn?, inside]

theorem labelOn?_inside (lines : List Text) (i : Nat) (inside : i < lines.length) :
    labelOn? lines i = if (directive? lines[i]).isSome then none else label? lines[i] := by
  simp [labelOn?, directiveOn?, inside]

/-- The scan remembers exactly the name of the nearest label that local labels belong to. -/
theorem scopeAt_anchor (lines : List Text) (i : Nat) (inside : i ≤ lines.length) :
    (scopeAt lines i).anchor = anchorName lines i := by
  induction i with
  | zero => rfl
  | succ i ih =>
    have before := ih (by omega)
    have modules := scopeAt_modules lines i (by omega)
    have line_label := labelOn?_inside lines i inside
    have line_directive := directiveOn?_inside lines i inside
    rw [scopeAt_succ lines i inside, anchorName, anchorLine?_succ]
    cases read : directive? lines[i] with
    | some d =>
      rw [read] at line_label line_directive
      cases d <;> simp [Scope.next, read, Scope.afterDirective, line_label, line_directive]
    | none =>
      rw [read] at line_label line_directive
      cases found : label? lines[i] with
      | none =>
        rw [found] at line_label
        simp only [Scope.next, read, found, line_label, line_directive]
        exact before
      | some label =>
        rw [found] at line_label
        cases is_local : isLocal label with
        | true =>
          have kept : (scopeAt lines i).afterLabel label = scopeAt lines i := by
            rw [Scope.afterLabel, if_pos (by simpa [isLocal] using is_local)]
          simp only [Scope.next, read, found, line_label, line_directive, kept]
          simpa [is_local, anchorName] using before
        | false =>
          have moved : ((scopeAt lines i).afterLabel label).anchor =
              globalName (modulePath lines i) label := by
            rw [Scope.afterLabel, if_neg (by simpa [isLocal] using is_local), ← modules]
            exact qualify_global _ _ is_local
          simp [Scope.next, read, found, line_label, moved, is_local]

/-- The scan names a line as the rule says. -/
theorem nameOn?_inside (lines : List Text) (i : Nat) (inside : i < lines.length) :
    nameOn? lines i = (scopeAt lines i).defined? lines[i] := by
  have modules := scopeAt_modules lines i (by omega)
  have anchor := scopeAt_anchor lines i (by omega)
  rw [nameOn?, labelOn?_inside lines i inside, Scope.defined?]
  cases directive? lines[i] with
  | some d => simp
  | none =>
    cases label? lines[i] with
    | none => simp
    | some label =>
      cases is_local : isLocal label with
      | true =>
        have named := modulePath_named lines i
        rw [← modules] at named
        simp [is_local, qualify_local _ _ is_local named, modules, anchor]
      | false => simp [is_local, qualify_global _ _ is_local, modules]

theorem nameOn?_outside (lines : List Text) (i : Nat) (outside : lines.length ≤ i) :
    nameOn? lines i = none := by
  simp [nameOn?, labelOn?, outside]

/-- The scan over the lines behind others. Every line of the whole is named by the rule. -/
theorem namings_behind (before lines : List Text) :
    namings (scopeAt (before ++ lines) before.length) before.length lines =
      (List.range' before.length lines.length).filterMap fun i =>
        (nameOn? (before ++ lines) i).map (·, i) := by
  induction lines generalizing before with
  | nil => rfl
  | cons line rest ih =>
    have inside : before.length < (before ++ line :: rest).length := by simp
    have here : (before ++ line :: rest)[before.length] = line := by simp
    have named := nameOn?_inside _ _ inside
    have later := ih (before ++ [line])
    rw [List.append_assoc, List.singleton_append, List.length_append, List.length_singleton,
      scopeAt_succ _ _ inside, here] at later
    rw [here] at named
    rw [List.length_cons, List.range'_succ, List.filterMap_cons, named, namings, ← later]
    cases (scopeAt (before ++ line :: rest) before.length).defined? line <;> rfl

theorem namings_eq (lines : List Text) :
    namings {} 0 lines =
      (List.range lines.length).filterMap fun i => (nameOn? lines i).map (·, i) := by
  rw [List.range_eq_range']
  exact namings_behind [] lines

/-! ## The first definition counts -/

theorem firstOfEach_append (pairs : List (Text × Nat)) (p : Text × Nat) :
    firstOfEach (pairs ++ [p]) =
      if (firstOfEach pairs).any (·.1 = p.1) then firstOfEach pairs
      else firstOfEach pairs ++ [p] := by
  rw [firstOfEach, List.foldl_append]
  rfl

theorem firstOfEach_find? (pairs : List (Text × Nat)) (name : Text) :
    (firstOfEach pairs).find? (·.1 = name) = pairs.find? (·.1 = name) := by
  induction pairs using List.reverseRecOn with
  | nil => rfl
  | append_singleton pairs p ih =>
    rw [firstOfEach_append, List.find?_append, ← ih]
    split
    · rename_i seen
      by_cases same : p.1 = name
      · subst same
        rw [← List.isSome_find?] at seen
        cases found : (firstOfEach pairs).find? (·.1 = p.1) with
        | none => simp [found] at seen
        | some r => rfl
      · simp [same]
    · rw [List.find?_append]

/-- Whether a name was met before can be asked of the pairs themselves. -/
theorem firstOfEach_any (pairs : List (Text × Nat)) (name : Text) :
    (firstOfEach pairs).any (·.1 = name) = pairs.any (·.1 = name) := by
  rw [← List.isSome_find?, firstOfEach_find?, List.isSome_find?]

theorem firstOfEach_range (names : Nat → Option Text) (n : Nat) :
    firstOfEach ((List.range n).filterMap fun i => (names i).map (·, i)) =
      (List.range n).filterMap fun i => (names i).bind fun name =>
        if ∃ j < i, names j = some name then none else some (name, i) := by
  induction n with
  | zero => rfl
  | succ n ih =>
    rw [List.range_succ, List.filterMap_append, List.filterMap_append, ← ih]
    cases named : names n with
    | none => simp [named]
    | some name =>
      have seen : ((List.range n).filterMap fun i => (names i).map (·, i)).any (·.1 = name) =
          decide (∃ j < n, names j = some name) := by
        rw [Bool.eq_iff_iff, List.any_eq_true, decide_eq_true_eq]
        constructor
        · rintro ⟨p, member, same⟩
          obtain ⟨j, before, made⟩ := List.mem_filterMap.mp member
          obtain ⟨other, here, rfl⟩ := Option.map_eq_some_iff.mp made
          exact ⟨j, List.mem_range.mp before, by rw [here]; simpa using same⟩
        · rintro ⟨j, before, here⟩
          have listed : (names j).map (·, j) = some (name, j) := by rw [here]; rfl
          exact ⟨(name, j), List.mem_filterMap.mpr ⟨j, List.mem_range.mpr before, listed⟩, by simp⟩
      simp only [List.filterMap_cons, List.filterMap_nil, named, Option.map_some, Option.bind_some]
      rw [firstOfEach_append, firstOfEach_any, seen]
      by_cases earlier : ∃ j < n, names j = some name <;> simp [earlier]

/-- A name is located on the first line that defines it. -/
theorem locate_definitions (lines : List Text) (name : Text) :
    locate (definitions lines) name =
      (List.range lines.length).find? fun i => nameOn? lines i = some name := by
  have test : (fun i => ((nameOn? lines i).map (·, i)).any (·.1 = name)) =
      fun i => decide (nameOn? lines i = some name) := by
    funext i
    cases nameOn? lines i <;> simp
  rw [locate, definitions, firstOfEach_find?, namings_eq, List.find?_filterMap, test]
  cases found : (List.range lines.length).find? fun i => decide (nameOn? lines i = some name) with
  | none => rfl
  | some i =>
    have named : nameOn? lines i = some name := by simpa using List.find?_some found
    simp [named]

/-- Without directives and with plain labels only, every label is a name as it stands. -/
theorem nameOn?_plain (lines : List Text) (free : ∀ line ∈ lines, directive? line = none)
    (plain : ∀ line ∈ lines, ∀ label ∈ label? line,
      isLocal label = false ∧ label.head? ≠ some (.scalar '@')) (i : Nat) :
    nameOn? lines i = lines[i]?.bind label? := by
  have unnested : modulePath lines i = [] := by
    apply List.filterMap_eq_nil_iff.mpr
    intro j _
    split
    · cases found : lines[j]? with
      | none => rfl
      | some line => simp [opened?, free line (List.mem_of_getElem? found)]
    · rfl
  cases found : lines[i]? with
  | none => simp [nameOn?, labelOn?, found]
  | some line =>
    have member := List.mem_of_getElem? found
    cases read : label? line with
    | none => simp [nameOn?, labelOn?, directiveOn?, found, free line member, read]
    | some label =>
      obtain ⟨global, unmarked⟩ := plain line member label read
      simp [nameOn?, labelOn?, directiveOn?, found, free line member, read, global, globalName,
        unmarked, unnested, join]

/-- The definitions are exactly those of the rule: the lines that define a name no line above them
defines, in line order. A name is located on the first line that defines it, and nowhere if no
line does. -/
theorem definitions_by_rule (lines : List Text) :
    definitions lines = ((List.range lines.length).filterMap fun i =>
      (nameOn? lines i).bind fun name =>
        if ∃ j < i, nameOn? lines j = some name then none else some (name, i)) ∧
    ∀ name,
      (∀ i, locate (definitions lines) name = some i ↔
        nameOn? lines i = some name ∧ ∀ j < i, nameOn? lines j ≠ some name) ∧
      (locate (definitions lines) name = none ↔ ∀ i, nameOn? lines i ≠ some name) := by
  have inside (name : Text) (i : Nat) (named : nameOn? lines i = some name) :
      i < lines.length := by
    by_contra outside
    rw [nameOn?_outside lines i (by omega)] at named
    cases named
  refine ⟨?_, fun name => ⟨fun i => ?_, ?_⟩⟩
  · rw [definitions, namings_eq, firstOfEach_range]
  · rw [locate_definitions, List.find?_range_eq_some]
    simp only [decide_eq_true_eq, List.mem_range, Bool.not_eq_eq_eq_not, Bool.not_true,
      decide_eq_false_iff_not]
    constructor
    · rintro ⟨named, _, first⟩
      exact ⟨named, first⟩
    · rintro ⟨named, first⟩
      exact ⟨named, inside name i named, first⟩
  · rw [locate_definitions, List.find?_range_eq_none]
    simp only [Bool.not_eq_eq_eq_not, Bool.not_true, decide_eq_false_iff_not]
    constructor
    · intro missing i named
      exact missing i (inside name i named) named
    · intro missing i _
      exact missing i

end LabelAtlas.Definition
