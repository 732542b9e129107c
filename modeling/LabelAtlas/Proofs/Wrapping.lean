import LabelAtlas.Proofs.Blocks

/-! A source inside a module. The scan of its lines goes as before with one module more below the
others, so every name comes out behind the name of that module. -/
namespace LabelAtlas.Definition

open Text Source

/-- A source between the lines that open and end a module. -/
def inModule (name : Text) (lines : List Text) : List Text :=
  (("    MODULE " : Text) ++ name) :: (lines ++ [("    ENDMODULE" : Text)])

/-- A name behind the name of a module. -/
def behind (name t : Text) : Text :=
  name ++ .scalar '.' :: t

theorem behind_injective (name : Text) : Function.Injective (behind name) := by
  intro a b same
  exact (List.cons.inj (List.append_cancel_left same)).2

theorem behind_append (name a b : Text) : behind name a ++ b = behind name (a ++ b) := by
  simp [behind]

theorem join_behind (name : Text) {parts : List Text} (more : parts ≠ []) :
    join [.scalar '.'] (name :: parts) = behind name (join [.scalar '.'] parts) := by
  rw [join_cons _ _ _ more, List.append_assoc]
  rfl

namespace Scope

/-- A scope with one module more below those that are open. -/
def under (name : Text) (s : Scope) : Scope :=
  ⟨name :: s.modules, if s.anchor = [] then [] else behind name s.anchor⟩

variable {name : Text} {s : Scope}

theorem localName_under (name anchor : Text) (modules : List Text) (rest : Text) :
    localName (if anchor = [] then [] else behind name anchor) (name :: modules)
        (.scalar '.' :: rest) =
      behind name (localName anchor modules (.scalar '.' :: rest)) := by
  unfold localName
  by_cases anchored : anchor = []
  · by_cases none_open : modules = []
    · simp [anchored, none_open, join, behind]
    · simp [anchored, none_open, join_behind name none_open, behind_append]
  · have kept : behind name anchor ≠ [] := by simp [behind]
    simp [anchored, kept, behind_append]

/-- One module more below the others goes in front of every name, local or not. -/
theorem qualify_under (some_char : name ≠ []) (modules : ∀ m ∈ s.modules, m ≠ []) {label : Text}
    (unmarked : label.head? ≠ some (.scalar '@')) :
    (s.under name).qualify label = behind name (s.qualify label) := by
  cases is_local : isLocal label with
  | false =>
    rw [qualify_global _ _ is_local, qualify_global _ _ is_local, globalName, globalName,
      if_neg unmarked, if_neg unmarked]
    exact join_behind name (by simp)
  | true =>
    have others : ∀ m ∈ (s.under name).modules, m ≠ [] := by
      rintro m (_ | ⟨_, member⟩)
      · exact some_char
      · exact modules m member
    rw [qualify_local _ _ is_local modules, qualify_local _ _ is_local others]
    cases label with
    | nil => cases is_local
    | cons c rest =>
      rw [show c = .scalar '.' by simpa [isLocal] using is_local]
      exact localName_under name s.anchor s.modules rest

theorem afterLabel_under (some_char : name ≠ []) (modules : ∀ m ∈ s.modules, m ≠ []) {label : Text}
    (written : label ≠ []) (unmarked : label.head? ≠ some (.scalar '@')) :
    (s.under name).afterLabel label = (s.afterLabel label).under name := by
  unfold afterLabel
  split
  · rfl
  · rename_i global
    have full : s.qualify label ≠ [] := by
      rw [qualify_global _ _ (by simpa [isLocal] using global), globalName, if_neg unmarked]
      apply join_modules_ne_nil _ (by simp)
      intro m member
      rcases List.mem_append.mp member with above | here
      · exact modules m above
      · rw [List.mem_singleton.mp here]
        exact written
    rw [qualify_under some_char modules unmarked, under, under, if_neg full]

theorem afterDirective_under {d : Directive} (some_open : d = .closeModule → s.modules ≠ []) :
    (s.under name).afterDirective d = (s.afterDirective d).under name := by
  cases d with
  | openModule other => rfl
  | closeModule =>
    show (⟨(name :: s.modules).dropLast, []⟩ : Scope) = ⟨name :: s.modules.dropLast, []⟩
    rw [List.dropLast_cons_of_ne_nil (some_open rfl)]

/-- No label on a line has an at sign in front, and a module is open if the line ends one. -/
structure Fits (s : Scope) (line : Text) : Prop where
  unmarked : directive? line = none → ∀ label ∈ label? line, label.head? ≠ some (.scalar '@')
  some_open : directive? line = some .closeModule → s.modules ≠ []

theorem label?_ne_nil {line label : Text} (read : label? line = some label) : label ≠ [] := by
  rw [label?_eq] at read
  cases line with
  | nil => cases read
  | cons c t =>
    split at read
    · rename_i first
      have named : isNameChar c = true := isNameChar_of_isLabelStart first
      rw [← Option.some.inj read, List.takeWhile_cons_of_pos named]
      exact List.cons_ne_nil _ _
    · cases read

theorem next_named (modules : ∀ m ∈ s.modules, m ≠ []) (line : Text) :
    ∀ m ∈ (s.next line).modules, m ≠ [] := by
  rw [modules_next]
  cases read : directive? line with
  | none => exact modules
  | some d =>
    cases d with
    | openModule other =>
      intro m member
      rcases List.mem_append.mp member with above | here
      · exact modules m above
      · rw [List.mem_singleton.mp here]
        have opened : opened? line = some other := by simp [opened?, read]
        exact opened?_ne_nil opened
    | closeModule => exact fun m member => modules m (List.mem_of_mem_dropLast member)

/-- Lines that end no more modules than are open leave a rest of which the same holds. -/
theorem endings_next {line : Text} {rest : List Text}
    (some_open : endings (line :: rest) ≤ s.modules.length) :
    endings rest ≤ (s.next line).modules.length := by
  rw [modules_next]
  unfold endings at some_open
  cases read : directive? line with
  | none =>
    rw [read] at some_open
    exact some_open
  | some d =>
    rw [read] at some_open
    cases d with
    | openModule other =>
      simp only [Option.elim_some, afterDirective, List.length_append, List.length_singleton]
      dsimp only at some_open
      omega
    | closeModule =>
      simp only [Option.elim_some, afterDirective, List.length_dropLast]
      dsimp only at some_open
      omega

theorem next_under (some_char : name ≠ []) (modules : ∀ m ∈ s.modules, m ≠ []) {line : Text}
    (fits : s.Fits line) : (s.under name).next line = (s.next line).under name := by
  unfold next
  cases read : directive? line with
  | some d => exact afterDirective_under fun ends => fits.some_open (ends ▸ read)
  | none =>
    cases label : label? line with
    | none => rfl
    | some label =>
      exact afterLabel_under some_char modules (label?_ne_nil label) (fits.unmarked read _ label)

theorem defined?_under (some_char : name ≠ []) (modules : ∀ m ∈ s.modules, m ≠ []) {line : Text}
    (fits : s.Fits line) : (s.under name).defined? line = (s.defined? line).map (behind name) := by
  unfold defined?
  cases read : directive? line with
  | some d => rfl
  | none =>
    cases label : label? line with
    | none => rfl
    | some label =>
      exact congrArg some (qualify_under some_char modules (fits.unmarked read _ label))

end Scope

/-- The line that opens a module is read as such, whatever characters of names the name has. -/
theorem opening_directive? {name : Text} (some_char : name ≠ [])
    (named : ∀ c ∈ name, isNameChar c = true) :
    directive? (("    MODULE " : Text) ++ name) = some (.openModule name) := by
  have whole : code (("    MODULE " : Text) ++ name) = ("    MODULE " : Text) ++ name := by
    apply codeFrom_plain
    intro c member
    rcases List.mem_append.mp member with front | inside
    · have plain : ∀ d ∈ ("    MODULE " : Text),
          d ≠ .scalar '"' ∧ d ≠ .scalar '\'' ∧ d ≠ .scalar ';' := by decide
      exact plain c front
    · exact not_mark_of_isNameChar (named c inside)
  have solid : ∀ c ∈ name, isBlank c = false :=
    fun c member => not_isBlank_of_isNameChar (named c member)
  have read : moduleName? (("    MODULE " : Text) ++ name) =
      if ((stripStart name).takeWhile isNameChar).isEmpty then none
      else some ((stripStart name).takeWhile isNameChar) := rfl
  rw [stripStart_solid solid, List.takeWhile_eq_self_iff.mpr named,
    if_neg (by simpa using some_char)] at read
  rw [directive?, whole, read]

theorem closing_directive? : directive? ("    ENDMODULE" : Text) = some .closeModule := by
  decide +kernel

theorem closing_defined? (s : Scope) : s.defined? ("    ENDMODULE" : Text) = none := by
  rw [Scope.defined?, closing_directive?]

/-- The scan inside a module gives the same names behind that of the module, one line later. -/
theorem namings_under {name : Text} (some_char : name ≠ []) (lines : List Text) {s : Scope}
    (modules : ∀ m ∈ s.modules, m ≠ [])
    (unmarked : ∀ line ∈ lines, directive? line = none →
      ∀ label ∈ label? line, label.head? ≠ some (.scalar '@'))
    (some_open : endings lines ≤ s.modules.length) (n : Nat) :
    namings (s.under name) (n + 1) (lines ++ [("    ENDMODULE" : Text)]) =
      (namings s n lines).map fun p => (behind name p.1, p.2 + 1) := by
  induction lines generalizing s n with
  | nil =>
    have silent : namings (s.under name) (n + 1) [("    ENDMODULE" : Text)] = [] := by
      rw [namings, closing_defined?]
      rfl
    exact silent
  | cons line rest ih =>
    rw [List.forall_mem_cons] at unmarked
    have fits : s.Fits line := by
      refine ⟨unmarked.1, fun ends none_open => ?_⟩
      rw [endings, ends, none_open] at some_open
      exact absurd some_open (by simp)
    have later := ih (s.next_named modules line) unmarked.2 (Scope.endings_next some_open) (n + 1)
    rw [List.cons_append, namings, namings, Scope.defined?_under some_char modules fits,
      Scope.next_under some_char modules fits, later]
    cases s.defined? line <;> rfl

theorem firstOfEach_map (f : Text → Text) (injective : Function.Injective f) (g : Nat → Nat)
    (pairs : List (Text × Nat)) :
    firstOfEach (pairs.map fun p => (f p.1, g p.2)) =
      (firstOfEach pairs).map fun p => (f p.1, g p.2) := by
  induction pairs using List.reverseRecOn with
  | nil => rfl
  | append_singleton pairs p ih =>
    rw [List.map_append, List.map_singleton, firstOfEach_append, firstOfEach_append, ih,
      List.any_map]
    have seen : ((fun q : Text × Nat => decide (q.1 = f p.1)) ∘
        fun q : Text × Nat => (f q.1, g q.2)) = fun q => decide (q.1 = p.1) := by
      funext q
      exact decide_eq_decide.mpr injective.eq_iff
    rw [seen]
    split
    · rfl
    · rw [List.map_append, List.map_singleton]

/-- Putting a source into a module qualifies it. If no label of a source ignores its module, and up
to none of its lines are more modules ended than opened, its definitions come in the same order,
each behind the name of the module and one line later. -/
theorem definitions_inModule (name : Text) (some_char : name ≠ [])
    (named : ∀ c ∈ name, isNameChar c = true) (lines : List Text)
    (unmarked : ∀ line ∈ lines, directive? line = none →
      ∀ label ∈ label? line, label.head? ≠ some (.scalar '@'))
    (balanced : ∀ front, front <+: lines → front.countP closes ≤ front.countP opens) :
    definitions (inModule name lines) =
      (definitions lines).map fun p => (behind name p.1, p.2 + 1) := by
  have none_ended : endings lines ≤ ({} : Scope).modules.length := by
    rw [endings_le_iff]
    intro k
    exact balanced _ (List.take_prefix k lines)
  have opened : namings {} 0 (inModule name lines) =
      namings (Scope.under name {}) 1 (lines ++ [("    ENDMODULE" : Text)]) := by
    have read := opening_directive? some_char named
    rw [inModule, namings, Scope.defined?, Scope.next, read]
    rfl
  rw [definitions, opened, namings_under some_char lines (by simp) unmarked none_ended 0,
    firstOfEach_map _ (behind_injective name) (· + 1), definitions]

/-- Local labels outside a module, in one and behind a label, and a name that is defined twice. -/
theorem definitions_inModule_nested :
    let lines : List Text := [".boot: nop", "    MODULE bus", ".reset: ret", "port EQU 3",
      ".in: ret", "    ENDMODULE", "bus.reset: ret", "main:", ".loop: jr .loop"]
    let names : List Text := ["boot", "bus.reset", "bus.port", "bus.port.in", "main", "main.loop"]
    let wrapped : List Text := ["io.é?.boot", "io.é?.bus.reset", "io.é?.bus.port",
      "io.é?.bus.port.in", "io.é?.main", "io.é?.main.loop"]
    definitions lines = names.zip [0, 2, 3, 4, 7, 8] ∧
    definitions (inModule "io.é?" lines) = wrapped.zip [1, 3, 4, 5, 8, 9] := by
  intro lines names wrapped
  have found : definitions lines = names.zip [0, 2, 3, 4, 7, 8] := by decide +kernel
  have each : ∀ front ∈ lines.inits, front.countP closes ≤ front.countP opens := by
    decide +kernel
  have qualified := definitions_inModule "io.é?" (by decide) (by decide +kernel) lines
    (by decide +kernel) fun front start => each front ((List.mem_inits front lines).mpr start)
  have shown : (names.zip [0, 2, 3, 4, 7, 8]).map (fun p => (behind "io.é?" p.1, p.2 + 1)) =
      wrapped.zip [1, 3, 4, 5, 8, 9] := by decide +kernel
  rw [found, shown] at qualified
  exact ⟨found, qualified⟩

end LabelAtlas.Definition
