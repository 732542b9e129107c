import LabelAtlas.Proofs.Depth
import LabelAtlas.Proofs.Walks

/-! Settings written and read again. A path is brought to normal form when it is read, and a path
in normal form is written so that it is read as it is. -/
namespace LabelAtlas

/-! ## Paths -/

namespace Path

/-- A component of a path in normal form. -/
structure IsComponent (part : Text) : Prop where
  some_char : part ≠ []
  no_dot : part ≠ "."
  no_slash : .scalar '/' ∉ part

def isKept (part : Text) : Bool :=
  !part.isEmpty && part ≠ "."

theorem ofText_parts (t : Text) : (ofText t).parts = (Text.splitAt '/' t).filter isKept :=
  rfl

theorem ofText_normal (t : Text) : ∀ part ∈ (ofText t).parts, IsComponent part := by
  intro part member
  obtain ⟨inside, kept⟩ := List.mem_filter.mp member
  simp only [Bool.and_eq_true, Bool.not_eq_true', List.isEmpty_eq_false_iff, decide_eq_true_eq]
    at kept
  exact ⟨kept.1, kept.2, Text.unmarked_of_mem_splitAt '/' t part inside⟩

theorem rootOf_text (root : Root) {t : Text} (relative : t.head? ≠ some (.scalar '/')) :
    rootOf (root.text ++ t) = root := by
  cases t with
  | nil => cases root <;> rfl
  | cons c t =>
    have other : c ≠ .scalar '/' := fun same => relative (congrArg some same)
    cases root <;> simp [rootOf, Root.text, other]

theorem parts_root (root : Root) (t : Text) :
    (ofText (root.text ++ t)).parts = (ofText t).parts := by
  cases root <;> rfl

section

variable {parts : List Text} (normal : ∀ part ∈ parts, IsComponent part)
include normal

theorem join_relative : (Text.join "/" parts).head? ≠ some (.scalar '/') := by
  cases parts with
  | nil => simp [Text.join]
  | cons part parts =>
    have first := normal part List.mem_cons_self
    rw [Text.join, intercalate_eq_flatMap, List.head?_append_of_ne_nil _ first.some_char]
    exact fun slash => first.no_slash (List.mem_of_mem_head? slash)

theorem parts_join : (ofText (Text.join "/" parts)).parts = parts := by
  by_cases none : parts = []
  · subst none
    rfl
  · have split : Text.splitAt '/' (Text.join "/" parts) = parts :=
      Text.splitAt_join '/' parts none fun part member => (normal part member).no_slash
    rw [ofText_parts, split]
    apply List.filter_eq_self.mpr
    intro part member
    simpa [isKept] using ⟨(normal part member).some_char, (normal part member).no_dot⟩

/-- A path in normal form is written so that it is read as it is. -/
theorem ofText_toText (root : Root) : ofText (toText ⟨root, parts⟩) = ⟨root, parts⟩ := by
  rw [toText]
  split
  next here =>
    obtain ⟨rfl, rfl⟩ := here
    rfl
  next given =>
    have start : (ofText (root.text ++ Text.join "/" parts)).root = root :=
      rootOf_text root (join_relative normal)
    have components := (parts_root root (Text.join "/" parts)).trans (parts_join normal)
    exact congr (congrArg Path.mk start) components

end

/-- How many of the slashes in front of a text are kept: two stay two, and more become one. -/
def slashesKept (t : Text) : Nat :=
  let slashes := (t.takeWhile (· = .scalar '/')).length
  if slashes ≤ 2 then slashes else 1

theorem takeWhile_slash_eq_nil {t : Text} (other : ∀ rest, t = .scalar '/' :: rest → False) :
    t.takeWhile (· = .scalar '/') = [] := by
  cases t with
  | nil => rfl
  | cons c t =>
    have ahead : c ≠ .scalar '/' := fun slash => other t (congrArg (· :: t) slash)
    rw [List.takeWhile_cons_of_neg (by simpa using ahead)]

theorem rootOf_text_eq (t : Text) :
    (rootOf t).text = List.replicate (slashesKept t) (.scalar '/') := by
  unfold rootOf
  split
  · simp [slashesKept, Root.text]
  next other =>
    simp [slashesKept, Root.text, takeWhile_slash_eq_nil other]
  next _ other =>
    simp [slashesKept, Root.text, takeWhile_slash_eq_nil other]
  next other =>
    simp [slashesKept, Root.text, takeWhile_slash_eq_nil other]

/-- The text of the path that a text gives. -/
def normalText (t : Text) : Text :=
  let parts := (Text.splitAt '/' t).filter isKept
  if slashesKept t = 0 ∧ parts = [] then "."
  else List.replicate (slashesKept t) (.scalar '/') ++ Text.join "/" parts

theorem Root.here_iff (root : Root) : root = .here ↔ root.text.length = 0 := by
  cases root <;> decide

theorem toText_ofText (t : Text) : (ofText t).toText = normalText t := by
  have here : (ofText t).root = .here ↔ slashesKept t = 0 := by
    have slashes := congrArg List.length (rootOf_text_eq t)
    rw [List.length_replicate] at slashes
    rw [← slashes]
    exact Root.here_iff (rootOf t)
  rw [toText, normalText, ofText_parts, ← rootOf_text_eq t]
  simp only [here]
  rfl

theorem ofText_normalText (t : Text) : ofText (normalText t) = ofText t := by
  rw [← toText_ofText]
  exact ofText_toText (ofText_normal t) (rootOf t)

theorem normalText_normalText (t : Text) : normalText (normalText t) = normalText t := by
  rw [← toText_ofText (normalText t), ofText_normalText, toText_ofText]

/-- A path is not written as the empty text, which would be read as a missing one. -/
theorem normalText_ne_nil (t : Text) : normalText t ≠ [] := by
  intro none
  -- The empty text itself is not in normal form.
  have here := normalText_normalText t
  rw [none] at here
  exact absurd here (by decide)

end Path

/-! ## Settings -/

namespace Settings

/-- How the value that is given for a path that may be missing is written. -/
inductive PathWritten : Option Json → Json → Prop
  | missing : PathWritten none .null
  | empty {v : Json} (falsy : v.isTruthy = false) : PathWritten (some v) .null
  | text {t : Text} (given : t ≠ []) : PathWritten (some (.str t)) (.str (Path.normalText t))

theorem pathJson_ofText (t : Text) : pathJson (.ofText t) = .str (Path.normalText t) :=
  congrArg Json.str (Path.toText_ofText t)

theorem isTruthy_str {t : Text} : (Json.str t).isTruthy = true ↔ t ≠ [] := by
  simp [Json.isTruthy]

theorem optionalPath_ok {name : Text} {v : Option Json} {p : Option GivenPath}
    (read : optionalPath name v = .ok p) :
    PathWritten v (optionalPathJson p) ∧ (p = none ∨ ∃ t, p = some (.ofText t)) := by
  unfold optionalPath at read
  split at read
  · cases read
    exact ⟨.missing, .inl rfl⟩
  · split at read
    next truthy =>
      split at read
      · cases read
        have written := PathWritten.text (isTruthy_str.mp truthy)
        rw [← pathJson_ofText] at written
        exact ⟨written, .inr ⟨_, rfl⟩⟩
      · cases read
    next falsy =>
      cases read
      exact ⟨.empty (Bool.eq_false_iff.mpr falsy), .inl rfl⟩

theorem requiredPath_ok {name : Text} {v : Json} {p : GivenPath}
    (read : requiredPath name v = .ok p) : ∃ t, v = .str t ∧ p = .ofText t := by
  unfold requiredPath at read
  split at read
  · cases read
    exact ⟨_, rfl, rfl⟩
  · cases read

theorem requiredPath_again (name t : Text) :
    requiredPath name (pathJson (.ofText t)) = .ok (.ofText t) := by
  rw [pathJson_ofText]
  exact congrArg (fun p => Except.ok (GivenPath.path p)) (Path.ofText_normalText t)

/-- A path that may be missing is read again from what is written for it. -/
theorem optionalPath_again {name : Text} {v : Option Json} {p : Option GivenPath}
    (read : optionalPath name v = .ok p) :
    optionalPath name (some (optionalPathJson p)) = .ok p := by
  obtain ⟨-, rfl | ⟨t, rfl⟩⟩ := optionalPath_ok read
  · rfl
  · have written : optionalPathJson (some (.ofText t)) = .str (Path.normalText t) :=
      pathJson_ofText t
    rw [written, optionalPath, if_pos (isTruthy_str.mpr (Path.normalText_ne_nil t))]
    exact congrArg (fun p => Except.ok (some (GivenPath.path p))) (Path.ofText_normalText t)

/-- The three paths of the settings that an object gives. -/
theorem ofJson_paths {members : Json.Object} {s : Settings} (given : ofJson members = .ok s) :
    optionalPath "list_path" (Json.get? "list_path" members) = .ok s.listFile ∧
    optionalPath "labels_path" (Json.get? "labels_path" members) = .ok s.labelsFile ∧
    requiredPath "output_dir" ((Json.get? "output_dir" members).getD (.str "docs")) =
      .ok s.outputDir := by
  unfold ofJson at given
  obtain ⟨_, listFile, rest⟩ := bind_ok given
  obtain ⟨_, labelsFile, rest⟩ := bind_ok rest
  obtain ⟨_, outputDir, rest⟩ := bind_ok rest
  cases rest
  exact ⟨listFile, labelsFile, outputDir⟩

theorem ofJson_toObject {s : Settings}
    (listFile : optionalPath "list_path" (some (optionalPathJson s.listFile)) = .ok s.listFile)
    (labelsFile :
      optionalPath "labels_path" (some (optionalPathJson s.labelsFile)) = .ok s.labelsFile)
    (outputDir : requiredPath "output_dir" (pathJson s.outputDir) = .ok s.outputDir) :
    ofJson s.toObject = .ok s := by
  have read : ofJson s.toObject = (do
      let listFile ← optionalPath "list_path" (some (optionalPathJson s.listFile))
      let labelsFile ← optionalPath "labels_path" (some (optionalPathJson s.labelsFile))
      let outputDir ← requiredPath "output_dir" (pathJson s.outputDir)
      return { s with listFile, labelsFile, outputDir }) := rfl
  rw [read, listFile, labelsFile, outputDir]
  rfl

/-- Settings that were read are written so that they are read again as they are. A path is written
in normal form, in which it stays, and a path that is missing stays missing. -/
theorem written_settings_are_read {members : Json.Object} {s : Settings}
    (given : ofJson members = .ok s) :
    ofJson s.toObject = .ok s ∧ (ofJson s.toObject).map toObject = .ok s.toObject ∧
    (∀ key ∈ ["list_path", "labels_path"], ∃ v,
      Json.get? key s.toObject = some v ∧ PathWritten (Json.get? key members) v) ∧
    (∃ t, (Json.get? "output_dir" members).getD (.str "docs") = .str t ∧
      Json.get? "output_dir" s.toObject = some (.str (Path.normalText t))) ∧
    ∀ t, Path.normalText (Path.normalText t) = Path.normalText t ∧ Path.normalText t ≠ [] := by
  obtain ⟨listFile, labelsFile, outputDir⟩ := ofJson_paths given
  obtain ⟨t, dir, made⟩ := requiredPath_ok outputDir
  have again : ofJson s.toObject = .ok s := by
    -- Each path is read on its own, and none of them depends on how the others are written.
    apply ofJson_toObject (optionalPath_again listFile) (optionalPath_again labelsFile)
    rw [made]
    exact requiredPath_again _ t
  refine ⟨again, by rw [again]; rfl, ?_, ⟨t, dir, ?_⟩, fun t =>
    ⟨Path.normalText_normalText t, Path.normalText_ne_nil t⟩⟩
  · rw [List.forall_mem_cons, List.forall_mem_singleton]
    exact ⟨⟨_, rfl, (optionalPath_ok listFile).1⟩, ⟨_, rfl, (optionalPath_ok labelsFile).1⟩⟩
  · rw [← pathJson_ofText, ← made]
    rfl

/-- Two slashes in front stay and three do not, and the empty text is the working directory. -/
theorem written_settings_are_read_slashes :
    ∃ members s, ofJson members = .ok s ∧ ofJson s.toObject = .ok s ∧
      Json.get? "list_path" members = some (.str "//a/./../b//") ∧
      Json.get? "list_path" s.toObject = some (.str "//a/../b") ∧
      Json.get? "labels_path" members = some (.str "///c/") ∧
      Json.get? "labels_path" s.toObject = some (.str "/c") ∧
      Json.get? "output_dir" members = some (.str "") ∧
      Json.get? "output_dir" s.toObject = some (.str ".") := by
  let members : Json.Object := [("list_path", .str "//a/./../b//"),
    ("labels_path", .str "///c/"), ("output_dir", .str "")]
  let s : Settings := {
    listFile := some (.path ⟨.doubleSlash, ["a", "..", "b"]⟩)
    labelsFile := some (.path ⟨.slash, ["c"]⟩)
    outputDir := .path {} }
  have given : ofJson members = .ok s := by decide
  exact ⟨members, s, given, (written_settings_are_read given).1, by decide, by decide, by decide,
    by decide, by decide, by decide⟩

end Settings

end LabelAtlas
