import LabelAtlas.Proofs.Counts

/-! What a labels file exports, told line by line. Reading keeps the first place of a name and its
last value, and warns of a line as soon as it comes to it; after any number of lines both can be
said of the lines themselves. -/
namespace LabelAtlas.Export

open Text

/-- The name and the value text that a line exports, if it is neither ignored nor malformed. -/
def exported? (line : Text) : Option (Text × Text) :=
  if isIgnored line then none else line? line

/-- The names and value texts of the lines that export a label. -/
def rows (lines : List Text) : List (Text × Text) :=
  lines.filterMap exported?

def names (lines : List Text) : List Text :=
  (rows lines).map (·.1)

/-- What is warned of on a line behind others: that it is malformed, or that its name was exported
before. -/
def warningsOn (before : List Text) (line : Text) : List Event :=
  if isIgnored line then []
  else (line? line).elim [.malformedLine (before.length + 1) line] fun p =>
    if p.1 ∈ names before then [.exportedTwice p.1] else []

/-- The warnings on all lines, in line order. -/
def warnings (lines : List Text) : List Event :=
  lines.zipIdx.flatMap fun p => warningsOn (lines.take p.2) p.1

/-- The value text of the last row with a name. -/
def IsLast (rows : List (Text × Text)) (name raw : Text) : Prop :=
  ∃ before after, rows = before ++ (name, raw) :: after ∧ ∀ p ∈ after, p.1 ≠ name

/-! ## One line more -/

theorem rows_concat (lines : List Text) (line : Text) :
    rows (lines ++ [line]) = rows lines ++ (exported? line).toList := by
  rw [rows, List.filterMap_append, rows]
  cases read : exported? line <;> simp [read]

theorem warnings_concat (lines : List Text) (line : Text) :
    warnings (lines ++ [line]) = warnings lines ++ warningsOn lines line := by
  have earlier : ∀ p ∈ lines.zipIdx,
      warningsOn ((lines ++ [line]).take p.2) p.1 = warningsOn (lines.take p.2) p.1 := by
    intro p member
    have inside : p.2 < lines.length := by simpa using List.snd_lt_add_of_mem_zipIdx member
    rw [List.take_append_of_le_length (by omega)]
  rw [warnings, List.zipIdx_append, List.flatMap_append, List.flatMap_congr earlier]
  simp [warnings]

theorem IsLast.concat {rows : List (Text × Text)} {name raw : Text} (last : IsLast rows name raw)
    {p : Text × Text} (other : p.1 ≠ name) : IsLast (rows ++ [p]) name raw := by
  obtain ⟨before, after, rfl, fresh⟩ := last
  refine ⟨before, after ++ [p], by simp, ?_⟩
  intro q member
  rcases List.mem_append.mp member with earlier | here
  · exact fresh q earlier
  · rw [List.mem_singleton.mp here]
    exact other

theorem isLast_concat (rows : List (Text × Text)) (name raw : Text) :
    IsLast (rows ++ [(name, raw)]) name raw :=
  ⟨rows, [], rfl, List.forall_mem_nil _⟩

theorem isExported_iff (name : Text) (labels : List Export) :
    isExported name labels = true ↔ name ∈ labels.map (·.name) := by
  simp [isExported]

/-- A name that is there keeps its place, and a new one goes behind the others. -/
theorem put_names (e : Export) (labels : List Export) :
    (put e labels).map (·.name) =
      if e.name ∈ labels.map (·.name) then labels.map (·.name)
      else labels.map (·.name) ++ [e.name] := by
  unfold put
  by_cases known : isExported e.name labels
  · rw [if_pos known, if_pos ((isExported_iff _ _).mp known), List.map_map]
    apply List.map_congr_left
    intro old _
    by_cases same : old.name = e.name <;> simp [same]
  · rw [if_neg known, if_neg (mt (isExported_iff _ _).mpr known), List.map_append]
    rfl

theorem mem_put {e x : Export} {labels : List Export} (member : x ∈ put e labels) :
    x = e ∨ x ∈ labels ∧ e.name ≠ x.name := by
  rw [put] at member
  split at member
  · obtain ⟨old, known, same⟩ := List.mem_map.mp member
    split at same
    · exact .inl same.symm
    · rename_i other
      exact .inr (same ▸ ⟨known, Ne.symm other⟩)
  · rename_i fresh
    rcases List.mem_append.mp member with known | new
    · refine .inr ⟨known, fun same => fresh ?_⟩
      exact (isExported_iff _ _).mpr (same ▸ List.mem_map_of_mem known)
    · exact .inl (List.mem_singleton.mp new)

/-! ## Reading -/

/-- What has been read says the same as the lines that were read. -/
structure Reading.Reflects (r : Reading) (lines : List Text) : Prop where
  names : r.labels.map (·.name) = (Export.names lines).eraseDups
  values : ∀ e ∈ r.labels, ∃ raw, IsLast (rows lines) e.name raw ∧ e.value = value? raw
  warnings : r.events.filter (·.level = .warning) = Export.warnings lines

theorem Reading.step_labels (r : Reading) (line : Text) (number : Nat) :
    (r.step (line, number)).labels =
      (exported? line).elim r.labels fun p => put ⟨p.1, value? p.2⟩ r.labels := by
  unfold Reading.step exported?
  dsimp only
  split
  · rfl
  · cases line? line <;> rfl

theorem lineEvents_warnings (labels : List Export) (name raw : Text) :
    (lineEvents labels name raw).filter (·.level = .warning) =
      if isExported name labels then [.exportedTwice name] else [] := by
  unfold lineEvents
  rw [List.filter_append]
  by_cases odd : ((value? raw).isNone && !raw.isEmpty) = true <;>
    by_cases known : isExported name labels = true <;> simp [odd, known, Event.level]

namespace Reading.Reflects

variable {r : Reading} {lines : List Text}

theorem isExported_iff (reflects : r.Reflects lines) (name : Text) :
    isExported name r.labels = true ↔ name ∈ Export.names lines := by
  rw [Export.isExported_iff, reflects.names, List.mem_eraseDups]

theorem step_warnings (reflects : r.Reflects lines) (line : Text) :
    (r.step (line, lines.length + 1)).events.filter (·.level = .warning) =
      Export.warnings (lines ++ [line]) := by
  rw [warnings_concat, ← reflects.warnings]
  unfold Reading.step warningsOn
  dsimp only
  split
  · rw [List.append_nil]
  · cases line? line with
    | none => simp [Event.level]
    | some p =>
      have known := reflects.isExported_iff p.1
      rw [List.filter_append, lineEvents_warnings]
      simp only [known, Option.elim_some]

/-- A line more is taken as the lines say. -/
theorem step (reflects : r.Reflects lines) (line : Text) :
    (r.step (line, lines.length + 1)).Reflects (lines ++ [line]) := by
  refine ⟨?_, ?_, reflects.step_warnings line⟩
  · rw [step_labels, Export.names, rows_concat, List.map_append]
    cases exported? line with
    | none => simpa [Export.names] using reflects.names
    | some p =>
      show (put ⟨p.1, value? p.2⟩ r.labels).map (·.name) = (Export.names lines ++ [p.1]).eraseDups
      rw [put_names, eraseDups_concat, reflects.names]
      simp only [List.mem_eraseDups]
  · rw [step_labels, rows_concat]
    cases exported? line with
    | none => simpa using reflects.values
    | some p =>
      intro e member
      rcases mem_put member with rfl | ⟨known, other⟩
      · exact ⟨p.2, isLast_concat _ _ _, rfl⟩
      · obtain ⟨raw, last, value⟩ := reflects.values e known
        exact ⟨raw, last.concat other, value⟩

end Reading.Reflects

theorem read_reflects (t : Text) : (read t).Reflects (lines t) := by
  have run (ls : List Text) : ((ls.zipIdx 1).foldl Reading.step {}).Reflects ls := by
    induction ls using List.reverseRecOn with
    | nil => exact ⟨rfl, List.forall_mem_nil _, rfl⟩
    | append_singleton ls line ih =>
      rw [List.zipIdx_append, List.foldl_append, Nat.add_comm 1]
      exact ih.step line
  exact run (lines t)

/-- No name is exported twice. -/
theorem read_nodup (t : Text) : ((read t).labels.map (·.name)).Nodup := by
  rw [(read_reflects t).names]
  exact Statistics.eraseDups_nodup _

/-- What is read of a text, by its lines. No name is there twice, and the names stand in the order
in which they are first exported. Each has the value of the last line that exports it, which may be
no number where an earlier one was. The warnings name, line by line, those that are malformed and
those whose name was exported before, and there are no others. -/
theorem read_by_lines (t : Text) :
    ((read t).labels.map (·.name)).Nodup ∧
    (read t).labels.map (·.name) = ((rows (lines t)).map (·.1)).eraseDups ∧
    (∀ e ∈ (read t).labels, ∃ raw before after,
      rows (lines t) = before ++ (e.name, raw) :: after ∧ (∀ p ∈ after, p.1 ≠ e.name) ∧
      e.value = value? raw) ∧
    (read t).events.filter (·.level = .warning) =
      (lines t).zipIdx.flatMap fun p => warningsOn ((lines t).take p.2) p.1 := by
  have reflects := read_reflects t
  refine ⟨read_nodup t, reflects.names, ?_, reflects.warnings⟩
  intro e member
  obtain ⟨raw, ⟨before, after, whole, last⟩, value⟩ := reflects.values e member
  exact ⟨raw, before, after, whole, last, value⟩

example : read "b = 1\nA: EQU 2 ; c\n?\nb equ x" =
    ⟨[⟨"b", none⟩, ⟨"A", some 2⟩],
      [.malformedLine 3 "?", .notNumeric "b" "x", .exportedTwice "b"]⟩ := by
  decide +kernel

end LabelAtlas.Export
