import LabelAtlas.Proofs.Blocks
import LabelAtlas.Proofs.JsonText
import LabelAtlas.Proofs.Numerals

/-! Every name that is defined can be exported. What a scan puts together from modules and labels is
a name on a line of a labels file too, so such a line gives back the whole name, and a listing
resolves every name of its own. -/
namespace LabelAtlas

/-! ## Names of definitions -/

namespace Definition

open Text Source

/-- Nothing but characters of names. -/
def IsNamed (t : Text) : Prop :=
  ∀ c ∈ t, isNameChar c = true

theorem IsNamed.append {a b : Text} (first : IsNamed a) (second : IsNamed b) :
    IsNamed (a ++ b) := by
  intro c member
  rcases List.mem_append.mp member with here | there
  · exact first c here
  · exact second c there

theorem IsNamed.join {parts : List Text} (named : ∀ part ∈ parts, IsNamed part) :
    IsNamed (join "." parts) := by
  intro c member
  rcases mem_join member with dot | ⟨part, inside, here⟩
  · have same : c = '.' := by simpa using dot
    rw [same]
    decide +kernel
  · exact named part inside c here

theorem label?_named {line label : Text} (read : label? line = some label) : IsNamed label := by
  rw [label?_eq] at read
  split at read
  · cases read
    exact fun c member => List.mem_takeWhile_imp member
  · cases read

theorem moduleName?_named {text name : Text} (read : moduleName? text = some name) :
    IsNamed name := by
  unfold moduleName? at read
  split at read
  · split at read
    · dsimp only at read
      split at read
      · cases read
      · cases read
        exact fun c member => List.mem_takeWhile_imp member
    · cases read
  · cases read

theorem directive?_named {line name : Text} (read : directive? line = some (.openModule name)) :
    IsNamed name := by
  unfold directive? at read
  split at read
  · rename_i found
    cases read
    exact moduleName?_named found
  · split at read <;> cases read

namespace Scope

/-- Everything that names are put together from is made of characters of names. -/
structure Named (s : Scope) : Prop where
  modules : ∀ m ∈ s.modules, IsNamed m
  anchor : IsNamed s.anchor

theorem Named.start : Named {} :=
  ⟨fun _ member => (List.not_mem_nil member).elim, fun _ member => (List.not_mem_nil member).elim⟩

theorem Named.qualify {s : Scope} (named : s.Named) {label : Text} (isNamed : IsNamed label) :
    IsNamed (s.qualify label) := by
  unfold Scope.qualify
  split
  · rename_i rest
    have base : IsNamed (if s.anchor.isEmpty then s.path else s.anchor) := by
      split
      · exact .join named.modules
      · exact named.anchor
    dsimp only
    generalize (if s.anchor.isEmpty then s.path else s.anchor) = front at base
    split
    · exact fun c member => isNamed c (List.mem_cons_of_mem _ member)
    · exact base.append isNamed
  · exact fun c member => isNamed c (List.mem_cons_of_mem _ member)
  · apply IsNamed.join
    intro part member
    rcases List.mem_append.mp member with above | here
    · exact named.modules part above
    · rw [List.mem_singleton.mp here]
      exact isNamed

theorem Named.next {s : Scope} (named : s.Named) (line : Text) : (s.next line).Named := by
  unfold Scope.next
  split
  · rename_i d read
    cases d with
    | openModule name =>
      refine ⟨fun m member => ?_, nofun⟩
      rcases List.mem_append.mp member with above | here
      · exact named.modules m above
      · rw [List.mem_singleton.mp here]
        exact directive?_named read
    | closeModule =>
      exact ⟨fun m member => named.modules m (List.mem_of_mem_dropLast member), nofun⟩
  · split
    · rename_i label read
      unfold afterLabel
      split
      · exact named
      · exact ⟨named.modules, named.qualify (label?_named read)⟩
    · exact named

theorem Named.defined? {s : Scope} (named : s.Named) {line name : Text}
    (defined : s.defined? line = some name) : IsNamed name := by
  unfold Scope.defined? at defined
  split at defined
  · cases defined
  · obtain ⟨label, read, rfl⟩ := Option.map_eq_some_iff.mp defined
    exact named.qualify (label?_named read)

end Scope

theorem namings_named {s : Scope} (named : s.Named) (n : Nat) (lines : List Text) :
    ∀ p ∈ namings s n lines, IsNamed p.1 := by
  induction lines generalizing s n with
  | nil => nofun
  | cons line rest ih =>
    have later := ih (named.next line) (n + 1)
    unfold namings
    split
    · rename_i name defined
      intro p member
      rcases List.mem_cons.mp member with rfl | behind
      · exact named.defined? defined
      · exact later p behind
    · exact later

theorem firstOfEach_subset (pairs : List (Text × Nat)) : firstOfEach pairs ⊆ pairs := by
  induction pairs using List.reverseRecOn with
  | nil => exact List.Subset.refl _
  | append_singleton pairs p ih =>
    rw [firstOfEach_append]
    split
    · exact List.subset_append_of_subset_left _ ih
    · exact List.append_subset.mpr
        ⟨List.subset_append_of_subset_left _ ih, List.subset_append_right _ _⟩

theorem firstOfEach_nodup (pairs : List (Text × Nat)) :
    ((firstOfEach pairs).map (·.1)).Nodup := by
  induction pairs using List.reverseRecOn with
  | nil => exact List.nodup_nil
  | append_singleton pairs p ih =>
    rw [firstOfEach_append]
    split
    · exact ih
    · rename_i fresh
      rw [List.map_append, List.map_singleton, List.nodup_append]
      refine ⟨ih, List.nodup_singleton _, ?_⟩
      intro name known other here same
      obtain ⟨old, member, rfl⟩ := List.mem_map.mp known
      rw [List.mem_singleton.mp here] at same
      exact fresh (List.any_eq_true.mpr ⟨old, member, by simpa using same⟩)

theorem definitions_named (lines : List Text) : ∀ p ∈ definitions lines, IsNamed p.1 :=
  fun p member => namings_named .start 0 lines p (firstOfEach_subset _ member)

theorem definitions_nodup (lines : List Text) : ((definitions lines).map (·.1)).Nodup :=
  firstOfEach_nodup _

theorem locate_of_mem {defs : List (Text × Nat)} (once : (defs.map (·.1)).Nodup) {name : Text}
    {n : Nat} (member : (name, n) ∈ defs) : locate defs name = some n := by
  induction defs with
  | nil => nomatch member
  | cons p defs ih =>
    rw [List.map_cons, List.nodup_cons] at once
    rcases List.mem_cons.mp member with rfl | later
    · simp [locate]
    · have other : p.1 ≠ name := fun same => once.1 (List.mem_map.mpr ⟨_, later, same.symm⟩)
      have rest := ih once.2 later
      unfold locate at rest ⊢
      rw [List.find?_cons_of_neg (by simpa using other), rest]

end Definition

/-! ## Lines of a labels file -/

theorem Text.not_isBreak_of_solid {c : CodePoint} (solid : isBlank c = false) :
    isBreak c = false := by
  by_contra breaks
  obtain ⟨r, member, low, high⟩ := (inRanges_iff _ _).mp (Bool.not_eq_false _ ▸ breaks)
  have blank : isBlank c = true := by
    refine (inRanges_iff _ _).mpr ?_
    simp only [List.mem_cons, List.not_mem_nil, or_false] at member
    rcases member with rfl | rfl | rfl | rfl
    · exact ⟨(0x09, 0x0D), by simp, by simp only at low high ⊢; omega⟩
    · exact ⟨(0x1C, 0x20), by simp, by simp only at low high ⊢; omega⟩
    · exact ⟨_, by simp, low, high⟩
    · exact ⟨_, by simp, low, high⟩
  rw [blank] at solid
  cases solid

/-- A line without breaks is the first line of a text that goes on behind a line feed. -/
theorem Text.lines_append_newline (line rest : Text) (whole : ∀ c ∈ line, isBreak c = false) :
    lines (line ++ .scalar '\n' :: rest) = line :: lines rest := by
  induction line with
  | nil => exact lines_cons _ _ (by decide)
  | cons c line ih =>
    rw [List.forall_mem_cons] at whole
    have other : c ≠ '\r' := by
      rintro rfl
      exact absurd whole.1 (by decide)
    rw [List.cons_append, lines_cons _ _ other, whole.1, ih whole.2]
    rfl

namespace Export

open Text Source Definition

/-- Whether a line of a labels file can start with a name. -/
def isExportable (name : Text) : Bool :=
  name.head?.any isLabelStart

/-- A line of a labels file that gives a name what a text is read as. -/
def assignment (name raw : Text) : Text :=
  name ++ ": EQU " ++ raw

/-- The labels file with such a line for each name, for a way to write the values. -/
def assignments (write : Int → Text) (rows : List (Text × Int)) : Text :=
  rows.flatMap fun p => assignment p.1 (write p.2) ++ "\n"

/-- A name that a line can start with, and a text on one line that is read as a number. -/
structure Assigns (name raw : Text) (n : Int) : Prop where
  exportable : isExportable name = true
  named : IsNamed name
  solid : ∀ c ∈ raw, isBlank c = false
  uncommented : .scalar ';' ∉ raw
  value : value? raw = some n

/-- A name is taken as far as it goes, whatever words are in it. -/
theorem longest?_name (c : CodePoint) (t : Text) (named : IsNamed t) {rest value : Text}
    (ends : startsWithNameChar rest = false) (assigned : valueText? rest = some value) :
    longest? (c :: (t ++ rest)) = some (c :: t, value) := by
  induction t generalizing c with
  | nil =>
    rw [List.nil_append, longest?, ends, assigned]
    rfl
  | cons d t ih =>
    have first : isNameChar d = true := named d List.mem_cons_self
    have later := ih d fun e member => named e (List.mem_cons_of_mem d member)
    rw [List.cons_append, longest?, show startsWithNameChar (d :: (t ++ rest)) = true from first,
      if_pos rfl, later]

theorem valueText?_assigned {raw : Text} (solid : ∀ c ∈ raw, isBlank c = false)
    (uncommented : .scalar ';' ∉ raw) : valueText? (": EQU " ++ raw) = some raw := by
  have assigned : afterAssign? (stripStart (dropColon (stripStart (": EQU " ++ raw)))) =
      some (.scalar ' ' :: raw) := by
    have front : stripStart (dropColon (stripStart (": EQU " ++ raw))) = "EQU " ++ raw := rfl
    have found : afterAssign? ("EQU " ++ raw) =
        (some (.scalar ' ' :: raw)).filter (!startsWithWord ·) := rfl
    have apart : startsWithWord (.scalar ' ' :: raw) = false := by
      have space : isWord (.scalar ' ') = false := by decide +kernel
      rw [startsWithWord, List.head?_cons, Option.any_some, space]
    rw [front, found, Option.filter_some, apart]
    rfl
  have start : stripStart (.scalar ' ' :: raw) = raw := by
    rw [stripStart, List.dropWhile_cons_of_pos (by decide)]
    exact stripStart_solid solid
  have whole : raw.takeWhile (· ≠ .scalar ';') = raw := by
    apply List.takeWhile_eq_self_iff.mpr
    intro d member
    exact decide_eq_true fun same => uncommented (same ▸ member)
  rw [valueText?, assigned, Option.map_some, start, whole, stripEnd_solid solid]

namespace Assigns

variable {name raw : Text} {n : Int}

theorem eq_cons (assigns : Assigns name raw n) :
    ∃ c t, name = c :: t ∧ isLabelStart c = true ∧ isBlank c = false := by
  have first := assigns.exportable
  unfold isExportable at first
  cases same : name with
  | nil => simp [same] at first
  | cons c t =>
    rw [same, List.head?_cons, Option.any_some] at first
    exact ⟨c, t, rfl, first, not_isBlank_of_isNameChar (isNameChar_of_isLabelStart first)⟩

theorem line? (assigns : Assigns name raw n) : line? (assignment name raw) = some (name, raw) := by
  obtain ⟨c, t, rfl, first, solid⟩ := assigns.eq_cons
  have named : IsNamed t := fun d member => assigns.named d (List.mem_cons_of_mem c member)
  have ends : startsWithNameChar (": EQU " ++ raw) = false := by
    have colon : isNameChar (.scalar ':') = false := by decide +kernel
    have first : (": EQU " : Text) ++ raw = .scalar ':' :: ((" EQU " : Text) ++ raw) := rfl
    rw [startsWithNameChar, first, List.head?_cons, Option.any_some, colon]
  have found := longest?_name c t named ends (valueText?_assigned assigns.solid assigns.uncommented)
  have start : stripStart (assignment (c :: t) raw) = c :: (t ++ (": EQU " ++ raw)) := by
    rw [assignment, List.append_assoc, List.cons_append, stripStart,
      List.dropWhile_cons_of_neg (by simp [solid])]
  have starts : isNameStart c = true := by simp [isNameStart, first]
  rw [Export.line?, start]
  dsimp only
  rw [if_pos starts, found]

theorem not_isIgnored (assigns : Assigns name raw n) :
    isIgnored (assignment name raw) = false := by
  obtain ⟨c, t, rfl, first, solid⟩ := assigns.eq_cons
  have other : c ≠ .scalar ';' := by
    rintro rfl
    cases first
  have start : strip (assignment (c :: t) raw) = c :: stripEnd (t ++ (": EQU " ++ raw)) := by
    rw [assignment, List.append_assoc, List.cons_append, strip, stripStart,
      List.dropWhile_cons_of_neg (by simp [solid]), stripEnd_cons c _ solid]
  simp [isIgnored, start, other]

theorem whole (assigns : Assigns name raw n) : ∀ c ∈ assignment name raw, isBreak c = false := by
  intro c member
  rcases List.mem_append.mp member with front | value
  · rcases List.mem_append.mp front with named | between
    · exact not_isBreak_of_solid (not_isBlank_of_isNameChar (assigns.named c named))
    · have unbroken : ∀ d ∈ (": EQU " : Text), isBreak d = false := by decide
      exact unbroken c between
  · exact not_isBreak_of_solid (assigns.solid c value)

theorem step (assigns : Assigns name raw n) {r : Reading} (fresh : isExported name r.labels = false)
    (number : Nat) :
    r.step (assignment name raw, number) = { r with labels := r.labels ++ [⟨name, some n⟩] } := by
  unfold Reading.step
  dsimp only
  rw [if_neg (by simp [assigns.not_isIgnored]), assigns.line?]
  simp [lineEvents, assigns.value, put, fresh]

end Assigns

section Assignments

variable {write : Int → Text} {rows : List (Text × Int)}

theorem lines_assignments (each : ∀ p ∈ rows, Assigns p.1 (write p.2) p.2) :
    lines (assignments write rows) = rows.map fun p => assignment p.1 (write p.2) := by
  induction rows with
  | nil => rfl
  | cons p rows ih =>
    rw [List.forall_mem_cons] at each
    rw [List.map_cons, ← ih each.2, assignments, List.flatMap_cons, List.append_assoc]
    exact lines_append_newline _ _ each.1.whole

/-- New names are taken one after the other, and nothing is reported. -/
theorem foldl_step_assignments (each : ∀ p ∈ rows, Assigns p.1 (write p.2) p.2)
    (once : (rows.map (·.1)).Nodup) (r : Reading)
    (fresh : ∀ p ∈ rows, isExported p.1 r.labels = false) (number : Nat) :
    ((rows.map fun p => assignment p.1 (write p.2)).zipIdx number).foldl Reading.step r =
      { r with labels := r.labels ++ rows.map fun p => ⟨p.1, some p.2⟩ } := by
  induction rows generalizing r number with
  | nil => simp
  | cons p rows ih =>
    rw [List.forall_mem_cons] at each fresh
    rw [List.map_cons, List.nodup_cons] at once
    rw [List.map_cons, List.zipIdx_cons, List.foldl_cons, each.1.step fresh.1, ih each.2 once.2]
    · simp
    · intro q member
      have other : p.1 ≠ q.1 := fun same => once.1 (List.mem_map.mpr ⟨q, member, same.symm⟩)
      have before := fresh.2 q member
      simp only [isExported] at before ⊢
      simp [before, other]

/-- A labels file gives back the names and values it was written for, in their order. -/
theorem read_assignments (each : ∀ p ∈ rows, Assigns p.1 (write p.2) p.2)
    (once : (rows.map (·.1)).Nodup) {t : Text}
    (all : lines t = rows.map fun p => assignment p.1 (write p.2)) :
    read t = ⟨rows.map fun p => ⟨p.1, some p.2⟩, []⟩ := by
  rw [read, all, foldl_step_assignments each once {} (fun _ _ => rfl) 1]
  rfl

end Assignments

/-! ### Decimal values -/

theorem isSigned_decimal {n : Int} (short : Numeral.isShort n = true) :
    Numeral.IsSigned .ten (Numeral.decimal n) n := by
  obtain ⟨ds, some_digit, same, value⟩ := Numeral.exists_digits .ten n.natAbs
  have same : digits 10 n.natAbs = Numeral.spell ds := same
  have limit := (Json.isShort_iff n).mp short
  rw [same, Numeral.spell, List.length_map] at limit
  have unsigned : Numeral.IsUnsigned .ten (digits 10 n.natAbs) n.natAbs := by
    rw [same, ← value]
    exact .plain (.intro ds some_digit fun _ => limit)
  rw [Numeral.decimal]
  split
  · rename_i negative
    have sign : n = -(n.natAbs : Int) := by omega
    rw [sign, Int.natAbs_neg, Int.natAbs_natCast]
    exact .minus unsigned
  · rename_i positive
    have sign : n = (n.natAbs : Int) := by omega
    rw [sign, Int.natAbs_natCast]
    exact .plain unsigned

/-- A number in decimal is read as itself, as long as it is not too long to be read. -/
theorem Assigns.decimal {name : Text} {n : Int} (exportable : isExportable name = true)
    (named : IsNamed name) (short : Numeral.isShort n = true) :
    Assigns name (Numeral.decimal n) n := by
  have signed := isSigned_decimal short
  have each : ∀ c ∈ Numeral.alphabet .ten, isBlank c = false ∧ c ≠ .scalar ';' ∧ c ≠ .scalar '_' ∧
      c.toLower = c ∧ Numeral.isNormal c = true := by decide +kernel
  have inside : ∀ c ∈ Numeral.decimal n, _ := fun c member => each c (signed.subset member)
  have lower : (Numeral.decimal n).map CodePoint.toLower = Numeral.decimal n :=
    (List.map_congr_left fun c member => (inside c member).2.2.2.1).trans (List.map_id _)
  refine ⟨exportable, named, fun c member => (inside c member).1, ?_, ?_⟩
  · intro member
    exact (inside _ member).2.1 rfl
  · apply value?_of_literal
    · intro c member
      rw [(inside c member).2.2.2.1]
      exact (inside c member).2.2.2.2
    · intro member
      exact (inside _ member).2.2.1 rfl
    · rw [lower]
      exact .decimal signed

end Export

/-! ## Exporting everything that is defined -/

namespace Document

open Definition Export

/-- The defined names that a line of a labels file can start with, in order of definition. -/
def exportableNames (lines : List Text) : List Text :=
  ((definitions lines).map (·.1)).filter isExportable

theorem exportableNames_nodup (lines : List Text) : (exportableNames lines).Nodup :=
  (definitions_nodup lines).filter _

/-- Whatever is made of the exportable names, and keeps them, names each of them once. -/
theorem exportableNames_nodup_kept {α : Type} (lines : List Text) {make : Text → α}
    {name : α → Text} (kept : ∀ s, name (make s) = s) :
    (((exportableNames lines).map make).map name).Nodup := by
  have same : name ∘ make = id := funext kept
  rw [List.map_map, same, List.map_id]
  exact exportableNames_nodup lines

theorem mem_exportableNames {lines : List Text} {name : Text} :
    name ∈ exportableNames lines ↔
      (∃ n, (name, n) ∈ definitions lines) ∧ isExportable name = true := by
  simp [exportableNames]

theorem locate_exportable {lines : List Text} {name : Text} {n : Nat}
    (defined : (name, n) ∈ definitions lines) : locate (definitions lines) name = some n :=
  locate_of_mem (definitions_nodup lines) defined

theorem assigns_exportable {lines : List Text} {name : Text}
    (member : name ∈ exportableNames lines) {n : Nat} (bound : n < 2 ^ 64) :
    Assigns name (Numeral.decimal n) n := by
  obtain ⟨⟨line, defined⟩, exportable⟩ := mem_exportableNames.mp member
  apply Assigns.decimal exportable (definitions_named lines (name, line) defined)
  have large : 2 ^ 64 < Nat.pow 10 Numeral.maxDigits := by decide +kernel
  simp only [Numeral.isShort, Int.natAbs_natCast, decide_eq_true_eq]
  omega

theorem unresolved_of_defined {lines : List Text} {exported : List Export}
    (defined : ∀ x ∈ exported, ∃ n, (x.name, n) ∈ definitions lines) :
    unresolved (definitions lines) exported = [] := by
  rw [unresolved, List.filter_eq_nil_iff]
  intro name member
  obtain ⟨x, known, rfl⟩ := List.mem_map.mp member
  obtain ⟨n, here⟩ := defined x known
  rw [locate_exportable here]
  exact Bool.false_ne_true

/-- Everything that is defined can be exported. A labels file with a line for each defined name that
a line can start with is read as these names and their values, in order and without a report. A
listing with the same lines resolves all of them: none is missing, and each has the line of its
definition and its value. This is the document that is built, unless a name is too deep to be
worked on. -/
theorem definitions_resolved (lines : List Text) (value : Text → Nat)
    (bound : ∀ name, value name < 2 ^ 64) :
    let names := exportableNames lines
    let text := assignments Numeral.decimal (names.map fun name => (name, (value name : Int)))
    let exported := names.map fun name => (⟨name, some (value name : Int)⟩ : Export)
    Export.read text = ⟨exported, []⟩ ∧
    ∀ listing : Listing, listing.sourceLines = lines → ∀ options,
      let document := ofListing listing exported options
      document.metadata = .obj [("unresolved_labels", .arr [])] ∧
      (∀ name n, (name, n) ∈ definitions lines → isExportable name = true →
        ∃ u, document.root.get? name = some u ∧ u.entry.line = some (n : Int) ∧
          u.entry.value = some (value name : Int)) ∧
      ∀ w, (ofPlan options.plan (.whole listing.column) listing.name listing.lines exported w).1 =
        if ∀ name ∈ names, (segments name).length ≤ Tree.maxWalkDepth then .ok document
        else .error .tooDeep := by
  intro names text exported
  have once : (exported.map (·.name)).Nodup := exportableNames_nodup_kept lines fun _ => rfl
  constructor
  · have assigns : ∀ p ∈ names.map (fun name => (name, (value name : Int))),
        Assigns p.1 (Numeral.decimal p.2) p.2 := by
      intro p member
      obtain ⟨name, known, rfl⟩ := List.mem_map.mp member
      exact assigns_exportable known (bound name)
    have distinct : ((names.map fun name => (name, (value name : Int))).map (·.1)).Nodup :=
      exportableNames_nodup_kept lines fun _ => rfl
    rw [read_assignments assigns distinct (lines_assignments assigns), List.map_map]
    rfl
  · rintro listing rfl options
    have defined : ∀ x ∈ exported, ∃ n, (x.name, n) ∈ definitions listing.sourceLines := by
      intro x member
      obtain ⟨name, known, rfl⟩ := List.mem_map.mp member
      exact (mem_exportableNames.mp known).1
    refine ⟨?_, ?_, ?_⟩
    · simp only [ofListing, unresolved_of_defined defined, List.map_nil]
    · intro name n here exportable
      have member : (⟨name, some (value name : Int)⟩ : Export) ∈ exported :=
        List.mem_map_of_mem (mem_exportableNames.mpr ⟨⟨n, here⟩, exportable⟩)
      obtain ⟨y, last, entry⟩ := ofListing_exported listing exported options _ member
      rw [← get?_entry] at entry
      obtain ⟨u, found, same⟩ := Option.map_eq_some_iff.mp entry
      refine ⟨u, found, ?_, ?_⟩
      · rw [same]
        show lineOf (definitions listing.sourceLines) name = some (n : Int)
        rw [lineOf, locate_exportable here]
        rfl
      · rw [same]
        exact last.trans (lastValue_of_nodup once member)
    · intro w
      refine (ofPlan_whole listing exported options w).trans ?_
      simp only [exported, List.forall_mem_map]

/-- Modules, a local label, a name with an assignment in it, and a name that cannot be exported. -/
theorem definitions_resolved_modules :
    let lines : List Text :=
      ["MODULE io.EQU", "portEQU: nop", ".in? EQU 3", "@9: ret", "ENDMODULE", "main ld a,5"]
    let read := Export.read ("io.EQU.portEQU: EQU 18446744073709551615\n"
      ++ "io.EQU.portEQU.in?: EQU 18446744073709551615\nmain: EQU 18446744073709551615\n")
    let exported : List Export := [⟨"io.EQU.portEQU", some 18446744073709551615⟩,
      ⟨"io.EQU.portEQU.in?", some 18446744073709551615⟩, ⟨"main", some 18446744073709551615⟩]
    let document := ofListing { lines := lines, column := 0 } exported {}
    read = ⟨exported, []⟩ ∧ document.metadata = .obj [("unresolved_labels", .arr [])] ∧
    ∃ u, document.root.get? "io.EQU.portEQU.in?" = some u ∧ u.entry.line = some 2 ∧
      u.entry.value = some 18446744073709551615 := by
  intro lines read exported document
  have names : exportableNames lines = ["io.EQU.portEQU", "io.EQU.portEQU.in?", "main"] := by
    decide +kernel
  have here : (("io.EQU.portEQU.in?" : Text), 2) ∈ definitions lines := by decide +kernel
  have source : ({ lines := lines, column := 0 } : Listing).sourceLines = lines := by decide +kernel
  have resolved := definitions_resolved lines (fun _ => 18446744073709551615) fun _ => by decide
  rw [names] at resolved
  have text : assignments Numeral.decimal (["io.EQU.portEQU", "io.EQU.portEQU.in?", "main"].map
      fun name : Text => (name, ((18446744073709551615 : Nat) : Int))) =
        "io.EQU.portEQU: EQU 18446744073709551615\n"
          ++ "io.EQU.portEQU.in?: EQU 18446744073709551615\nmain: EQU 18446744073709551615\n" := by
    decide +kernel
  obtain ⟨reading, building⟩ := resolved
  obtain ⟨complete, entries, -⟩ := building _ source {}
  rw [text] at reading
  exact ⟨reading, complete, entries _ 2 here (by decide)⟩

end Document

end LabelAtlas
