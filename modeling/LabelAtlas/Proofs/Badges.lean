import LabelAtlas.Page.Html
import LabelAtlas.Proofs.Resolving

/-! The value that a page shows for a label can be put into a labels file as it stands. Hexadecimal
digits are read whatever their case and however many zeros are in front of them, and a negative value
is shown in decimal. -/
namespace LabelAtlas

namespace Numeral

open Text

theorem positional_zeros {b : Base} (k : Nat) {zero : Fin b.value} (none : zero.val = 0)
    (ds : List (Fin b.value)) : positional (List.replicate k zero ++ ds) = positional ds := by
  rw [positional, List.map_append, List.map_replicate, none, List.reverse_append,
    List.reverse_replicate, Nat.ofDigits_append_replicate_zero, positional]

/-- Hexadecimal in upper case: digits that stand for the number, as many as asked for or more. -/
theorem exists_upperHex (width n : Nat) :
    ∃ ds : List (Fin Base.sixteen.value), width ≤ ds.length ∧
      upperHex width n = (spell ds).map CodePoint.toUpper ∧ positional ds = n := by
  obtain ⟨ds, -, written, value⟩ := exists_digits .sixteen n
  have written : digits 16 n = spell ds := written
  let zero : Fin Base.sixteen.value := ⟨0, by decide⟩
  refine ⟨List.replicate (width - ds.length) zero ++ ds, ?_, ?_, ?_⟩
  · rw [List.length_append, List.length_replicate]
    omega
  · have length : ((spell ds).map CodePoint.toUpper).length = ds.length := by
      rw [List.length_map, spell, List.length_map]
    have zeros : (spell (List.replicate (width - ds.length) zero)).map CodePoint.toUpper =
        List.replicate (width - ds.length) (.scalar '0') := by
      rw [spell, List.map_map, List.map_replicate]
      rfl
    rw [upperHex, written, length, ← zeros, ← List.map_append, spell, spell, ← List.map_append,
      spell]
  · rw [positional_zeros _ rfl, value]

end Numeral

namespace Export

open Text Definition

/-- The characters of values as they are shown. -/
def valueAlphabet : Text := "-x0123456789ABCDEF"

theorem valueAlphabet_each : ∀ c ∈ valueAlphabet, Numeral.isNormal c.toLower = true ∧
    isBlank c = false ∧ c ≠ .scalar '_' ∧ c ≠ .scalar ';' ∧ Piece.escapeChar c = [c] := by
  decide +kernel

/-- At least four hexadecimal digits in upper case. -/
theorem exists_valueText_of_nonneg {n : Int} (nonneg : 0 ≤ n) :
    ∃ ds : List (Fin Base.sixteen.value), 4 ≤ ds.length ∧ n = Numeral.positional ds ∧
      Html.valueText n = "0x" ++ (Numeral.spell ds).map CodePoint.toUpper := by
  obtain ⟨ds, enough, written, value⟩ := Numeral.exists_upperHex 4 n.natAbs
  refine ⟨ds, enough, by omega, ?_⟩
  rw [Html.valueText, if_neg (by omega), written]

/-- A minus sign and decimal digits. -/
theorem exists_valueText_of_neg {n : Int} (negative : n < 0) :
    ∃ ds : List (Fin Base.ten.value), ds ≠ [] ∧
      Html.valueText n = .scalar '-' :: Numeral.spell ds := by
  obtain ⟨ds, some_digit, written, -⟩ := Numeral.exists_digits .ten n.natAbs
  have written : digits 10 n.natAbs = Numeral.spell ds := written
  refine ⟨ds, some_digit, ?_⟩
  rw [Html.valueText, if_pos negative, Numeral.decimal, if_pos negative, written]

theorem valueText_subset (n : Int) : Html.valueText n ⊆ valueAlphabet := by
  by_cases negative : n < 0
  · have digit : ∀ d : Fin Base.ten.value, .scalar (Nat.digitChar d) ∈ valueAlphabet := by decide
    obtain ⟨ds, -, written⟩ := exists_valueText_of_neg negative
    rw [written]
    refine List.cons_subset.mpr ⟨by decide, ?_⟩
    intro c member
    obtain ⟨d, rfl⟩ := Numeral.mem_spell member
    exact digit d
  · have digit : ∀ d : Fin Base.sixteen.value,
        CodePoint.toUpper (.scalar (Nat.digitChar d)) ∈ valueAlphabet := by decide
    obtain ⟨ds, -, -, written⟩ := exists_valueText_of_nonneg (Int.not_lt.mp negative)
    rw [written]
    refine List.append_subset.mpr ⟨by decide, ?_⟩
    intro c member
    obtain ⟨e, inside, rfl⟩ := List.mem_map.mp member
    obtain ⟨d, rfl⟩ := Numeral.mem_spell inside
    exact digit d

theorem toLower_toUpper_spell (ds : List (Fin Base.sixteen.value)) :
    ((Numeral.spell ds).map CodePoint.toUpper).map CodePoint.toLower = Numeral.spell ds := by
  have each : ∀ d : Fin Base.sixteen.value,
      (CodePoint.toUpper (.scalar (Nat.digitChar d))).toLower = .scalar (Nat.digitChar d) := by
    decide
  rw [List.map_map]
  refine (List.map_congr_left ?_).trans (List.map_id _)
  intro c member
  obtain ⟨d, rfl⟩ := Numeral.mem_spell member
  exact each d

/-- What is shown of a value is read as the value. -/
theorem Assigns.valueText {name : Text} {n : Int} (exportable : isExportable name = true)
    (named : IsNamed name) (short : n < 0 → Numeral.isShort n = true) :
    Assigns name (Html.valueText n) n := by
  have each (c : CodePoint) (member : c ∈ Html.valueText n) :=
    valueAlphabet_each c (valueText_subset n member)
  refine ⟨exportable, named, fun c member => (each c member).2.1,
    fun member => (each _ member).2.2.2.1 rfl, ?_⟩
  by_cases negative : n < 0
  · rw [Html.valueText, if_pos negative]
    exact (Assigns.decimal exportable named (short negative)).value
  · obtain ⟨ds, enough, value, written⟩ := exists_valueText_of_nonneg (Int.not_lt.mp negative)
    have some_digit : ds ≠ [] := List.ne_nil_of_length_pos (by omega)
    apply value?_of_literal
    · exact fun c member => (each c member).1
    · exact fun member => (each _ member).2.2.1 rfl
    · rw [written, List.map_append, toLower_toUpper_spell, value]
      exact .zeroX (.plain (.plain (.of_sixteen some_digit)))

/-- A value is shown as it is, without an escape. -/
theorem valueBadge_written (n : Int) :
    writePieces (Html.valueBadge (some n)) =
      "<span class=\"value\">" ++ Html.valueText n ++ "</span>" := by
  have unescaped : Piece.escape (Html.valueText n) = Html.valueText n := by
    refine (List.flatMap_congr ?_).trans (List.flatMap_singleton' _)
    intro c member
    exact (valueAlphabet_each c (valueText_subset n member)).2.2.2.2
  have shown : (Piece.text (Html.valueText n)).write = Html.valueText n := unescaped
  rw [writePieces, Html.valueBadge, List.flatMap_cons, List.flatMap_cons, List.flatMap_cons,
    List.flatMap_nil, List.append_nil, shown, ← List.append_assoc]
  rfl

/-- The values that a page shows are read as they are shown, which is with at least four hexadecimal
digits, or in decimal if they are negative. A labels file with a line for each of some names, all
different, that gives it the text of its badge is read as these names and values, in order and
without a report. Negative values are limited in length, and others are not. -/
theorem badges_read_back (rows : List (Text × Int))
    (named : ∀ p ∈ rows, isExportable p.1 = true ∧ IsNamed p.1)
    (short : ∀ p ∈ rows, p.2 < 0 → Numeral.isShort p.2 = true) (once : (rows.map (·.1)).Nodup) :
    let exported := rows.map fun p => (⟨p.1, some p.2⟩ : Export)
    (∀ p ∈ rows, writePieces (Html.valueBadge (some p.2)) =
      "<span class=\"value\">" ++ Html.valueText p.2 ++ "</span>") ∧
    (∀ p ∈ rows, 0 ≤ p.2 → ∃ ds : List (Fin Base.sixteen.value), 4 ≤ ds.length ∧
      Html.valueText p.2 = "0x" ++ (Numeral.spell ds).map CodePoint.toUpper) ∧
    (∀ p ∈ rows, p.2 < 0 → ∃ ds : List (Fin Base.ten.value), ds ≠ [] ∧
      Html.valueText p.2 = .scalar '-' :: Numeral.spell ds) ∧
    read (assignments Html.valueText rows) = ⟨exported, []⟩ ∧
    ∀ t, (lines t = rows.map fun p => p.1 ++ ": EQU " ++ Html.valueText p.2) →
      read t = ⟨exported, []⟩ := by
  intro exported
  have assigns : ∀ p ∈ rows, Assigns p.1 (Html.valueText p.2) p.2 := by
    intro p member
    obtain ⟨exportable, isNamed⟩ := named p member
    exact .valueText exportable isNamed (short p member)
  refine ⟨fun p _ => valueBadge_written p.2, ?_, fun p _ => exists_valueText_of_neg, ?_, ?_⟩
  · intro p _ nonneg
    obtain ⟨ds, enough, -, written⟩ := exists_valueText_of_nonneg nonneg
    exact ⟨ds, enough, written⟩
  · exact read_assignments assigns once (lines_assignments assigns)
  · intro t same
    exact read_assignments assigns once same

/-- Names with the word for an assignment in them, or that are that word, and values of both signs.
Zero is filled up to four digits, and one value is beyond 64 bits. -/
theorem badges_read_back_words :
    let rows : List (Text × Int) := [("req.EQU#1", 0), ("equ", -17), ("@.é?", 0x1F2E3D4C5B6A79880)]
    let text : Text := "req.EQU#1: EQU 0x0000\nequ: EQU -17\n@.é?: EQU 0x1F2E3D4C5B6A79880\n"
    assignments Html.valueText rows = text ∧
    read text = ⟨[⟨"req.EQU#1", some 0⟩, ⟨"equ", some (-17)⟩,
      ⟨"@.é?", some 0x1F2E3D4C5B6A79880⟩], []⟩ := by
  intro rows text
  have named : ∀ p ∈ rows, isExportable p.1 = true ∧ ∀ c ∈ p.1, Source.isNameChar c = true := by
    decide +kernel
  have short : ∀ p ∈ rows, p.2 < 0 → Numeral.isShort p.2 = true := by decide +kernel
  have same : assignments Html.valueText rows = text := by decide +kernel
  have back := (badges_read_back rows named short (by decide)).2.2.2.1
  rw [same] at back
  exact ⟨same, back⟩

end Export

end LabelAtlas
