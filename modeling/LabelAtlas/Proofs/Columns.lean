import LabelAtlas.Proofs.Depth

/-! A listing counts only by its source texts. Whatever reads the lines of a listing reads them from
the column of their source text on, so neither the column nor what stands in front of it leaves a
trace. -/
namespace LabelAtlas

/-- Lines that are looked at through a view are described by what is seen of them. -/
theorem Description.describe_view (lines : List Text) (view : Text → Text) (tolerance : Int)
    (line : Option Int) :
    describe lines view tolerance line = describe (lines.map view) id tolerance line := by
  match line with
  | none => rfl
  | some (.negSucc n) => rfl
  | some (.ofNat n) => simp only [describe, List.length_map, List.map_take, List.map_reverse,
      List.map_id]

namespace Reading

variable (column : Int) (blankLines : Option Amount) (lines : List Text)

/-- The blank line above a label is one of the source text, wherever that starts. -/
theorem countsBlanks_cut (line : Option Int) :
    countsBlanks ⟨some (.whole column), blankLines⟩ lines line =
      countsBlanks ⟨none, blankLines⟩ (lines.map (Listing.sourceText column)) line := by
  match line with
  | none => rfl
  | some (.negSucc n) => rfl
  | some (.ofNat 0) => rfl
  | some (.ofNat (n + 1)) =>
    simp only [countsBlanks, List.getElem?_map]
    cases lines[n]? <;> rfl

theorem check_cut (line : Option Int) :
    check ⟨some (.whole column), blankLines⟩ lines line =
      check ⟨none, blankLines⟩ (lines.map (Listing.sourceText column)) line := by
  unfold check
  rw [← countsBlanks_cut]

theorem describe_cut (line : Option Int) :
    describe ⟨some (.whole column), blankLines⟩ lines line =
      describe ⟨none, blankLines⟩ (lines.map (Listing.sourceText column)) line := by
  have seen := Description.describe_view lines (view ⟨some (.whole column), blankLines⟩)
    (tolerance ⟨none, blankLines⟩ lines.length) line
  unfold describe
  rw [List.length_map]
  exact seen

/-- Lines that are cut at a column are described like their source texts, which are not cut. -/
theorem describeAt_cut (line : Option Amount) :
    describeAt ⟨some (.whole column), blankLines⟩ lines line =
      describeAt ⟨none, blankLines⟩ (lines.map (Listing.sourceText column)) line := by
  match line with
  | none => rfl
  | some (.whole n) => simp only [describeAt, checkedDescribe, check_cut, describe_cut]
  | some (.real x) =>
    have below : isBelow lines x = isBelow (lines.map (Listing.sourceText column)) x := by
      unfold isBelow
      rw [List.length_map]
    rw [describeAt, describeAt, below]

theorem checkTree_cut (t : Tree) :
    checkTree ⟨some (.whole column), blankLines⟩ lines t =
      checkTree ⟨none, blankLines⟩ (lines.map (Listing.sourceText column)) t := by
  simp only [checkTree, check_cut]

end Reading

namespace Document

theorem treeOf_view (labels : List (Text × Option Int)) (lines : List Text) (view : Text → Text)
    (tolerance : Int) :
    treeOf labels lines view tolerance = treeOf labels (lines.map view) id tolerance := by
  simp only [treeOf, Description.describe_view lines view]

section

variable {first second : Listing} (same : first.sourceLines = second.sourceLines)
  (named : first.name = second.name) (exported : List Export)
include same named

theorem ofListing_of_source (options : Options) :
    ofListing first exported options = ofListing second exported options := by
  have seen (l : Listing) (labels : List (Text × Option Int)) :
      treeOf labels l.lines l.sourceOf options.tolerance =
        treeOf labels l.sourceLines id options.tolerance :=
    treeOf_view labels l.lines l.sourceOf options.tolerance
  simp only [ofListing, seen, same, named]

theorem searchEvents_of_source : searchEvents first exported = searchEvents second exported := by
  simp only [searchEvents, same, named]

/-- A plan comes to the same end on listings with the same source lines, and reports the same. -/
theorem ofPlan_of_source (plan : Plan) :
    ofPlan plan (.whole first.column) first.name first.lines exported =
      ofPlan plan (.whole second.column) second.name second.lines exported := by
  have length : first.lines.length = second.lines.length := by
    simpa [Listing.sourceLines] using congrArg List.length same
  have checked (t : Tree) :
      Reading.checkTree ⟨some (.whole first.column), plan.blankLines⟩ first.lines t =
        Reading.checkTree ⟨some (.whole second.column), plan.blankLines⟩ second.lines t := by
    rw [Reading.checkTree_cut, Reading.checkTree_cut]
    exact congrArg (Reading.checkTree _ · t) same
  have events := searchEvents_of_source same named exported
  have document := ofListing_of_source same named exported
  have column (l : Listing) : Listing.columnFor (.whole l.column) l.lines = .ok l.column := rfl
  funext w
  unfold ofPlan
  rw [column, column, Job.lift_ok, Job.lift_ok]
  -- From here on the two listings are met only where one of the facts above speaks of them.
  simp only [Reading.tolerance, length, events, document, same, checked]

end

/-- Two listings of one name that have the same source lines give the same document, whatever their
columns are and whatever their lines hold in front of them, and building either comes to the same
end and reports the same. The comment above a line is found alike in the lines that are cut and in
the source texts that come of it. -/
theorem columns_ignored (first second : Listing) (same : first.sourceLines = second.sourceLines)
    (named : first.name = second.name) (exported : List Export) :
    (∀ options, ofListing first exported options = ofListing second exported options) ∧
    (∀ plan w, ofPlan plan (.whole first.column) first.name first.lines exported w =
      ofPlan plan (.whole second.column) second.name second.lines exported w) ∧
    (∀ tolerance line, Description.describe first.lines first.sourceOf tolerance line =
      Description.describe first.sourceLines id tolerance line) ∧
    ∀ blankLines line,
      Reading.describeAt ⟨some (.whole first.column), blankLines⟩ first.lines line =
        Reading.describeAt ⟨none, blankLines⟩ first.sourceLines line := by
  refine ⟨ofListing_of_source same named exported, ?_, ?_, ?_⟩
  · intro plan w
    rw [ofPlan_of_source same named exported plan]
  · intro tolerance line
    exact Description.describe_view first.lines first.sourceOf tolerance line
  · intro blankLines line
    exact Reading.describeAt_cut first.column blankLines first.lines line

/-- A banner in one listing is an empty line in the other. -/
theorem columns_ignored_banner :
    let first : Listing :=
      ⟨["# file opened: rom.asm", "1 8000   ; Waits.", "2 8000 76wait: halt "], 9, .str "rom.lst"⟩
    let second : Listing := ⟨["", "; Waits.", "wait: halt"], 0, .str "rom.lst"⟩
    let exported : List Export := [⟨"wait", some 0x8000⟩]
    first.sourceLines = second.sourceLines ∧ first.column ≠ second.column ∧
    ofListing first exported {} = ofListing second exported {} ∧
    ((ofListing first exported {}).root.get? "wait").map (·.entry) =
      some ⟨some 2, some " Waits.", some .code, some 0x8000⟩ ∧
    Description.describe first.lines first.sourceOf 2 (some 2) =
      Description.describe first.sourceLines id 2 (some 2) := by
  intro first second exported
  have same : first.sourceLines = second.sourceLines := by decide +kernel
  obtain ⟨documents, _, descriptions, _⟩ := columns_ignored first second same rfl exported
  exact ⟨same, by decide, documents {}, by decide +kernel, descriptions 2 (some 2)⟩

end Document

end LabelAtlas
