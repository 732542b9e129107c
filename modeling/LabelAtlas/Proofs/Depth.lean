import LabelAtlas.Generate
import LabelAtlas.Proofs.Lookup

/-! The one limit on building: a tree can be worked on as deep as its labels have segments. Within
that depth, and with whole numbers for its settings, building never fails. -/
namespace LabelAtlas

theorem bind_ok {ε α β : Type} {x : Except ε α} {next : α → Except ε β} {b : β}
    (done : (x >>= next) = .ok b) : ∃ a, x = .ok a ∧ next a = .ok b := by
  cases x with
  | error e => cases done
  | ok a => exact ⟨a, rfl, done⟩

theorem mapError_ok {ε δ α : Type} {x : Except ε α} {f : ε → δ} {a : α}
    (done : x.mapError f = .ok a) : x = .ok a := by
  cases x with
  | error e => cases done
  | ok b => cases done; rfl

theorem map_ok {ε α β : Type} {x : Except ε α} {f : α → β} {b : β} (done : x.map f = .ok b) :
    ∃ a, x = .ok a ∧ f a = b := by
  cases x with
  | error e => cases done
  | ok a => exact ⟨a, rfl, Except.ok.inj done⟩

namespace Job

theorem lift_ok {α β : Type} (a : α) (next : α → Job β) (w : Workspace) :
    ((liftM (Except.ok a : Except Fault α) : Job α) >>= next) w = next a w := rfl

theorem get_then {β : Type} (next : Workspace → Job β) (w : Workspace) :
    ((get : Job Workspace) >>= next) w = next w w := rfl

theorem report_then {β : Type} (events : List Event) (next : Unit → Job β) (w : Workspace) :
    (report events >>= next) w = next () { w with events := w.events ++ events } := rfl

end Job

namespace Forest

theorem depth_chain (g : Entry → Entry) (path : List Text) :
    (chain g path).depth = path.length := by
  induction path with
  | nil => rfl
  | cons s path ih =>
    cases path with
    | nil => rfl
    | cons t path =>
      simp only [chain, depth, ih, List.length_cons]
      omega

theorem depth_insert (g : Entry → Entry) (f : Forest) (path : List Text) :
    (f.insert g path).depth = max f.depth path.length := by
  induction f generalizing path with
  | nil => cases path <;> simp [insert, depth, depth_chain]
  | cons t e below next below_ih next_ih =>
    cases path with
    | nil => simp [insert]
    | cons s path =>
      by_cases same : t = s
      · simp only [insert, same, ↓reduceIte, depth, below_ih, List.length_cons]
        omega
      · simp only [insert, same, ↓reduceIte, depth, next_ih, List.length_cons]
        omega

/-- A change that fails nowhere goes through exactly if there is room for every level. -/
theorem updateWithin_ending (g : Entry → Except Fault Entry)
    (possible : ∀ e, ∃ changed, g e = .ok changed) (f : Forest) (room : Nat) :
    (f.updateWithin g room).2 = if f.depth ≤ room then .ok () else .error .tooDeep := by
  induction f generalizing room with
  | nil => simp [updateWithin, depth]
  | cons t e below next below_ih next_ih =>
    cases room with
    | zero => simp [updateWithin, depth]
    | succ room =>
      obtain ⟨changed, made⟩ := possible e
      have inner := below_ih room
      simp only [updateWithin, made]
      cases result : below.updateWithin g room with
      | mk below' ending =>
        rw [result] at inner
        by_cases fits : below.depth ≤ room
        · rw [if_pos fits] at inner
          have outer := next_ih (room + 1)
          simp only at inner
          subst inner
          have deeper : (cons t e below next).depth ≤ room + 1 ↔ next.depth ≤ room + 1 := by
            simp only [depth]
            omega
          simp only [outer, deeper]
        · rw [if_neg fits] at inner
          simp only at inner
          subst inner
          have deep : ¬(cons t e below next).depth ≤ room + 1 := by
            simp only [depth]
            omega
          rw [if_neg deep]

end Forest

theorem Tree.updateWithin_ending (g : Entry → Except Fault Entry)
    (possible : ∀ e, ∃ changed, g e = .ok changed) (t : Tree) :
    (t.updateWithin g).2 = t.checkWalk := by
  obtain ⟨changed, made⟩ := possible t.entry
  unfold Tree.updateWithin
  rw [made]
  exact Forest.updateWithin_ending g possible t.below Tree.maxWalkDepth

namespace Document

theorem plant_append (labels : List (Text × Option Int)) (p : Text × Option Int) :
    plant (labels ++ [p]) = (plant labels).insert p.1 p.2 := by
  simp [plant, List.foldl_append]

/-- A planted tree is as deep as its longest label. -/
theorem plant_depth (labels : List (Text × Option Int)) (n : Nat) :
    (plant labels).below.depth ≤ n ↔ ∀ p ∈ labels, (segments p.1).length ≤ n := by
  induction labels using List.reverseRecOn with
  | nil => simp [plant, Forest.depth]
  | append_singleton labels p ih =>
    rw [plant_append]
    simp only [Tree.insert, Forest.depth_insert, Nat.max_le, ih, List.mem_append,
      List.mem_singleton]
    constructor
    · rintro ⟨before, here⟩ r (old | rfl)
      · exact before r old
      · exact here
    · intro all
      exact ⟨fun r old => all r (Or.inl old), all p (Or.inr rfl)⟩

/-- With whole numbers only the depth of a tree is checked before it is described. -/
theorem checkTree_whole (column : Option Int) (tolerance : Int) (lines : List Text) (t : Tree) :
    Reading.checkTree ⟨column.map .whole, some (.whole tolerance)⟩ lines t = t.checkWalk := by
  apply Tree.updateWithin_ending
  intro e
  have passes :
      Reading.check ⟨column.map .whole, some (.whole tolerance)⟩ lines e.line = .ok () := by
    cases column <;> rfl
  exact ⟨e, by rw [passes]; rfl⟩

/-- The document of labels with their lines, if no label has too many segments. -/
theorem ofLabels_whole (title : Json) (members : Json.Object)
    (labels : List (Text × Option Int)) (lines : List Text) (column : Option Int)
    (tolerance : Int) :
    ofLabels title (.obj members) labels lines ⟨column.map .whole, some (.whole tolerance)⟩ =
      if ∀ p ∈ labels, (segments p.1).length ≤ Tree.maxWalkDepth then
        .ok { title := title
              metadata := .obj members
              root := treeOf labels lines
                (Reading.view ⟨column.map .whole, some (.whole tolerance)⟩) tolerance }
      else .error .tooDeep := by
  unfold ofLabels
  rw [checkTree_whole]
  simp only [Tree.checkWalk, plant_depth]
  split <;> rfl

/-- What a document is planned to be, with whole numbers for its settings. -/
def Options.plan (options : Options) : Plan where
  title := options.title
  blankLines := some (.whole options.tolerance)
  classify := options.classify
  scanLines := some (.whole options.scan)

/-- Without kinds it does not matter how many lines would be searched for them. -/
theorem ofListing_unscanned (listing : Listing) (exported : List Export) (options : Options)
    (unclassified : options.classify = false) (scan : Int) :
    ofListing listing exported { options with scan := scan } =
      ofListing listing exported options := by
  have same : complete listing.sourceLines { options with scan := scan } =
      complete listing.sourceLines options := by
    funext t x
    simp [complete, unclassified]
  simp only [ofListing, same]

/-- The document of a listing and its exports, if no exported name has too many segments. -/
theorem ofPlan_whole (listing : Listing) (exported : List Export) (options : Options)
    (w : Workspace) :
    (ofPlan options.plan (.whole listing.column) listing.name listing.lines exported w).1 =
      if ∀ x ∈ exported, (segments x.name).length ≤ Tree.maxWalkDepth then
        .ok (ofListing listing exported options)
      else .error .tooDeep := by
  have column : Listing.columnFor (.whole listing.column) listing.lines = .ok listing.column := rfl
  have checked : Reading.checkTree ⟨some (.whole listing.column), options.plan.blankLines⟩
      listing.lines (plant (placed (Definition.definitions
        (Listing.sourceLines ⟨listing.lines, listing.column, listing.name⟩)) exported)) =
      if ∀ x ∈ exported, (segments x.name).length ≤ Tree.maxWalkDepth then .ok ()
      else .error .tooDeep := by
    refine (checkTree_whole (some listing.column) options.tolerance listing.lines _).trans ?_
    simp only [Tree.checkWalk, plant_depth, placed, List.forall_mem_map]
  unfold ofPlan
  rw [column, Job.lift_ok, Job.report_then]
  simp only [checked]
  split
  · rw [Job.lift_ok]
    cases classify : options.classify with
    | true =>
      have planned : options.plan.classify = true := classify
      rw [if_pos planned]
      rfl
    | false =>
      have planned : ¬options.plan.classify = true := by simp [Options.plan, classify]
      rw [if_neg planned, ← ofListing_unscanned listing exported options classify 0]
      rfl
  · rfl

end Document

end LabelAtlas
