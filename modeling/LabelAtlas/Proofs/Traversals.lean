import LabelAtlas.Proofs.Restoring

/-! Walking, calling handlers, outlining and counting go through a tree each on its own. They agree
on every tree, also where segments are empty or have dots in them and labels do not tell paths. -/
namespace LabelAtlas

/-! ## Outlines -/

/-- What is told of an entry, apart from what lies below it. -/
structure Facts where
  label : Text
  lineNumber : Int
  description : Option Text
  kind : Option Kind
  value : Option Int
  deriving DecidableEq, Repr

namespace Facts

open Json

def ofEntered (p : Text × Tree) : Facts where
  label := p.1
  lineNumber := p.2.entry.lineNumber
  description := p.2.entry.description
  kind := p.2.entry.kind
  value := p.2.entry.value

/-- The facts in the members of an object. -/
def ofObject? (members : Object) : Option Facts := do
  let label ← (← (get? "label" members).bind text?)
  let lineNumber ← (← (get? "line_number" members).bind int?)
  let description ← (get? "description" members).bind text?
  let kind ← (get? "kind" members).bind kind?
  let value ← (get? "value" members).bind int?
  return { label, lineNumber, description, kind, value }

theorem ofObject?_entryMembers {label : Text} {t : Tree} {children : List Json} {members : Object}
    (same : entryMembers (.str label) t.entry children = .obj members) :
    ofObject? members = some (ofEntered (label, t)) := by
  rw [entryMembers] at same
  cases same
  simp [ofObject?, ofEntered, get?]

end Facts

/-- The objects of an outline, each before those inside it, tell what a walk enters. -/
theorem Forest.facts_outline (label : Text) (f : Forest) :
    (Json.objectsInItems (f.outline label)).mapM Facts.ofObject? =
      some ((f.entered label).map Facts.ofEntered) := by
  induction f generalizing label with
  | nil => rfl
  | cons s e below next below_ih next_ih =>
    obtain ⟨members, same, listed⟩ := Json.objects_entryMembers (extend label s) e
      (below.outline (extend label s))
    have told : Facts.ofObject? members = some (Facts.ofEntered (extend label s, ⟨e, below⟩)) :=
      Facts.ofObject?_entryMembers same
    rw [outline, Json.objectsInItems, listed, List.cons_append, List.mapM_cons, List.mapM_append,
      told, below_ih, next_ih, entered_cons]
    simp

/-! ## Handlers -/

/-- The call of a handler for a visit. -/
def Visit.call {σ : Type} (enter leave : Text → Tree → σ → σ) (s : σ) : Visit → σ
  | .enter label tree => enter label tree s
  | .leave label tree => leave label tree s

theorem Forest.iterate_eq_foldl {σ : Type} (enter leave : Text → Tree → σ → σ) (label : Text)
    (f : Forest) (s : σ) :
    f.iterate enter leave label s = (f.walk label).foldl (Visit.call enter leave) s := by
  induction f generalizing label s with
  | nil => rfl
  | cons r e below next below_ih next_ih =>
    rw [iterate, below_ih, next_ih, walk, List.foldl_cons, List.foldl_append, List.foldl_cons]
    rfl

/-! ## Counts -/

namespace Visit

/-- The label and the tree of a visit that leaves. -/
def left? : Visit → Option (Text × Tree)
  | enter .. => none
  | leave label tree => some (label, tree)

/-- A visit opens one entry or closes one. -/
theorem step_balance {v : Visit} {opened after : List (Text × Tree)}
    (stepped : v.step opened = some after) :
    opened.length + ([v].filterMap entered?).length =
      after.length + ([v].filterMap left?).length := by
  cases v with
  | enter label tree =>
    cases stepped
    rfl
  | leave label tree =>
    cases opened with
    | nil => cases stepped
    | cons last others =>
      rw [step] at stepped
      split at stepped
      · cases stepped
        rfl
      · cases stepped

/-- Entries are opened as often as they are closed, apart from those that are open before or
after. -/
theorem run_balance {visits : List Visit} {opened after : List (Text × Tree)}
    (run : visits.foldlM step opened = some after) :
    opened.length + (visits.filterMap entered?).length =
      after.length + (visits.filterMap left?).length := by
  induction visits generalizing opened with
  | nil =>
    cases run
    rfl
  | cons v visits ih =>
    rw [List.foldlM_cons] at run
    obtain ⟨between, first, others⟩ := Option.bind_eq_some_iff.mp run
    have here := step_balance first
    have later := ih others
    rw [← List.singleton_append, List.filterMap_append, List.filterMap_append, List.length_append,
      List.length_append]
    omega

/-- The largest number of entries that are open at once, if some are open before. -/
def mostOpen (opened : Nat) : List Visit → Nat
  | [] => opened
  | .enter .. :: visits => max opened (mostOpen (opened + 1) visits)
  | .leave .. :: visits => max opened (mostOpen (opened - 1) visits)

theorem le_mostOpen (opened : Nat) (visits : List Visit) : opened ≤ mostOpen opened visits := by
  cases visits with
  | nil => exact Nat.le_refl _
  | cons v visits => cases v <;> exact Nat.le_max_left _ _

end Visit

theorem Forest.length_left (f : Forest) (label : Text) :
    ((f.walk label).filterMap Visit.left?).length = f.size := by
  have balance := Visit.run_balance (f.walk_closes label [])
  have entered := f.length_entered label
  rw [Forest.entered] at entered
  simpa [entered] using balance.symm

/-- While a walk goes on, as many entries are open as it is deep in the tree. -/
theorem Forest.mostOpen_walk (f : Forest) (label : Text) (opened : Nat) (rest : List Visit) :
    Visit.mostOpen opened (f.walk label ++ rest) =
      max (opened + f.depth) (Visit.mostOpen opened rest) := by
  induction f generalizing label opened rest with
  | nil => exact (Nat.max_eq_right (Visit.le_mostOpen opened rest)).symm
  | cons s e below next below_ih next_ih =>
    -- Leaving an entry brings the count back, so the entries behind it start from the same number.
    simp only [walk, List.cons_append, List.append_assoc, Visit.mostOpen, below_ih, next_ih, depth,
      Nat.add_sub_cancel]
    omega

/-! ## Agreement -/

/-- On every tree and below every label the ways through the tree agree. The objects in an outline,
each before those inside it, tell exactly what a walk enters, in its order. Handlers are called
exactly as a walk enters and leaves, whatever they do. The size of a tree is the number of visits
that enter, and of those that leave. Walks and outlines go through unless too many entries are open
at once. -/
theorem Tree.traversals_agree (t : Tree) (label : Text) :
    (∃ children, (t.outline (.str label)).member? "children" = some children ∧
      children.objects.mapM Facts.ofObject? = some ((t.entered label).map Facts.ofEntered)) ∧
    (∀ {σ : Type} (enter leave : Text → Tree → σ → σ) (s : σ),
      t.iterate label enter (some leave) s = (t.walk label).foldl (Visit.call enter leave) s) ∧
    t.below.size = ((t.walk label).filterMap Visit.entered?).length ∧
    t.below.size = ((t.walk label).filterMap Visit.left?).length ∧
    (t.checkWalk = .ok () ↔ Visit.mostOpen 0 (t.walk label) ≤ maxWalkDepth) ∧
    (t.checkOutline = .ok () ↔ Visit.mostOpen 0 (t.walk label) ≤ maxOutlineDepth) := by
  have deep : Visit.mostOpen 0 (t.walk label) = t.below.depth := by
    have opened := t.below.mostOpen_walk label 0 []
    simpa [Visit.mostOpen, walk] using opened
  refine ⟨⟨.arr (t.below.outline label), ?_, ?_⟩, ?_, (t.below.length_entered label).symm,
    (t.below.length_left label).symm, ?_, ?_⟩
  · rw [outline_text]
    rfl
  · rw [Json.objects]
    exact t.below.facts_outline label
  · intro σ enter leave s
    exact t.below.iterate_eq_foldl enter leave label s
  · simp [checkWalk, deep]
  · simp [checkOutline, deep]

/-- Below an empty segment at the top, segments stand alone; below a label they do not. -/
example :
    let f : Forest :=
      .cons "a.b" {} (.cons "" {} .nil .nil) (.cons "" {} (.cons "c" {} .nil .nil) .nil)
    (f.entered "").map (·.1) = ["a.b", "a.b.", "", "c"] ∧
    (f.entered "p").map (·.1) = ["p.a.b", "p.a.b.", "p.", "p..c"] := by
  decide

end LabelAtlas
