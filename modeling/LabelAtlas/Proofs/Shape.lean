import LabelAtlas.Proofs.Building

/-! The shape of a tree: which segments stand below which, and in what order. Only insertion makes
a shape; what is noted in the entries later leaves it as it is. -/
namespace LabelAtlas

namespace Forest

/-- The segments side by side with their trees, in order. -/
def children : Forest → List (Text × Tree)
  | nil => []
  | cons s e below next => (s, ⟨e, below⟩) :: next.children

/-- At no place do two entries side by side have the same segment. -/
def Proper : Forest → Prop
  | nil => True
  | cons s _ below next => s ∉ next.keys ∧ below.Proper ∧ next.Proper

/-- A forest without what is noted in its entries. -/
def shape (f : Forest) : Forest :=
  f.mapEntries fun _ => {}

theorem keys_eq_children (f : Forest) : f.keys = f.children.map (·.1) := by
  induction f with
  | nil => rfl
  | cons s e below next _ ih => simp [keys, children, ih]

theorem mem_keys_of_find? {f : Forest} {s : Text} {t : Tree} (found : f.find? s = some t) :
    s ∈ f.keys := by
  induction f with
  | nil => cases found
  | cons r e below next _ ih =>
    by_cases here : r = s
    · simp [keys, here]
    · rw [find?, if_neg here] at found
      exact List.mem_cons_of_mem _ (ih found)

theorem find?_of_mem_children {f : Forest} (proper : f.Proper) {s : Text} {t : Tree}
    (member : (s, t) ∈ f.children) : f.find? s = some t := by
  induction f with
  | nil => cases member
  | cons r e below next _ ih =>
    obtain ⟨fresh, _, others⟩ := proper
    rcases List.mem_cons.mp member with first | later
    · cases first
      simp [find?]
    · have apart : r ≠ s := by
        rintro rfl
        apply fresh
        rw [keys_eq_children]
        exact List.mem_map_of_mem later
      rw [find?, if_neg apart, ih others later]

theorem Proper.of_find? {f : Forest} (proper : f.Proper) {s : Text} {t : Tree}
    (found : f.find? s = some t) : t.below.Proper := by
  induction f with
  | nil => cases found
  | cons r e below next _ ih =>
    obtain ⟨_, inner, others⟩ := proper
    rw [find?] at found
    split at found
    · cases found
      exact inner
    · exact ih others found

/-! ## Insertion -/

/-- A segment that is there keeps its place, and one that is missing goes behind the others. -/
theorem keys_insert (g : Entry → Entry) (f : Forest) (s : Text) (path : List Text) :
    (f.insert g (s :: path)).keys = if s ∈ f.keys then f.keys else f.keys ++ [s] := by
  induction f with
  | nil =>
    show (chain g (s :: path)).keys = _
    rw [chain_cons]
    rfl
  | cons r e below next _ ih =>
    by_cases here : r = s
    · simp [insert, keys, here]
    · by_cases member : s ∈ next.keys <;> simp [insert, keys, here, Ne.symm here, ih, member]

theorem proper_chain (g : Entry → Entry) (path : List Text) : (chain g path).Proper := by
  induction path with
  | nil => trivial
  | cons s path ih =>
    have inner : (insert g nil path).Proper := by
      cases path with
      | nil => trivial
      | cons r path => exact ih
    rw [chain_cons]
    exact ⟨by simp [keys], inner, trivial⟩

theorem Proper.insert {f : Forest} (proper : f.Proper) (g : Entry → Entry) (path : List Text) :
    (f.insert g path).Proper := by
  induction f generalizing path with
  | nil =>
    cases path with
    | nil => trivial
    | cons s path => exact proper_chain g (s :: path)
  | cons r e below next below_ih next_ih =>
    obtain ⟨fresh, inner, others⟩ := proper
    cases path with
    | nil => exact ⟨fresh, inner, others⟩
    | cons s path =>
      by_cases here : r = s
      · rw [Forest.insert, if_pos here]
        exact ⟨fresh, below_ih inner path, others⟩
      · have still_fresh : r ∉ (next.insert g (s :: path)).keys := by
          rw [keys_insert]
          split
          · exact fresh
          · simp [fresh, here]
        rw [Forest.insert, if_neg here]
        exact ⟨still_fresh, inner, next_ih others (s :: path)⟩

/-! ## Notes in the entries -/

theorem keys_mapEntries (g : Entry → Entry) (f : Forest) : (f.mapEntries g).keys = f.keys := by
  induction f with
  | nil => rfl
  | cons s e below next _ ih => simp [mapEntries, keys, ih]

theorem proper_mapEntries (g : Entry → Entry) (f : Forest) :
    (f.mapEntries g).Proper ↔ f.Proper := by
  induction f with
  | nil => exact Iff.rfl
  | cons s e below next below_ih next_ih =>
    simp [mapEntries, Proper, keys_mapEntries, below_ih, next_ih]

theorem depth_mapEntries (g : Entry → Entry) (f : Forest) :
    (f.mapEntries g).depth = f.depth := by
  induction f with
  | nil => rfl
  | cons s e below next below_ih next_ih => simp [mapEntries, depth, below_ih, next_ih]

theorem shape_mapEntries (g : Entry → Entry) (f : Forest) : (f.mapEntries g).shape = f.shape := by
  simp only [shape]
  induction f with
  | nil => rfl
  | cons s e below next below_ih next_ih => simp [mapEntries, below_ih, next_ih]

theorem shape_modify (g : Entry → Entry) (f : Forest) (path : List Text) :
    (f.modify (fun u => { u with entry := g u.entry }) path).shape = f.shape := by
  simp only [shape]
  induction f generalizing path with
  | nil => cases path <;> rfl
  | cons r e below next below_ih next_ih =>
    cases path with
    | nil => rfl
    | cons s path =>
      by_cases here : r = s
      · cases path with
        | nil => simp [modify, here, mapEntries]
        | cons next path => simp [modify, here, mapEntries, below_ih]
      · simp [modify, here, mapEntries, next_ih]

theorem Proper.of_shape {f g : Forest} (same : f.shape = g.shape) (proper : g.Proper) :
    f.Proper := by
  have shaped : g.shape.Proper := (proper_mapEntries _ g).mpr proper
  rw [← same] at shaped
  exact (proper_mapEntries _ f).mp shaped

theorem depth_of_shape {f g : Forest} (same : f.shape = g.shape) : f.depth = g.depth := by
  rw [← depth_mapEntries (fun _ => {}) f, ← depth_mapEntries (fun _ => {}) g]
  exact congrArg depth same

end Forest

namespace Tree

/-- The tree at the end of a path; no path leads to the tree itself. -/
def follow? (t : Tree) : List Text → Option Tree
  | [] => some t
  | s :: path => (t.below.find? s).bind fun u => u.follow? path

theorem get?_eq_follow? (t : Tree) (path : List Text) (nonempty : path ≠ []) :
    t.below.get? path = t.follow? path := by
  induction path generalizing t with
  | nil => exact absurd rfl nonempty
  | cons s path ih =>
    rw [Forest.get?_cons, follow?]
    congr 1
    funext u
    by_cases last : path = []
    · simp [last, follow?]
    · rw [if_neg last, ih u last]

theorem follow?_append (t : Tree) (path more : List Text) :
    t.follow? (path ++ more) = (t.follow? path).bind fun u => u.follow? more := by
  induction path generalizing t with
  | nil => rfl
  | cons s path ih =>
    simp only [List.cons_append, follow?]
    cases t.below.find? s with
    | none => rfl
    | some u => exact ih u

theorem follow?_mapEntries (g : Entry → Entry) (t : Tree) (path : List Text) :
    (t.mapEntries g).follow? path = (t.follow? path).map (Tree.mapEntries g) := by
  induction path generalizing t with
  | nil => rfl
  | cons s path ih =>
    have first : (t.mapEntries g).below.find? s = (t.below.find? s).map (Tree.mapEntries g) :=
      Forest.find?_mapEntries g t.below s
    rw [follow?, follow?, first]
    cases t.below.find? s with
    | none => rfl
    | some u => exact ih u

theorem proper_of_follow? {t u : Tree} {path : List Text} (proper : t.below.Proper)
    (found : t.follow? path = some u) : u.below.Proper := by
  induction path generalizing t with
  | nil => cases found; exact proper
  | cons s path ih =>
    obtain ⟨v, first, rest⟩ := Option.bind_eq_some_iff.mp found
    exact ih (proper.of_find? first) rest

def shape (t : Tree) : Tree :=
  t.mapEntries fun _ => {}

theorem shape_below {t u : Tree} (same : t.shape = u.shape) : t.below.shape = u.below.shape :=
  congrArg Tree.below same

/-- Trees of one shape have the same segments everywhere. -/
theorem keys_of_shape {t u : Tree} (same : t.shape = u.shape) (path : List Text) :
    (t.follow? path).map (·.below.keys) = (u.follow? path).map (·.below.keys) := by
  have through (v : Tree) : (v.follow? path).map (·.below.keys) =
      (v.shape.follow? path).map (·.below.keys) := by
    rw [shape, follow?_mapEntries, Option.map_map]
    congr 1
    funext w
    exact (Forest.keys_mapEntries _ w.below).symm
  rw [through t, through u, same]

end Tree

namespace Document

theorem plant_proper (labels : List (Text × Option Int)) : (plant labels).below.Proper := by
  induction labels using List.reverseRecOn with
  | nil => trivial
  | append_singleton labels p ih =>
    rw [plant_append]
    exact ih.insert _ _

theorem proper_of_shape {labels : List (Text × Option Int)} {t : Tree}
    (shaped : t.shape = (plant labels).shape) : t.below.Proper :=
  .of_shape (Tree.shape_below shaped) (plant_proper labels)

theorem treeOf_shape (labels : List (Text × Option Int)) (lines : List Text)
    (view : Text → Text) (tolerance : Int) :
    (treeOf labels lines view tolerance).shape = (plant labels).shape := by
  simp only [Tree.shape, treeOf, Tree.mapEntries]
  congr 1
  exact Forest.shape_mapEntries _ _

theorem completed_shape (lines : List Text) (options : Options) (exported : List Export)
    (t : Tree) : (exported.foldl (complete lines options) t).shape = t.shape := by
  induction exported generalizing t with
  | nil => rfl
  | cons x exported ih =>
    rw [List.foldl_cons, ih]
    simp only [Tree.shape, Tree.mapEntries, complete, Tree.modify]
    congr 1
    exact Forest.shape_modify (fun e => filled lines options e x) t.below (segments x.name)

/-- A document of a listing has the shape that its exported names make. -/
theorem ofListing_shape (listing : Listing) (exported : List Export) (options : Options) :
    (ofListing listing exported options).root.shape =
      (plant (placed (Definition.definitions listing.sourceLines) exported)).shape :=
  (completed_shape _ options exported _).trans (treeOf_shape _ _ _ _)

end Document

end LabelAtlas
