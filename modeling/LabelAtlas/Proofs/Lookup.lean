import Mathlib.Data.List.Infix
import LabelAtlas.Document.Build

/-! What lookup finds in a tree after entries have been inserted, changed or described. Every law is
stated for the entry at the end of a path, so that one line says what an operation does to it. -/
namespace LabelAtlas

theorem intercalate_eq_flatMap {α : Type} (separator first : List α) (rest : List (List α)) :
    separator.intercalate (first :: rest) = first ++ rest.flatMap (separator ++ ·) := by
  induction rest generalizing first with
  | nil => simp
  | cons second rest ih =>
    rw [List.intercalate_cons_cons, ih, List.flatMap_cons]
    simp

namespace Text

theorem splitAt_ne_nil (mark : CodePoint) (t : Text) : splitAt mark t ≠ [] := by
  cases t with
  | nil => simp [splitAt]
  | cons c t => unfold splitAt; split <;> [simp; split <;> simp]

theorem join_cons (separator part : Text) (parts : List Text) (more : parts ≠ []) :
    join separator (part :: parts) = part ++ separator ++ join separator parts := by
  cases parts with
  | nil => exact absurd rfl more
  | cons next parts => simp [join, List.intercalate_cons_cons]

theorem mem_join {separator : Text} {parts : List Text} {c : CodePoint}
    (member : c ∈ join separator parts) : c ∈ separator ∨ ∃ part ∈ parts, c ∈ part := by
  cases parts with
  | nil => simp [join] at member
  | cons first rest =>
    rw [join, intercalate_eq_flatMap, List.mem_append, List.mem_flatMap] at member
    rcases member with here | ⟨part, inside, later⟩
    · exact .inr ⟨first, List.mem_cons_self, here⟩
    · rcases List.mem_append.mp later with between | there
      · exact .inl between
      · exact .inr ⟨part, List.mem_cons_of_mem first inside, there⟩

/-- Splitting loses nothing: the parts joined by the mark give the text back. -/
theorem join_splitAt (mark : CodePoint) (t : Text) : join [mark] (splitAt mark t) = t := by
  induction t with
  | nil => rfl
  | cons c t ih =>
    have some_part := splitAt_ne_nil mark t
    unfold splitAt
    split
    · rename_i same
      rw [join_cons _ _ _ some_part, ih, same]
      rfl
    · cases parts : splitAt mark t with
      | nil => exact absurd parts some_part
      | cons part rest =>
        rw [parts] at ih
        cases rest with
        | nil => simpa [join] using ih
        | cons next rest =>
          rw [join_cons _ _ _ (by simp)] at ih
          rw [join_cons _ _ _ (by simp), ← ih]
          rfl

/-- A text is split into what stands before its first mark and the parts of what stands behind. -/
theorem splitAt_eq_cutAt? (mark : CodePoint) (t : Text) :
    splitAt mark t =
      match cutAt? mark t with
      | none => [t]
      | some (first, rest) => first :: splitAt mark rest := by
  induction t with
  | nil => rfl
  | cons c t ih =>
    rw [splitAt, cutAt?]
    split
    · rfl
    · rw [ih]
      cases cutAt? mark t <;> rfl

end Text

theorem segments_ne_nil (label : Text) : segments label ≠ [] :=
  Text.splitAt_ne_nil _ label

theorem segments_injective : Function.Injective segments := by
  intro a b same
  have joined := congrArg (Text.join [.scalar '.']) same
  rwa [segments, segments, Text.join_splitAt, Text.join_splitAt] at joined

namespace Forest

/-- The entry at the end of a path. -/
def entryAt? (f : Forest) (path : List Text) : Option Entry :=
  (f.get? path).map (·.entry)

/-- What stands under a segment as an insertion finds it: a segment that is missing is made. -/
def child (f : Forest) (s : Text) : Tree :=
  (f.find? s).getD {}

theorem get?_cons (f : Forest) (s : Text) (path : List Text) :
    f.get? (s :: path) =
      (f.find? s).bind fun t => if path = [] then some t else t.below.get? path := by
  cases path with
  | nil => cases found : f.find? s <;> simp [get?, found]
  | cons next path => cases found : f.find? s <;> simp [get?, found]

theorem entryAt?_cons (f : Forest) (s : Text) (path : List Text) :
    f.entryAt? (s :: path) =
      (f.find? s).bind fun t => if path = [] then some t.entry else t.below.entryAt? path := by
  rw [entryAt?, get?_cons]
  cases f.find? s with
  | none => rfl
  | some t => by_cases last : path = [] <;> simp [last, entryAt?]

@[simp] theorem entryAt?_nil (path : List Text) : nil.entryAt? path = none := by
  cases path with
  | nil => rfl
  | cons s path => simp [entryAt?_cons, find?]

theorem insert_empty_path (g : Entry → Entry) (f : Forest) : f.insert g [] = f := by
  cases f <;> rfl

/-- A path by itself is what insertion into nothing gives. -/
theorem chain_cons (g : Entry → Entry) (s : Text) (path : List Text) :
    chain g (s :: path) = cons s (if path.isEmpty then g {} else {}) (insert g nil path) nil := by
  cases path <;> rfl

/-- Insertion changes what stands under the first segment of its path and nothing beside it. -/
theorem find?_insert (g : Entry → Entry) (f : Forest) (s t : Text) (path : List Text) :
    (f.insert g (s :: path)).find? t =
      if s = t then
        some ⟨if path.isEmpty then g (f.child s).entry else (f.child s).entry,
          (f.child s).below.insert g path⟩
      else f.find? t := by
  induction f with
  | nil =>
    show (chain g (s :: path)).find? t = _
    rw [chain_cons]
    simp [find?, child]
  | cons u e below next _ ih =>
    by_cases here : u = s
    · subst here
      by_cases same : u = t <;> simp [insert, find?, child, same]
    · by_cases same : s = t
      · subst same
        simpa [insert, find?, child, here] using ih
      · have beside : (next.insert g (s :: path)).find? t = next.find? t := by
          simpa only [same, ↓reduceIte] using ih
        simp [insert, find?, here, same, beside]

theorem entryAt?_child (f : Forest) (s : Text) (path : List Text) (more : path ≠ []) :
    (f.child s).below.entryAt? path = f.entryAt? (s :: path) := by
  rw [entryAt?_cons]
  cases found : f.find? s <;> simp [child, found, more]

/-- Insertion makes every entry on its path, applies its change to the one at the end, and leaves
every other entry as it is. -/
theorem entryAt?_insert (g : Entry → Entry) (p q : List Text) (nonempty : q ≠ []) (f : Forest) :
    (f.insert g p).entryAt? q =
      if q <+: p then
        some (if q = p then g ((f.entryAt? q).getD {}) else (f.entryAt? q).getD {})
      else f.entryAt? q := by
  induction p generalizing f q with
  | nil => simp [insert_empty_path, nonempty]
  | cons s p ih =>
    obtain ⟨t, q, rfl⟩ := List.exists_cons_of_ne_nil nonempty
    rw [entryAt?_cons, find?_insert]
    by_cases same : s = t
    · subst same
      by_cases last : q = []
      · subst last
        have own : (f.child s).entry = (f.entryAt? [s]).getD {} := by
          cases found : f.find? s <;> simp [child, entryAt?_cons, found]
        cases p <;> simp [own]
      · simp [last, ih q last, entryAt?_child f s q last, List.cons_prefix_cons]
    · simp [same, Ne.symm same, List.cons_prefix_cons, entryAt?_cons]

theorem find?_modify (g : Tree → Tree) (f : Forest) (s t : Text) (path : List Text) :
    (f.modify g (s :: path)).find? t =
      if s = t then
        (f.find? s).map fun u =>
          if path.isEmpty then g u else { u with below := u.below.modify g path }
      else f.find? t := by
  induction f with
  | nil => simp [modify, find?]
  | cons u e below next _ ih =>
    by_cases here : u = s
    · subst here
      cases path <;> by_cases same : u = t <;> simp [modify, find?, same]
    · by_cases same : s = t
      · subst same
        simpa [modify, find?, here] using ih
      · have beside : (next.modify g (s :: path)).find? t = next.find? t := by
          simpa only [same, ↓reduceIte] using ih
        simp [modify, find?, here, same, beside]

/-- A change of one entry is seen at the end of its path only, and only if the path is there. -/
theorem entryAt?_modify (g : Entry → Entry) (p q : List Text) (f : Forest) :
    (f.modify (fun u => { u with entry := g u.entry }) p).entryAt? q =
      if q = p then (f.entryAt? q).map g else f.entryAt? q := by
  induction p generalizing f q with
  | nil =>
    have unchanged : f.modify (fun u => { u with entry := g u.entry }) [] = f := by cases f <;> rfl
    by_cases same : q = []
    · subst same
      simp [entryAt?, get?]
    · simp [unchanged, same]
  | cons s p ih =>
    cases q with
    | nil => simp [entryAt?, get?]
    | cons t q =>
      rw [entryAt?_cons, entryAt?_cons, find?_modify]
      by_cases same : s = t
      · subst same
        cases f.find? s with
        | none => simp
        | some u =>
          by_cases last : q = []
          · subst last
            cases p <;> simp
          · cases p with
            | nil => simp [last]
            | cons r p => simp [last, ih]
      · simp [same, Ne.symm same]

theorem find?_mapEntries (g : Entry → Entry) (f : Forest) (s : Text) :
    (f.mapEntries g).find? s = (f.find? s).map (Tree.mapEntries g) := by
  induction f with
  | nil => rfl
  | cons t e below next _ ih =>
    by_cases here : t = s <;> simp [mapEntries, find?, here, ih, Tree.mapEntries]

theorem entryAt?_mapEntries (g : Entry → Entry) (path : List Text) (f : Forest) :
    (f.mapEntries g).entryAt? path = (f.entryAt? path).map g := by
  induction path generalizing f with
  | nil => rfl
  | cons s path ih =>
    rw [entryAt?_cons, entryAt?_cons, find?_mapEntries]
    cases f.find? s with
    | none => rfl
    | some t => by_cases last : path = [] <;> simp [last, Tree.mapEntries, ih]

end Forest

/-- Looking a label up dot by dot follows the path of its segments, into which an insertion splits
it at once. -/
theorem Tree.get?_eq_segments (t : Tree) (label : Text) :
    t.get? label = t.below.get? (segments label) := by
  fun_induction Tree.get? t label with
  | case1 t label cut =>
    rw [segments, Text.splitAt_eq_cutAt?, cut]
    rfl
  | case2 t label first rest cut ih =>
    have split : segments label = first :: segments rest := by
      rw [segments, Text.splitAt_eq_cutAt?, cut, segments]
    rw [split, Forest.get?_cons]
    cases t.below.find? first with
    | none => rfl
    | some u => simp [ih u, segments_ne_nil]

end LabelAtlas
