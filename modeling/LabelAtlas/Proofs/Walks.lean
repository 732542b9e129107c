import Mathlib.Data.List.Nodup
import LabelAtlas.Proofs.Shape

/-! What a walk tells. Every visit belongs to the path of an entry, and paths say which visits lie
between which; the labels of a walk say the same as long as they tell the paths apart. -/
namespace LabelAtlas

namespace Text

theorem splitAt_append_mark (mark : CodePoint) (part t : Text) (unmarked : mark ∉ part) :
    splitAt mark (part ++ mark :: t) = part :: splitAt mark t := by
  induction part with
  | nil => simp [splitAt]
  | cons c part ih =>
    obtain ⟨here, later⟩ := not_or.mp (List.mem_cons.not.mp unmarked)
    simp [splitAt, Ne.symm here, ih later]

theorem splitAt_unmarked (mark : CodePoint) (part : Text) (unmarked : mark ∉ part) :
    splitAt mark part = [part] := by
  induction part with
  | nil => rfl
  | cons c part ih =>
    obtain ⟨here, later⟩ := not_or.mp (List.mem_cons.not.mp unmarked)
    simp [splitAt, Ne.symm here, ih later]

theorem unmarked_of_mem_splitAt (mark : CodePoint) (t part : Text)
    (member : part ∈ splitAt mark t) : mark ∉ part := by
  induction t generalizing part with
  | nil => simp_all [splitAt]
  | cons c t ih =>
    rw [splitAt] at member
    split at member
    · rcases List.mem_cons.mp member with first | later
      · simp [first]
      · exact ih part later
    · rename_i other
      obtain ⟨first, rest, parts⟩ := List.exists_cons_of_ne_nil (splitAt_ne_nil mark t)
      simp only [parts] at member ih
      rcases List.mem_cons.mp member with here | later
      · subst here
        simp [Ne.symm other, ih first]
      · exact ih part (List.mem_cons_of_mem _ later)

/-- Parts without the mark are found again between the marks. -/
theorem splitAt_join (mark : CodePoint) (parts : List Text) (nonempty : parts ≠ [])
    (unmarked : ∀ part ∈ parts, mark ∉ part) : splitAt mark (join [mark] parts) = parts := by
  induction parts with
  | nil => exact absurd rfl nonempty
  | cons part parts ih =>
    have here := unmarked part (by simp)
    by_cases last : parts = []
    · subst last
      simpa [join] using splitAt_unmarked mark part here
    · rw [join_cons _ _ _ last, List.append_assoc, List.singleton_append,
        splitAt_append_mark mark part _ here, ih last fun q later => unmarked q (by simp [later])]

theorem join_concat (separator : Text) (parts : List Text) (part : Text) (more : parts ≠ []) :
    join separator (parts ++ [part]) = join separator parts ++ separator ++ part := by
  induction parts with
  | nil => exact absurd rfl more
  | cons first parts ih =>
    by_cases last : parts = []
    · subst last
      simp [join, List.intercalate_cons_cons]
    · rw [List.cons_append, join_cons _ _ _ (by simp), ih last, join_cons _ _ _ last]
      simp

end Text

/-! ## The labels of paths -/

/-- The label that a walk from the root shows for a path. -/
def labelOf (path : List Text) : Text :=
  path.foldl extend []

theorem extend_labelOf (path : List Text) (s : Text) :
    extend (labelOf path) s = labelOf (path ++ [s]) := by
  simp [labelOf]

/-- Empty segments at the start of a path leave no trace in its label. -/
theorem labelOf_empty_segments (n : Nat) (path : List Text) :
    labelOf (List.replicate n [] ++ path) = labelOf path := by
  induction n with
  | zero => rfl
  | succ n ih =>
    rw [List.replicate_succ, List.cons_append]
    exact ih

/-- A path that goes on below an empty first segment, as that of a label with a dot in front. -/
def Dotted (path : List Text) : Prop :=
  ∃ s rest, path = [] :: s :: rest

theorem dotted_segments (q : Text) : Dotted (segments q) ↔ q.head? = some (.scalar '.') := by
  cases q with
  | nil => simp [Dotted, segments, Text.splitAt]
  | cons c t =>
    obtain ⟨first, rest, parts⟩ := List.exists_cons_of_ne_nil (Text.splitAt_ne_nil (.scalar '.') t)
    by_cases dot : c = .scalar '.' <;> simp [Dotted, segments, Text.splitAt, dot, parts]

theorem Dotted.longer {path longer : List Text} (dotted : Dotted path)
    (start : path <+: longer) : Dotted longer := by
  obtain ⟨s, rest, rfl⟩ := dotted
  obtain ⟨more, rfl⟩ := start
  exact ⟨s, rest ++ more, rfl⟩

theorem labelOf_eq_join (path : List Text) (undotted : ¬Dotted path) :
    labelOf path = Text.join [.scalar '.'] path := by
  induction path using List.reverseRecOn with
  | nil => rfl
  | append_singleton path s ih =>
    have shorter : ¬Dotted path := fun dotted => undotted (dotted.longer (List.prefix_append _ _))
    rw [← extend_labelOf, ih shorter]
    cases path with
    | nil => simp [extend, Text.join]
    | cons first rest =>
      have label : (Text.join [.scalar '.'] (first :: rest)).isEmpty = false := by
        cases first with
        | nil =>
          obtain ⟨next, more, behind⟩ := List.exists_cons_of_ne_nil (List.concat_ne_nil s rest)
          refine absurd ⟨next, more, ?_⟩ undotted
          rw [List.cons_append, behind]
        | cons c first => cases rest <;> rfl
      rw [extend, if_neg (by simp [label]), Text.join_concat _ _ _ (by simp)]
      simp

/-- No segment holds a dot. -/
def Segmented (path : List Text) : Prop :=
  ∀ s ∈ path, CodePoint.scalar '.' ∉ s

theorem segmented_segments (q : Text) : Segmented (segments q) :=
  fun s member => Text.unmarked_of_mem_splitAt _ q s member

theorem Segmented.of_start {path longer : List Text} (segmented : Segmented longer)
    (start : path <+: longer) : Segmented path :=
  fun s member => segmented s (start.subset member)

/-- A path that does not go on below an empty first segment can be read off its label. -/
theorem segments_labelOf (path : List Text) (nonempty : path ≠ []) (segmented : Segmented path)
    (undotted : ¬Dotted path) : segments (labelOf path) = path := by
  rw [labelOf_eq_join path undotted]
  exact Text.splitAt_join _ path nonempty segmented

theorem labelOf_segments (q : Text) (undotted : q.head? ≠ some (.scalar '.')) :
    labelOf (segments q) = q := by
  rw [labelOf_eq_join _ (mt (dotted_segments q).mp undotted)]
  exact Text.join_splitAt _ q

theorem exists_undotted_end (path : List Text) (nonempty : path ≠ []) :
    ∃ n core, path = List.replicate n [] ++ core ∧ core ≠ [] ∧ ¬Dotted core := by
  induction path with
  | nil => exact absurd rfl nonempty
  | cons s path ih =>
    by_cases dotted : Dotted (s :: path)
    · obtain ⟨t, rest, same⟩ := dotted
      obtain ⟨rfl, rfl⟩ := List.cons.inj same
      obtain ⟨n, core, cut, more, undotted⟩ := ih (by simp)
      exact ⟨n + 1, core, by rw [cut]; rfl, more, undotted⟩
    · exact ⟨0, s :: path, rfl, nonempty, dotted⟩

/-- A label of a walk never starts with a dot, and the paths that it may stand for differ only in
the empty segments at their start. -/
theorem labelOf_eq_iff (path : List Text) (nonempty : path ≠ []) (segmented : Segmented path)
    (q : Text) :
    labelOf path = q ↔
      q.head? ≠ some (.scalar '.') ∧ ∃ n, path = List.replicate n [] ++ segments q := by
  constructor
  · rintro rfl
    obtain ⟨n, core, rfl, more, undotted⟩ := exists_undotted_end path nonempty
    have read : segments (labelOf core) = core :=
      segments_labelOf core more (fun s member => segmented s (by simp [member])) undotted
    rw [labelOf_empty_segments, read, ne_eq, ← dotted_segments, read]
    exact ⟨undotted, n, rfl⟩
  · rintro ⟨undotted, n, rfl⟩
    rw [labelOf_empty_segments, labelOf_segments q undotted]

/-! ## Tours -/

/-- A visit with the path of its entry in place of a label. -/
structure Stop where
  entering : Bool
  path : List Text
  tree : Tree

/-- What a walk from the root shows of a stop. -/
def Stop.visit (s : Stop) : Visit :=
  if s.entering then .enter (labelOf s.path) s.tree else .leave (labelOf s.path) s.tree

namespace Forest

/-- The stops of a walk below a path. -/
def tour (above : List Text) : Forest → List Stop
  | nil => []
  | cons s e below next =>
    ⟨true, above ++ [s], ⟨e, below⟩⟩ ::
      (tour (above ++ [s]) below ++ ⟨false, above ++ [s], ⟨e, below⟩⟩ :: tour above next)

theorem walk_eq_tour (above : List Text) (f : Forest) :
    f.walk (labelOf above) = (f.tour above).map Stop.visit := by
  induction f generalizing above with
  | nil => rfl
  | cons s e below next below_ih next_ih =>
    simp only [walk, tour, extend_labelOf, below_ih, next_ih, List.map_cons, List.map_append]
    rfl

theorem get?_first (r : Text) (e : Entry) (below next : Forest) (s : Text) (path : List Text) :
    (cons r e below next).get? (s :: path) =
      if r = s then (if path = [] then some ⟨e, below⟩ else below.get? path)
      else next.get? (s :: path) := by
  rw [get?_cons, find?, get?_cons]
  by_cases here : r = s <;> simp [here]

theorem exists_cons_of_get? {f : Forest} {path : List Text} {u : Tree}
    (found : f.get? path = some u) : ∃ s rest, path = s :: rest ∧ s ∈ f.keys := by
  cases path with
  | nil => cases found
  | cons s rest =>
    rw [get?_cons] at found
    obtain ⟨t, first, _⟩ := Option.bind_eq_some_iff.mp found
    exact ⟨s, rest, rfl, mem_keys_of_find? first⟩

/-- A tour stops exactly at the entries that lookup finds. -/
theorem mem_tour {f : Forest} (proper : f.Proper) (above : List Text) (stop : Stop) :
    stop ∈ f.tour above ↔
      ∃ path, stop.path = above ++ path ∧ f.get? path = some stop.tree := by
  induction f generalizing above with
  | nil =>
    simp only [tour, List.not_mem_nil, false_iff]
    rintro ⟨path, _, found⟩
    obtain ⟨s, _, _, member⟩ := exists_cons_of_get? found
    cases member
  | cons s e below next below_ih next_ih =>
    obtain ⟨fresh, inner, others⟩ := proper
    simp only [tour, List.mem_cons, List.mem_append, below_ih inner, next_ih others]
    constructor
    · rintro (rfl | ⟨path, at_path, found⟩ | rfl | ⟨path, at_path, found⟩)
      · exact ⟨[s], rfl, by simp [get?_first]⟩
      · obtain ⟨r, rest, rfl, _⟩ := exists_cons_of_get? found
        exact ⟨s :: r :: rest, by simp [at_path], by simp [get?_first, found]⟩
      · exact ⟨[s], rfl, by simp [get?_first]⟩
      · obtain ⟨r, rest, rfl, member⟩ := exists_cons_of_get? found
        have apart : s ≠ r := fun same => fresh (same ▸ member)
        exact ⟨r :: rest, at_path, by rw [get?_first, if_neg apart, found]⟩
    · rintro ⟨path, at_path, found⟩
      obtain ⟨r, rest, rfl, _⟩ := exists_cons_of_get? found
      rw [get?_first] at found
      split at found
      · subst r
        split at found
        · rename_i last
          cases stop with
          | mk entering path tree =>
            cases found
            subst last at_path
            cases entering <;> simp
        · exact .inr (.inl ⟨rest, by simp [at_path], found⟩)
      · exact .inr (.inr (.inr ⟨r :: rest, at_path, found⟩))

/-- Every stop of a tour is at or below one of the segments that the tour starts with. -/
theorem tour_within {f : Forest} {above : List Text} {stop : Stop}
    (member : stop ∈ f.tour above) : ∃ s ∈ f.keys, above ++ [s] <+: stop.path := by
  induction f generalizing above with
  | nil => cases member
  | cons s e below next below_ih next_ih =>
    simp only [tour, List.mem_cons, List.mem_append] at member
    rcases member with rfl | inside | rfl | later
    · exact ⟨s, by simp [keys], List.prefix_refl _⟩
    · obtain ⟨r, _, start⟩ := below_ih inside
      exact ⟨s, by simp [keys], (List.prefix_append _ _).trans start⟩
    · exact ⟨s, by simp [keys], List.prefix_refl _⟩
    · obtain ⟨r, other, start⟩ := next_ih later
      exact ⟨r, List.mem_cons_of_mem _ other, start⟩

theorem tour_below {f : Forest} {above : List Text} {stop : Stop}
    (member : stop ∈ f.tour above) : above <+: stop.path := by
  obtain ⟨s, _, start⟩ := tour_within member
  exact (List.prefix_append _ _).trans start

theorem step_prefix_path (above : List Text) (s : Text) (rest : List Text) :
    above ++ [s] <+: above ++ s :: rest := by
  simp [List.prefix_append_right_inj, List.cons_prefix_cons]

theorem eq_of_prefix_step {above path : List Text} {r s : Text} (first : above ++ [r] <+: path)
    (second : above ++ [s] <+: path) : r = s := by
  have same := List.prefix_of_prefix_length_le first second (by simp)
  simpa [List.prefix_append_right_inj] using same

/-- What lies beside a segment is not below it. -/
theorem tour_beside {f : Forest} {above : List Text} {s : Text} (fresh : s ∉ f.keys)
    {stop : Stop} (member : stop ∈ f.tour above) (rest : List Text) :
    ¬above ++ s :: rest <+: stop.path := by
  intro below
  obtain ⟨r, other, start⟩ := tour_within member
  have step := (step_prefix_path above s rest).trans below
  exact fresh (eq_of_prefix_step start step ▸ other)

theorem tour_deeper {f : Forest} {above : List Text} {stop : Stop}
    (member : stop ∈ f.tour above) : stop.path ≠ above := by
  rintro rfl
  obtain ⟨s, _, start⟩ := tour_within member
  have shorter := start.length_le
  rw [List.length_append, List.length_singleton] at shorter
  omega

/-- No stop is made twice. -/
theorem tour_nodup {f : Forest} (proper : f.Proper) (above : List Text) :
    (f.tour above).Nodup := by
  induction f generalizing above with
  | nil => exact List.nodup_nil
  | cons s e below next below_ih next_ih =>
    obtain ⟨fresh, inner, others⟩ := proper
    have here (entering : Bool) :
        (⟨entering, above ++ [s], ⟨e, below⟩⟩ : Stop) ∉ below.tour (above ++ [s]) :=
      fun member => tour_deeper member rfl
    have beside (entering : Bool) :
        (⟨entering, above ++ [s], ⟨e, below⟩⟩ : Stop) ∉ next.tour above :=
      fun member => tour_beside fresh member [] (List.prefix_refl _)
    have apart : ∀ stop ∈ below.tour (above ++ [s]), stop ∉ next.tour above :=
      fun stop member later => tour_beside fresh later [] (tour_below member)
    rw [tour, List.nodup_cons, List.nodup_append, List.nodup_cons]
    refine ⟨?_, below_ih inner _, ⟨beside false, next_ih others above⟩, ?_⟩
    · simp [here, beside]
    · intro stop member other
      rintro later rfl
      rcases List.mem_cons.mp later with last | later
      · exact here false (last ▸ member)
      · exact apart stop member later

/-- The stops between entering an entry and leaving it are those of the tour below it, and no
other stop is below it. -/
theorem tour_around {f : Forest} (proper : f.Proper) (above path : List Text) (u : Tree)
    (found : f.get? path = some u) :
    ∃ before after, f.tour above = before ++ ⟨true, above ++ path, u⟩ ::
        (u.below.tour (above ++ path) ++ ⟨false, above ++ path, u⟩ :: after) ∧
      ∀ stop ∈ before ++ after, ¬above ++ path <+: stop.path := by
  induction f generalizing above path with
  | nil =>
    obtain ⟨_, _, _, member⟩ := exists_cons_of_get? found
    cases member
  | cons s e below next below_ih next_ih =>
    obtain ⟨fresh, inner, others⟩ := proper
    obtain ⟨r, rest, rfl, _⟩ := exists_cons_of_get? found
    rw [get?_first] at found
    by_cases here : s = r
    · subst here
      rw [if_pos rfl] at found
      by_cases last : rest = []
      · subst last
        cases found
        exact ⟨[], next.tour above, rfl, fun stop member => tour_beside fresh member []⟩
      · rw [if_neg last] at found
        obtain ⟨before, after, cut, outside⟩ := below_ih inner (above ++ [s]) rest found
        simp only [List.append_assoc, List.singleton_append] at cut outside
        refine ⟨⟨true, above ++ [s], ⟨e, below⟩⟩ :: before,
          after ++ ⟨false, above ++ [s], ⟨e, below⟩⟩ :: next.tour above, ?_, ?_⟩
        · simp [tour, cut]
        · have shorter : ¬above ++ s :: rest <+: above ++ [s] := by
            rw [List.prefix_append_right_inj]
            simpa [List.cons_prefix_cons] using last
          intro stop member
          simp only [List.cons_append, List.mem_cons, List.mem_append] at member
          rcases member with rfl | first | second | rfl | later
          · exact shorter
          · exact outside stop (List.mem_append_left _ first)
          · exact outside stop (List.mem_append_right _ second)
          · exact shorter
          · exact tour_beside fresh later rest
    · rw [if_neg here] at found
      obtain ⟨before, after, cut, outside⟩ := next_ih others above (r :: rest) found
      refine ⟨⟨true, above ++ [s], ⟨e, below⟩⟩ :: (below.tour (above ++ [s]) ++
        ⟨false, above ++ [s], ⟨e, below⟩⟩ :: before), after, ?_, ?_⟩
      · simp [tour, cut]
      · have elsewhere {p : List Text} (start : above ++ [s] <+: p) :
            ¬above ++ r :: rest <+: p := by
          intro other
          exact here (eq_of_prefix_step start ((step_prefix_path above r rest).trans other))
        intro stop member
        simp only [List.cons_append, List.mem_cons, List.mem_append, or_assoc] at member
        rcases member with rfl | first | rfl | second | later
        · exact elsewhere (List.prefix_refl _)
        · exact elsewhere (tour_below first)
        · exact elsewhere (List.prefix_refl _)
        · exact outside stop (List.mem_append_left _ second)
        · exact outside stop (List.mem_append_right _ later)

end Forest

/-! ## Walks -/

def Visit.label : Visit → Text
  | enter label _ | leave label _ => label

/-- The entries that are open after a visit. Only the one that was entered last can be left. -/
def Visit.step (opened : List (Text × Tree)) : Visit → Option (List (Text × Tree))
  | .enter label tree => some ((label, tree) :: opened)
  | .leave label tree =>
    match opened with
    | last :: others => if last = (label, tree) then some others else none
    | [] => none

/-- Whether a visit belongs to a label that goes on behind another one. -/
def Visit.isBelow (q : Text) (v : Visit) : Bool :=
  (segments q).isPrefixOf (segments v.label) && v.label ≠ q

/-- A walk closes what it opens and leaves open what was open before. -/
theorem Forest.walk_closes (f : Forest) (label : Text) (opened : List (Text × Tree)) :
    (f.walk label).foldlM Visit.step opened = some opened := by
  induction f generalizing label opened with
  | nil => rfl
  | cons s e below next below_ih next_ih =>
    simp [walk, Visit.step, below_ih, next_ih]

theorem Forest.reach_le_depth (f : Forest) (path : List Text) : f.reach path ≤ f.depth := by
  induction path generalizing f with
  | nil => exact Nat.zero_le _
  | cons s path ih =>
    have inner (t : Tree) (found : f.find? s = some t) : t.below.depth + 1 ≤ f.depth := by
      clear ih
      induction f with
      | nil => cases found
      | cons r e below next _ next_ih =>
        rw [find?] at found
        split at found
        · cases found
          exact Nat.le_max_left _ _
        · exact (next_ih found).trans (Nat.le_max_right _ _)
    rw [reach]
    split
    · exact Nat.zero_le _
    · rename_i t found
      exact (Nat.succ_le_succ (ih t.below)).trans (inner t found)

namespace Tree

/-- Every path in the tree can be read off its label. -/
def Readable (t : Tree) : Prop :=
  ∀ path u, t.below.get? path = some u → segments (labelOf path) = path

theorem walk_eq_tour (t : Tree) : t.walk [] = (t.below.tour []).map Stop.visit :=
  Forest.walk_eq_tour [] t.below

theorem mem_tour {t : Tree} (proper : t.below.Proper) (stop : Stop) :
    stop ∈ t.below.tour [] ↔ t.below.get? stop.path = some stop.tree := by
  simp [Forest.mem_tour proper]

theorem entered_eq_tour (t : Tree) :
    t.entered [] =
      ((t.below.tour []).filter (·.entering)).map fun s => (labelOf s.path, s.tree) := by
  show (t.walk []).filterMap Visit.entered? = _
  rw [walk_eq_tour, List.filterMap_map, ← List.filterMap_eq_map, List.filterMap_filter]
  apply List.filterMap_congr
  rintro ⟨entering, path, tree⟩ _
  cases entering <;> rfl

theorem mem_entered {t : Tree} (proper : t.below.Proper) (q : Text) (u : Tree) :
    (q, u) ∈ t.entered [] ↔ ∃ path, labelOf path = q ∧ t.below.get? path = some u := by
  rw [entered_eq_tour]
  constructor
  · intro member
    obtain ⟨stop, inside, same⟩ := List.mem_map.mp member
    obtain ⟨rfl, rfl⟩ := Prod.mk.inj same
    exact ⟨stop.path, rfl, (mem_tour proper stop).mp (List.mem_filter.mp inside).1⟩
  · rintro ⟨path, rfl, found⟩
    have inside := (mem_tour proper ⟨true, path, u⟩).mpr found
    exact List.mem_map.mpr ⟨_, List.mem_filter.mpr ⟨inside, rfl⟩, rfl⟩

theorem Readable.get?_of_label {t : Tree} (readable : t.Readable) (q : Text) (u : Tree) :
    (∃ path, labelOf path = q ∧ t.below.get? path = some u) ↔ t.get? q = some u := by
  constructor
  · rintro ⟨path, rfl, found⟩
    rw [get?_eq_segments, readable path u found, found]
  · intro found
    rw [get?_eq_segments] at found
    have own : labelOf (segments q) = q := segments_injective (readable _ u found)
    exact ⟨segments q, own, found⟩

theorem Readable.stop_ext {t : Tree} (proper : t.below.Proper) (readable : t.Readable)
    {first second : Stop} (one : first ∈ t.below.tour []) (two : second ∈ t.below.tour [])
    (entering : first.entering = second.entering)
    (label : labelOf first.path = labelOf second.path) : first = second := by
  have found := (mem_tour proper first).mp one
  have found' := (mem_tour proper second).mp two
  have path : first.path = second.path := by
    rw [← readable _ _ found, ← readable _ _ found', label]
  rw [path, found'] at found
  cases first
  cases second
  simp_all

theorem entered_nodup {t : Tree} (proper : t.below.Proper) (readable : t.Readable) :
    ((t.entered []).map (·.1)).Nodup := by
  rw [entered_eq_tour, List.map_map]
  refine List.Nodup.map_on ?_ ((Forest.tour_nodup proper []).filter _)
  intro first one second two label
  obtain ⟨one, entering⟩ := List.mem_filter.mp one
  obtain ⟨two, entering'⟩ := List.mem_filter.mp two
  exact readable.stop_ext proper one two (entering.trans entering'.symm) label

theorem walk_nodup {t : Tree} (proper : t.below.Proper) (readable : t.Readable) :
    (t.walk []).Nodup := by
  rw [walk_eq_tour]
  refine List.Nodup.map_on ?_ (Forest.tour_nodup proper [])
  rintro ⟨entering, path, tree⟩ one ⟨entering', path', tree'⟩ two same
  have told : entering = entering' ∧ labelOf path = labelOf path' := by
    cases entering <;> cases entering' <;> simp_all [Stop.visit]
  exact readable.stop_ext proper one two told.1 told.2

theorem isBelow_visit {t : Tree} (proper : t.below.Proper) (readable : t.Readable) (q : Text)
    (stop : Stop) (member : stop ∈ t.below.tour []) :
    Visit.isBelow q stop.visit = true ↔ segments q <+: stop.path ∧ stop.path ≠ segments q := by
  have label : stop.visit.label = labelOf stop.path := by
    cases stop with
    | mk entering path tree => cases entering <;> rfl
  have read := readable _ _ ((mem_tour proper stop).mp member)
  have same : labelOf stop.path = q ↔ stop.path = segments q := by
    rw [← segments_injective.eq_iff, read]
  simp [Visit.isBelow, label, read, same]

/-- The visits between entering a label and leaving it are exactly those of the labels that go on
behind it. -/
theorem walk_around {t : Tree} (proper : t.below.Proper) (readable : t.Readable) (q : Text)
    (u : Tree) (found : t.get? q = some u) :
    ∃ before after, t.walk [] =
      before ++ .enter q u :: ((t.walk []).filter (Visit.isBelow q) ++ .leave q u :: after) := by
  rw [get?_eq_segments] at found
  have own : labelOf (segments q) = q := segments_injective (readable _ u found)
  obtain ⟨before, after, cut, outside⟩ := Forest.tour_around proper [] (segments q) u found
  simp only [List.nil_append] at cut outside
  have below := isBelow_visit proper readable q
  rw [cut] at below
  have apart : ∀ stop ∈ before ++ after, ¬Visit.isBelow q stop.visit = true := by
    intro stop member
    have inside : stop ∈ before ∨ stop ∈ after := List.mem_append.mp member
    rw [below stop (by rcases inside with first | last <;> simp [*])]
    exact fun further => outside stop member further.1
  have between : ∀ stop ∈ u.below.tour (segments q), Visit.isBelow q stop.visit = true := by
    intro stop member
    rw [below stop (by simp [member])]
    exact ⟨Forest.tour_below member, Forest.tour_deeper member⟩
  have itself (entering : Bool) :
      ¬Visit.isBelow q (Stop.visit ⟨entering, segments q, u⟩) = true := by
    rw [below _ (by cases entering <;> simp)]
    exact fun further => further.2 rfl
  have inside : (t.walk []).filter (Visit.isBelow q) =
      (u.below.tour (segments q)).map Stop.visit := by
    have no_first : (before.map Stop.visit).filter (Visit.isBelow q) = [] :=
      List.filter_eq_nil_iff.mpr
        (List.forall_mem_map.mpr fun stop first => apart stop (List.mem_append_left _ first))
    have no_last : (after.map Stop.visit).filter (Visit.isBelow q) = [] :=
      List.filter_eq_nil_iff.mpr
        (List.forall_mem_map.mpr fun stop last => apart stop (List.mem_append_right _ last))
    have all_between : ((u.below.tour (segments q)).map Stop.visit).filter (Visit.isBelow q) =
        (u.below.tour (segments q)).map Stop.visit :=
      List.filter_eq_self.mpr (List.forall_mem_map.mpr between)
    rw [walk_eq_tour, cut, List.map_append, List.map_cons, List.map_append, List.map_cons,
      List.filter_append, List.filter_cons_of_neg (itself true), List.filter_append,
      List.filter_cons_of_neg (itself false), no_first, all_between, no_last, List.nil_append,
      List.append_nil]
  refine ⟨before.map Stop.visit, after.map Stop.visit, ?_⟩
  rw [inside, walk_eq_tour, cut]
  simp [Stop.visit, own]

end Tree

namespace Document

/-- In a tree of the shape that labels make, there is an entry exactly where a label runs
through. -/
theorem present_iff (labels : List (Text × Option Int)) (t : Tree)
    (shaped : t.shape = (plant labels).shape) (path : List Text) :
    (t.below.get? path).isSome ↔ path ≠ [] ∧ ∃ p ∈ labels, path <+: segments p.1 := by
  by_cases nonempty : path = []
  · subst nonempty
    simp [Forest.get?]
  have entry := plant_entryAt? labels path nonempty
  have same := Tree.keys_of_shape shaped path
  rw [Forest.entryAt?, Tree.get?_eq_follow? _ _ nonempty] at entry
  rw [Tree.get?_eq_follow? _ _ nonempty, ← Option.isSome_map, same, Option.isSome_map,
    ← Option.isSome_map, entry]
  by_cases passed : ∃ p ∈ labels, path <+: segments p.1
  · simp only [if_pos passed, Option.isSome_some, true_iff]
    exact ⟨nonempty, passed⟩
  · simp only [passed, ↓reduceIte, Option.isSome_none, Bool.false_eq_true, and_false]

theorem readable_of_shape (labels : List (Text × Option Int)) (t : Tree)
    (shaped : t.shape = (plant labels).shape)
    (undotted : ∀ p ∈ labels, p.1.head? ≠ some (.scalar '.')) : t.Readable := by
  intro path u found
  obtain ⟨nonempty, p, member, start⟩ :=
    (present_iff labels t shaped path).mp (by rw [found]; rfl)
  apply segments_labelOf path nonempty ((segmented_segments p.1).of_start start)
  intro dotted
  exact undotted p member ((dotted_segments p.1).mp (dotted.longer start))

/-- A walk over a tree of labels, none of which starts with a dot, opens and closes its entries
like brackets. It enters every label that lookup finds, and no other, once and with the entry that
lookup finds, and between entering and leaving a label it visits exactly the labels that go on
behind it. It goes through unless a label has too many segments, and so does every lookup. -/
theorem plant_walk (labels : List (Text × Option Int))
    (undotted : ∀ p ∈ labels, p.1.head? ≠ some (.scalar '.')) :
    let t := plant labels
    (t.walk []).foldlM Visit.step [] = some [] ∧
    (t.walk []).Nodup ∧
    ((t.entered []).map (·.1)).Nodup ∧
    (∀ q, q ∈ (t.entered []).map (·.1) ↔ (t.get? q).isSome) ∧
    (∀ q u, (q, u) ∈ t.entered [] → t.get? q = some u) ∧
    (∀ q u, t.get? q = some u → ∃ before after, t.walk [] =
      before ++ .enter q u :: ((t.walk []).filter (Visit.isBelow q) ++ .leave q u :: after)) ∧
    if ∀ p ∈ labels, (segments p.1).length ≤ Tree.maxWalkDepth then
      t.checkWalk = .ok () ∧ ∀ q, t.checkedGet q = .ok (t.get? q)
    else t.checkWalk = .error .tooDeep := by
  intro t
  have proper := plant_proper labels
  have readable := readable_of_shape labels t rfl undotted
  have entered (q : Text) (u : Tree) : (q, u) ∈ t.entered [] ↔ t.get? q = some u := by
    rw [Tree.mem_entered proper, readable.get?_of_label]
  refine ⟨Forest.walk_closes _ _ _, Tree.walk_nodup proper readable,
    Tree.entered_nodup proper readable, ?_, fun q u => (entered q u).mp,
    Tree.walk_around proper readable, ?_⟩
  · intro q
    rw [List.mem_map, Option.isSome_iff_exists]
    constructor
    · rintro ⟨⟨_, u⟩, member, rfl⟩
      exact ⟨u, (entered _ u).mp member⟩
    · rintro ⟨u, found⟩
      exact ⟨(q, u), (entered q u).mpr found, rfl⟩
  · split
    · rename_i shallow
      have depth : t.below.depth ≤ Tree.maxWalkDepth := (plant_depth labels _).mpr shallow
      refine ⟨if_pos depth, ?_⟩
      intro q
      exact if_pos ((Forest.reach_le_depth _ _).trans depth)
    · rename_i deep
      exact if_neg (mt (plant_depth labels _).mp deep)

/-- Dots may be doubled or stand behind a label, and a label may be empty. -/
theorem plant_walk_dots :
    let labels : List (Text × Option Int) := [("a..b", some 1), ("", none), ("a.", some 2)]
    (∀ p ∈ labels, p.1.head? ≠ some (.scalar '.')) ∧
    ((plant labels).entered []).map (·.1) = ["a", "a.", "a..b", ""] ∧
    ((plant labels).walk []).foldlM Visit.step [] = some [] ∧
    ∀ q, q ∈ ((plant labels).entered []).map (·.1) ↔ ((plant labels).get? q).isSome := by
  intro labels
  have undotted : ∀ p ∈ labels, p.1.head? ≠ some (.scalar '.') := by decide
  obtain ⟨closes, _, _, entered, _⟩ := plant_walk labels undotted
  exact ⟨undotted, by decide, closes, entered⟩

end Document

/-! ## Exported names -/

/-- The stops at which a walk enters a label. -/
def Tree.stopsAt (t : Tree) (q : Text) : List Stop :=
  (t.below.tour []).filter fun s => s.entering && decide (labelOf s.path = q)

theorem Tree.mem_stopsAt {t : Tree} (proper : t.below.Proper) (q : Text) (s : Stop) :
    s ∈ t.stopsAt q ↔
      t.below.get? s.path = some s.tree ∧ s.entering = true ∧ labelOf s.path = q := by
  simp [stopsAt, mem_tour proper]

theorem Tree.entered_at (t : Tree) (q : Text) :
    (t.entered []).filter (fun p => p.1 = q) =
      (t.stopsAt q).map fun s => (labelOf s.path, s.tree) := by
  rw [entered_eq_tour, List.filter_map, List.filter_filter, stopsAt]
  congr 2
  funext s
  exact Bool.and_comm _ _

theorem Tree.stopsAt_eq_singleton {t : Tree} (proper : t.below.Proper) (q : Text) (s : Stop)
    (member : s ∈ t.stopsAt q) (only : ∀ r ∈ t.stopsAt q, r = s) : t.stopsAt q = [s] := by
  have distinct : (t.stopsAt q).Nodup := (Forest.tour_nodup proper []).filter _
  cases stops : t.stopsAt q with
  | nil => rw [stops] at member; cases member
  | cons first others =>
    rw [stops] at distinct only
    have first_is := only first (by simp)
    have no_others : others = [] := by
      apply List.eq_nil_iff_forall_not_mem.mpr
      intro r later
      have again := only r (List.mem_cons_of_mem _ later)
      exact (List.nodup_cons.mp distinct).1 (first_is.trans again.symm ▸ later)
    rw [first_is, no_others]

namespace Document

/-- A walk enters exactly one label that is the name, and with the entry that lookup finds. -/
def Reports (d : Document) (name : Text) : Prop :=
  ∃ u, d.root.get? name = some u ∧ d.entered.filter (fun p => p.1 = name) = [(name, u)]

/-- In a tree of the shape that labels make, a label is entered only if it does not start with a
dot, and then at the paths that have its segments behind any number of empty ones. -/
theorem stopsAt_path (labels : List (Text × Option Int)) (t : Tree)
    (shaped : t.shape = (plant labels).shape) (q : Text) (s : Stop) (member : s ∈ t.stopsAt q) :
    q.head? ≠ some (.scalar '.') ∧ ∃ n, s.path = List.replicate n [] ++ segments q := by
  have proper := proper_of_shape shaped
  obtain ⟨found, _, label⟩ := (Tree.mem_stopsAt proper q s).mp member
  obtain ⟨nonempty, p, _, start⟩ :=
    (present_iff labels t shaped s.path).mp (by rw [found]; rfl)
  exact (labelOf_eq_iff _ nonempty ((segmented_segments p.1).of_start start) q).mp label

/-- A label is reported unless it starts with a dot, or another label is the same with dots in
front or goes on behind that. -/
theorem reports_iff (labels : List (Text × Option Int)) (d : Document)
    (shaped : d.root.shape = (plant labels).shape) (p : Text × Option Int) (member : p ∈ labels) :
    d.Reports p.1 ↔ p.1.head? ≠ some (.scalar '.') ∧
      ∀ r ∈ labels, ∀ n, ¬List.replicate (n + 1) [] ++ segments p.1 <+: segments r.1 := by
  have proper := proper_of_shape shaped
  have present := present_iff labels d.root shaped
  have stops := Tree.mem_stopsAt proper p.1
  have paths := stopsAt_path labels d.root shaped p.1
  have entered : d.entered.filter (fun r => r.1 = p.1) =
    (d.root.stopsAt p.1).map fun s => (labelOf s.path, s.tree) := d.root.entered_at p.1
  constructor
  · rintro ⟨u, found, only⟩
    rw [Tree.get?_eq_segments] at found
    rw [entered] at only
    obtain ⟨first, one, _⟩ := List.map_eq_singleton_iff.mp only
    have undotted := (paths first (by simp [one])).1
    refine ⟨undotted, ?_⟩
    intro r passes n start
    have again := (present (List.replicate (n + 1) [] ++ segments p.1)).mpr
      ⟨by simp, r, passes, start⟩
    obtain ⟨v, again⟩ := Option.isSome_iff_exists.mp again
    have here : (⟨true, segments p.1, u⟩ : Stop) ∈ d.root.stopsAt p.1 :=
      (stops _).mpr ⟨found, rfl, labelOf_segments _ undotted⟩
    have there : (⟨true, List.replicate (n + 1) [] ++ segments p.1, v⟩ : Stop) ∈
        d.root.stopsAt p.1 :=
      (stops _).mpr ⟨again, rfl, by rw [labelOf_empty_segments, labelOf_segments _ undotted]⟩
    rw [one, List.mem_singleton] at here there
    have lengths := congrArg (fun s => s.path.length) (there.trans here.symm)
    simp at lengths
  · rintro ⟨undotted, alone⟩
    obtain ⟨u, found⟩ := Option.isSome_iff_exists.mp
      ((present (segments p.1)).mpr ⟨segments_ne_nil _, p, member, List.prefix_refl _⟩)
    have here : (⟨true, segments p.1, u⟩ : Stop) ∈ d.root.stopsAt p.1 :=
      (stops _).mpr ⟨found, rfl, labelOf_segments _ undotted⟩
    have only : ∀ s ∈ d.root.stopsAt p.1, s = ⟨true, segments p.1, u⟩ := by
      intro s shows_label
      obtain ⟨there, entering, _⟩ := (stops s).mp shows_label
      obtain ⟨_, n, path⟩ := paths s shows_label
      obtain ⟨_, r, passes, start⟩ := (present s.path).mp (by rw [there]; rfl)
      cases n with
      | zero =>
        rw [List.replicate_zero, List.nil_append] at path
        rw [path, found] at there
        cases s
        simp_all
      | succ n => exact absurd (path ▸ start) (alone r passes n)
    refine ⟨u, (Tree.get?_eq_segments _ _).trans found, ?_⟩
    rw [entered, Tree.stopsAt_eq_singleton proper p.1 _ here only]
    simp [labelOf_segments _ undotted]

/-- An exported name is reported exactly if it does not start with a dot and no other exported name
is the same name with dots in front, or goes on behind that. This is so in the document that is
built, unless a name is too deep to be worked on. -/
theorem exported_reported_iff (listing : Listing) (text : Text) (options : Options) :
    let exported := (Export.read text).labels
    let document := ofListing listing exported options
    (∀ x ∈ exported, document.Reports x.name ↔
      x.name.head? ≠ some (.scalar '.') ∧ ∀ y ∈ exported, ∀ n,
        ¬List.replicate (n + 1) [] ++ segments x.name <+: segments y.name) ∧
    ∀ w, (ofPlan options.plan (.whole listing.column) listing.name listing.lines exported w).1 =
      if ∀ x ∈ exported, (segments x.name).length ≤ Tree.maxWalkDepth then .ok document
      else .error .tooDeep := by
  intro exported document
  refine ⟨?_, ofPlan_whole listing exported options⟩
  intro x member
  rw [reports_iff _ document (ofListing_shape listing exported options) (x.name, _)
    (List.mem_map_of_mem member)]
  simp only [placed, List.forall_mem_map]

/-- A walk tells a name with a dot in front without the dot. -/
theorem dotted_name_not_reported :
    ∃ x ∈ (Export.read ".print: EQU 1").labels,
      ¬(ofListing ⟨[], 24, .null⟩ (Export.read ".print: EQU 1").labels {}).Reports x.name := by
  refine ⟨⟨".print", some 1⟩, by decide +kernel, ?_⟩
  rintro ⟨u, _, only⟩
  have nowhere : (ofListing ⟨[], 24, .null⟩ (Export.read ".print: EQU 1").labels {}).entered.filter
      (fun p => p.1 = (".print" : Text)) = [] := by decide +kernel
  exact List.cons_ne_nil _ _ (only.symm.trans nowhere)

end Document

end LabelAtlas
