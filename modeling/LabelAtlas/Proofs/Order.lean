import LabelAtlas.Proofs.Walks

/-! The order of first mention. Insertion keeps it at every entry, and whatever shows a tree goes
through the entries side by side in the order in which they stand. -/
namespace LabelAtlas

/-! ## Parts in order -/

section InOrder

variable {α β : Type}

/-- Two parts stand in a list one behind the other. -/
def InOrder (first second whole : List α) : Prop :=
  ∃ before between after, whole = before ++ first ++ between ++ second ++ after

theorem InOrder.within {first second part whole : List α} (ordered : InOrder first second part)
    (inside : part <:+: whole) : InOrder first second whole := by
  obtain ⟨before, between, after, rfl⟩ := ordered
  obtain ⟨left, right, rfl⟩ := inside
  exact ⟨left ++ before, between, after ++ right, by simp⟩

theorem InOrder.map {first second whole : List α} (ordered : InOrder first second whole)
    (f : α → β) : InOrder (first.map f) (second.map f) (whole.map f) := by
  obtain ⟨before, between, after, rfl⟩ := ordered
  exact ⟨before.map f, between.map f, after.map f, by simp⟩

theorem InOrder.flatMap {first second whole : List α} (ordered : InOrder first second whole)
    (f : α → List β) : InOrder (first.flatMap f) (second.flatMap f) (whole.flatMap f) := by
  obtain ⟨before, between, after, rfl⟩ := ordered
  exact ⟨before.flatMap f, between.flatMap f, after.flatMap f, by simp⟩

theorem intercalate_append (separator : List α) (left right : List (List α)) (some_left : left ≠ [])
    (some_right : right ≠ []) :
    separator.intercalate (left ++ right) =
      separator.intercalate left ++ separator ++ separator.intercalate right := by
  induction left with
  | nil => exact absurd rfl some_left
  | cons part left ih =>
    obtain ⟨next, right, rfl⟩ := List.exists_cons_of_ne_nil some_right
    cases left with
    | nil => simp [List.intercalate_cons_cons]
    | cons other left =>
      rw [List.cons_append, List.cons_append, List.intercalate_cons_cons, ← List.cons_append,
        ih (by simp), List.intercalate_cons_cons]
      simp

theorem intercalate_start (separator : List α) (left right : List (List α)) :
    separator.intercalate left <+: separator.intercalate (left ++ right) := by
  by_cases some_left : left = []
  · simp [some_left]
  by_cases some_right : right = []
  · simp [some_right]
  rw [intercalate_append _ _ _ some_left some_right, List.append_assoc]
  exact List.prefix_append _ _

theorem intercalate_end (separator : List α) (left right : List (List α)) :
    separator.intercalate right <:+ separator.intercalate (left ++ right) := by
  by_cases some_left : left = []
  · simp [some_left]
  by_cases some_right : right = []
  · simp [some_right]
  rw [intercalate_append _ _ _ some_left some_right]
  exact List.suffix_append _ _

theorem infix_intercalate (separator : List α) (parts : List (List α)) (part : List α)
    (member : part ∈ parts) : part <:+: separator.intercalate parts := by
  obtain ⟨before, after, rfl⟩ := List.append_of_mem member
  have start := intercalate_start separator [part] after
  rw [List.intercalate_singleton, List.singleton_append] at start
  exact start.isInfix.trans (intercalate_end separator before (part :: after)).isInfix

theorem InOrder.intercalate {first second whole : List (List α)}
    (ordered : InOrder first second whole) (some_first : first ≠ []) (some_second : second ≠ [])
    (separator : List α) :
    InOrder (separator.intercalate first) (separator.intercalate second)
      (separator.intercalate whole) := by
  obtain ⟨before, between, after, rfl⟩ := ordered
  have behind : between ++ (second ++ after) ≠ [] := by simp [some_second]
  obtain ⟨left, start⟩ :=
    intercalate_end separator before (first ++ (between ++ (second ++ after)))
  obtain ⟨middle, next⟩ := intercalate_end separator between (second ++ after)
  obtain ⟨right, finish⟩ := intercalate_start separator second after
  refine ⟨left, separator ++ middle, right, ?_⟩
  simp only [List.append_assoc] at start ⊢
  rw [← start, intercalate_append _ _ _ some_first behind, ← next, ← finish]
  simp

end InOrder

/-! ## First mention -/

theorem eraseDups_concat {α : Type} [BEq α] [LawfulBEq α] (names : List α) (name : α) :
    (names ++ [name]).eraseDups =
      if name ∈ names then names.eraseDups else names.eraseDups ++ [name] := by
  rw [List.eraseDups_append]
  by_cases known : name ∈ names
  · simp [List.removeAll, known]
  · simp [List.removeAll, known, List.eraseDups_cons]

/-- Of two names the one that is mentioned first stands first among the names without
repetitions. -/
theorem eraseDups_order (names : List Text) (a b : Text) (mentioned : b ∈ names)
    (earlier : names.idxOf a < names.idxOf b) :
    ∃ before between after, names.eraseDups = before ++ a :: (between ++ b :: after) := by
  induction names using List.reverseRecOn with
  | nil => cases mentioned
  | append_singleton names name ih =>
    by_cases known : b ∈ names
    · have inside := List.idxOf_lt_length_iff.mpr known
      rw [List.idxOf_append, List.idxOf_append, if_pos known] at earlier
      have first_known : a ∈ names := by
        by_contra unknown
        rw [if_neg unknown] at earlier
        omega
      rw [if_pos first_known] at earlier
      obtain ⟨before, between, after, order⟩ := ih known earlier
      rw [eraseDups_concat]
      split
      · exact ⟨before, between, after, order⟩
      · exact ⟨before, between, after ++ [name], by simp [order]⟩
    · have last : b = name := by simpa [known] using mentioned
      subst last
      rw [List.idxOf_append, List.idxOf_append, if_neg known] at earlier
      have first_known : a ∈ names := by
        by_contra unknown
        rw [if_neg unknown, List.idxOf_cons_self] at earlier
        omega
      obtain ⟨before, between, order⟩ := List.append_of_mem (List.mem_eraseDups.mpr first_known)
      rw [eraseDups_concat, if_neg known]
      exact ⟨before, between, [], by simp [order]⟩

/-- The segment that follows the start of a path. -/
def follower? (start path : List Text) : Option Text :=
  if start.isPrefixOf path then path[start.length]? else none

theorem follower?_cons (s r : Text) (start path : List Text) :
    follower? (s :: start) (r :: path) = if s = r then follower? start path else none := by
  by_cases same : s = r <;> simp [follower?, same]

/-- The segments that labels have behind a path, in the order in which the labels are given. -/
def followers (labels : List (Text × Option Int)) (path : List Text) : List Text :=
  labels.filterMap fun p => follower? path (segments p.1)

/-- The segments below the entry at the end of a path. -/
def Tree.keysAt (t : Tree) (path : List Text) : List Text :=
  ((t.follow? path).map (·.below.keys)).getD []

theorem Tree.keysAt_cons (t : Tree) (s : Text) (path : List Text) :
    t.keysAt (s :: path) = (t.below.child s).keysAt path := by
  cases found : t.below.find? s with
  | none =>
    have absent : t.keysAt (s :: path) = [] := by simp [keysAt, follow?, found]
    have made : t.below.child s = {} := by simp [Forest.child, found]
    have nothing : ({} : Tree).keysAt path = [] := by cases path <;> rfl
    rw [absent, made, nothing]
  | some u => simp [keysAt, follow?, Forest.child, found]

/-- An insertion adds the segment that follows a path behind the others, unless it is there. -/
theorem Tree.keysAt_insert (g : Entry → Entry) (inserted path : List Text) (t : Tree) :
    keysAt { t with below := t.below.insert g inserted } path =
      match follower? path inserted with
      | some s => if s ∈ t.keysAt path then t.keysAt path else t.keysAt path ++ [s]
      | none => t.keysAt path := by
  induction path generalizing t inserted with
  | nil =>
    cases inserted with
    | nil => simp [follower?, Forest.insert_empty_path]
    | cons s rest => exact Forest.keys_insert g t.below s rest
  | cons r path ih =>
    cases inserted with
    | nil => simp [follower?, Forest.insert_empty_path]
    | cons s rest =>
      rw [keysAt_cons, keysAt_cons, follower?_cons]
      by_cases same : r = s
      · subst same
        have inner : Forest.child (t.below.insert g (r :: rest)) r =
            { entry := if rest.isEmpty then g (t.below.child r).entry else (t.below.child r).entry
              below := (t.below.child r).below.insert g rest } := by
          rw [Forest.child, Forest.find?_insert, if_pos rfl]
          rfl
        rw [if_pos rfl, ← ih rest (t.below.child r)]
        show keysAt (Forest.child (t.below.insert g (r :: rest)) r) path = _
        rw [inner]
        cases path <;> rfl
      · have beside : Forest.child (t.below.insert g (s :: rest)) r = t.below.child r := by
          rw [Forest.child, Forest.find?_insert, if_neg (Ne.symm same)]
          rfl
        rw [if_neg same]
        exact congrArg (keysAt · path) beside

/-- After any run of insertions the segments below an entry stand in the order of first mention. -/
theorem Document.plant_keysAt (labels : List (Text × Option Int)) (path : List Text) :
    (plant labels).keysAt path = (followers labels path).eraseDups := by
  induction labels using List.reverseRecOn with
  | nil => cases path <;> rfl
  | append_singleton labels p ih =>
    have again : followers (labels ++ [p]) path =
        followers labels path ++ (follower? path (segments p.1)).toList := by
      cases next : follower? path (segments p.1) <;> simp [followers, next]
    rw [plant_append, Tree.insert, Tree.keysAt_insert, ih, again]
    cases follower? path (segments p.1) with
    | none => simp
    | some s => simp only [Option.toList_some, eraseDups_concat, List.mem_eraseDups]

/-! ## Walks and outlines -/

/-- The visits to an entry and to what lies below it. -/
def Tree.visits (label : Text) (t : Tree) : List Visit :=
  .enter label t :: (t.walk label ++ [.leave label t])

theorem Tree.visits_ne_nil (label : Text) (t : Tree) : t.visits label ≠ [] :=
  List.cons_ne_nil _ _

theorem Tree.outline_text (t : Tree) (label : Text) :
    t.outline (.str label) = entryMembers (.str label) t.entry (t.below.outline label) := by
  cases label <;> rfl

namespace Forest

theorem mem_children_of_find? {f : Forest} {s : Text} {t : Tree} (found : f.find? s = some t) :
    (s, t) ∈ f.children := by
  induction f with
  | nil => cases found
  | cons r e below next _ ih =>
    rw [find?] at found
    split at found
    · rename_i here
      cases found
      simp [children, here]
    · exact List.mem_cons_of_mem _ (ih found)

theorem walk_eq_children (label : Text) (f : Forest) :
    f.walk label = f.children.flatMap fun c => c.2.visits (extend label c.1) := by
  induction f with
  | nil => rfl
  | cons s e below next _ ih => simp [walk, children, Tree.visits, Tree.walk, ih]

theorem outline_eq_children (label : Text) (f : Forest) :
    f.outline label = f.children.map fun c => c.2.outline (.str (extend label c.1)) := by
  induction f with
  | nil => rfl
  | cons s e below next _ ih => simp [outline, children, Tree.outline_text, ih]

theorem children_in_order {f : Forest} (proper : f.Proper) {a b : Text}
    (ordered : ∃ before between after, f.keys = before ++ a :: (between ++ b :: after)) :
    ∃ v w, f.find? a = some v ∧ f.find? b = some w ∧ InOrder [(a, v)] [(b, w)] f.children := by
  obtain ⟨before, between, after, keys⟩ := ordered
  rw [keys_eq_children] at keys
  obtain ⟨first, from_a, cut, _, keys_from_a⟩ := List.map_eq_append_iff.mp keys
  obtain ⟨⟨_, v⟩, behind_a, rfl, rfl, keys_behind_a⟩ := List.map_eq_cons_iff.mp keys_from_a
  obtain ⟨middle, from_b, rfl, _, keys_from_b⟩ := List.map_eq_append_iff.mp keys_behind_a
  obtain ⟨⟨_, w⟩, last, rfl, rfl, _⟩ := List.map_eq_cons_iff.mp keys_from_b
  exact ⟨v, w, find?_of_mem_children proper (by simp [cut]),
    find?_of_mem_children proper (by simp [cut]), first, middle, last, by simp [cut]⟩

end Forest

/-- The walk below an entry is a part of the walk from the root. -/
theorem Tree.walk_infix (t u : Tree) (above path : List Text) (found : t.follow? path = some u) :
    u.walk (labelOf (above ++ path)) <:+: t.walk (labelOf above) := by
  induction path generalizing t above with
  | nil =>
    cases found
    rw [List.append_nil]
  | cons s path ih =>
    obtain ⟨v, first, rest⟩ := Option.bind_eq_some_iff.mp found
    have inner := ih v (above ++ [s]) rest
    rw [List.append_assoc, List.singleton_append] at inner
    have outer : v.visits (labelOf (above ++ [s])) <:+: t.walk (labelOf above) := by
      rw [Tree.walk, Forest.walk_eq_children, List.flatMap, ← extend_labelOf]
      exact List.infix_of_mem_flatten
        (List.mem_map_of_mem (f := fun c : Text × Tree => c.2.visits (extend (labelOf above) c.1))
          (Forest.mem_children_of_find? first))
    have below : v.walk (labelOf (above ++ [s])) <:+: v.visits (labelOf (above ++ [s])) :=
      ⟨[.enter (labelOf (above ++ [s])) v], [.leave (labelOf (above ++ [s])) v], by simp [visits]⟩
    exact inner.trans (below.trans outer)

namespace Json

theorem writeItems_eq (depth : Nat) (items : List Json) :
    writeItems depth items = items.map (writeAt depth) := by
  induction items with
  | nil => simp [writeItems]
  | cons v items ih => simp [writeItems, ih]

theorem writeMembers_eq (depth : Nat) (members : Object) :
    writeMembers depth members =
      members.map fun m => writeString m.1 ++ ": " ++ writeAt depth m.2 := by
  induction members with
  | nil => simp [writeMembers]
  | cons m members ih => simp [writeMembers, ih]

theorem join_infix_block (depth : Nat) (parts : List Text) (some_part : parts ≠ []) :
    Text.join (.scalar ',' :: newLine (depth + 1)) parts <:+: block depth parts := by
  rw [block, if_neg (by simp [some_part])]
  exact ⟨newLine (depth + 1), newLine depth, by simp⟩

theorem writeAt_items_in_order (depth : Nat) (items : List Json) (v w : Json)
    (ordered : InOrder [v] [w] items) :
    InOrder (writeAt (depth + 1) v) (writeAt (depth + 1) w) (writeAt depth (.arr items)) := by
  have parts : InOrder [writeAt (depth + 1) v] [writeAt (depth + 1) w]
      (writeItems (depth + 1) items) := by
    rw [writeItems_eq]
    exact ordered.map _
  have some_part : writeItems (depth + 1) items ≠ [] := by
    obtain ⟨before, between, after, same⟩ := parts
    simp [same]
  have joined := parts.intercalate (by simp) (by simp) (.scalar ',' :: newLine (depth + 1))
  simp only [List.intercalate_singleton] at joined
  apply joined.within
  refine (join_infix_block depth _ some_part).trans ?_
  rw [writeAt]
  exact ⟨[.scalar '['], "]", by simp⟩

theorem infix_block (depth : Nat) (parts : List Text) (part : Text) (member : part ∈ parts) :
    part <:+: block depth parts :=
  (infix_intercalate _ parts part member).trans
    (join_infix_block depth parts (List.ne_nil_of_mem member))

theorem writeAt_item (depth : Nat) (items : List Json) (v : Json) (member : v ∈ items) :
    writeAt (depth + 1) v <:+: writeAt depth (.arr items) := by
  have part : writeAt (depth + 1) v ∈ writeItems (depth + 1) items := by
    rw [writeItems_eq]
    exact List.mem_map_of_mem member
  refine (infix_block depth _ _ part).trans ?_
  rw [writeAt]
  exact ⟨[.scalar '['], "]", by simp⟩

theorem writeAt_member (depth : Nat) (members : Object) (k : Text) (v : Json)
    (member : (k, v) ∈ members) : writeAt (depth + 1) v <:+: writeAt depth (.obj members) := by
  have part : writeString k ++ ": " ++ writeAt (depth + 1) v ∈
      writeMembers (depth + 1) members := by
    rw [writeMembers_eq]
    exact List.mem_map.mpr ⟨(k, v), member, rfl⟩
  refine (List.suffix_append _ _).isInfix.trans ((infix_block depth _ _ part).trans ?_)
  rw [writeAt]
  exact ⟨[.scalar '\x7b'], "\x7d", by simp⟩

end Json

/-- What is written of the entries below a path is a part of what is written of the tree. -/
theorem Tree.written_infix (t u : Tree) (above path : List Text) (depth : Nat)
    (found : t.follow? path = some u) :
    Json.writeAt (depth + 2 * path.length) (.arr (u.below.outline (labelOf (above ++ path)))) <:+:
      Json.writeAt depth (.arr (t.below.outline (labelOf above))) := by
  induction path generalizing t above depth with
  | nil =>
    cases found
    rw [List.append_nil]
    exact List.infix_rfl
  | cons s path ih =>
    obtain ⟨v, first, rest⟩ := Option.bind_eq_some_iff.mp found
    have inner := ih v (above ++ [s]) (depth + 2) rest
    rw [List.append_assoc, List.singleton_append,
      show depth + 2 + 2 * path.length = depth + 2 * (s :: path).length by simp; omega] at inner
    have entry : v.outline (.str (labelOf (above ++ [s]))) ∈ t.below.outline (labelOf above) := by
      rw [Forest.outline_eq_children, ← extend_labelOf]
      exact List.mem_map.mpr ⟨(s, v), Forest.mem_children_of_find? first, rfl⟩
    have children : Json.writeAt (depth + 2) (.arr (v.below.outline (labelOf (above ++ [s])))) <:+:
        Json.writeAt (depth + 1) (v.outline (.str (labelOf (above ++ [s])))) := by
      rw [Tree.outline_text]
      exact Json.writeAt_member (depth + 1) _ "children" _ (by simp)
    exact inner.trans (children.trans (Json.writeAt_item depth _ _ entry))

/-! ## Rendered documents -/

/-- What a page shows of visits in its table of contents or in its sections. -/
def Html.markup (part : Visit → List Piece) (visits : List Visit) : Text :=
  writePieces (joinLines (visits.map part))

theorem Html.pageLines_frame (title source : Text) (visits : List Visit) :
    ∃ head middle foot, pageLines title source visits =
      head ++ visits.map contents ++ middle ++ visits.map sections ++ foot :=
  ⟨_, _, _, rfl⟩

namespace Document

theorem html_ok {d : Document} {page : Text} (rendered : d.html = .ok page) :
    ∃ title source, d.title = .str title ∧ d.sourceText = .ok source ∧
      page = Html.page title source (d.root.walk []) := by
  unfold html at rendered
  dsimp only at rendered
  split at rendered
  · split at rendered
    · rename_i title titled
      obtain ⟨source, named, made⟩ := bind_ok rendered
      cases made
      exact ⟨title, source, titled, named, rfl⟩
    · cases rendered
  · cases rendered

/-- Both the table of contents and the sections of a page go along the walk. -/
theorem html_in_order (d : Document) (page : Text) (rendered : d.html = .ok page)
    (first second : List Visit) (some_first : first ≠ []) (some_second : second ≠ [])
    (ordered : InOrder first second (d.root.walk [])) (part : Visit → List Piece)
    (shown : part = Html.contents ∨ part = Html.sections) :
    InOrder (Html.markup part first) (Html.markup part second) page := by
  obtain ⟨title, source, -, -, rfl⟩ := html_ok rendered
  have lines : (d.root.walk []).map part <:+: Html.pageLines title source (d.root.walk []) := by
    obtain ⟨head, middle, foot, frame⟩ := Html.pageLines_frame title source (d.root.walk [])
    rw [frame]
    rcases shown with rfl | rfl
    · exact ⟨head, middle ++ (d.root.walk []).map Html.sections ++ foot, by simp⟩
    · exact ⟨head ++ (d.root.walk []).map Html.contents ++ middle, foot, by simp⟩
  have joined := ((ordered.map part).within lines).intercalate (by simpa using some_first)
    (by simpa using some_second) [Piece.newLine]
  exact joined.flatMap Piece.write

theorem json_ok {d : Document} {time text : Text} (rendered : d.json time = .ok text) :
    ∃ v, d.toJson = .ok v ∧ text = Json.writeAt 0 (exportJson time v) := by
  unfold json at rendered
  obtain ⟨v, documentation, written⟩ := bind_ok rendered
  refine ⟨v, documentation, ?_⟩
  rw [Json.write?] at written
  split at written
  · rename_i made
    split at made
    · cases made
      cases written
      rfl
    · cases made
  · cases written

/-- A JSON text holds the entries of its document, two levels deep. -/
theorem json_entries {d : Document} {time text : Text} (rendered : d.json time = .ok text) :
    Json.writeAt 2 (.arr (d.root.below.outline [])) <:+: text := by
  obtain ⟨v, documentation, all⟩ := json_ok rendered
  have entries : Json.writeAt 2 (.arr (d.root.below.outline [])) <:+: Json.writeAt 1 v := by
    rw [toJson] at documentation
    cases counted : d.statistics with
    | error flaw => rw [counted] at documentation; cases documentation
    | ok s =>
      rw [counted] at documentation
      cases documentation
      exact Json.writeAt_member 1 _ "entries" _ (by simp)
  rw [all]
  exact entries.trans (Json.writeAt_member 0 _ "documentation" v (by simp))

theorem render_of_checked {d : Document} {time text : Text} {f : Format}
    (rendered : d.checkedRender time f = .ok text) : d.render time f = .ok text := by
  unfold checkedRender at rendered
  cases f with
  | html =>
    obtain ⟨_, _, made⟩ := bind_ok rendered
    exact mapError_ok made
  | json =>
    obtain ⟨_, _, fitting⟩ := bind_ok rendered
    obtain ⟨_, _, made⟩ := bind_ok fitting
    exact mapError_ok made

/-- The segments below an entry are those that labels have behind its path, in the order of first
mention. Of two of them the one mentioned first comes first wherever the tree is shown, with all
that lies below it: in a walk, in an outline and in a rendered document. This holds whatever is
noted in the entries. -/
theorem siblings_in_order (labels : List (Text × Option Int)) (t : Tree)
    (shaped : t.shape = (plant labels).shape) (path : List Text) (u : Tree)
    (found : t.follow? path = some u) :
    u.below.keys = (followers labels path).eraseDups ∧
    ∀ a b, b ∈ followers labels path →
      (followers labels path).idxOf a < (followers labels path).idxOf b →
      ∃ v w, t.follow? (path ++ [a]) = some v ∧ t.follow? (path ++ [b]) = some w ∧
        let first := v.visits (labelOf (path ++ [a]))
        let second := w.visits (labelOf (path ++ [b]))
        let firstEntry := v.outline (.str (labelOf (path ++ [a])))
        let secondEntry := w.outline (.str (labelOf (path ++ [b])))
        InOrder first second (t.walk []) ∧
        (∃ entries, u.outline (.str (labelOf path)) =
            entryMembers (.str (labelOf path)) u.entry entries ∧
          InOrder [firstEntry] [secondEntry] entries) ∧
        ∀ (d : Document) (time text : Text), d.root = t →
          (d.checkedRender time .html = .ok text →
            InOrder (Html.markup Html.contents first) (Html.markup Html.contents second) text ∧
            InOrder (Html.markup Html.sections first) (Html.markup Html.sections second) text) ∧
          (d.checkedRender time .json = .ok text →
            InOrder (firstEntry.writeAt (2 * path.length + 3))
              (secondEntry.writeAt (2 * path.length + 3)) text) := by
  have keys : u.below.keys = (followers labels path).eraseDups := by
    have same := Tree.keys_of_shape shaped path
    have planted := plant_keysAt labels path
    rw [Tree.keysAt, ← same, found] at planted
    exact planted
  refine ⟨keys, ?_⟩
  intro a b mentioned earlier
  have proper := Tree.proper_of_follow? (proper_of_shape shaped) found
  obtain ⟨v, w, first_found, second_found, ordered⟩ :=
    Forest.children_in_order proper (keys ▸ eraseDups_order _ a b mentioned earlier)
  have walked : InOrder (v.visits (labelOf (path ++ [a]))) (w.visits (labelOf (path ++ [b])))
      (t.walk []) := by
    have below := ordered.flatMap fun c => c.2.visits (extend (labelOf path) c.1)
    rw [← Forest.walk_eq_children] at below
    simp only [List.flatMap_singleton, extend_labelOf] at below
    exact below.within (Tree.walk_infix t u [] path found)
  have outlined : InOrder [v.outline (.str (labelOf (path ++ [a])))]
      [w.outline (.str (labelOf (path ++ [b])))] (u.below.outline (labelOf path)) := by
    rw [Forest.outline_eq_children, ← extend_labelOf, ← extend_labelOf]
    exact ordered.map fun c => c.2.outline (.str (extend (labelOf path) c.1))
  refine ⟨v, w, ?_, ?_, walked, ⟨_, Tree.outline_text u _, outlined⟩, ?_⟩
  · rw [Tree.follow?_append, found]
    simp [Tree.follow?, first_found]
  · rw [Tree.follow?_append, found]
    simp [Tree.follow?, second_found]
  · rintro d time text rfl
    constructor
    · intro rendered
      have shown := html_in_order d text (render_of_checked rendered) _ _
        (Tree.visits_ne_nil _ _) (Tree.visits_ne_nil _ _) walked
      exact ⟨shown _ (.inl rfl), shown _ (.inr rfl)⟩
    · intro rendered
      have written : d.json time = .ok text := render_of_checked rendered
      have entries := Json.writeAt_items_in_order (2 + 2 * path.length) _ _ _ outlined
      rw [show 2 + 2 * path.length + 1 = 2 * path.length + 3 by omega] at entries
      exact (entries.within (Tree.written_infix d.root u [] path 2 found)).within
        (json_entries written)

/-- A later label that goes through the first of two entries does not move it. -/
theorem siblings_in_order_text :
    let labels : List (Text × Option Int) :=
      [("text.layer2.print", some 1), ("text.ula.print", none), ("text.layer2.put", some 2)]
    let t := treeOf labels [";Prints.", "print:", "put:"] id 2
    t.shape = (plant labels).shape ∧
    ∃ u, t.follow? ["text"] = some u ∧ u.below.keys = ["layer2", "ula"] ∧
      ∃ v w, t.follow? ["text", "layer2"] = some v ∧ t.follow? ["text", "ula"] = some w ∧
        InOrder (v.visits "text.layer2") (w.visits "text.ula") (t.walk []) := by
  intro labels t
  have shaped : t.shape = (plant labels).shape := treeOf_shape _ _ _ _
  have there : (t.follow? ["text"]).isSome := by decide
  obtain ⟨u, found⟩ := Option.isSome_iff_exists.mp there
  obtain ⟨keys, ordered⟩ := siblings_in_order labels t shaped ["text"] u found
  obtain ⟨v, w, first, second, walked, _⟩ := ordered "layer2" "ula" (by decide) (by decide)
  exact ⟨shaped, u, found, keys.trans (by decide), v, w, first, second, walked⟩

end Document

end LabelAtlas
