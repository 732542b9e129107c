import Mathlib.Data.List.Nodup
import LabelAtlas.Proofs.Depth

/-! What a built document says of each label. A tree is filled in three passes, and an entry is
known by its path alone: the labels that run through it make it, and those that end at it fill
it. -/
namespace LabelAtlas.Document

/-- The line given last to the label with these segments. -/
def lineAt (labels : List (Text × Option Int)) (path : List Text) : Option Int :=
  (labels.reverse.find? fun p => segments p.1 = path).bind (·.2)

/-- The line of the last pair with a label. A label that is in no pair has none. -/
def lastLine (labels : List (Text × Option Int)) (q : Text) : Option Int :=
  (labels.reverse.find? fun p => p.1 = q).bind (·.2)

theorem lineAt_segments (labels : List (Text × Option Int)) (q : Text) :
    lineAt labels (segments q) = lastLine labels q := by
  simp only [lineAt, lastLine, segments_injective.eq_iff]

theorem lineAt_append (labels : List (Text × Option Int)) (p : Text × Option Int)
    (path : List Text) :
    lineAt (labels ++ [p]) path = if segments p.1 = path then p.2 else lineAt labels path := by
  by_cases ends : segments p.1 = path <;> simp [lineAt, ends]

theorem lineAt_none (labels : List (Text × Option Int)) (path : List Text)
    (absent : ∀ p ∈ labels, segments p.1 ≠ path) : lineAt labels path = none := by
  have missed : labels.reverse.find? (fun p => segments p.1 = path) = none := by
    simpa using absent
  rw [lineAt, missed]
  rfl

theorem plant_root (labels : List (Text × Option Int)) : (plant labels).entry = {} := by
  induction labels using List.reverseRecOn with
  | nil => rfl
  | append_singleton labels p ih => rw [plant_append]; exact ih

/-- After any run of insertions there is an entry exactly where a label runs through, and it holds
the line of the last label that ends there. -/
theorem plant_entryAt? (labels : List (Text × Option Int)) (path : List Text)
    (nonempty : path ≠ []) :
    (plant labels).below.entryAt? path =
      if ∃ p ∈ labels, path <+: segments p.1 then some { line := lineAt labels path }
      else none := by
  induction labels using List.reverseRecOn with
  | nil => simp [plant]
  | append_singleton labels p ih =>
    rw [plant_append]
    simp only [Tree.insert]
    rw [Forest.entryAt?_insert _ _ _ nonempty, ih]
    by_cases passed : path <+: segments p.1
    · have now : ∃ r ∈ labels ++ [p], path <+: segments r.1 := ⟨p, by simp, passed⟩
      have before : (if ∃ r ∈ labels, path <+: segments r.1 then
          some ({ line := lineAt labels path } : Entry) else none).getD {} =
          { line := lineAt labels path } := by
        split
        · rfl
        · rename_i fresh
          rw [lineAt_none labels path]
          · rfl
          · intro r member ends
            exact fresh ⟨r, member, ends ▸ List.prefix_refl _⟩
      rw [if_pos passed, if_pos now, before, lineAt_append]
      by_cases ends : path = segments p.1
      · simp [ends]
      · simp [ends, Ne.symm ends]
    · have ends : segments p.1 ≠ path := fun same => passed (same ▸ List.prefix_refl _)
      have same : (∃ r ∈ labels ++ [p], path <+: segments r.1) ↔
          ∃ r ∈ labels, path <+: segments r.1 := by
        constructor
        · rintro ⟨r, member, through⟩
          rcases List.mem_append.mp member with old | new
          · exact ⟨r, old, through⟩
          · exact absurd (List.mem_singleton.mp new ▸ through) passed
        · rintro ⟨r, member, through⟩
          exact ⟨r, List.mem_append_left _ member, through⟩
      simp only [if_neg passed, lineAt_append, if_neg ends, same]

theorem treeOf_entryAt? (labels : List (Text × Option Int)) (lines : List Text)
    (view : Text → Text) (tolerance : Int) (path : List Text) (nonempty : path ≠ []) :
    (treeOf labels lines view tolerance).below.entryAt? path =
      if ∃ p ∈ labels, path <+: segments p.1 then
        some { line := lineAt labels path
               description := Description.describe lines view tolerance (lineAt labels path) }
      else none := by
  simp only [treeOf, Tree.mapEntries]
  rw [Forest.entryAt?_mapEntries, plant_entryAt? labels path nonempty]
  split <;> rfl

theorem get?_entry (t : Tree) (q : Text) :
    (t.get? q).map (·.entry) = t.below.entryAt? (segments q) := by
  rw [Tree.get?_eq_segments, Forest.entryAt?]

theorem treeOf_root (labels : List (Text × Option Int)) (lines : List Text) (view : Text → Text)
    (tolerance : Int) : (treeOf labels lines view tolerance).entry = {} := by
  simp [treeOf, Tree.mapEntries, plant_root, Description.describe]

/-- A label is in the tree exactly if it is a given label or a namespace of one. Its entry holds
the line given to it last, and the comment above that line; a namespace that is no label itself
has neither, and neither has the root. This is the tree that is built, whatever the column that the
source texts start at, unless a label is too deep to be worked on. -/
theorem treeOf_lookup (labels : List (Text × Option Int)) (lines : List Text)
    (view : Text → Text) (tolerance : Int) (q : Text) :
    (((treeOf labels lines view tolerance).get? q).isSome ↔
      segments q ≠ [] ∧ ∃ p ∈ labels, segments q <+: segments p.1) ∧
    (∀ u, (treeOf labels lines view tolerance).get? q = some u →
      u.entry.line = lastLine labels q ∧
      u.entry.description = Description.describe lines view tolerance (lastLine labels q)) ∧
    (treeOf labels lines view tolerance).entry.line = none ∧
    (treeOf labels lines view tolerance).entry.description = none ∧
    ∀ title members (column : Option Int),
      ofLabels title (.obj members) labels lines ⟨column.map .whole, some (.whole tolerance)⟩ =
        if ∀ p ∈ labels, (segments p.1).length ≤ Tree.maxWalkDepth then
          .ok { title := title
                metadata := .obj members
                root := treeOf labels lines
                  (Reading.view ⟨column.map .whole, some (.whole tolerance)⟩) tolerance }
        else .error .tooDeep := by
  have found := treeOf_entryAt? labels lines view tolerance (segments q) (segments_ne_nil q)
  rw [← get?_entry, lineAt_segments] at found
  have root := treeOf_root labels lines view tolerance
  refine ⟨?_, ?_, by rw [root], by rw [root], ?_⟩
  · rw [← Option.isSome_map (f := fun u : Tree => u.entry), found]
    by_cases passed : ∃ p ∈ labels, segments q <+: segments p.1
    · simp only [if_pos passed, Option.isSome_some, true_iff]
      exact ⟨segments_ne_nil q, passed⟩
    · simp only [passed, ↓reduceIte, Option.isSome_none, Bool.false_eq_true, and_false]
  · intro u here
    rw [here, Option.map_some] at found
    split at found
    · have entry := Option.some.inj found
      rw [entry]
      exact ⟨rfl, rfl⟩
    · cases found
  · intro title members column
    exact ofLabels_whole title members labels lines column tolerance

/-- An entry with the value of an export that ends at it and, if asked for, the kind of its line. -/
def filled (lines : List Text) (options : Options) (e : Entry) (x : Export) : Entry :=
  { e with
    value := x.value
    kind := if options.classify then some (Source.kindOf lines e.line options.scan) else e.kind }

/-- The last of the exports that end at a path. -/
def exportAt? (exported : List Export) (path : List Text) : Option Export :=
  exported.reverse.find? fun x => segments x.name = path

theorem exportAt?_append (exported : List Export) (x : Export) (path : List Text) :
    exportAt? (exported ++ [x]) path =
      if segments x.name = path then some x else exportAt? exported path := by
  by_cases ends : segments x.name = path <;> simp [exportAt?, ends]

theorem filled_again (lines : List Text) (options : Options) (e : Entry) (x y : Export) :
    filled lines options (filled lines options e x) y = filled lines options e y := by
  cases asked : options.classify <;> simp [filled, asked]

theorem complete_entryAt? (lines : List Text) (options : Options) (t : Tree) (x : Export)
    (path : List Text) :
    (complete lines options t x).below.entryAt? path =
      if path = segments x.name then
        (t.below.entryAt? path).map fun e => filled lines options e x
      else t.below.entryAt? path :=
  Forest.entryAt?_modify (fun e => filled lines options e x) (segments x.name) path t.below

/-- Completing a tree reaches exactly the entries that exports end at. Of several exports of one
name the last one counts: each sets the value anew, and none changes the line of the kind. -/
theorem completed_entryAt? (lines : List Text) (options : Options) (exported : List Export)
    (t : Tree) (path : List Text) :
    (exported.foldl (complete lines options) t).below.entryAt? path =
      (t.below.entryAt? path).map fun e =>
        ((exportAt? exported path).map (filled lines options e)).getD e := by
  induction exported using List.reverseRecOn with
  | nil => simp [exportAt?]
  | append_singleton exported x ih =>
    rw [List.foldl_append, List.foldl_cons, List.foldl_nil, complete_entryAt?, ih, exportAt?_append]
    by_cases ends : segments x.name = path
    · subst ends
      cases t.below.entryAt? (segments x.name) with
      | none => simp
      | some e => cases exportAt? exported (segments x.name) <;> simp [filled_again]
    · simp [ends, Ne.symm ends]

theorem completed_root (lines : List Text) (options : Options) (exported : List Export) (t : Tree) :
    (exported.foldl (complete lines options) t).entry = t.entry := by
  induction exported generalizing t with
  | nil => rfl
  | cons x exported ih => exact ih (complete lines options t x)

/-- The value of the last export of a name. -/
def lastValue (exported : List Export) (name : Text) : Option Int :=
  (exported.reverse.find? fun x => x.name = name).bind (·.value)

theorem exists_last_export (exported : List Export) (x : Export) (member : x ∈ exported) :
    ∃ y, exported.reverse.find? (fun y => y.name = x.name) = some y ∧ y.name = x.name := by
  have some_named : (exported.reverse.find? fun y => y.name = x.name).isSome :=
    List.find?_isSome.mpr ⟨x, List.mem_reverse.mpr member, by simp⟩
  obtain ⟨y, found⟩ := Option.isSome_iff_exists.mp some_named
  exact ⟨y, found, by simpa using List.find?_some found⟩

theorem lastValue_of_nodup {exported : List Export} (once : (exported.map (·.name)).Nodup)
    {x : Export} (member : x ∈ exported) : lastValue exported x.name = x.value := by
  obtain ⟨y, found, same⟩ := exists_last_export exported x member
  have known : y ∈ exported := List.mem_reverse.mp (List.mem_of_find?_eq_some found)
  rw [lastValue, found, List.inj_on_of_nodup_map once known member same]
  rfl

theorem exportAt?_exported (exported : List Export) (x : Export) (member : x ∈ exported) :
    ∃ y, exportAt? exported (segments x.name) = some y ∧ y.value = lastValue exported x.name := by
  obtain ⟨y, found, _⟩ := exists_last_export exported x member
  refine ⟨y, ?_, ?_⟩
  · simpa only [exportAt?, segments_injective.eq_iff] using found
  · rw [lastValue, found]
    rfl

/-- All exports of one name are placed on the same line, so the last of them has it too. -/
theorem lastLine_placed (defs : List (Text × Nat)) (exported : List Export) (x : Export)
    (member : x ∈ exported) : lastLine (placed defs exported) x.name = lineOf defs x.name := by
  obtain ⟨y, found, named⟩ := exists_last_export exported x member
  have last : (placed defs exported).reverse.find? (fun p => p.1 = x.name) =
      some (y.name, lineOf defs y.name) := by
    rw [placed, ← List.map_reverse, List.find?_map]
    exact congrArg _ found
  rw [lastLine, last, named]
  rfl

theorem placed_passes (defs : List (Text × Nat)) (exported : List Export) (x : Export)
    (member : x ∈ exported) :
    ∃ p ∈ placed defs exported, segments x.name <+: segments p.1 :=
  ⟨(x.name, lineOf defs x.name), List.mem_map_of_mem member, List.prefix_refl _⟩

/-- The entry of an exported name before values and kinds are filled in. -/
theorem treeOf_placed (defs : List (Text × Nat)) (exported : List Export) (lines : List Text)
    (view : Text → Text) (tolerance : Int) (x : Export) (member : x ∈ exported) :
    (treeOf (placed defs exported) lines view tolerance).below.entryAt? (segments x.name) =
      some { line := lineOf defs x.name
             description := Description.describe lines view tolerance (lineOf defs x.name) } := by
  rw [treeOf_entryAt? _ _ _ _ _ (segments_ne_nil _), if_pos (placed_passes defs exported x member),
    lineAt_segments, lastLine_placed defs exported x member]

theorem ofListing_exported (listing : Listing) (exported : List Export) (options : Options)
    (x : Export) (member : x ∈ exported) :
    ∃ y, y.value = lastValue exported x.name ∧
      (ofListing listing exported options).root.below.entryAt? (segments x.name) =
        let line := lineOf (Definition.definitions listing.sourceLines) x.name
        some (filled listing.sourceLines options
          { line := line
            description :=
              Description.describe listing.lines listing.sourceOf options.tolerance line } y) := by
  obtain ⟨y, last, value⟩ := exportAt?_exported exported x member
  refine ⟨y, value, ?_⟩
  simp only [ofListing]
  rw [completed_entryAt?, treeOf_placed _ _ _ _ _ x member, last]
  rfl

/-- A namespace that is not exported itself is passed over by all three passes. -/
theorem ofListing_unexported (listing : Listing) (exported : List Export) (options : Options)
    (path : List Text) (nonempty : path ≠ []) (absent : ∀ x ∈ exported, segments x.name ≠ path)
    (e : Entry) (found : (ofListing listing exported options).root.below.entryAt? path = some e) :
    e = {} := by
  have unexported : exportAt? exported path = none := by
    simpa [exportAt?] using absent
  have unplaced (defs : List (Text × Nat)) : lineAt (placed defs exported) path = none := by
    apply lineAt_none
    intro p member
    obtain ⟨x, here, rfl⟩ := List.mem_map.mp member
    exact absent x here
  simp only [ofListing] at found
  rw [completed_entryAt?, treeOf_entryAt? _ _ _ _ _ nonempty, unexported, unplaced] at found
  split at found
  · exact (Option.some.inj found).symm
  · cases found

/-- The description of an entry is the comment above its line, whatever else is filled in. -/
theorem ofListing_description (listing : Listing) (exported : List Export) (options : Options)
    (path : List Text) (nonempty : path ≠ []) (e : Entry)
    (found : (ofListing listing exported options).root.below.entryAt? path = some e) :
    e.description =
      Description.describe listing.lines listing.sourceOf options.tolerance e.line := by
  simp only [ofListing] at found
  rw [completed_entryAt?, treeOf_entryAt? _ _ _ _ _ nonempty] at found
  split at found
  · obtain rfl := Option.some.inj found
    cases exportAt? exported path <;> rfl
  · cases found

theorem ofListing_unresolved (listing : Listing) (exported : List Export) (options : Options) :
    ∃ members, (ofListing listing exported options).metadata = .obj members ∧
      Json.get? "unresolved_labels" members =
        some (.arr ((unresolved (Definition.definitions listing.sourceLines) exported).map .str)) :=
  ⟨_, rfl, by simp [Json.get?]⟩

/-- Every exported name has an entry when its turn comes to be completed, and in the document it
has its line, the comment above it, the value exported last and, if asked for, the kind of that
line. Every other entry is empty, the root among them, and the names without a line are listed in
order of export. This is the document that is built, unless a name is too deep to be worked on. -/
theorem ofListing_entries (listing : Listing) (exported : List Export) (options : Options) :
    let lines := listing.sourceLines
    let defs := Definition.definitions lines
    let tree := treeOf (placed defs exported) listing.lines listing.sourceOf options.tolerance
    let document := ofListing listing exported options
    (∀ before x later, exported = before ++ x :: later →
      ((before.foldl (complete lines options) tree).get? x.name).isSome) ∧
    (∀ x ∈ exported, ∃ u, document.root.get? x.name = some u ∧
      u.entry.line = (Definition.locate defs x.name).map Int.ofNat ∧
      u.entry.description = Description.describe listing.lines listing.sourceOf options.tolerance
        ((Definition.locate defs x.name).map Int.ofNat) ∧
      u.entry.value = lastValue exported x.name ∧
      u.entry.kind = if options.classify then
          some (Source.kindOf lines ((Definition.locate defs x.name).map Int.ofNat) options.scan)
        else none) ∧
    (∀ path u, document.root.below.get? path = some u →
      (∀ x ∈ exported, segments x.name ≠ path) → u.entry = {}) ∧
    document.root.entry = {} ∧
    (∃ members, document.metadata = .obj members ∧
      Json.get? "unresolved_labels" members = some (.arr (((exported.map (·.name)).filter
        fun name => (Definition.locate defs name).isNone).map .str))) ∧
    ∀ w, (ofPlan options.plan (.whole listing.column) listing.name listing.lines exported w).1 =
      if ∀ x ∈ exported, (segments x.name).length ≤ Tree.maxWalkDepth then .ok document
      else .error .tooDeep := by
  intro lines defs tree document
  refine ⟨?_, ?_, ?_, ?_, ofListing_unresolved listing exported options,
    ofPlan_whole listing exported options⟩
  · intro before x later split
    have member : x ∈ exported := by simp [split]
    rw [← Option.isSome_map (f := fun u : Tree => u.entry), get?_entry, completed_entryAt?,
      treeOf_placed _ _ _ _ _ x member]
    rfl
  · intro x member
    obtain ⟨y, value, entry⟩ := ofListing_exported listing exported options x member
    rw [← get?_entry] at entry
    obtain ⟨u, found, same⟩ := Option.map_eq_some_iff.mp entry
    refine ⟨u, found, ?_⟩
    rw [same]
    exact ⟨rfl, rfl, value, rfl⟩
  · intro path u found absent
    have nonempty : path ≠ [] := by
      rintro rfl
      cases found
    apply ofListing_unexported listing exported options path nonempty absent
    rw [Forest.entryAt?, found]
    rfl
  · exact (completed_root lines options exported tree).trans (treeOf_root _ _ _ _)

end LabelAtlas.Document
