import Mathlib.Algebra.BigOperators.Group.List.Lemmas
import Mathlib.Algebra.GroupWithZero.Nat
import Mathlib.Data.Finset.Card
import Mathlib.Data.Finset.Lattice.Fold
import Mathlib.Data.Finset.Union
import Mathlib.Order.Lattice.Nat
import LabelAtlas.Proofs.Order

/-! What is counted in a document. A walk enters every path once, so a count over a walk is the size
of a set of paths, and the paths are known from the exported names. -/
namespace LabelAtlas

theorem Text.length_splitAt (mark : CodePoint) (t : Text) :
    (splitAt mark t).length = t.count mark + 1 := by
  induction t with
  | nil => rfl
  | cons c t ih =>
    by_cases here : c = mark
    · simp [splitAt, here, ih]
    · obtain ⟨part, parts, cut⟩ := List.exists_cons_of_ne_nil (splitAt_ne_nil mark t)
      rw [cut] at ih
      simpa [splitAt, here, cut] using ih

/-- The dots of a label tell the number of its segments. -/
theorem Document.depthOf_eq (label : Text) : depthOf label = (segments label).length :=
  (Text.length_splitAt _ label).symm

theorem Document.foldl_max_le_iff {α : Type} (depth : α → Nat) (items : List α) (start n : Nat) :
    items.foldl (fun most a => max most (depth a)) start ≤ n ↔
      start ≤ n ∧ ∀ a ∈ items, depth a ≤ n := by
  induction items generalizing start with
  | nil => simp
  | cons a items ih =>
    rw [List.foldl_cons, ih, Nat.max_le, List.forall_mem_cons, and_assoc]

theorem Forest.entered_cons (label s : Text) (e : Entry) (below next : Forest) :
    (cons s e below next).entered label =
      (extend label s, ⟨e, below⟩) :: (below.entered (extend label s) ++ next.entered label) := by
  simp only [entered, walk, List.filterMap_cons, List.filterMap_append, Visit.entered?]

/-- Counted level by level, every entry is counted once. -/
theorem Forest.size_cons (s : Text) (e : Entry) (below next : Forest) :
    (cons s e below next).size = below.size + next.size + 1 := by
  simp only [size, keys, deeper, List.length_cons]
  omega

theorem Forest.length_entered (f : Forest) (label : Text) : (f.entered label).length = f.size := by
  induction f generalizing label with
  | nil => rfl
  | cons s e below next below_ih next_ih =>
    rw [entered_cons, List.length_cons, List.length_append, below_ih, next_ih, size_cons]

/-- A count over a walk is the size of the set of paths that pass the test. -/
theorem Tree.countP_entered {t : Tree} (proper : t.below.Proper) (readable : t.Readable)
    (test : Text × Tree → Bool) (paths : Finset (List Text))
    (told : ∀ path, path ∈ paths ↔ ∃ u, t.below.get? path = some u ∧ test (labelOf path, u)) :
    (t.entered []).countP test = paths.card := by
  have distinct : (((t.entered []).filter test).map fun p => segments p.1).Nodup := by
    have labels := (List.filter_sublist (p := test)).map Prod.fst |>.nodup
      (entered_nodup proper readable)
    simpa [Function.comp_def] using labels.map segments_injective
  rw [List.countP_eq_length_filter, ← List.length_map (f := fun p : Text × Tree => segments p.1),
    ← List.toFinset_card_of_nodup distinct]
  congr 1
  ext path
  simp only [List.mem_toFinset, List.mem_map, List.mem_filter, told]
  constructor
  · rintro ⟨⟨q, u⟩, ⟨entered, passes⟩, rfl⟩
    obtain ⟨path, rfl, found⟩ := (mem_entered proper q u).mp entered
    rw [readable path u found]
    exact ⟨u, found, passes⟩
  · rintro ⟨u, found, passes⟩
    have entered := (mem_entered proper (labelOf path) u).mpr ⟨path, rfl, found⟩
    exact ⟨(labelOf path, u), ⟨entered, passes⟩, readable path u found⟩

namespace Statistics

theorem eraseDups_nodup {α : Type} [BEq α] [LawfulBEq α] (names : List α) :
    names.eraseDups.Nodup := by
  induction names using List.reverseRecOn with
  | nil => simp
  | append_singleton names name ih =>
    rw [eraseDups_concat]
    split
    · exact ih
    · rename_i fresh
      refine List.nodup_append.mpr ⟨ih, by simp, ?_⟩
      intro x known y last same
      rw [same, List.mem_singleton.mp last] at known
      exact fresh (List.mem_eraseDups.mp known)

/-- Each kind that is met is counted once for every time that it is met. -/
theorem foldl_countKind (kinds : List Kind) :
    kinds.foldl countKind [] = kinds.eraseDups.map fun k => (k, kinds.count k) := by
  induction kinds using List.reverseRecOn with
  | nil => rfl
  | append_singleton kinds k ih =>
    have met : (kinds.eraseDups.map fun j => (j, kinds.count j)).any (·.1 = k) = true ↔
        k ∈ kinds := by
      simp
    rw [List.foldl_append, ih, List.foldl_cons, List.foldl_nil, countKind, eraseDups_concat]
    by_cases known : k ∈ kinds
    · rw [if_pos (met.mpr known), if_pos known, List.map_map]
      apply List.map_congr_left
      intro j _
      by_cases same : j = k
      · simp [same]
      · simp [same, Ne.symm same]
    · rw [if_neg (mt met.mp known), if_neg known, List.map_append]
      congr 1
      · apply List.map_congr_left
        intro j earlier
        have other : k ≠ j := by
          rintro rfl
          exact known (List.mem_eraseDups.mp earlier)
        simp [other]
      · simp [List.count_eq_zero_of_not_mem known]

theorem sum_foldl_countKind (kinds : List Kind) :
    ((kinds.foldl countKind []).map (·.2)).sum = kinds.length := by
  have same : kinds.eraseDups.Perm kinds.dedup :=
    (List.perm_ext_iff_of_nodup (eraseDups_nodup kinds) kinds.nodup_dedup).mpr (by simp)
  rw [foldl_countKind, List.map_map, ← List.sum_map_count_dedup_eq_length kinds]
  exact (same.map _).sum_eq

end Statistics

namespace Document

/-- The names of exports, each of them once. -/
def namesOf (exported : List Export) : Finset Text :=
  (exported.map (·.name)).toFinset

/-- The paths that a name runs through, down to its own. -/
def pathsOf (name : Text) : Finset (List Text) :=
  (segments name).inits.toFinset.erase []

/-- The paths of the namespaces that a name lies in. -/
def namespacesOf (name : Text) : Finset (List Text) :=
  (pathsOf name).erase (segments name)

@[simp] theorem mem_namesOf (exported : List Export) (name : Text) :
    name ∈ namesOf exported ↔ ∃ x ∈ exported, x.name = name := by
  simp [namesOf]

@[simp] theorem mem_pathsOf (name : Text) (path : List Text) :
    path ∈ pathsOf name ↔ path ≠ [] ∧ path <+: segments name := by
  simp [pathsOf]

section

variable (listing : Listing) (exported : List Export) (options : Options)

/-- The entry of an exported name has its line, the comment above it and, if asked for, a kind. -/
theorem ofListing_named {x : Export} (member : x ∈ exported) {u : Tree}
    (found : (ofListing listing exported options).root.get? x.name = some u) :
    let line := lineOf (Definition.definitions listing.sourceLines) x.name
    u.entry.line = line ∧
    u.entry.description =
      Description.describe listing.lines listing.sourceOf options.tolerance line ∧
    u.entry.kind.isSome = options.classify := by
  obtain ⟨y, _, entry⟩ := ofListing_exported listing exported options x member
  rw [← get?_entry, found] at entry
  have filled_in := Option.some.inj entry
  simp only at filled_in
  rw [filled_in]
  refine ⟨rfl, rfl, ?_⟩
  cases asked : options.classify <;> simp [filled, asked]

theorem present_ofListing (path : List Text) :
    ((ofListing listing exported options).root.below.get? path).isSome ↔
      path ≠ [] ∧ ∃ x ∈ exported, path <+: segments x.name := by
  rw [present_iff _ _ (ofListing_shape listing exported options)]
  simp [placed]

theorem exists_get?_ofListing {x : Export} (member : x ∈ exported) :
    ∃ u, (ofListing listing exported options).root.get? x.name = some u := by
  apply Option.isSome_iff_exists.mp
  rw [Tree.get?_eq_segments]
  exact (present_ofListing listing exported options (segments x.name)).mpr
    ⟨segments_ne_nil _, x, member, List.prefix_refl _⟩

section Undotted

variable (undotted : ∀ x ∈ exported, x.name.head? ≠ some (.scalar '.'))
include undotted

theorem readable_ofListing :
    (ofListing listing exported options).root.Readable :=
  readable_of_shape _ _ (ofListing_shape listing exported options)
    (List.forall_mem_map.mpr undotted)

/-- A walk enters the paths of all names. -/
theorem length_entered_ofListing :
    (ofListing listing exported options).entered.length =
      ((namesOf exported).biUnion pathsOf).card := by
  have proper := proper_of_shape (ofListing_shape listing exported options)
  have readable := readable_ofListing listing exported options undotted
  have counted := Tree.countP_entered proper readable (fun _ => true)
    ((namesOf exported).biUnion pathsOf) ?_
  · rwa [List.countP_true] at counted
  · intro path
    have present := present_ofListing listing exported options path
    simp only [Option.isSome_iff_exists] at present
    simp only [Finset.mem_biUnion, mem_namesOf, mem_pathsOf, and_true, present]
    constructor
    · rintro ⟨name, ⟨x, member, rfl⟩, nonempty, start⟩
      exact ⟨nonempty, x, member, start⟩
    · rintro ⟨nonempty, x, member, start⟩
      exact ⟨x.name, ⟨x, member, rfl⟩, nonempty, start⟩

/-- A test that no entry but those of exported names passes counts the names whose entry does. -/
theorem countP_ofListing (test : Text × Tree → Bool) (good : Text → Bool)
    (named : ∀ x ∈ exported, ∀ u,
      (ofListing listing exported options).root.get? x.name = some u →
        test (x.name, u) = good x.name)
    (others : ∀ q u, q ∉ namesOf exported → u.entry = {} → test (q, u) = false) :
    (ofListing listing exported options).entered.countP test =
      ((namesOf exported).filter fun name => good name).card := by
  have readable := readable_ofListing listing exported options undotted
  have proper := proper_of_shape (ofListing_shape listing exported options)
  have present := present_ofListing listing exported options
  rw [← Finset.card_image_of_injective _ segments_injective]
  apply Tree.countP_entered proper readable
  intro path
  simp only [Finset.mem_image, Finset.mem_filter, mem_namesOf]
  constructor
  · rintro ⟨_, ⟨⟨x, member, rfl⟩, passes⟩, rfl⟩
    obtain ⟨u, found⟩ := exists_get?_ofListing listing exported options member
    refine ⟨u, (Tree.get?_eq_segments _ _).symm.trans found, ?_⟩
    rw [labelOf_segments _ (undotted x member), named x member u found]
    exact passes
  · rintro ⟨u, found, passes⟩
    have read := readable path u found
    by_cases exported_here : ∃ x ∈ exported, segments x.name = path
    · obtain ⟨x, member, rfl⟩ := exported_here
      rw [← Tree.get?_eq_segments] at found
      rw [labelOf_segments _ (undotted x member), named x member u found] at passes
      exact ⟨x.name, ⟨⟨x, member, rfl⟩, passes⟩, rfl⟩
    · have nonempty : path ≠ [] := ((present path).mp (by rw [found]; rfl)).1
      have empty : u.entry = {} := by
        apply ofListing_unexported listing exported options path nonempty
        · intro x member same
          exact exported_here ⟨x, member, same⟩
        · rw [Forest.entryAt?, found]
          rfl
      have unnamed : labelOf path ∉ namesOf exported := by
        rw [mem_namesOf]
        rintro ⟨x, member, same⟩
        exact exported_here ⟨x, member, by rw [same, read]⟩
      rw [others _ u unnamed empty] at passes
      cases passes

theorem maxDepth_ofListing :
    (ofListing listing exported options).maxDepth =
      (namesOf exported).sup fun name => (segments name).length := by
  have proper := proper_of_shape (ofListing_shape listing exported options)
  have readable := readable_ofListing listing exported options undotted
  have present := present_ofListing listing exported options
  apply eq_of_forall_ge_iff
  intro n
  rw [maxDepth, foldl_max_le_iff, Finset.sup_le_iff]
  constructor
  · rintro ⟨_, all⟩ name known
    obtain ⟨x, member, rfl⟩ := (mem_namesOf exported name).mp known
    obtain ⟨u, found⟩ := exists_get?_ofListing listing exported options member
    rw [Tree.get?_eq_segments] at found
    have entered := (Tree.mem_entered proper x.name u).mpr
      ⟨segments x.name, labelOf_segments _ (undotted x member), found⟩
    rw [← depthOf_eq]
    exact all (x.name, u) entered
  · intro all
    refine ⟨Nat.zero_le n, ?_⟩
    rintro ⟨q, u⟩ entered
    obtain ⟨path, rfl, found⟩ := (Tree.mem_entered proper q u).mp entered
    obtain ⟨_, x, member, start⟩ := (present path).mp (by rw [found]; rfl)
    rw [depthOf_eq, readable path u found]
    exact start.length_le.trans (all x.name ((mem_namesOf exported x.name).mpr ⟨x, member, rfl⟩))

theorem labelled_ofListing :
    (ofListing listing exported options).entered.countP (fun p => p.2.entry.hasLine) =
      ((namesOf exported).filter fun name =>
        (Definition.locate (Definition.definitions listing.sourceLines) name).isSome).card := by
  apply countP_ofListing listing exported options undotted
  · intro x member u found
    have line := (ofListing_named listing exported options member found).1
    rw [Entry.hasLine, line, lineOf, Option.isSome_map]
  · intro q u _ empty
    rw [empty]
    rfl

theorem unresolved_ofListing :
    let defs := Definition.definitions listing.sourceLines
    (ofListing listing exported options).entered.countP
        (fun p => !p.2.entry.hasLine && (unresolved defs exported).contains p.1) =
      ((namesOf exported).filter fun name => (Definition.locate defs name).isNone).card := by
  intro defs
  apply countP_ofListing listing exported options undotted
  · intro x member u found
    have listed : (unresolved defs exported).contains x.name =
        (Definition.locate defs x.name).isNone := by
      rw [Bool.eq_iff_iff, List.contains_iff_mem, unresolved, List.mem_filter]
      exact and_iff_right (List.mem_map_of_mem member)
    have line := (ofListing_named listing exported options member found).1
    rw [listed, Entry.hasLine, line, lineOf, Option.isSome_map]
    cases Definition.locate defs x.name <;> rfl
  · intro q u unnamed _
    have unlisted : q ∉ unresolved defs exported := by
      intro listed
      exact unnamed (List.mem_toFinset.mpr (List.mem_filter.mp listed).1)
    simp [unlisted]

theorem documented_ofListing :
    let defs := Definition.definitions listing.sourceLines
    (ofListing listing exported options).entered.countP (fun p => isDocumented p.2.entry) =
      ((namesOf exported).filter fun name => (Definition.locate defs name).isSome &&
        (Description.describe listing.lines listing.sourceOf options.tolerance
          (lineOf defs name)).any (!·.isEmpty)).card := by
  intro defs
  apply countP_ofListing listing exported options undotted
  · intro x member u found
    obtain ⟨line, description, _⟩ := ofListing_named listing exported options member found
    rw [isDocumented, Entry.hasLine, line, description, lineOf, Option.isSome_map]
  · intro q u _ empty
    rw [empty]
    rfl

/-- Kinds are given to the entries of all exported names, or to none. -/
theorem kinds_ofListing :
    ((ofListing listing exported options).entered.filterMap fun p => p.2.entry.kind).length =
      if options.classify then (namesOf exported).card else 0 := by
  have counted : (ofListing listing exported options).entered.countP
      (fun p => p.2.entry.kind.isSome) =
        ((namesOf exported).filter fun _ => options.classify).card := by
    apply countP_ofListing listing exported options undotted
    · intro x member u found
      exact (ofListing_named listing exported options member found).2.2
    · intro q u _ empty
      rw [empty]
      rfl
  rw [List.length_filterMap_eq_countP, counted]
  cases options.classify <;> simp

end Undotted

theorem card_resolved_add_card_unresolved (names : Finset Text) (found : Text → Option Nat) :
    (names.filter fun name => (found name).isSome).card +
      (names.filter fun name => (found name).isNone).card = names.card := by
  rw [← Finset.card_filter_add_card_filter_not (s := names) fun name => (found name).isSome = true]
  simp

/-- Every path of a name is that of an exported name or of a namespace that is not exported. -/
theorem card_namespaces (names : Finset Text) :
    (names.biUnion namespacesOf \ names.image segments).card =
      (names.biUnion pathsOf).card - names.card := by
  have own : names.image segments ⊆ names.biUnion pathsOf := by
    intro path member
    obtain ⟨name, known, rfl⟩ := Finset.mem_image.mp member
    exact Finset.mem_biUnion.mpr
      ⟨name, known, (mem_pathsOf _ _).mpr ⟨segments_ne_nil _, List.prefix_refl _⟩⟩
  have same : names.biUnion namespacesOf \ names.image segments =
      names.biUnion pathsOf \ names.image segments := by
    ext path
    simp only [Finset.mem_sdiff, Finset.mem_biUnion, namespacesOf, Finset.mem_erase]
    constructor
    · rintro ⟨⟨name, known, _, through⟩, unnamed⟩
      exact ⟨⟨name, known, through⟩, unnamed⟩
    · rintro ⟨⟨name, known, through⟩, unnamed⟩
      refine ⟨⟨name, known, ?_, through⟩, unnamed⟩
      rintro rfl
      exact unnamed (Finset.mem_image_of_mem _ known)
  rw [same, Finset.card_sdiff_of_subset own, Finset.card_image_of_injective _ segments_injective]

theorem namesIn?_texts (names : List Text) : namesIn? (.arr (names.map .str)) = some names := by
  unfold namesIn?
  dsimp only
  rw [if_neg (by simp), List.filterMap_map]
  exact congrArg some List.filterMap_some

/-- The names without a line are always listed so that they can be counted. -/
theorem ofListing_unresolvedNames :
    (ofListing listing exported options).unresolvedNames =
      .ok (unresolved (Definition.definitions listing.sourceLines) exported) := by
  obtain ⟨members, metadata, listed⟩ := ofListing_unresolved listing exported options
  simp only [unresolvedNames, metadata, listed, namesIn?_texts]
  rfl

theorem ofListing_statistics :
    (ofListing listing exported options).statistics =
      .ok ((ofListing listing exported options).statisticsWith
        (unresolved (Definition.definitions listing.sourceLines) exported)) := by
  rw [statistics, ofListing_unresolvedNames]
  rfl

theorem ofListing_walkable
    (shallow : ∀ x ∈ exported, (segments x.name).length ≤ Tree.maxWalkDepth) :
    (ofListing listing exported options).root.checkWalk = .ok () := by
  have same := Tree.shape_below (ofListing_shape listing exported options)
  rw [Tree.checkWalk, Forest.depth_of_shape same, if_pos]
  rw [plant_depth]
  exact List.forall_mem_map.mpr shallow

theorem ofListing_checkedStatistics
    (shallow : ∀ x ∈ exported, (segments x.name).length ≤ Tree.maxWalkDepth) :
    (ofListing listing exported options).checkedStatistics =
      .ok ((ofListing listing exported options).statisticsWith
        (unresolved (Definition.definitions listing.sourceLines) exported)) := by
  unfold checkedStatistics
  rw [ofListing_unresolvedNames, ofListing_walkable listing exported options shallow,
    ofListing_statistics]
  rfl

end

/-- The statistics of a document, if no exported name starts with a dot, are told by the set of
exported names: there is an entry for every path of a name, a line for every name that is defined,
and the names that are not defined are unresolved. What is left are the namespaces that are not
exported themselves. This is so in the document that is built, unless a name is too deep to be
worked on. -/
theorem statistics_by_names (listing : Listing) (exported : List Export) (options : Options)
    (undotted : ∀ x ∈ exported, x.name.head? ≠ some (.scalar '.')) :
    let defs := Definition.definitions listing.sourceLines
    let names := namesOf exported
    let description name := Description.describe listing.lines listing.sourceOf options.tolerance
      (lineOf defs name)
    let document := ofListing listing exported options
    ∃ s, document.statistics = .ok s ∧
      s.total = (names.biUnion pathsOf).card ∧
      s.total = document.root.below.size ∧
      s.labelled = (names.filter fun name => (Definition.locate defs name).isSome).card ∧
      s.unresolved = (names.filter fun name => (Definition.locate defs name).isNone).card ∧
      s.namespaces = (names.biUnion namespacesOf \ names.image segments).card ∧
      s.documented = (names.filter fun name =>
        (Definition.locate defs name).isSome && (description name).any (!·.isEmpty)).card ∧
      s.documented + s.undocumented = s.labelled ∧
      s.maxDepth = names.sup (fun name => (segments name).length) ∧
      (if options.classify then (s.kinds.map (·.2)).sum = names.card else s.kinds = []) ∧
      ∀ w, if ∀ x ∈ exported, (segments x.name).length ≤ Tree.maxWalkDepth then
          (ofPlan options.plan (.whole listing.column) listing.name listing.lines exported w).1 =
            .ok document ∧ document.checkedStatistics = .ok s
        else
          (ofPlan options.plan (.whole listing.column) listing.name listing.lines exported w).1 =
            .error .tooDeep := by
  intro defs names description document
  have total : document.entered.length = (names.biUnion pathsOf).card :=
    length_entered_ofListing listing exported options undotted
  have labelled := labelled_ofListing listing exported options undotted
  have missing := unresolved_ofListing listing exported options undotted
  have documented := documented_ofListing listing exported options undotted
  have kinds := kinds_ofListing listing exported options undotted
  have resolved := card_resolved_add_card_unresolved names (Definition.locate defs)
  refine ⟨document.statisticsWith (unresolved defs exported),
    ofListing_statistics listing exported options, total, Forest.length_entered _ _, labelled,
    missing, ?_, documented, ?_, maxDepth_ofListing listing exported options undotted, ?_, ?_⟩
  · show document.entered.length - document.entered.countP _ - document.entered.countP _ = _
    rw [total, labelled, missing, card_namespaces, Nat.sub_sub]
    exact congrArg (_ - ·) resolved
  · have fewer : document.entered.countP (fun p => isDocumented p.2.entry) ≤
        document.entered.countP (fun p => p.2.entry.hasLine) :=
      List.countP_mono_left fun p _ both => (Bool.and_eq_true_iff.mp both).1
    exact Nat.add_sub_of_le fewer
  · split
    · rename_i asked
      rw [if_pos asked] at kinds
      exact (Statistics.sum_foldl_countKind _).trans kinds
    · rename_i unasked
      rw [if_neg unasked] at kinds
      show List.foldl _ _ _ = _
      rw [List.eq_nil_of_length_eq_zero kinds]
      rfl
  · intro w
    have built := ofPlan_whole listing exported options w
    split
    · rename_i shallow
      rw [if_pos shallow] at built
      exact ⟨built, ofListing_checkedStatistics listing exported options shallow⟩
    · rename_i deep
      rwa [if_neg deep] at built

/-- A name is exported twice, another one is a namespace of a third, and two are not defined. -/
theorem statistics_by_names_overlapping :
    let listing : Listing := ⟨["; Prints.", "text.print: ret", "text.put: ret"], 0, .null⟩
    let exported : List Export := [⟨"text.print", some 1⟩, ⟨"text.put", none⟩,
      ⟨"text.print", some 2⟩, ⟨"io.port.in", none⟩, ⟨"io.port", some 254⟩]
    (∀ x ∈ exported, x.name.head? ≠ some (.scalar '.')) ∧
    ∃ s, (ofListing listing exported {}).statistics = .ok s ∧ s.total = 6 ∧ s.labelled = 2 ∧
      s.unresolved = 2 ∧ s.namespaces = 2 ∧ s.documented = 1 ∧ s.undocumented = 1 ∧
      s.maxDepth = 3 ∧ (s.kinds.map (·.2)).sum = 4 := by
  intro listing exported
  have undotted : ∀ x ∈ exported, x.name.head? ≠ some (.scalar '.') := by decide
  obtain ⟨s, counted, total, _, labelled, unresolved, namespaces, documented, both, depth, kinds,
    _⟩ := statistics_by_names listing exported {} undotted
  have labelled : s.labelled = 2 := labelled.trans (by decide +kernel)
  have documented : s.documented = 1 := documented.trans (by decide +kernel)
  refine ⟨undotted, s, counted, total.trans (by decide +kernel), labelled,
    unresolved.trans (by decide +kernel), namespaces.trans (by decide +kernel), documented, ?_,
    depth.trans (by decide +kernel), ?_⟩
  · omega
  · exact (if_pos rfl ▸ kinds).trans (by decide +kernel)

end Document

end LabelAtlas
