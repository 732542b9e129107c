import LabelAtlas.Proofs.Counts
import LabelAtlas.Proofs.JsonText

/-! Trees made again from their JSON text. A walk lists every entry behind the one above it, so that
putting the entries in that order into an empty tree builds the same tree. -/
namespace LabelAtlas

/-! ## Building a forest from its entries -/

namespace Forest

/-- The entries in the order of a walk, each with its path. -/
def rows : Forest → List (List Text × Entry)
  | nil => []
  | cons s e below next => ([s], e) :: (below.rows.map fun r => (s :: r.1, r.2)) ++ next.rows

/-- A forest behind another. -/
def append : Forest → Forest → Forest
  | nil, g => g
  | cons s e below next, g => cons s e below (next.append g)

@[simp] theorem append_nil (f : Forest) : f.append nil = f := by
  induction f with
  | nil => rfl
  | cons s e below next _ ih => rw [append, ih]

theorem append_assoc (f g h : Forest) : (f.append g).append h = f.append (g.append h) := by
  induction f with
  | nil => rfl
  | cons s e below next _ ih => rw [append, append, append, ih]

theorem keys_append (f g : Forest) : (f.append g).keys = f.keys ++ g.keys := by
  induction f with
  | nil => rfl
  | cons s e below next _ ih => rw [append, keys, keys, ih, List.cons_append]

theorem insert_append (g : Entry → Entry) {f : Forest} {s : Text} (fresh : s ∉ f.keys)
    (h : Forest) (path : List Text) :
    (f.append h).insert g (s :: path) = f.append (h.insert g (s :: path)) := by
  induction f with
  | nil => rfl
  | cons r e below next _ ih =>
    have apart : r ≠ s := fun same => fresh (same ▸ List.mem_cons_self)
    rw [append, insert, if_neg apart, ih fun member => fresh (List.mem_cons_of_mem _ member)]
    rfl

theorem modify_chain (g h : Entry → Entry) (path : List Text) :
    (chain g path).modify (fun u => { u with entry := h u.entry }) path
      = chain (fun e => h (g e)) path := by
  induction path with
  | nil => rfl
  | cons s path ih =>
    cases path with
    | nil => simp [chain, modify]
    | cons r path => simpa [chain, modify] using ih

/-- A note on an entry that was just inserted could be made in the insertion. -/
theorem modify_insert (g h : Entry → Entry) (f : Forest) (path : List Text) :
    (f.insert g path).modify (fun u => { u with entry := h u.entry }) path
      = f.insert (fun e => h (g e)) path := by
  induction f generalizing path with
  | nil =>
    cases path with
    | nil => rfl
    | cons s path => exact modify_chain g h (s :: path)
  | cons r e below next below_ih next_ih =>
    cases path with
    | nil => rfl
    | cons s path =>
      by_cases here : r = s
      · cases path with
        | nil => simp [insert, modify, here, insert_empty_path]
        | cons q path => simp [insert, modify, here, below_ih]
      · simp [insert, modify, here, next_ih]

theorem ne_nil_of_mem_rows {f : Forest} {r : List Text × Entry} (member : r ∈ f.rows) :
    r.1 ≠ [] := by
  induction f with
  | nil => cases member
  | cons s e below next _ ih =>
    simp only [rows, List.cons_append, List.mem_cons, List.mem_append, List.mem_map] at member
    rcases member with rfl | ⟨q, -, rfl⟩ | further
    · simp
    · simp
    · exact ih further

/-- An entry is put at the end of its path, and replaces what is there. -/
def place (f : Forest) (r : List Text × Entry) : Forest :=
  f.insert (fun _ => r.2) r.1

theorem foldl_place_below {f : Forest} {s : Text} (fresh : s ∉ f.keys) (e : Entry)
    (listed : List (List Text × Entry)) (nonempty : ∀ r ∈ listed, r.1 ≠ []) (below : Forest) :
    (listed.map fun r => (s :: r.1, r.2)).foldl place (f.append (cons s e below nil))
      = f.append (cons s e (listed.foldl place below) nil) := by
  induction listed generalizing below with
  | nil => rfl
  | cons r listed ih =>
    have more : r.1.isEmpty = false := by simpa using nonempty r List.mem_cons_self
    have first : place (f.append (cons s e below nil)) (s :: r.1, r.2)
        = f.append (cons s e (place below r) nil) := by
      rw [place, insert_append _ fresh]
      simp [insert, more, place]
    rw [List.map_cons, List.foldl_cons, first, List.foldl_cons]
    exact ih (fun r member => nonempty r (List.mem_cons_of_mem _ member)) _

/-- The entries of a forest, put in the order of a walk behind another forest, build it there. -/
theorem foldl_place_rows {g : Forest} (proper : g.Proper) (f : Forest)
    (apart : ∀ s ∈ g.keys, s ∉ f.keys) : g.rows.foldl place f = f.append g := by
  induction g generalizing f with
  | nil => exact (append_nil f).symm
  | cons s e below next below_ih next_ih =>
    obtain ⟨fresh, inner, others⟩ := proper
    have new : s ∉ f.keys := apart s List.mem_cons_self
    have first : place f ([s], e) = f.append (cons s e nil nil) := by
      rw [place]
      simpa [chain, insert] using insert_append (fun _ => e) new nil []
    have inside : below.rows.foldl place nil = below := below_ih inner nil (by simp [keys])
    have behind : ∀ r ∈ next.keys, r ∉ (f.append (cons s e below nil)).keys := by
      intro r member
      rw [keys_append, List.mem_append, not_or]
      refine ⟨apart r (List.mem_cons_of_mem _ member), ?_⟩
      simp only [keys, List.mem_singleton]
      rintro rfl
      exact fresh member
    rw [rows, List.cons_append, List.foldl_cons, List.foldl_append, first,
      foldl_place_below new e below.rows (fun r => ne_nil_of_mem_rows) nil, inside,
      next_ih others _ behind, append_assoc]
    rfl

theorem entryAt?_of_mem_rows {f : Forest} (proper : f.Proper) {r : List Text × Entry}
    (member : r ∈ f.rows) : f.entryAt? r.1 = some r.2 := by
  induction f generalizing r with
  | nil => cases member
  | cons s e below next below_ih next_ih =>
    obtain ⟨fresh, inner, others⟩ := proper
    simp only [rows, List.cons_append, List.mem_cons, List.mem_append, List.mem_map] at member
    rcases member with rfl | ⟨q, inside, rfl⟩ | further
    · simp [entryAt?_cons, find?]
    · simpa [entryAt?_cons, find?, ne_nil_of_mem_rows inside] using below_ih inner inside
    · have found := next_ih others further
      obtain ⟨t, path, path_eq⟩ := List.exists_cons_of_ne_nil (ne_nil_of_mem_rows further)
      rw [path_eq, entryAt?_cons] at found ⊢
      obtain ⟨u, here, found⟩ := Option.bind_eq_some_iff.mp found
      have apart : s ≠ t := by
        rintro rfl
        exact fresh (mem_keys_of_find? here)
      rw [find?, if_neg apart, here]
      exact found

end Forest

/-! ## Edits -/

/-- The line that a number stands for. -/
def Entry.lineOf (n : Int) : Option Int :=
  if n = -1 then none else some n

theorem Entry.lineOf_lineNumber {e : Entry} (told : e.line ≠ some (-1)) :
    lineOf e.lineNumber = e.line := by
  rcases e with ⟨_ | n, _, _, _⟩
  · rfl
  · have other : n ≠ -1 := fun same => told (congrArg some same)
    simp [lineOf, lineNumber, other]

/-- What can be done to a tree from its root. -/
inductive Edit where
  | insert (label : Text) (line : Int)
  | describe (label : Text) (description : Option Text)
  | classify (label : Text) (kind : Option Kind)
  | assign (label : Text) (value : Option Int)
  deriving DecidableEq, Repr

/-- Changes the entry of a label, if there is one. -/
def Tree.note (t : Tree) (label : Text) (g : Entry → Entry) : Tree :=
  t.modify label fun u => { u with entry := g u.entry }

/-- Changes the entry of a label, which is made if there is none. -/
def Tree.enter (t : Tree) (label : Text) (g : Entry → Entry) : Tree :=
  { t with below := t.below.insert g (segments label) }

namespace Edit

def apply (t : Tree) : Edit → Tree
  | insert label line => t.insert label (Entry.lineOf line)
  | describe label description => t.note label fun e => { e with description := description }
  | classify label kind => t.note label fun e => { e with kind := kind }
  | assign label value => t.note label fun e => { e with value := value }

/-- The tree after a run of edits. -/
def run (edits : List Edit) (t : Tree) : Tree :=
  edits.foldl apply t

/-- The edits that make an entry and note everything on it. -/
def making (label : Text) (e : Entry) : List Edit :=
  [insert label e.lineNumber, describe label e.description, classify label e.kind,
    assign label e.value]

theorem note_enter (t : Tree) (label : Text) (g h : Entry → Entry) :
    (t.enter label g).note label h = t.enter label fun e => h (g e) := by
  rw [Tree.enter, Tree.note, Tree.modify, Forest.modify_insert]
  rfl

theorem run_making (t : Tree) (label : Text) {e : Entry} (told : e.line ≠ some (-1)) :
    run (making label e) t = t.enter label fun _ => e := by
  have started : t.insert label (Entry.lineOf e.lineNumber)
      = t.enter label fun old => { old with line := e.line } := by
    rw [Entry.lineOf_lineNumber told]
    rfl
  simp only [run, making, List.foldl_cons, List.foldl_nil, apply]
  rw [started, note_enter, note_enter, note_enter]

end Edit

/-- A tree that edits can lead to: nothing is noted at its root, every path can be read off its
label, and minus one is no line. -/
structure Tree.Sound (t : Tree) : Prop where
  root : t.entry = {}
  proper : t.below.Proper
  readable : ∀ path e, t.below.entryAt? path = some e → segments (labelOf path) = path
  told : ∀ path e, t.below.entryAt? path = some e → e.line ≠ some (-1)

namespace Edit

theorem sound_empty : ({} : Tree).Sound where
  root := rfl
  proper := trivial
  readable := by simp
  told := by simp

theorem sound_insert {t : Tree} (sound : t.Sound) {label : Text}
    (undotted : label.head? ≠ some (.scalar '.')) (line : Int) :
    (t.insert label (Entry.lineOf line)).Sound where
  root := sound.root
  proper := sound.proper.insert _ _
  readable := by
    intro path e found
    have nonempty : path ≠ [] := by
      rintro rfl
      cases found
    simp only [Tree.insert] at found
    rw [Forest.entryAt?_insert _ _ _ nonempty] at found
    split at found
    next start =>
      refine segments_labelOf path nonempty ((segmented_segments label).of_start start) ?_
      intro dotted
      exact undotted ((dotted_segments label).mp (dotted.longer start))
    next => exact sound.readable path e found
  told := by
    intro path e found
    have nonempty : path ≠ [] := by
      rintro rfl
      cases found
    simp only [Tree.insert] at found
    rw [Forest.entryAt?_insert _ _ _ nonempty] at found
    have before : ((t.below.entryAt? path).getD {}).line ≠ some (-1) := by
      cases known : t.below.entryAt? path with
      | none => simp
      | some old => exact sound.told path old known
    split at found
    next =>
      obtain rfl := Option.some.inj found
      split
      · simp only [Entry.lineOf]
        split <;> simp_all
      · exact before
    next => exact sound.told path e found

theorem sound_note {t : Tree} (sound : t.Sound) (label : Text) (g : Entry → Entry)
    (kept : ∀ e, (g e).line = e.line) : (t.note label g).Sound where
  root := sound.root
  proper := .of_shape (Forest.shape_modify g t.below (segments label)) sound.proper
  readable := by
    intro path e found
    simp only [Tree.note, Tree.modify, Forest.entryAt?_modify] at found
    split at found
    · obtain ⟨old, known, -⟩ := Option.map_eq_some_iff.mp found
      exact sound.readable path old known
    · exact sound.readable path e found
  told := by
    intro path e found
    simp only [Tree.note, Tree.modify, Forest.entryAt?_modify] at found
    split at found
    · obtain ⟨old, known, rfl⟩ := Option.map_eq_some_iff.mp found
      rw [kept]
      exact sound.told path old known
    · exact sound.told path e found

/-- No label is inserted that starts with a dot. -/
def Undotted : Edit → Prop
  | insert label _ => label.head? ≠ some (.scalar '.')
  | _ => True

theorem sound_apply {t : Tree} (sound : t.Sound) {edit : Edit} (undotted : edit.Undotted) :
    (edit.apply t).Sound := by
  cases edit with
  | insert label line => exact sound_insert sound undotted line
  | describe label | classify label | assign label =>
    rw [apply]
    apply sound_note sound label
    intro e
    rfl

theorem sound_run {edits : List Edit} (undotted : ∀ edit ∈ edits, edit.Undotted) {t : Tree}
    (sound : t.Sound) : (run edits t).Sound := by
  induction edits generalizing t with
  | nil => exact sound
  | cons edit edits ih =>
    obtain ⟨first, others⟩ := List.forall_mem_cons.mp undotted
    exact ih others (sound_apply sound first)

end Edit

/-! ## Reading entries back -/

namespace Json

mutual

/-- The objects in a value, each before those inside it. -/
def objects : Json → List Object
  | arr items => objectsInItems items
  | obj members => members :: objectsInMembers members
  | _ => []

def objectsInItems : List Json → List Object
  | [] => []
  | x :: xs => objects x ++ objectsInItems xs

def objectsInMembers : List (Text × Json) → List Object
  | [] => []
  | (_, x) :: xs => objects x ++ objectsInMembers xs

end

@[simp] theorem objects_ofText? (t : Option Text) : (ofText? t).objects = [] := by
  cases t <;> rfl

@[simp] theorem objects_ofInt? (n : Option Int) : (ofInt? n).objects = [] := by
  cases n <;> rfl

/-- An entry in an outline is an object with those of the entries below it behind it. -/
theorem objects_entryMembers (label : Text) (e : Entry) (children : List Json) :
    ∃ members, entryMembers (.str label) e children = obj members ∧
      (entryMembers (.str label) e children).objects = members :: objectsInItems children := by
  rw [entryMembers, objects]
  refine ⟨_, rfl, congrArg (List.cons _) ?_⟩
  simp [objectsInMembers, objects]

/-- The member of an object with a key. -/
def member? (key : Text) : Json → Option Json
  | obj members => get? key members
  | _ => none

/-- A text or none, if a value is one of them. -/
def text? : Json → Option (Option Text)
  | null => some none
  | str t => some (some t)
  | _ => none

/-- A whole number or none, if a value is one of them. -/
def int? : Json → Option (Option Int)
  | null => some none
  | int n => some (some n)
  | _ => none

/-- A kind or none, if a value names one of them. -/
def kind? : Json → Option (Option Kind)
  | null => some none
  | str t => (Kind.ofName? t).map some
  | _ => none

@[simp] theorem text?_str (t : Text) : (str t).text? = some (some t) :=
  rfl

@[simp] theorem int?_int (n : Int) : (int n).int? = some (some n) :=
  rfl

@[simp] theorem text?_ofText? (t : Option Text) : (ofText? t).text? = some t := by
  cases t <;> rfl

@[simp] theorem int?_ofInt? (n : Option Int) : (ofInt? n).int? = some n := by
  cases n <;> rfl

@[simp] theorem kind?_ofText? (k : Option Kind) : (ofText? (k.map Kind.name)).kind? = some k := by
  rcases k with _ | k
  · rfl
  · cases k <;> rfl

end Json

namespace Edit

open Json

/-- The edits that make the entry an object tells of. -/
def making? (members : Object) : Option (List Edit) := do
  let label ← (← (get? "label" members).bind text?)
  let line ← (← (get? "line_number" members).bind int?)
  let description ← (get? "description" members).bind text?
  let kind ← (get? "kind" members).bind kind?
  let value ← (get? "value" members).bind int?
  return [insert label line, describe label description, classify label kind, assign label value]

/-- The edits that make the entries of an exported document, in the order in which they stand. -/
def restoring? (exported : Json) : Option (List Edit) := do
  let documentation ← exported.member? "documentation"
  let entries ← documentation.member? "entries"
  let parts ← entries.objects.mapM making?
  return parts.flatten

/-- The first object of an entry in an outline tells everything that is noted on it. -/
theorem making?_entryMembers (label : Text) (e : Entry) (children : List Json) :
    ∃ members, (entryMembers (.str label) e children).objects
        = members :: objectsInItems children ∧ making? members = some (making label e) := by
  obtain ⟨members, same, listed⟩ := objects_entryMembers label e children
  refine ⟨members, listed, ?_⟩
  rw [entryMembers] at same
  cases same
  simp [making?, making, get?]

theorem making?_outline (above : List Text) (f : Forest) :
    (objectsInItems (f.outline (labelOf above))).mapM making?
      = some (f.rows.map fun r => making (labelOf (above ++ r.1)) r.2) := by
  induction f generalizing above with
  | nil => rfl
  | cons s e below next below_ih next_ih =>
    obtain ⟨members, listed, made⟩ := making?_entryMembers (labelOf (above ++ [s])) e
      (below.outline (labelOf (above ++ [s])))
    rw [Forest.outline, objectsInItems, extend_labelOf, listed, List.cons_append, List.mapM_cons,
      List.mapM_append, made, below_ih, next_ih, Forest.rows]
    simp

theorem run_makings {listed : List (List Text × Entry)} {t : Tree}
    (readable : ∀ r ∈ listed, segments (labelOf r.1) = r.1)
    (told : ∀ r ∈ listed, r.2.line ≠ some (-1)) :
    run (listed.map fun r => making (labelOf r.1) r.2).flatten t
      = { t with below := listed.foldl Forest.place t.below } := by
  induction listed generalizing t with
  | nil => rfl
  | cons r listed ih =>
    obtain ⟨first_readable, others_readable⟩ := List.forall_mem_cons.mp readable
    obtain ⟨first_told, others_told⟩ := List.forall_mem_cons.mp told
    have first := run_making t (labelOf r.1) first_told
    rw [Tree.enter, first_readable] at first
    rw [List.map_cons, List.flatten_cons, run, List.foldl_append, ← run, ← run, first,
      ih others_readable others_told]
    rfl

/-- The entries of a tree, made again in their order, give the tree. -/
theorem run_rows {t : Tree} (sound : t.Sound) :
    run (t.below.rows.map fun r => making (labelOf r.1) r.2).flatten {} = t := by
  have found (r) (member : r ∈ t.below.rows) : t.below.entryAt? r.1 = some r.2 :=
    Forest.entryAt?_of_mem_rows sound.proper member
  rw [run_makings fun r member => sound.readable r.1 r.2 (found r member)]
  · rw [Forest.foldl_place_rows sound.proper _ (by simp [Forest.keys])]
    rw [← sound.root]
    rfl
  · intro r member
    exact sound.told r.1 r.2 (found r member)

end Edit

/-! ## Exported documents -/

open Json

theorem Json.plain_ofText? (t : Option Text) : Plain (ofText? t) := by
  cases t with
  | none => exact .null
  | some t => exact .str t

theorem Json.plain_ofInt? (n : Option Int) : Plain (ofInt? n) := by
  cases n with
  | none => exact .null
  | some n => exact .int n

theorem plain_entryMembers (label : Text) (e : Entry) {children : List Json}
    (each : ∀ v ∈ children, Plain v) : Plain (entryMembers (.str label) e children) := by
  refine .obj _ (by simp only [List.map]; decide) ?_
  simp only [List.forall_mem_cons]
  exact ⟨.str _, .int _, plain_ofText? _, plain_ofText? _, plain_ofInt? _, .arr _ each,
    List.forall_mem_nil _⟩

theorem Forest.plain_outline (label : Text) (f : Forest) : ∀ v ∈ f.outline label, Plain v := by
  induction f generalizing label with
  | nil => exact List.forall_mem_nil _
  | cons s e below next below_ih next_ih =>
    rw [outline, List.forall_mem_cons]
    exact ⟨plain_entryMembers _ e (below_ih _), next_ih label⟩

theorem Forest.depthOfItems_outline (label : Text) (f : Forest) :
    depthOfItems (f.outline label) = 2 * f.depth := by
  induction f generalizing label with
  | nil => rfl
  | cons s e below next below_ih next_ih =>
    have text (t : Option Text) : (ofText? t).depth = 0 := by cases t <;> rfl
    have number : (ofInt? e.value).depth = 0 := by cases e.value <;> rfl
    rw [outline, depthOfItems, next_ih, Forest.depth, entryMembers]
    simp only [Json.depth, depthOfMembers, text, number, below_ih]
    omega

theorem Kind.name_injective : Function.Injective Kind.name := by
  intro j k same
  cases j <;> cases k <;> first | rfl | exact absurd same (by decide)

theorem Document.kinds_once (d : Document) (names : List Text) :
    ((d.statisticsWith names).kinds.map fun p => p.1.name).Nodup := by
  show ((List.foldl Statistics.countKind [] _).map _).Nodup
  rw [Statistics.foldl_countKind, List.map_map]
  exact (Statistics.eraseDups_nodup _).map Kind.name_injective

theorem Statistics.plain_toJson {s : Statistics} (once : (s.kinds.map fun p => p.1.name).Nodup) :
    Plain s.toJson := by
  have kinds : Plain (.obj (s.kinds.map fun p => (p.1.name, .int p.2))) := by
    refine .obj _ (by simpa [Function.comp_def] using once) ?_
    intro m member
    obtain ⟨p, -, rfl⟩ := List.mem_map.mp member
    exact .int _
  refine .obj _ (by simp only [List.map]; decide) ?_
  simp only [List.forall_mem_cons]
  exact ⟨.int _, .int _, .int _, .int _, .int _, .int _, .int _, kinds,
    List.forall_mem_nil _⟩

theorem Statistics.depth_toJson (s : Statistics) : s.toJson.depth = 2 := by
  have kinds (counts : List (Kind × Nat)) :
      depthOfMembers (counts.map fun p => (p.1.name, .int p.2)) = 0 := by
    induction counts with
    | nil => rfl
    | cons p counts ih => rw [List.map_cons, depthOfMembers, ih]; rfl
  simp [toJson, Json.depth, depthOfMembers, kinds]

namespace Document

/-- The document of a tree, with the labels that were not found. -/
def ofTree (title : Text) (source : Option Text) (names : List Text) (t : Tree) : Document where
  title := .str title
  sourceName := ofText? source
  metadata := .obj [("unresolved_labels", .arr (names.map .str))]
  root := t

section

variable (title time : Text) (source : Option Text) (names : List Text) (t : Tree)

/-- The values that a document of a tree is exported as. -/
def exported : Json :=
  exportJson time (.obj [
    ("title", .str title),
    ("source_name", ofText? source),
    ("metadata", .obj [("unresolved_labels", .arr (names.map .str))]),
    ("statistics", ((ofTree title source names t).statisticsWith names).toJson),
    ("entries", .arr (t.below.outline []))])

theorem ofTree_unresolvedNames : (ofTree title source names t).unresolvedNames = .ok names := by
  have listed : get? "unresolved_labels" [("unresolved_labels", .arr (names.map .str))]
      = some (.arr (names.map .str)) := by simp [get?]
  simp only [unresolvedNames, ofTree, listed, namesIn?_texts]
  rfl

theorem ofTree_toJson : ∃ v, (ofTree title source names t).toJson = .ok v ∧
    exportJson time v = exported title time source names t := by
  refine ⟨_, ?_, rfl⟩
  rw [toJson, statistics, ofTree_unresolvedNames]
  rfl

theorem ofTree_json : (ofTree title source names t).json time =
    if (exported title time source names t).isWritable
    then .ok (writeAt 0 (exported title time source names t)) else .error .longInteger := by
  obtain ⟨v, outlined, same⟩ := ofTree_toJson title time source names t
  rw [json, outlined, ← same]
  by_cases writable : (exportJson time v).isWritable = true <;>
    simp [write?, writable, bind, Except.bind, pure, Except.pure, throw, throwThe,
      MonadExceptOf.throw]

theorem plain_exported : Plain (exported title time source names t) := by
  have names_plain : Plain (.obj [("unresolved_labels", .arr (names.map .str))]) := by
    refine .obj _ (by simp only [List.map]; decide) ?_
    simp only [List.forall_mem_cons]
    refine ⟨.arr _ ?_, List.forall_mem_nil _⟩
    intro v member
    obtain ⟨name, -, rfl⟩ := List.mem_map.mp member
    exact .str name
  have statistics := Statistics.plain_toJson (kinds_once (ofTree title source names t) names)
  refine .obj _ (by simp only [List.map]; decide) ?_
  simp only [List.forall_mem_cons]
  refine ⟨.str _, .str _, .str _, .obj _ (by simp only [List.map]; decide) ?_,
    List.forall_mem_nil _⟩
  simp only [List.forall_mem_cons]
  exact ⟨.str _, plain_ofText? _, names_plain, statistics, .arr _ (t.below.plain_outline []),
    List.forall_mem_nil _⟩

theorem depth_exported :
    (exported title time source names t).depth = max 4 (2 * t.below.depth + 3) := by
  have listed (names : List Text) : depthOfItems (names.map .str) = 0 := by
    induction names with
    | nil => rfl
    | cons name names ih => rw [List.map_cons, depthOfItems, ih]; rfl
  have text (t : Option Text) : (ofText? t).depth = 0 := by cases t <;> rfl
  simp only [exported, exportJson, Json.depth, depthOfMembers, text, listed,
    Statistics.depth_toJson, Forest.depthOfItems_outline]
  omega

theorem ofTree_checkedJson {v : Json} (outlined : (ofTree title source names t).toJson = .ok v) :
    (ofTree title source names t).checkedJson =
      if t.below.depth ≤ Tree.maxOutlineDepth then .ok v else .error .tooDeep := by
  have root : (ofTree title source names t).root = t := rfl
  unfold checkedJson checkedStatistics
  rw [statistics, ofTree_unresolvedNames, root, outlined, Tree.checkWalk, Tree.checkOutline]
  by_cases outline : t.below.depth ≤ Tree.maxOutlineDepth
  · have walk : t.below.depth ≤ Tree.maxWalkDepth := outline.trans (by decide)
    rw [if_pos outline, if_pos outline, if_pos walk]
    rfl
  · rw [if_neg outline, if_neg outline]
    split <;> rfl

/-- A document can be rendered as far as it can be written, unless its tree is too deep. -/
theorem checkedRender_ofTree : (ofTree title source names t).checkedRender time .json =
    if 2 * t.below.depth + 3 ≤ maxRoom
    then ((ofTree title source names t).json time).mapError Fault.ofFlaw
    else .error .tooDeep := by
  obtain ⟨v, outlined, same⟩ := ofTree_toJson title time source names t
  have depth := depth_exported title time source names t
  unfold checkedRender
  simp only [ofTree_checkedJson title source names t outlined]
  by_cases fitting : 2 * t.below.depth + 3 ≤ maxRoom
  · have outline : t.below.depth ≤ Tree.maxOutlineDepth := by
      unfold Tree.maxOutlineDepth Tree.maxWalkDepth
      unfold maxRoom at fitting
      omega
    have room : (exportJson time v).depth ≤ maxRoom := by
      rw [same, depth]
      exact Nat.max_le.mpr ⟨by decide, fitting⟩
    rw [if_pos outline, if_pos fitting]
    simp only [Json.checkRoom, bind, Except.bind, if_pos room]
    rfl
  · have deep : ¬(exportJson time v).depth ≤ maxRoom := by
      rw [same, depth]
      omega
    rw [if_neg fitting]
    split
    · simp only [Json.checkRoom, bind, Except.bind, if_neg deep]
    · rfl

theorem restoring?_exported : Edit.restoring? (exported title time source names t)
    = some (t.below.rows.map fun r => Edit.making (labelOf r.1) r.2).flatten := by
  have made := Edit.making?_outline [] t.below
  simp only [labelOf, List.foldl_nil, List.nil_append] at made
  simp [Edit.restoring?, exported, exportJson, member?, get?, objects, made, labelOf]

/-- The JSON text of a document loses nothing. The tree may be any that insertions of labels, none
of which starts with a dot, and notes on their entries lead to. Writing fails only if a whole number
has too many digits, and rendering otherwise only if the tree is too deep. The text is read as the
value that was exported, and the entries in it, made again in their order, give the tree. -/
theorem export_restores (edits : List Edit) (undotted : ∀ edit ∈ edits, edit.Undotted)
    (title time : Text) (source : Option Text) (names : List Text) :
    let t := Edit.run edits {}
    let d := ofTree title source names t
    ∃ v, d.toJson = .ok v ∧
      (∀ flaw, d.json time = .error flaw ↔ flaw = .longInteger ∧
        ∃ n, Holds n (exportJson time v) ∧
          Numeral.maxDigits < (Text.digits 10 n.natAbs).length) ∧
      d.checkedRender time .json = (if 2 * t.below.depth + 3 ≤ maxRoom
        then (d.json time).mapError Fault.ofFlaw else .error .tooDeep) ∧
      ∀ text, d.checkedRender time .json = .ok text →
        Json.read text = .ok (exportJson time v) ∧
        (Edit.restoring? (exportJson time v)).map (Edit.run · {}) = some t := by
  intro t d
  have sound : t.Sound := Edit.sound_run undotted Edit.sound_empty
  have plain := plain_exported title time source names t
  have written := ofTree_json title time source names t
  have checked := checkedRender_ofTree title time source names t
  obtain ⟨v, outlined, same⟩ := ofTree_toJson title time source names t
  rw [← same] at plain written
  refine ⟨v, outlined, ?_, checked, ?_⟩
  · intro flaw
    rw [written, ← plain.unwritable_iff]
    by_cases writable : (exportJson time v).isWritable = true
    · simp [writable]
    · simp [writable, eq_comm]
  · intro text rendered
    rw [checked] at rendered
    split at rendered
    next fitting =>
      rw [written] at rendered
      split at rendered
      next writable =>
        have shallow : (exportJson time v).depth ≤ maxRoom := by
          rw [same, depth_exported]
          exact Nat.max_le.mpr ⟨by decide, fitting⟩
        obtain rfl := Except.ok.inj rendered
        refine ⟨plain.read_writeAt writable shallow, ?_⟩
        rw [same, restoring?_exported, Option.map_some, Edit.run_rows sound]
      next => cases rendered
    next => cases rendered

/-- Quotes, line ends and control characters in texts, negative values and an empty description
come back as they were. -/
theorem export_restores_quotes :
    let edits : List Edit := [.insert "text.print" 7, .insert "text.put" (-3), .insert "main" (-1),
      .describe "text.print" (some "Says \"hi\"\n\t\\ & \x01"), .classify "text.print" (some .code),
      .assign "text.put" (some (-255)), .describe "text" (some []), .insert "text" 0]
    let d := ofTree "A \"title\"" (some "main.asm") ["main"] (Edit.run edits {})
    (∀ edit ∈ edits, edit.Undotted) ∧
    ∃ text v, d.checkedRender "2024-01-01" .json = .ok text ∧ Json.read text = .ok v ∧
      (Edit.restoring? v).map (Edit.run · {}) = some (Edit.run edits {}) := by
  intro edits d
  have undotted : ∀ edit ∈ edits, edit.Undotted := by simp [edits, Edit.Undotted]
  have there : (d.checkedRender "2024-01-01" .json).toOption.isSome = true := by decide +kernel
  obtain ⟨v, -, -, -, restored⟩ :=
    export_restores edits undotted "A \"title\"" "2024-01-01" (some "main.asm") ["main"]
  cases rendered : d.checkedRender "2024-01-01" .json with
  | error fault => rw [rendered] at there; cases there
  | ok text =>
    obtain ⟨read, same⟩ := restored text rendered
    exact ⟨undotted, text, _, rfl, read, same⟩

end

end Document

end LabelAtlas
