import LabelAtlas.Proofs.Encodable
import LabelAtlas.Proofs.Files

/-! What a run leaves behind. Everything that can go wrong with the inputs, the settings or the
document is found before the first file is written, and a run that succeeds writes the files of the
document and no others. -/
namespace LabelAtlas

namespace Job

variable {α β : Type}

/-- How a job ends: with a result that is good, or with a fault that is allowed. -/
def Ends (x : Job α) (w : Workspace) (good : α → Workspace → Prop)
    (allowed : Fault → Workspace → Prop) : Prop :=
  match x w with
  | (.ok a, after) => good a after
  | (.error fault, after) => allowed fault after

section Ends

variable {x : Job α} {next : α → Job β} {w : Workspace} {good : α → Workspace → Prop}
  {done : β → Workspace → Prop} {allowed : Fault → Workspace → Prop}

theorem Ends.bind (first : x.Ends w good allowed)
    (second : ∀ a after, good a after → (next a).Ends after done allowed) :
    (x >>= next).Ends w done allowed := by
  unfold Ends at first
  cases ran : x w with
  | mk ending after =>
    rw [ran] at first
    cases ending with
    | ok a =>
      have further := second a after first
      unfold Ends at further ⊢
      rw [bind_of_ok next ran]
      exact further
    | error fault =>
      unfold Ends
      rw [bind_of_error next ran]
      exact first

theorem Ends.mono {better : α → Workspace → Prop} {tolerated : Fault → Workspace → Prop}
    (ends : x.Ends w good allowed) (results : ∀ a after, good a after → better a after)
    (faults : ∀ fault after, allowed fault after → tolerated fault after) :
    x.Ends w better tolerated := by
  unfold Ends at ends ⊢
  split at ends
  · exact results _ _ ends
  · exact faults _ _ ends

theorem Ends.of_ok (ends : x.Ends w good allowed) {a : α} (result : (x w).1 = .ok a) :
    good a (x w).2 := by
  unfold Ends at ends
  cases ran : x w with
  | mk ending after =>
    rw [ran] at ends result
    cases result
    exact ends

/-- A step that does not touch the workspace. -/
theorem ends_lift_bind {y : Except Fault α} (stopped : ∀ fault, y = .error fault → allowed fault w)
    (further : ∀ a, y = .ok a → (next a).Ends w done allowed) :
    ((liftM y : Job α) >>= next).Ends w done allowed := by
  cases y with
  | error fault => exact stopped fault rfl
  | ok a => exact further a rfl

theorem ends_get_bind {next : Workspace → Job β} (further : (next w).Ends w done allowed) :
    ((get : Job Workspace) >>= next).Ends w done allowed :=
  further

theorem ends_set_bind {next : PUnit → Job β} {v : Workspace}
    (further : (next ⟨⟩).Ends v done allowed) :
    ((set v : Job PUnit) >>= next).Ends w done allowed :=
  further

theorem ends_report_bind {next : Unit → Job β} {events : List Event}
    (further : ∀ reported : Workspace, reported.store = w.store →
      (next ()).Ends reported done allowed) :
    (report events >>= next).Ends w done allowed :=
  further _ rfl

theorem OnlyReports.ends (quiet : x.OnlyReports) {s : Store} (same : w.store = s) :
    x.Ends w (fun a after => after.store = s ∧ ∀ v, (x v).1 = .ok a)
      (fun _ after => after.store = s) := by
  have store := (quiet.store w).trans same
  unfold Ends
  cases ran : x w with
  | mk ending after =>
    rw [ran] at store
    cases ending with
    | error fault => exact store
    | ok a =>
      refine ⟨store, ?_⟩
      intro v
      rw [quiet.result v w, ran]

end Ends

end Job

/-! ## Changes of a store -/

namespace Store

/-- A place is as it was, or has a directory where nothing was. -/
def KeepsAt (s after : Store) (l : Location) : Prop :=
  after.node? l = s.node? l ∨ s.node? l = none ∧ after.node? l = some .directory

/-- No file is new or changed. Directories may be new. -/
def KeepsFiles (s after : Store) : Prop :=
  ∀ l, s.KeepsAt after l

variable {s made after : Store} {l : Location}

theorem KeepsAt.trans (first : s.KeepsAt made l) (second : made.KeepsAt after l) :
    s.KeepsAt after l := by
  rcases first with same | ⟨nothing, new⟩
  · rcases second with still | ⟨nothing, new⟩
    · exact .inl (still.trans same)
    · exact .inr ⟨same.symm.trans nothing, new⟩
  · rcases second with still | ⟨none, -⟩
    · exact .inr ⟨nothing, still.trans new⟩
    · rw [new] at none
      cases none

theorem keepsFiles_refl (s : Store) : s.KeepsFiles s :=
  fun _ => .inl rfl

theorem makeDirectory_keepsFiles {p : Path} (created : s.makeDirectory p = .ok after) :
    s.KeepsFiles after := by
  unfold makeDirectory at created
  split at created
  · cases created
  · rename_i l resolved
    split at created
    · cases created
      exact keepsFiles_refl s
    · cases created
    · rename_i nothing
      cases created
      have below : l.names ≠ [] := by
        intro top
        simp [node?, top] at nothing
      intro k
      rw [KeepsAt, node?_put _ _ _ _ below]
      split
      · rename_i same
        exact .inr ⟨same ▸ nothing, rfl⟩
      · exact .inl rfl

theorem makeDirectoriesFrom_keepsFiles {root : Path.Root} {parts : List Text}
    (created : makeDirectoriesFrom root parts s = .ok after) : s.KeepsFiles after := by
  induction parts generalizing after with
  | nil =>
    cases created
    exact keepsFiles_refl s
  | cons part above ih =>
    unfold makeDirectoriesFrom at created
    dsimp only at created
    split at created
    · obtain ⟨made, upper, last⟩ := bind_ok created
      exact fun l => (ih upper l).trans (makeDirectory_keepsFiles last l)
    · exact makeDirectory_keepsFiles created

theorem write_refused {p : Path} {content : Utf8.Bytes} {why : Unwritable}
    (resolved : s.resolve p = .ok l) (refused : s.write p content = .error why) :
    why = .directoryInPlace := by
  unfold write at refused
  rw [resolved] at refused
  dsimp only at refused
  split at refused
  · cases refused
    rfl
  · cases refused

theorem Rewrites.keepsAt {content : Utf8.Bytes} (change : s.Rewrites after l content)
    {k : Location} (other : k ≠ l) : s.KeepsAt after k :=
  .inl (change.elsewhere k other)

end Store

/-! ## Files side by side -/

namespace Utf8

/-- A character that stands for no bytes in the name of a file. -/
def isUnnamed (c : CodePoint) : Bool :=
  c.isSurrogate && (byteOf? c).isNone

def nameBytes : CodePoint → Bytes
  | .scalar c => encodeChar c
  | .surrogate n => (byteOf? (.surrogate n)).toList

theorem encodeName_ok_iff (t : Text) (bytes : Bytes) :
    encodeName t = .ok bytes ↔ t.any isUnnamed = false ∧ bytes = t.flatMap nameBytes := by
  rw [← surrogates?_eq_none_iff]
  unfold encodeName
  have same : surrogates? (fun c => c.isSurrogate && (byteOf? c).isNone) t =
      surrogates? isUnnamed t := rfl
  rw [same]
  cases surrogates? isUnnamed t with
  | some e => simp
  | none =>
    constructor
    · intro encoded
      cases encoded
      exact ⟨rfl, rfl⟩
    · rintro ⟨-, rfl⟩
      rfl

/-- The bytes of a name are those of its parts, one behind the other. -/
theorem encodeName_append (a b : Text) (bytes : Bytes) :
    encodeName (a ++ b) = .ok bytes ↔
      ∃ x y, encodeName a = .ok x ∧ encodeName b = .ok y ∧ bytes = x ++ y := by
  simp only [encodeName_ok_iff, List.any_append, List.flatMap_append, Bool.or_eq_false_iff]
  constructor
  · rintro ⟨⟨first, second⟩, rfl⟩
    exact ⟨_, _, ⟨first, rfl⟩, ⟨second, rfl⟩, rfl⟩
  · rintro ⟨x, y, ⟨first, rfl⟩, ⟨second, rfl⟩, rfl⟩
    exact ⟨⟨first, second⟩, rfl⟩

end Utf8

theorem Path.exists_front (dir : Path) :
    ∃ front, ∀ name, (dir.child name).toText = front ++ name := by
  let above : Text := if dir.parts = [] then [] else Text.join "/" dir.parts ++ ("/" : Text)
  refine ⟨dir.root.text ++ above, ?_⟩
  intro name
  have given : ¬((dir.child name).root = .here ∧ (dir.child name).parts = []) := by
    simp [child]
  rw [toText, if_neg given]
  show dir.root.text ++ Text.join "/" (dir.parts ++ [name]) = _
  unfold above
  split
  · rename_i empty
    simp [empty, Text.join]
  · rename_i more
    simp only [Text.join_concat _ _ _ more, List.append_assoc]

namespace Store

/-- If a path to one file can be asked for, so can that to another one in the same directory,
unless its name is longer. -/
theorem pathBytes_sibling {dir : Path} {a b : Text} {x y whole : Utf8.Bytes}
    (first : Utf8.encodeName a = .ok x) (second : Utf8.encodeName b = .ok y)
    (shorter : y.length ≤ x.length) (nonzero : y.contains 0 = false)
    (asked : pathBytes (dir.child a) = .ok whole) :
    ∃ other, pathBytes (dir.child b) = .ok other := by
  obtain ⟨front, path⟩ := dir.exists_front
  obtain ⟨bytes, named, fits⟩ := bind_ok asked
  have encoded := mapError_ok named
  rw [path a, Utf8.encodeName_append] at encoded
  obtain ⟨start, end_a, above, last, rfl⟩ := encoded
  cases first.symm.trans last
  have sibling : Utf8.encodeName (dir.child b).toText = .ok (start ++ y) := by
    rw [path b, Utf8.encodeName_append]
    exact ⟨start, y, above, second, rfl⟩
  refine ⟨start ++ y, ?_⟩
  have allowed : (start ++ x).contains 0 = false ∧ (start ++ x).length ≤ maxPathBytes := by
    split at fits
    · cases fits
    · split at fits
      · cases fits
      · rename_i clean short
        exact ⟨by simpa using clean, by omega⟩
  have clean : (start ++ y).contains 0 = false := by
    simp only [List.contains_append, Bool.or_eq_false_iff] at allowed ⊢
    exact ⟨allowed.1.1, nonzero⟩
  have short : ¬maxPathBytes < (start ++ y).length := by
    have bound := allowed.2
    simp only [List.length_append] at bound ⊢
    omega
  unfold pathBytes
  rw [sibling]
  simp only [Except.mapError, bind, Except.bind, clean, short, Bool.false_eq_true, ↓reduceIte]

theorem resolve_sibling {s : Store} {dir : Path} {a b : Text} {x y : Utf8.Bytes} {l : Location}
    (first : Utf8.encodeName a = .ok x) (second : Utf8.encodeName b = .ok y)
    (shorter : y.length ≤ x.length) (nonzero : y.contains 0 = false) (short : isLongName b = false)
    (resolved : s.resolve (dir.child a) = .ok l) : ∃ k, s.resolve (dir.child b) = .ok k := by
  obtain ⟨_, asked, gone⟩ := bind_ok resolved
  obtain ⟨other, asked'⟩ := pathBytes_sibling first second shorter nonzero asked
  have parts (name : Text) : (dir.child name).parts = dir.parts ++ [name] := rfl
  rw [parts, List.foldlM_append] at gone
  obtain ⟨d, above, last⟩ := bind_ok gone
  obtain ⟨next, entered, -⟩ := bind_ok last
  obtain ⟨there, -, -⟩ := enter_ok entered
  refine ⟨if b = ".." then d.parent else d.child b, ?_⟩
  have last' : s.enter d b = .ok (if b = ".." then d.parent else d.child b) := by
    simp [enter, there, short]
  unfold resolve
  rw [asked', parts, List.foldlM_append]
  have root : (dir.child b).isAbsolute = (dir.child a).isAbsolute := rfl
  rw [root]
  dsimp only [bind, Except.bind]
  rw [above]
  dsimp only
  rw [List.foldlM_cons, last']
  rfl

end Store

/-! ## Settings -/

theorem Path.name_subset (t : Text) : (ofText t).name ⊆ t := by
  unfold name
  cases last : (ofText t).parts.getLast? with
  | none => exact List.nil_subset t
  | some part =>
    have member := (List.mem_filter.mp (List.mem_of_getLast? last)).1
    have inside := infix_intercalate [.scalar '/'] (Text.splitAt '/' t) part member
    have whole : [CodePoint.scalar '/'].intercalate (Text.splitAt '/' t) = t :=
      Text.join_splitAt _ t
    rw [whole] at inside
    exact inside.subset

namespace Settings

theorem get?_encodable {members : Json.Object} (unicode : ∀ m ∈ members, m.2.isEncodable = true)
    {key : Text} {v : Json} (found : Json.get? key members = some v) : v.isEncodable = true := by
  obtain ⟨m, first, rfl⟩ := Option.map_eq_some_iff.mp found
  exact unicode m (List.mem_of_find?_eq_some first)

theorem ofJson_title {members : Json.Object} {settings : Settings}
    (given : ofJson members = .ok settings) :
    settings.title = (Json.get? "title" members).getD (.str "Assembler Documentation") := by
  unfold ofJson at given
  obtain ⟨_, _, rest⟩ := bind_ok given
  obtain ⟨_, _, rest⟩ := bind_ok rest
  obtain ⟨_, _, rest⟩ := bind_ok rest
  cases rest
  rfl

theorem ofJson_listFile {members : Json.Object} {settings : Settings}
    (given : ofJson members = .ok settings) :
    optionalPath "list_path" (Json.get? "list_path" members) = .ok settings.listFile := by
  unfold ofJson at given
  obtain ⟨_, found, rest⟩ := bind_ok given
  obtain ⟨_, _, rest⟩ := bind_ok rest
  obtain ⟨_, _, rest⟩ := bind_ok rest
  cases rest
  exact found

/-- The settings that go into a document can be encoded: its title and the name of its source. -/
structure Encodable (settings : Settings) : Prop where
  title : settings.title.isEncodable = true
  listFile : ∀ p, settings.listFile = some (.path p) → p.name.Encodable

theorem ofJson_encodable {members : Json.Object} {settings : Settings}
    (given : ofJson members = .ok settings) (unicode : ∀ m ∈ members, m.2.isEncodable = true) :
    settings.Encodable where
  title := by
    rw [ofJson_title given]
    cases found : Json.get? "title" members with
    | none => decide
    | some v => exact get?_encodable unicode found
  listFile := by
    intro p named
    have path := ofJson_listFile given
    rw [named] at path
    unfold optionalPath at path
    split at path
    · cases path
    next v found =>
      split at path
      · split at path
        next t _ =>
          have plain : t.Encodable := (Json.isEncodable_str t).mp (get?_encodable unicode found)
          cases path
          exact plain.of_subset (Path.name_subset t)
        · cases path
      · cases path

end Settings

namespace Document

/-- Whatever numbers the settings give, a document that is built is that of a listing with the lines
and the name given. -/
theorem build_ok {settings : Settings} {column : Amount} {name : Json} {lines : List Text}
    {exported : List Export} {w : Workspace} {d : Document}
    (built : (build settings column name lines exported w).1 = .ok d) :
    ∃ listing options, listing.lines = lines ∧ listing.name = name ∧
      options.title = settings.title ∧ d = ofListing listing exported options := by
  have ends : (build settings column name lines exported).Ends w
      (fun d _ => ∃ listing options, listing.lines = lines ∧ listing.name = name ∧
        options.title = settings.title ∧ d = ofListing listing exported options)
      (fun _ _ => True) := by
    unfold build ofPlan
    refine Job.ends_lift_bind (fun _ _ => trivial) fun amounts _ => ?_
    refine Job.ends_lift_bind (fun _ _ => trivial) fun n _ => ?_
    refine Job.ends_report_bind fun _ _ => ?_
    refine Job.ends_lift_bind (fun _ _ => trivial) fun _ _ => ?_
    dsimp only
    split
    · refine Job.ends_lift_bind (fun _ _ => trivial) fun scan _ => ?_
      exact ⟨⟨lines, n, name⟩, _, rfl, rfl, rfl, rfl⟩
    · exact ⟨⟨lines, n, name⟩, _, rfl, rfl, rfl, rfl⟩
  exact ends.of_ok built

end Document

namespace Generate

/-! ## Reading -/

/-- A document is that of the input files in a store: it is built from their texts. -/
def IsDocumentOf (settings : Settings) (s : Store) (d : Document) : Prop :=
  ∃ (amounts : Settings.Amounts) (listFile labelsFile : Path) (listing labels : Utf8.Bytes),
    settings.check = .ok amounts ∧
    settings.listFile = some (.path listFile) ∧ settings.labelsFile = some (.path labelsFile) ∧
    s.read listFile = .ok listing ∧ s.read labelsFile = .ok labels ∧
    (Document.ofTexts settings amounts.column (.str listFile.name) (Encoding.readText listing).2
      (Encoding.readText labels).2 {}).1 = .ok d

section

variable {w : Workspace} {s : Store} (same : w.store = s)
include same

theorem readText_ends (path : Path) :
    (readText path).Ends w
      (fun t after => after.store = s ∧
        ∃ bytes, s.read path = .ok bytes ∧ t = (Encoding.readText bytes).2)
      (fun _ after => after.store = s) := by
  unfold readText
  apply Job.ends_get_bind
  refine Job.ends_lift_bind (fun _ _ => same) fun bytes found => ?_
  rw [same] at found
  have there := mapError_ok found
  dsimp only
  split
  · exact ⟨same, bytes, there, rfl⟩
  · exact ⟨same, bytes, there, rfl⟩

theorem readLabels_ends (path : Path) :
    (readLabels path).Ends w
      (fun labels after => after.store = s ∧ ∃ bytes, s.read path = .ok bytes ∧
        labels = (Export.read (Encoding.readText bytes).2).labels)
      (fun _ after => after.store = s) := by
  unfold readLabels
  apply (readText_ends same path).bind
  rintro t after ⟨still, bytes, there, rfl⟩
  exact ⟨still, bytes, there, rfl⟩

end

theorem pathOf_ok {name : Text} {given : GivenPath} {p : Path}
    (named : Settings.pathOf name given = .ok p) : given = .path p := by
  cases given with
  | path q =>
    cases named
    rfl
  | emptyList => cases named

/-- Reading and building change no file, and what is built is the document of the files. -/
theorem documentOf_ends (settings : Settings) (w : Workspace) :
    (documentOf settings).Ends w
      (fun d after => after.store = w.store ∧ IsDocumentOf settings w.store d)
      (fun _ after => after.store = w.store) := by
  unfold documentOf
  refine Job.ends_lift_bind (fun _ _ => rfl) fun amounts checked => ?_
  split
  · rename_i listGiven listPath
    split
    · rename_i labelsGiven labelsPath
      refine Job.ends_lift_bind (fun _ _ => rfl) fun listFile listNamed => ?_
      apply (readText_ends rfl listFile).bind
      rintro text read ⟨same, listing, listThere, rfl⟩
      refine Job.ends_report_bind fun reported told => ?_
      have same := told.trans same
      refine Job.ends_lift_bind (fun _ _ => same) fun labelsFile labelsNamed => ?_
      apply (readLabels_ends same labelsFile).bind
      rintro exported after ⟨still, labels, labelsThere, rfl⟩
      apply ((Document.build_onlyReports _ _ _ _ _).ends still).mono
      · rintro d ended ⟨unchanged, built⟩
        rw [pathOf_ok listNamed] at listPath
        rw [pathOf_ok labelsNamed] at labelsPath
        exact ⟨unchanged, amounts, listFile, labelsFile, listing, labels, checked, listPath,
          labelsPath, listThere, labelsThere, built _⟩
      · exact fun _ _ unchanged => unchanged
    · exact rfl
  · exact rfl

section

variable {settings : Settings} {s : Store} {d : Document} (built : IsDocumentOf settings s d)
include built

theorem IsDocumentOf.exists_listing :
    ∃ (listFile : Path) (bytes : Utf8.Bytes) (labels : Text) (listing : Listing)
      (options : Document.Options),
      settings.listFile = some (.path listFile) ∧ listing.name = .str listFile.name ∧
      listing.lines = Text.lines (Encoding.readText bytes).2 ∧ options.title = settings.title ∧
      d = .ofListing listing (Export.read labels).labels options := by
  obtain ⟨amounts, listFile, labelsFile, bytes, labels, -, listGiven, -, -, -, made⟩ := built
  let exported := Export.read (Encoding.readText labels).2
  have built : (Document.build settings amounts.column (.str listFile.name)
      (Text.lines (Encoding.readText bytes).2) exported.labels { events := exported.events }).1 =
        .ok d := made
  obtain ⟨listing, options, lines, name, title, same⟩ := Document.build_ok built
  exact ⟨listFile, bytes, _, listing, options, listGiven, name, lines, title, same⟩

/-- Of encodable settings the document of any files can be encoded. -/
theorem IsDocumentOf.encodable (plain : settings.Encodable) : d.Encodable := by
  obtain ⟨listFile, bytes, labels, listing, options, given, name, lines, title, rfl⟩ :=
    built.exists_listing
  apply Document.ofListing_encodable
  · rw [title]
    exact plain.title
  · rw [name, Json.isEncodable_str]
    exact plain.listFile listFile given
  · rw [lines]
    intro line member
    exact (Encoding.readText_encodable bytes).of_subset fun _ => Text.mem_lines member
  · exact Export.read_encodable labels

/-- Nothing but its depth keeps a document of files from being counted. -/
theorem IsDocumentOf.checkedStatistics_error {fault : Fault}
    (failed : d.checkedStatistics = .error fault) : fault.category = .depth := by
  obtain ⟨-, -, labels, listing, options, -, -, -, -, rfl⟩ := built.exists_listing
  unfold Document.checkedStatistics at failed
  rw [Document.ofListing_unresolvedNames, Document.ofListing_statistics] at failed
  unfold Tree.checkWalk at failed
  split at failed
  · cases failed
  · cases failed
    rfl

end

/-! ## Writing -/

/-- The files of a document are in a directory, and no other file is new or changed. -/
structure Deposited (dir : Path) (format : Format) (content : Text) (s after : Store) : Prop where
  main : after.Holds (dir.child (mainFile format)) content
  style : format = .html → after.Holds (dir.child Html.styleFile) Html.styleSheet
  others : ∀ l, (∀ name ∈ files format, after.resolve (dir.child name) ≠ .ok l) → s.KeepsAt after l

theorem writeBytes_of_error {p : Path} {content : Utf8.Bytes} {w : Workspace}
    {why : Store.Unwritable} (refused : w.store.write p content = .error why) :
    writeBytes p content w = (.error (.ofUnwritable why), w) := by
  unfold writeBytes
  rw [Job.get_then, refused]
  rfl

/-- A text that can be encoded is written, or no file is touched. -/
theorem write_ends {content : Text} {bytes : Utf8.Bytes} (encoded : Utf8.encode content = .ok bytes)
    (p : Path) (w : Workspace) :
    (write p content).Ends w
      (fun _ after => ∃ l, w.store.FreeAt p l ∧ w.store.Rewrites after.store l bytes)
      (fun fault after => after = w ∧
        ∃ why, w.store.write p [] = .error why ∧ fault = .ofUnwritable why) := by
  unfold Job.Ends
  cases emptied : w.store.write p [] with
  | error why =>
    have stopped : write p content w = (.error (.ofUnwritable why), w) :=
      Job.bind_of_error _ (writeBytes_of_error emptied)
    rw [stopped]
    exact ⟨rfl, why, rfl, rfl⟩
  | ok _ =>
    obtain ⟨l, place⟩ := Store.write_ok emptied
    obtain ⟨after, written, change⟩ := write_of_encode place encoded
    rw [written]
    exact ⟨l, place, change⟩

/-- A page that is written can have its style sheet beside it, unless a directory is there. -/
theorem styleSheet_refused {s : Store} {dir : Path} {l : Location} {content : Utf8.Bytes}
    {why : Store.Unwritable} (resolved : s.resolve (dir.child (mainFile .html)) = .ok l)
    (refused : s.write (dir.child Html.styleFile) content = .error why) :
    (Fault.ofUnwritable why).category = .system := by
  obtain ⟨k, beside⟩ := Store.resolve_sibling (a := mainFile .html) (b := Html.styleFile) rfl rfl
    (by decide) (by decide) (by decide) resolved
  rw [Store.write_refused beside refused]
  rfl

/-- A text that can be encoded is deposited, or the directory does not take it. -/
theorem deposit_ends {content : Text} (plain : content.Encodable) (dir : Path) (format : Format)
    (w : Workspace) :
    (deposit dir format content).Ends w
      (fun path after => path = dir.child (mainFile format) ∧
        Deposited dir format content w.store after.store)
      (fun fault after => after.store = w.store ∨ fault.category = .system) := by
  obtain ⟨bytes, encoded⟩ := plain.exists_encode
  have untouched (fault : Fault) (after : Workspace)
      (same : after = w ∧ ∃ why, w.store.write (dir.child (mainFile format)) [] = .error why ∧
        fault = .ofUnwritable why) : after.store = w.store ∨ fault.category = .system :=
    .inl (congrArg Workspace.store same.1)
  unfold deposit
  apply ((write_ends encoded (dir.child (mainFile format)) w).mono (fun _ _ h => h) untouched).bind
  rintro _ filled ⟨l, place, change⟩
  cases format with
  | json =>
    refine ⟨rfl, ⟨bytes, encoded, change.read place.resolved⟩, ?_, ?_⟩
    · intro page
      cases page
    · intro k elsewhere
      apply change.keepsAt
      rintro rfl
      exact elsewhere _ List.mem_cons_self (change.resolve place.resolved)
  | html =>
    obtain ⟨styleBytes, styleEncoded⟩ := styleSheet_encodable
    have main := change.resolve place.resolved
    rw [if_pos rfl]
    refine ((write_ends styleEncoded (dir.child Html.styleFile) filled).mono
      (fun _ _ written => written) ?_).bind ?_
    · rintro fault after ⟨-, why, refused, rfl⟩
      exact .inr (styleSheet_refused main refused)
    · rintro _ after ⟨k, free, styled⟩
      have apart : l ≠ k :=
        Store.resolve_child_ne (by decide) (by decide) (by decide) main free.resolved
      have kept : after.store.node? l = some (.file bytes) :=
        (styled.elsewhere l apart).trans change.here
      have still := styled.resolve main
      refine ⟨rfl, ⟨bytes, encoded, Store.read_of_file still kept⟩, ?_, ?_⟩
      · exact fun _ => ⟨styleBytes, styleEncoded, styled.read free.resolved⟩
      · intro j elsewhere
        have notMain : j ≠ l := by
          rintro rfl
          exact elsewhere _ List.mem_cons_self still
        have notStyle : j ≠ k := by
          rintro rfl
          exact elsewhere _ (by simp [files]) (styled.resolve free.resolved)
        exact (change.keepsAt notMain).trans (styled.keepsAt notStyle)

theorem ofJson_ok {v : Json} {format : Format} (named : Format.ofJson v = .ok format) :
    v = .str format.name := by
  unfold Format.ofJson at named
  split at named
  · cases named
  · cases named
  · split at named
    · rename_i t f found
      cases named
      have same := List.find?_some found
      rw [of_decide_eq_true same]
    · cases named
  · cases named

theorem publish_ends {time : Text} (stamp : time.Encodable) {d : Document} (plain : d.Encodable)
    (output : GivenPath) (named : Json) (w : Workspace) :
    (publish time d output named).Ends w
      (fun path after => ∃ (format : Format) (dir : Path) (content : Text),
        named = .str format.name ∧ output = .path dir ∧ d.render time format = .ok content ∧
        path = dir.child (mainFile format) ∧ Deposited dir format content w.store after.store)
      (fun fault after => w.store.KeepsFiles after.store ∨ fault.category = .system) := by
  have kept (fault : Fault) : w.store.KeepsFiles w.store ∨ fault.category = .system :=
    .inl (Store.keepsFiles_refl _)
  unfold publish
  refine Job.ends_lift_bind (fun fault _ => kept fault) fun format formatNamed => ?_
  refine Job.ends_lift_bind (fun fault _ => kept fault) fun dir dirNamed => ?_
  apply Job.ends_get_bind
  refine Job.ends_lift_bind (fun fault _ => kept fault) fun made created => ?_
  have gained := Store.makeDirectoriesFrom_keepsFiles (mapError_ok created)
  apply Job.ends_set_bind
  refine Job.ends_lift_bind (fun _ _ => .inl gained) fun content rendered => ?_
  have whole := Document.render_of_checked rendered
  apply (deposit_ends (plain.render stamp whole) dir format _).mono
  · rintro path after ⟨same, main, style, others⟩
    refine ⟨format, dir, content, ofJson_ok (mapError_ok formatNamed), pathOf_ok dirNamed, whole,
      same, main, style, ?_⟩
    exact fun l elsewhere => (gained l).trans (others l elsewhere)
  · rintro fault after (same | refused)
    · left
      rw [same]
      exact gained
    · exact .inr refused

/-! ## Runs -/

/-- The document of the input files in a store, rendered in the format of the settings, is in the
output directory of another store, which differs in nothing else but new directories. The path is
that of the main file. -/
def Published (time : Text) (settings : Settings) (s after : Store) (path : Path) : Prop :=
  ∃ (d : Document) (format : Format) (dir : Path) (content : Text),
    IsDocumentOf settings s d ∧ settings.format = .str format.name ∧
    settings.outputDir = .path dir ∧ d.render time format = .ok content ∧
    path = dir.child (mainFile format) ∧ Deposited dir format content s after

theorem run_ends {time : Text} (stamp : time.Encodable) {settings : Settings}
    (plain : settings.Encodable) (w : Workspace) :
    (run time settings).Ends w
      (fun path after => Published time settings w.store after.store path)
      (fun fault after => w.store.KeepsFiles after.store ∨
        fault.category = .system ∨ fault.category = .depth) := by
  unfold run
  refine ((documentOf_ends settings w).mono (fun _ _ built => built) ?_).bind ?_
  · intro fault after same
    left
    rw [same]
    exact Store.keepsFiles_refl _
  rintro d read ⟨same, built⟩
  refine ((publish_ends stamp (built.encodable plain) _ _ read).mono (fun _ _ done => done) ?_).bind
    ?_
  · rintro fault after (kept | refused)
    · rw [same] at kept
      exact .inl kept
    · exact .inr (.inl refused)
  rintro path after ⟨format, dir, content, named, given, rendered, main, deposited⟩
  rw [same] at deposited
  refine Job.ends_lift_bind ?_ fun statistics counted => ?_
  · intro fault failed
    exact .inr (.inr (built.checkedStatistics_error failed))
  · exact ⟨d, format, dir, content, built, named, given, rendered, main, deposited⟩

/-- A run that ends with a fault of an input file or of a value leaves every file as it was: all
that can be wrong with the settings, the inputs and the document is found before the first file is
written. A run that succeeds gives the path of the main file, which holds the rendered document of
the input files as they were before, even where it takes the place of one of them, and it touches
no other file than those of the document. Both need settings and a time without surrogates. -/
theorem run_outcome (time : Text) (stamp : time.any CodePoint.isSurrogate = false)
    (members : Json.Object) (unicode : ∀ m ∈ members, m.2.isEncodable = true)
    (settings : Settings) (given : Settings.ofJson members = .ok settings) (w : Workspace) :
    let after := (run time settings w).2.store
    match (run time settings w).1 with
    | .error fault =>
      fault.category ∈ [.input, .value, .shape, .ability] → w.store.KeepsFiles after
    | .ok path => Published time settings w.store after path := by
  intro after
  have ends := run_ends ((Text.encodable_iff time).mpr stamp)
    (Settings.ofJson_encodable given unicode) w
  unfold Job.Ends at ends
  subst after
  generalize run time settings w = ran at ends
  obtain ⟨ending, after⟩ := ran
  cases ending with
  | ok path => exact ends
  | error fault =>
    intro kind
    rcases ends with kept | system | depth
    · exact kept
    · rw [system] at kind
      exact absurd kind (by decide)
    · rw [depth] at kind
      exact absurd kind (by decide)

/-- The export takes the place of the labels file. A page without a title takes no place. -/
theorem run_outcome_in_place :
    let bytes (s : String) : Utf8.Bytes := s.toList.flatMap Utf8.encodeChar
    let listFile : Path := ⟨.here, ["rom.lst"]⟩
    let index : Path := ⟨.here, ["docs", "index.json"]⟩
    let store := (Store.place {} listFile (.file (bytes "; é\na:"))).place index
      (.file (bytes "a: EQU 8"))
    let settings (format : Text) (title : Json) : Settings :=
      { listFile := some (.path listFile), labelsFile := some (.path index)
        format := .str format, title := title, sourceColumn := .int 0 }
    let exported := run "now" (settings "json" (.str "ROM")) { store := store }
    let untitled := run "now" (settings "html" (.int 5)) { store := store }
    exported.1 = .ok index ∧
    Published "now" (settings "json" (.str "ROM")) store exported.2.store index ∧
    untitled.1 = .error .titleNotText ∧ store.KeepsFiles untitled.2.store := by
  intro bytes listFile index store settings exported untitled
  let members (format : Text) (title : Json) : Json.Object := [("list_path", .str "rom.lst"),
    ("labels_path", .str "docs/index.json"), ("format", .str format), ("title", title),
    ("source_column", .int 0)]
  have stamp : ("now" : Text).any CodePoint.isSurrogate = false := by decide
  have plain : ∀ m ∈ members "json" (.str "ROM"), m.2.isEncodable = true := by decide
  have given : Settings.ofJson (members "json" (.str "ROM")) =
      .ok (settings "json" (.str "ROM")) := by
    decide +kernel
  have written : exported.1 = .ok index := by decide +kernel
  have untitledPlain : ∀ m ∈ members "html" (.int 5), m.2.isEncodable = true := by decide
  have untitledGiven : Settings.ofJson (members "html" (.int 5)) =
      .ok (settings "html" (.int 5)) := by
    decide +kernel
  have refused : untitled.1 = .error .titleNotText := by decide +kernel
  -- The evaluated facts are all that is used of the values from here on.
  clear_value members settings store index
  have outcome := run_outcome "now" stamp _ plain _ given { store := store }
  have untitledOutcome :=
    run_outcome "now" stamp _ untitledPlain _ untitledGiven { store := store }
  subst exported untitled
  rw [written] at outcome
  rw [refused] at untitledOutcome
  exact ⟨written, outcome, refused, untitledOutcome (by decide)⟩

end Generate

end LabelAtlas
