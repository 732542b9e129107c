import LabelAtlas.Proofs.Depth
import LabelAtlas.Proofs.Encoding

/-! What a run does to files. Reading and building change none; publishing makes directories and
then writes one file at a time, each of which leaves every way through the directories open. -/
namespace LabelAtlas

namespace Store

theorem node?_put (s : Store) (l k : Location) (n : Node) (below : l.names ≠ []) :
    (s.put l n).node? k = if k = l then some n else s.node? k := by
  by_cases top : k.names.isEmpty
  · have other : k ≠ l := by
      rintro rfl
      exact below (List.isEmpty_iff.mp top)
    simp [node?, top, other]
  unfold put
  split
  · rename_i there
    let change : Location × Node → Location × Node := fun p => if p.1 = l then (l, n) else p
    have found : (s.nodes.map change).find? (·.1 = k) = (s.nodes.find? (·.1 = k)).map change := by
      rw [List.find?_map]
      congr 2
      funext p
      by_cases same : p.1 = l <;> simp [change, same]
    simp only [node?, top, Bool.false_eq_true, ↓reduceIte]
    rw [found]
    cases old : s.nodes.find? (·.1 = k) with
    | none =>
      have other : k ≠ l := by
        rintro rfl
        obtain ⟨p, member, place⟩ := List.any_eq_true.mp there
        exact List.find?_eq_none.mp old p member place
      simp [other]
    | some p =>
      have place : p.1 = k := by simpa using List.find?_some old
      by_cases same : k = l <;> simp [change, place, same]
  · rename_i absent
    simp only [node?, top, Bool.false_eq_true, ↓reduceIte, List.find?_append]
    by_cases same : k = l
    · subst same
      have nothing : s.nodes.find? (·.1 = k) = none := by
        rw [List.find?_eq_none]
        intro p member place
        exact absent (List.any_eq_true.mpr ⟨p, member, place⟩)
      simp [nothing]
    · simp [same, Ne.symm same]

theorem enter_ok {s : Store} {l next : Location} {part : Text}
    (entered : s.enter l part = .ok next) :
    s.node? l = some .directory ∧ isLongName part = false ∧
      next = if part = ".." then l.parent else l.child part := by
  unfold enter at entered
  split at entered
  · rename_i there
    split at entered
    · cases entered
    · rename_i short
      cases entered
      exact ⟨there, by simpa using short, rfl⟩
  · cases entered
  · cases entered

/-- A way that could be gone can still be gone if no directory is lost. -/
theorem enter_mono {s after : Store}
    (kept : ∀ k, s.node? k = some .directory → after.node? k = some .directory)
    {l next : Location} {part : Text} (entered : s.enter l part = .ok next) :
    after.enter l part = .ok next := by
  obtain ⟨there, short, rfl⟩ := enter_ok entered
  simp [enter, kept l there, short]

theorem foldlM_enter_mono {s after : Store}
    (kept : ∀ k, s.node? k = some .directory → after.node? k = some .directory)
    (parts : List Text) {l last : Location} (gone : parts.foldlM s.enter l = .ok last) :
    parts.foldlM after.enter l = .ok last := by
  induction parts generalizing l with
  | nil => exact gone
  | cons part parts ih =>
    rw [List.foldlM_cons] at gone ⊢
    obtain ⟨next, entered, further⟩ := bind_ok gone
    rw [enter_mono kept entered]
    exact ih further

theorem resolve_mono {s after : Store}
    (kept : ∀ k, s.node? k = some .directory → after.node? k = some .directory)
    {p : Path} {l : Location} (resolved : s.resolve p = .ok l) : after.resolve p = .ok l := by
  obtain ⟨bytes, asked, gone⟩ := bind_ok resolved
  unfold resolve
  rw [asked]
  exact foldlM_enter_mono kept p.parts gone

theorem resolve_child {s : Store} {dir : Path} {name : Text} {l : Location} (down : name ≠ "..")
    (resolved : s.resolve (dir.child name) = .ok l) :
    ∃ d, dir.parts.foldlM s.enter { absolute := dir.isAbsolute } = .ok d ∧ l = d.child name := by
  obtain ⟨_, _, gone⟩ := bind_ok resolved
  have split : (dir.child name).parts = dir.parts ++ [name] := rfl
  rw [split, List.foldlM_append] at gone
  obtain ⟨d, above, last⟩ := bind_ok gone
  obtain ⟨next, entered, done⟩ := bind_ok last
  obtain ⟨_, _, rfl⟩ := enter_ok entered
  cases done
  exact ⟨d, above, if_neg down⟩

/-- Files of different names in one directory are in different places. -/
theorem resolve_child_ne {s : Store} {dir : Path} {a b : Text} {l k : Location} (other : a ≠ b)
    (first : a ≠ "..") (second : b ≠ "..") (here : s.resolve (dir.child a) = .ok l)
    (there : s.resolve (dir.child b) = .ok k) : l ≠ k := by
  obtain ⟨d, above, rfl⟩ := resolve_child first here
  obtain ⟨_, same, rfl⟩ := resolve_child second there
  cases above.symm.trans same
  simpa [Location.child] using other

theorem read_of_file {s : Store} {p : Path} {l : Location} {content : Utf8.Bytes}
    (resolved : s.resolve p = .ok l) (there : s.node? l = some (.file content)) :
    s.read p = .ok content := by
  unfold read
  rw [resolved]
  dsimp only
  rw [there]

/-- A path leads to a place where a file can be. -/
structure FreeAt (s : Store) (p : Path) (l : Location) : Prop where
  resolved : s.resolve p = .ok l
  free : s.node? l ≠ some .directory

/-- One store comes from another by a file put in one place, where no directory is. -/
structure Rewrites (s after : Store) (l : Location) (content : Utf8.Bytes) : Prop where
  free : s.node? l ≠ some .directory
  here : after.node? l = some (.file content)
  elsewhere : ∀ k, k ≠ l → after.node? k = s.node? k

namespace Rewrites

variable {s after last : Store} {l : Location} {a b : Utf8.Bytes}

theorem trans (first : s.Rewrites after l a) (second : after.Rewrites last l b) :
    s.Rewrites last l b where
  free := first.free
  here := second.here
  elsewhere := fun k other => (second.elsewhere k other).trans (first.elsewhere k other)

theorem resolve (change : s.Rewrites after l a) {p : Path} {k : Location}
    (resolved : s.resolve p = .ok k) : after.resolve p = .ok k := by
  refine resolve_mono ?_ resolved
  intro k there
  have other : k ≠ l := by
    rintro rfl
    exact change.free there
  rw [change.elsewhere k other, there]

theorem freeAt (change : s.Rewrites after l a) {p : Path} {k : Location} (place : s.FreeAt p k) :
    after.FreeAt p k := by
  refine ⟨change.resolve place.resolved, ?_⟩
  by_cases same : k = l
  · rw [same, change.here]
    exact fun file => nomatch file
  · rw [change.elsewhere k same]
    exact place.free

theorem read (change : s.Rewrites after l a) {p : Path} (resolved : s.resolve p = .ok l) :
    after.read p = .ok a :=
  read_of_file (change.resolve resolved) change.here

end Rewrites

theorem write_rewrites {s : Store} {p : Path} {l : Location} (place : s.FreeAt p l)
    (content : Utf8.Bytes) :
    ∃ after, s.write p content = .ok after ∧ s.Rewrites after l content := by
  have below : l.names ≠ [] := by
    intro top
    exact place.free (by simp [node?, top])
  refine ⟨s.put l (.file content), ?_, place.free, ?_, ?_⟩
  · unfold write
    rw [place.resolved]
    dsimp only
    split
    · rename_i there
      exact absurd there place.free
    · rfl
  · rw [node?_put _ _ _ _ below, if_pos rfl]
  · intro k other
    rw [node?_put _ _ _ _ below, if_neg other]

theorem write_ok {s after : Store} {p : Path} {content : Utf8.Bytes}
    (written : s.write p content = .ok after) : ∃ l, s.FreeAt p l := by
  unfold write at written
  split at written
  · cases written
  · rename_i l resolved
    split at written
    · cases written
    · rename_i free
      exact ⟨l, resolved, free⟩

/-- A path leads to a file that holds the encoding of a text. -/
def Holds (s : Store) (p : Path) (t : Text) : Prop :=
  ∃ bytes, Utf8.encode t = .ok bytes ∧ s.read p = .ok bytes

/-- Whether a directory can be made, or is there, and files of some names can be written to it. -/
def takes (s : Store) (dir : Path) (names : List Text) : Bool :=
  match s.makeDirectories dir with
  | .ok after => names.all fun name => (after.write (dir.child name) []).isOk
  | .error _ => false

theorem takes_ok {s : Store} {dir : Path} {names : List Text}
    (writable : s.takes dir names = true) :
    ∃ made, s.makeDirectories dir = .ok made ∧
      ∀ name ∈ names, ∃ l, made.FreeAt (dir.child name) l := by
  unfold takes at writable
  split at writable
  · rename_i made created
    refine ⟨made, created, ?_⟩
    intro name member
    have taken := List.all_eq_true.mp writable name member
    cases written : made.write (dir.child name) [] with
    | error why =>
      rw [written] at taken
      cases taken
    | ok _ => exact write_ok written
  · cases writable

end Store

namespace Job

variable {α β : Type}

theorem bind_of_ok {x : Job α} {w after : Workspace} {a : α} (next : α → Job β)
    (done : x w = (.ok a, after)) : (x >>= next) w = next a after := by
  change ExceptT.bindCont next (x w).1 (x w).2 = _
  rw [done]
  rfl

theorem bind_of_error {x : Job α} {w after : Workspace} {fault : Fault} (next : α → Job β)
    (stopped : x w = (.error fault, after)) : (x >>= next) w = (.error fault, after) := by
  change ExceptT.bindCont next (x w).1 (x w).2 = _
  rw [stopped]
  rfl

/-- A job that changes no file, and whose result does not depend on the workspace. -/
structure OnlyReports (x : Job α) : Prop where
  store : ∀ w, (x w).2.store = w.store
  result : ∀ w v, (x w).1 = (x v).1

theorem OnlyReports.bind {x : Job α} {next : α → Job β} (first : x.OnlyReports)
    (second : ∀ a, (next a).OnlyReports) : (x >>= next).OnlyReports := by
  constructor
  · intro w
    cases ran : x w with
    | mk ending after =>
      have same : after.store = w.store := by simpa [ran] using first.store w
      cases ending with
      | ok a => rw [bind_of_ok next ran, (second a).store after, same]
      | error fault => rw [bind_of_error next ran, same]
  · intro w v
    have same := first.result w v
    cases here : x w with
    | mk ending after =>
      cases there : x v with
      | mk other later =>
        rw [here, there] at same
        cases same
        cases ending with
        | ok a => rw [bind_of_ok next here, bind_of_ok next there, (second a).result after later]
        | error fault => rw [bind_of_error next here, bind_of_error next there]

theorem onlyReports_lift (x : Except Fault α) : (liftM x : Job α).OnlyReports := by
  cases x <;> exact ⟨fun _ => rfl, fun _ _ => rfl⟩

theorem onlyReports_pure (a : α) : (pure a : Job α).OnlyReports :=
  ⟨fun _ => rfl, fun _ _ => rfl⟩

theorem onlyReports_report (events : List Event) : (report events).OnlyReports :=
  ⟨fun _ => rfl, fun _ _ => rfl⟩

end Job

theorem Document.ofPlan_onlyReports (plan : Plan) (column : Amount) (name : Json)
    (lines : List Text) (exported : List Export) :
    (ofPlan plan column name lines exported).OnlyReports := by
  unfold ofPlan
  refine .bind (Job.onlyReports_lift _) fun column => ?_
  refine .bind (Job.onlyReports_report _) fun _ => ?_
  refine .bind (Job.onlyReports_lift _) fun _ => ?_
  dsimp only
  split
  · refine .bind (Job.onlyReports_lift _) fun scan => ?_
    exact .bind (Job.onlyReports_report _) fun _ => Job.onlyReports_pure _
  · refine .bind (Job.onlyReports_pure _) fun scan => ?_
    exact .bind (Job.onlyReports_report _) fun _ => Job.onlyReports_pure _

theorem Document.build_onlyReports (settings : Settings) (column : Amount) (name : Json)
    (lines : List Text) (exported : List Export) :
    (build settings column name lines exported).OnlyReports := by
  unfold build
  exact .bind (Job.onlyReports_lift _) fun _ => ofPlan_onlyReports _ _ _ _ _

namespace Generate

/-- A file that holds a text is read without a report. -/
theorem readText_of_holds {w : Workspace} {p : Path} {t : Text} (held : w.store.Holds p t) :
    readText p w = (.ok (Text.unifyBreaks t), w) := by
  obtain ⟨bytes, encoded, there⟩ := held
  unfold readText
  rw [Job.get_then, there, Except.mapError, Job.lift_ok, Encoding.readText_encode encoded]
  rfl

theorem readLabels_of_holds {w : Workspace} {p : Path} {t : Text} (held : w.store.Holds p t) :
    ∃ events, readLabels p w = (.ok (Export.read t).labels, { w with events := events }) := by
  refine ⟨w.events ++ ((Export.read t).events ++
    [.labelsRead (Export.read t).labels.length p]), ?_⟩
  unfold readLabels
  rw [Job.bind_of_ok _ (readText_of_holds held), Export.read_unifyBreaks]
  rfl

/-- From files that hold texts a document is built as from the texts, whatever their line ends. -/
theorem documentOf_of_holds {settings : Settings} {amounts : Settings.Amounts} {w : Workspace}
    {listFile labelsFile : Path} {listing labels : Text} (checked : settings.check = .ok amounts)
    (listGiven : settings.listFile = some (.path listFile))
    (labelsGiven : settings.labelsFile = some (.path labelsFile))
    (listHeld : w.store.Holds listFile listing) (labelsHeld : w.store.Holds labelsFile labels) :
    ∃ events, documentOf settings w = Document.build settings amounts.column (.str listFile.name)
      (Text.lines listing) (Export.read labels).labels { w with events := events } := by
  let reported : Workspace :=
    { w with events := w.events ++ [.listingRead (Text.lines listing).length listFile] }
  have still : reported.store.Holds labelsFile labels := labelsHeld
  obtain ⟨events, found⟩ := readLabels_of_holds still
  refine ⟨events, ?_⟩
  unfold documentOf
  rw [checked, Job.lift_ok, listGiven, labelsGiven]
  dsimp only [Settings.pathOf, GivenPath.path?]
  rw [Job.lift_ok, Job.bind_of_ok _ (readText_of_holds listHeld), Text.lines_unifyBreaks,
    Job.report_then, Job.lift_ok, Job.bind_of_ok _ found]

theorem writeBytes_of_ok {p : Path} {content : Utf8.Bytes} {w : Workspace} {after : Store}
    (written : w.store.write p content = .ok after) :
    writeBytes p content w = (.ok (), { w with store := after }) := by
  unfold writeBytes
  rw [Job.get_then, written]
  rfl

/-- A text that can be encoded is written wherever no directory is. -/
theorem write_of_encode {p : Path} {l : Location} {content : Text} {bytes : Utf8.Bytes}
    {w : Workspace} (place : w.store.FreeAt p l) (encoded : Utf8.encode content = .ok bytes) :
    ∃ after, write p content w = (.ok (), { w with store := after }) ∧
      w.store.Rewrites after l bytes := by
  obtain ⟨emptied, cleared, first⟩ := Store.write_rewrites place []
  obtain ⟨after, filled, second⟩ := Store.write_rewrites (first.freeAt place) bytes
  refine ⟨after, ?_, first.trans second⟩
  unfold write
  rw [Job.bind_of_ok _ (writeBytes_of_ok cleared), encoded]
  exact writeBytes_of_ok filled

theorem write_of_unencodable {p : Path} {l : Location} {content : Text} {e : Utf8.Unencodable}
    {w : Workspace} (place : w.store.FreeAt p l) (encoded : Utf8.encode content = .error e) :
    ∃ after, write p content w = (.error (.unencodable e), after) := by
  obtain ⟨emptied, cleared, _⟩ := Store.write_rewrites place []
  refine ⟨{ w with store := emptied }, ?_⟩
  unfold write
  rw [Job.bind_of_ok _ (writeBytes_of_ok cleared), encoded]
  rfl

/-- The names of the files of a document. -/
def files (format : Format) : List Text :=
  mainFile format :: if format = .html then [Html.styleFile] else []

theorem styleSheet_encodable : ∃ bytes, Utf8.encode Html.styleSheet = .ok bytes := by
  have plain (s : String) : (s : Text).any CodePoint.isSurrogate = false := by
    simp [CodePoint.isSurrogate]
  have lines : ∀ line ∈ Html.styleLines, line.any CodePoint.isSurrogate = false := by
    simp only [Html.styleLines, List.forall_mem_cons, List.any_append, plain, Bool.or_self,
      true_and]
    exact List.forall_mem_nil _
  rw [Utf8.exists_encode_iff, Html.styleSheet, List.any_flatMap, List.any_eq_false]
  intro line member
  rw [List.any_append, lines line member, plain]
  decide

/-- Once its directory is there, a document is rendered and then written. -/
theorem publish_of_directory {dir : Path} {w : Workspace} {made : Store}
    (created : w.store.makeDirectories dir = .ok made) (time : Text) (d : Document)
    (format : Format) :
    publish time d (.path dir) (.str format.name) w =
      ((liftM (d.checkedRender time format) : Job Text) >>= deposit dir format)
        { w with store := made } := by
  have named : Format.ofJson (.str format.name) = .ok format := by cases format <;> rfl
  unfold publish
  dsimp only [Settings.pathOf, GivenPath.path?]
  rw [named, Except.mapError, Job.lift_ok, Job.lift_ok, Job.get_then, created]
  rfl

/-- A text that can be encoded is in the main file in the end. The style sheet is another file. -/
theorem deposit_of_encode {dir : Path} {format : Format} {content : Text} {bytes : Utf8.Bytes}
    {w : Workspace} (places : ∀ name ∈ files format, ∃ l, w.store.FreeAt (dir.child name) l)
    (encoded : Utf8.encode content = .ok bytes) :
    ∃ after, deposit dir format content w =
        (.ok (dir.child (mainFile format)), { w with store := after }) ∧
      after.Holds (dir.child (mainFile format)) content := by
  obtain ⟨l, main⟩ := places (mainFile format) List.mem_cons_self
  obtain ⟨filled, written, change⟩ := write_of_encode main encoded
  cases format with
  | json =>
    refine ⟨filled, ?_, bytes, encoded, change.read main.resolved⟩
    unfold deposit
    rw [Job.bind_of_ok _ written]
    rfl
  | html =>
    obtain ⟨k, style⟩ := places Html.styleFile (by simp [files])
    have other : l ≠ k :=
      Store.resolve_child_ne (by decide) (by decide) (by decide) main.resolved style.resolved
    obtain ⟨styleBytes, styleEncoded⟩ := styleSheet_encodable
    obtain ⟨after, styled, styleChange⟩ :=
      write_of_encode (w := { w with store := filled }) (change.freeAt style) styleEncoded
    refine ⟨after, ?_, bytes, encoded, ?_⟩
    · unfold deposit
      rw [Job.bind_of_ok _ written, if_pos rfl, Job.bind_of_ok _ styled]
      rfl
    · refine Store.read_of_file (styleChange.resolve (change.resolve main.resolved)) ?_
      rw [styleChange.elsewhere l other, change.here]

/-- Nothing is published that cannot be encoded. -/
theorem deposit_of_unencodable {dir : Path} {format : Format} {content : Text}
    {e : Utf8.Unencodable} {w : Workspace}
    (places : ∀ name ∈ files format, ∃ l, w.store.FreeAt (dir.child name) l)
    (encoded : Utf8.encode content = .error e) :
    ∃ after, deposit dir format content w = (.error (.unencodable e), after) := by
  obtain ⟨l, main⟩ := places (mainFile format) List.mem_cons_self
  obtain ⟨after, stopped⟩ := write_of_unencodable main encoded
  exact ⟨after, Job.bind_of_error _ stopped⟩

/-- How a run ends that has got its document: it is rendered, encoded and written. -/
theorem run_of_document {settings : Settings} {d : Document} {outputDir : Path} {format : Format}
    {w read : Workspace} (built : documentOf settings w = (.ok d, read))
    (given : settings.outputDir = .path outputDir) (named : settings.format = .str format.name)
    (counted : ∃ statistics, d.checkedStatistics = .ok statistics)
    (writable : read.store.takes outputDir (files format) = true) (time : Text) :
    let path := outputDir.child (mainFile format)
    match d.checkedRender time format with
    | .error fault => (run time settings w).1 = .error fault
    | .ok content => match Utf8.encode content with
      | .error e => (run time settings w).1 = .error (.unencodable e)
      | .ok _ => (run time settings w).1 = .ok path ∧
        (run time settings w).2.store.Holds path content := by
  intro path
  obtain ⟨made, created, places⟩ := Store.takes_ok writable
  obtain ⟨statistics, counted⟩ := counted
  have published := publish_of_directory created time d format
  have start : run time settings w = (publish time d (.path outputDir) (.str format.name) >>=
      fun path => do
        let statistics ← d.checkedStatistics
        Job.report [.documentWritten path statistics.total statistics.documented]
        return path) read := by
    unfold run
    rw [Job.bind_of_ok _ built, given, named]
  cases rendered : d.checkedRender time format with
  | error fault =>
    rw [rendered] at published
    rw [start, Job.bind_of_error _ published]
  | ok content =>
    rw [rendered, Job.lift_ok] at published
    dsimp only
    cases encoded : Utf8.encode content with
    | error e =>
      obtain ⟨after, stopped⟩ :=
        deposit_of_unencodable (w := { read with store := made }) places encoded
      rw [start, Job.bind_of_error _ (published.trans stopped)]
    | ok bytes =>
      obtain ⟨after, done, held⟩ :=
        deposit_of_encode (w := { read with store := made }) places encoded
      rw [start, Job.bind_of_ok _ (published.trans done), counted]
      exact ⟨rfl, held⟩

end Generate

end LabelAtlas
