import LabelAtlas.Proofs.Counts
import LabelAtlas.Proofs.Files
import LabelAtlas.Service.Answer

/-! A document is the same whether its texts come in files or in a request. Both ways are compared
with the document of the texts themselves. -/
namespace LabelAtlas

theorem Amount.ofSetting_count (name : Text) {n : Int} (count : 0 ≤ n) :
    ofSetting name (.int n) = .ok (.whole n) := by
  have sign : isNegative (.whole n) = false := by simpa [isNegative] using count
  simp [ofSetting, ofJson?, sign]

namespace Document

/-- With whole numbers in the settings only the depth of names can be at fault. -/
theorem build_whole {settings : Settings} {column : Amount} {tolerance scan : Int}
    (checked : settings.check = .ok ⟨column, .whole tolerance, .whole scan⟩) (listing : Listing)
    (exported : List Export) (w : Workspace) :
    (build settings (.whole listing.column) listing.name listing.lines exported w).1 =
      if ∀ x ∈ exported, (segments x.name).length ≤ Tree.maxWalkDepth then
        .ok (ofListing listing exported
          ⟨settings.title, tolerance, settings.classifyKinds.isTruthy, scan⟩)
      else .error .tooDeep := by
  unfold build
  rw [checked, Job.lift_ok]
  exact ofPlan_whole listing exported
    ⟨settings.title, tolerance, settings.classifyKinds.isTruthy, scan⟩ w

theorem ofListing_countable (listing : Listing) (exported : List Export) (options : Options)
    (shallow : ∀ x ∈ exported, (segments x.name).length ≤ Tree.maxWalkDepth) :
    ∃ statistics, (ofListing listing exported options).checkedStatistics = .ok statistics :=
  ⟨_, ofListing_checkedStatistics listing exported options shallow⟩

theorem checkedRender_html {d : Document} (walked : d.root.checkWalk = .ok ()) (time : Text) :
    d.checkedRender time .html = d.html.mapError Fault.ofFlaw := by
  unfold checkedRender
  dsimp only
  rw [walked]
  rfl

end Document

namespace Service

/-- The settings of a run on files that asks for the same as a request. -/
def Request.settingsFor (r : Request) (listFile labelsFile outputDir : Path) (format : Format) :
    Settings :=
  { r.settings with
    listFile := some (.path listFile)
    labelsFile := some (.path labelsFile)
    outputDir := .path outputDir
    format := .str format.name }

/-- The document of the texts and values of a request. -/
def Request.document (r : Request) : Document :=
  .ofListing (.ofText r.listing r.sourceColumn.toNat (Json.ofText? r.name))
    (Export.read r.labels).labels
    ⟨.str r.title, r.maxBlankLines, r.classifyKinds, r.kindScanLines⟩

/-- No exported name has more segments than can be worked on. -/
def Request.Shallow (r : Request) : Prop :=
  ∀ x ∈ (Export.read r.labels).labels, (segments x.name).length ≤ Tree.maxWalkDepth

instance (r : Request) : Decidable r.Shallow :=
  inferInstanceAs (Decidable (∀ x ∈ _, _))

/-- The numbers of a request are counts. -/
def Request.Counts (r : Request) : Prop :=
  0 ≤ r.sourceColumn ∧ 0 ≤ r.maxBlankLines ∧ 0 ≤ r.kindScanLines

instance (r : Request) : Decidable r.Counts :=
  inferInstanceAs (Decidable (_ ∧ _ ∧ _))

/-- Settings that ask for what a request asks for. -/
structure Request.AskedBy (r : Request) (settings : Settings) : Prop where
  title : settings.title = .str r.title
  column : settings.sourceColumn = .int r.sourceColumn
  blankLines : settings.maxBlankLines = .int r.maxBlankLines
  classify : settings.classifyKinds = .bool r.classifyKinds
  scan : settings.kindScanLines = .int r.kindScanLines
  format : settings.format.isTruthy = true

variable {r : Request}

theorem Request.askedBy_settings : r.AskedBy r.settings :=
  ⟨rfl, rfl, rfl, rfl, rfl, rfl⟩

theorem Request.askedBy_settingsFor (listFile labelsFile outputDir : Path) (format : Format) :
    r.AskedBy (r.settingsFor listFile labelsFile outputDir format) :=
  ⟨rfl, rfl, rfl, rfl, rfl, by cases format <;> rfl⟩

theorem check_asked (counts : r.Counts) {settings : Settings} (asked : r.AskedBy settings) :
    settings.check =
      .ok ⟨.whole r.sourceColumn, .whole r.maxBlankLines, .whole r.kindScanLines⟩ := by
  unfold Settings.check
  rw [asked.column, asked.blankLines, asked.scan, Amount.ofSetting_count _ counts.1,
    Amount.ofSetting_count _ counts.2.1, Amount.ofSetting_count _ counts.2.2]
  simp only [bind, Except.bind, asked.format, ↓reduceIte]

/-- The document of a request is built unless a name is too deep. -/
theorem build_asked (counts : r.Counts) {settings : Settings} (asked : r.AskedBy settings)
    (w : Workspace) :
    (Document.build settings (.whole r.sourceColumn) (Json.ofText? r.name) (Text.lines r.listing)
        (Export.read r.labels).labels w).1 =
      if r.Shallow then .ok r.document else .error .tooDeep := by
  have column : (r.sourceColumn.toNat : Int) = r.sourceColumn := Int.toNat_of_nonneg counts.1
  have made := Document.build_whole (check_asked counts asked)
    (.ofText r.listing r.sourceColumn.toNat (Json.ofText? r.name)) (Export.read r.labels).labels w
  rw [asked.title, asked.classify] at made
  rw [← column]
  exact made

/-- The service builds the document of a request, and refuses none. -/
theorem build_request (counts : r.Counts) :
    (build r.settings (Json.ofText? r.name) (.str r.listing) (.str r.labels)).1 =
      if r.Shallow then .built r.document else .failed .tooDeep := by
  have column : Amount.ofSetting "source_column" r.settings.sourceColumn =
      .ok (.whole r.sourceColumn) := Amount.ofSetting_count _ counts.1
  have given : Document.ofGiven r.settings r.settings.sourceColumn (Json.ofText? r.name)
      (.str r.listing) (.str r.labels) {} = Document.build r.settings (.whole r.sourceColumn)
        (Json.ofText? r.name) (Text.lines r.listing) (Export.read r.labels).labels
        { events := (Export.read r.labels).events } := by
    unfold Document.ofGiven
    dsimp only
    rw [column]
    rfl
  have made := build_asked counts Request.askedBy_settings
    { events := (Export.read r.labels).events }
  rw [← given] at made
  unfold build ExceptT.run
  generalize Document.ofGiven r.settings r.settings.sourceColumn (Json.ofText? r.name)
    (.str r.listing) (.str r.labels) {} = result at made
  obtain ⟨ending, after⟩ := result
  dsimp only at made ⊢
  rw [made]
  by_cases shallow : r.Shallow
  · rw [if_pos shallow, if_pos shallow]
  · rw [if_neg shallow, if_neg shallow]
    rfl

/-- A run on files that hold the texts of a request builds its document and changes no file. -/
theorem documentOf_request (counts : r.Counts) {listFile labelsFile : Path}
    (named : r.name = some listFile.name) {w : Workspace}
    (listing : w.store.Holds listFile r.listing) (labels : w.store.Holds labelsFile r.labels)
    (outputDir : Path) (format : Format) :
    ∃ events, Generate.documentOf (r.settingsFor listFile labelsFile outputDir format) w =
      (if r.Shallow then .ok r.document else .error .tooDeep, { w with events := events }) := by
  have asked := r.askedBy_settingsFor listFile labelsFile outputDir format
  obtain ⟨events, read⟩ :=
    Generate.documentOf_of_holds (check_asked counts asked) rfl rfl listing labels
  have name : Json.ofText? r.name = .str listFile.name := by rw [named, Json.ofText?]
  have made := build_asked counts asked { w with events := events }
  have files := (Document.build_onlyReports (r.settingsFor listFile labelsFile outputDir format)
    (.whole r.sourceColumn) (Json.ofText? r.name) (Text.lines r.listing)
    (Export.read r.labels).labels).store { w with events := events }
  rw [name, ← read] at made files
  exact ⟨(Generate.documentOf _ w).2.events, Prod.ext made (by rw [← files])⟩

theorem answerFor_render (body : Utf8.Bytes) :
    answerFor "POST" "/api/render" body = documentAnswer pageOf body := by
  have found : Endpoint.ofPath? (pathOf "/api/render") = some .render := by decide
  have allowed : Endpoint.render.methods.contains "POST" = true := by decide
  unfold answerFor
  rw [found]
  dsimp only
  rw [if_pos allowed]
  rfl

/-- A page can be sent exactly if it can be encoded. -/
theorem pageOf_eq (d : Document) :
    pageOf d = match d.html with
      | .error _ => serverError
      | .ok page => match Utf8.encode page with
        | .error _ => serverError
        | .ok _ => success (.html page) := by
  unfold pageOf
  cases d.html with
  | error flaw => rfl
  | ok page =>
    have encodable := Utf8.exists_encode_iff page
    dsimp only
    cases encoded : Utf8.encode page with
    | error e =>
      have surrogate : page.any CodePoint.isSurrogate = true := by simpa [encoded] using encodable
      rw [if_pos surrogate]
    | ok bytes =>
      have plain := encodable.mp ⟨bytes, encoded⟩
      rw [plain]
      rfl

/-- A posted request is answered with the page of its document. -/
theorem handle_render (counts : r.Counts) {body : Utf8.Bytes} (posted : requestOf body = .ok r) :
    handle "POST" "/api/render" body =
      if r.Shallow then pageOf r.document else serverError := by
  have whole (a : Answer) (sent : a.sent = true) :
      { a with sent := ("POST" : Text) ≠ "HEAD" } = a := by
    cases a
    cases sent
    rfl
  have page : (pageOf r.document).sent = true := by
    unfold pageOf
    split <;> [split <;> rfl; rfl]
  unfold handle
  rw [answerFor_render, documentAnswer, posted]
  dsimp only
  rw [build_request counts]
  by_cases shallow : r.Shallow
  · rw [if_pos shallow, if_pos shallow]
    exact whole _ page
  · rw [if_neg shallow, if_neg shallow]
    exact whole _ rfl

/-- Files that hold the texts of a request and settings that ask for the same give the document
that the service builds, and the page that is written is the page that is answered. What cannot be
rendered, or not be encoded, is neither written nor answered, and names too deep to be worked on
are so in both. -/
theorem files_and_requests_agree (r : Request) (counts : r.Counts)
    (listFile labelsFile outputDir : Path) (named : r.name = some listFile.name) (w : Workspace)
    (listing : w.store.Holds listFile r.listing) (labels : w.store.Holds labelsFile r.labels)
    (format : Format) (writable : w.store.takes outputDir (Generate.files format) = true)
    (time : Text) :
    let settings := r.settingsFor listFile labelsFile outputDir format
    let built := (Generate.documentOf settings w).1
    let served := (build r.settings (Json.ofText? r.name) (.str r.listing) (.str r.labels)).1
    let ending := (Generate.run time settings w).1
    let after := (Generate.run time settings w).2.store
    let answer := handle "POST" "/api/render"
    if r.Shallow then
      built = .ok r.document ∧ served = .built r.document ∧
      (format = .html → ∀ body, requestOf body = .ok r →
        match r.document.html with
        | .error flaw => ending = .error (.ofFlaw flaw) ∧ answer body = serverError
        | .ok page => match Utf8.encode page with
          | .error e => ending = .error (.unencodable e) ∧ answer body = serverError
          | .ok _ => ending = .ok (outputDir.child "index.html") ∧
            after.Holds (outputDir.child "index.html") page ∧
            answer body = success (.html page))
    else
      built = .error .tooDeep ∧ served = .failed .tooDeep ∧ ending = .error .tooDeep ∧
      ∀ body, requestOf body = .ok r → answer body = serverError := by
  intro settings built served ending after answer
  obtain ⟨events, read⟩ := documentOf_request counts named listing labels outputDir format
  have served_eq := build_request counts
  by_cases shallow : r.Shallow
  · rw [if_pos shallow] at read served_eq ⊢
    refine ⟨congrArg Prod.fst read, served_eq, ?_⟩
    rintro rfl body posted
    have answered := handle_render counts posted
    rw [if_pos shallow, pageOf_eq] at answered
    have ran := Generate.run_of_document read rfl rfl (Document.ofListing_countable _ _ _ shallow)
      writable time
    have main : Generate.mainFile .html = "index.html" := by decide
    have walked : r.document.root.checkWalk = .ok () := Document.ofListing_walkable _ _ _ shallow
    rw [main, Document.checkedRender_html walked time] at ran
    cases rendered : r.document.html with
    | error flaw =>
      rw [rendered] at ran answered
      exact ⟨ran, answered⟩
    | ok page =>
      rw [rendered] at ran answered
      dsimp only [Except.mapError] at ran answered ⊢
      cases encoded : Utf8.encode page with
      | error e =>
        rw [encoded] at ran answered
        exact ⟨ran, answered⟩
      | ok bytes =>
        rw [encoded] at ran answered
        exact ⟨ran.1, ran.2, answered⟩
  · rw [if_neg shallow] at read served_eq ⊢
    have stopped : Generate.run time settings w = (.error .tooDeep, { w with events := events }) :=
      Job.bind_of_error _ read
    refine ⟨congrArg Prod.fst read, served_eq, congrArg Prod.fst stopped, ?_⟩
    intro body posted
    exact (handle_render counts posted).trans (if_neg shallow)

/-- Line ends of three kinds, and a character of two bytes. -/
theorem files_and_requests_agree_mixed_ends :
    let bytes (s : String) : Utf8.Bytes := s.toList.flatMap Utf8.encodeChar
    let r : Request :=
      { listing := "; é\rwait:\r\n nop\n", labels := "io.port: EQU 254\r\nwait: EQU 8\r"
        name := some "rom.lst", sourceColumn := 0 }
    let body := bytes ("\x7b\"listing\": \"; é\\rwait:\\r\\n nop\\n\", \"source_column\": 0,"
      ++ " \"labels\": \"io.port: EQU 254\\r\\nwait: EQU 8\\r\", \"name\": \"rom.lst\"\x7d")
    let listFile : Path := ⟨.here, ["rom.lst"]⟩
    let labelsFile : Path := ⟨.here, ["rom.exp"]⟩
    let store := (Store.place {} listFile (.file (bytes "; é\rwait:\r\n nop\n"))).place
      labelsFile (.file (bytes "io.port: EQU 254\r\nwait: EQU 8\r"))
    let ran := Generate.run "now" (r.settingsFor listFile labelsFile ⟨.here, ["docs"]⟩ .html)
      { store := store }
    let index : Path := ⟨.here, ["docs", "index.html"]⟩
    r.Shallow ∧ requestOf body = .ok r ∧
    ∃ page, r.document.html = .ok page ∧ ran.1 = .ok index ∧ ran.2.store.Holds index page ∧
      handle "POST" "/api/render" body = success (.html page) := by
  intro bytes r body listFile labelsFile store ran index
  have counts : r.Counts := by decide
  have named : r.name = some listFile.name := by decide +kernel
  have shallow : r.Shallow := by decide +kernel
  have posted : requestOf body = .ok r := by decide +kernel
  have listing : store.Holds listFile r.listing := ⟨_, rfl, by decide +kernel⟩
  have labels : store.Holds labelsFile r.labels := ⟨_, rfl, by decide +kernel⟩
  have writable : store.takes ⟨.here, ["docs"]⟩ (Generate.files .html) = true := by
    decide +kernel
  have sent : pageOf r.document ≠ serverError := by decide +kernel
  -- The evaluated facts are all that is used of the values from here on.
  clear_value r body store listFile labelsFile
  have shown : ∃ page bytes, r.document.html = .ok page ∧ Utf8.encode page = .ok bytes := by
    rw [pageOf_eq] at sent
    split at sent
    · exact absurd rfl sent
    · rename_i page rendered
      split at sent
      · exact absurd rfl sent
      · rename_i bytes encoded
        exact ⟨page, bytes, rendered, encoded⟩
  obtain ⟨page, encoding, rendered, encoded⟩ := shown
  have agree := files_and_requests_agree r counts listFile labelsFile ⟨.here, ["docs"]⟩ named
    { store := store } listing labels .html writable "now"
  rw [if_pos shallow] at agree
  have pages := agree.2.2 rfl body posted
  rw [rendered] at pages
  dsimp only at pages
  rw [encoded] at pages
  exact ⟨shallow, posted, page, rendered, pages⟩

end Service

end LabelAtlas
