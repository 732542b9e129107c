import LabelAtlas.Proofs.Agreement
import LabelAtlas.Proofs.Bounds
import LabelAtlas.Proofs.Pages

/-! Requests that are accepted. Their numbers are counts, so their documents are always built and
none is refused. Whether a page is answered is then decided by the values alone: one that cannot be
shown is no fault of building, and comes out as a fault of the service. -/
namespace LabelAtlas

/-! ## Settings with counts -/

theorem Amount.ofSetting_whole (name : Text) {v : Json} {n : Int}
    (whole : ofJson? v = some (.whole n)) (count : 0 ≤ n) : ofSetting name v = .ok (.whole n) := by
  have sign : isNegative (.whole n) = false := by simpa [isNegative] using count
  rw [ofSetting, whole]
  simp [sign]

/-- Settings whose numbers are counts, and that name a format. -/
structure Settings.Counts (s : Settings) (column blankLines scan : Int) : Prop where
  column : Amount.ofJson? s.sourceColumn = some (.whole column) ∧ 0 ≤ column
  blankLines : Amount.ofJson? s.maxBlankLines = some (.whole blankLines) ∧ 0 ≤ blankLines
  scan : Amount.ofJson? s.kindScanLines = some (.whole scan) ∧ 0 ≤ scan
  format : s.format.isTruthy = true

variable {settings : Settings} {column blankLines scan : Int}

theorem Settings.Counts.check (counts : settings.Counts column blankLines scan) :
    settings.check = .ok ⟨.whole column, .whole blankLines, .whole scan⟩ := by
  unfold Settings.check
  rw [Amount.ofSetting_whole _ counts.column.1 counts.column.2,
    Amount.ofSetting_whole _ counts.blankLines.1 counts.blankLines.2,
    Amount.ofSetting_whole _ counts.scan.1 counts.scan.2]
  simp only [bind, Except.bind, counts.format, ↓reduceIte]

/-- With counts in the settings every pair of texts gives a document, as deep as names go. -/
theorem Document.ofGiven_counts (counts : settings.Counts column blankLines scan) (name : Json)
    (listing labels : Text) (w : Workspace) :
    (ofGiven settings settings.sourceColumn name (.str listing) (.str labels) w).1 =
      if ∀ x ∈ (Export.read labels).labels, (segments x.name).length ≤ Tree.maxWalkDepth then
        .ok (ofListing (.ofText listing column.toNat name) (Export.read labels).labels
          ⟨settings.title, blankLines, settings.classifyKinds.isTruthy, scan⟩)
      else .error .tooDeep := by
  have whole : (column.toNat : Int) = column := Int.toNat_of_nonneg counts.column.2
  unfold ofGiven
  dsimp only
  rw [Amount.ofSetting_whole _ counts.column.1 counts.column.2, Job.lift_ok, ofTexts,
    Job.report_then]
  have made := build_whole counts.check (.ofText listing column.toNat name)
    (Export.read labels).labels { w with events := w.events ++ (Export.read labels).events }
  rw [← made]
  simp only [Listing.ofText, whole]

namespace Service

/-! ## Accepted requests -/

theorem field_ok {α : Type} {members : Json.Object} {name : Text} {fallback : Option α}
    {read : Json → Except Issue α} {a : α} {P : α → Prop}
    (default : ∀ b ∈ fallback, P b) (reads : ∀ v b, read v = .ok b → P b)
    (found : field members name fallback read = .ok a) : P a := by
  unfold field at found
  split at found
  · exact reads _ a (mapError_ok found)
  · cases found
    exact default a rfl
  · cases found

theorem countOf_nonneg {v : Json} {n : Int} (read : countOf v = .ok n) : 0 ≤ n := by
  obtain ⟨m, -, checked⟩ := bind_ok read
  split at checked
  · cases checked
  · cases checked
    omega

/-- What a request counts is counted from zero. -/
theorem ofMembers_counts {members : Json.Object} {r : Request}
    (accepted : Request.ofMembers members = .ok r) : r.Counts := by
  have count {name : Text} {n : Int} (fallback : Int) (nonneg : 0 ≤ fallback)
      (found : field members name (some fallback) countOf = .ok n) : 0 ≤ n :=
    field_ok (by simpa using nonneg) (fun _ _ => countOf_nonneg) found
  unfold Request.ofMembers at accepted
  dsimp only at accepted
  split at accepted
  · rename_i column blanks _ scan
    cases accepted
    exact ⟨count 24 (by decide) column, count 2 (by decide) blanks, count 8 (by decide) scan⟩
  · cases accepted

theorem requestOf_counts {body : Utf8.Bytes} {r : Request} (accepted : requestOf body = .ok r) :
    r.Counts := by
  unfold requestOf at accepted
  split at accepted
  · cases accepted
  · split at accepted
    · cases accepted
    · cases accepted
    · cases accepted
    · cases accepted
    · exact ofMembers_counts (mapError_ok accepted)
    · cases accepted

theorem hierarchyOf_status (d : Document) :
    (hierarchyOf d).status = 200 ∨ (hierarchyOf d).status = 500 := by
  unfold hierarchyOf
  split
  · split
    · exact .inl rfl
    · exact .inr rfl
  · exact .inr rfl

theorem pageOf_status (d : Document) : (pageOf d).status = 200 ∨ (pageOf d).status = 500 := by
  unfold pageOf
  split
  · split
    · exact .inr rfl
    · exact .inl rfl
  · exact .inr rfl

/-- A request that is accepted is not refused later on. -/
theorem documentAnswer_status {answer : Document → Answer}
    (shows : ∀ d, (answer d).status = 200 ∨ (answer d).status = 500) {body : Utf8.Bytes}
    {r : Request} (accepted : requestOf body = .ok r) :
    (documentAnswer answer body).status = 200 ∨ (documentAnswer answer body).status = 500 := by
  unfold documentAnswer
  rw [accepted]
  dsimp only
  rw [build_request (requestOf_counts accepted)]
  by_cases shallow : r.Shallow
  · rw [if_pos shallow]
    exact shows _
  · rw [if_neg shallow]
    exact .inr rfl

theorem answer_status (e : Endpoint) {body : Utf8.Bytes} {r : Request}
    (accepted : requestOf body = .ok r) :
    (e.answer body).status = 200 ∨ (e.answer body).status = 500 := by
  cases e with
  | hierarchy => exact documentAnswer_status hierarchyOf_status accepted
  | render => exact documentAnswer_status pageOf_status accepted
  | health | formats | schema | explorer | signIn | reference => exact .inl rfl

/-- With counts in its settings a document is built from any texts, unless a name is too deep. No
line is looked up that is not there and no kind is asked of a text without a word, so the steps that
could fail come to the same end as those that cannot. Requests have counts in their settings: none
that is accepted is refused, and no endpoint answers that it is at fault. -/
theorem building_succeeds (settings : Settings) (column blankLines scan : Int)
    (counts : settings.Counts column blankLines scan) (name : Json) (listing labels : Text) :
    let source : Listing := .ofText listing column.toNat name
    let exported := (Export.read labels).labels
    (∀ w, (Document.ofGiven settings settings.sourceColumn name (.str listing) (.str labels) w).1 =
      if ∀ x ∈ exported, (segments x.name).length ≤ Tree.maxWalkDepth then
        .ok (.ofListing source exported
          ⟨settings.title, blankLines, settings.classifyKinds.isTruthy, scan⟩)
      else .error .tooDeep) ∧
    (∀ line, Description.describeByNumber? source.lines source.sourceOf blankLines line =
      some (Description.describe source.lines source.sourceOf blankLines line)) ∧
    (∀ line, Source.kindByWord? source.sourceLines line scan =
      some (Source.kindOf source.sourceLines line scan)) ∧
    ∀ body r, requestOf body = .ok r →
      (build r.settings (Json.ofText? r.name) (.str r.listing) (.str r.labels)).1 =
        (if r.Shallow then .built r.document else .failed .tooDeep) ∧
      ∀ e : Endpoint, (e.answer body).status ≠ 400 := by
  intro source exported
  refine ⟨Document.ofGiven_counts counts name listing labels, ?_, ?_, ?_⟩
  · exact Description.describeByNumber?_eq source.sourceOf blankLines
  · intro line
    exact Source.kindByWord?_eq source.sourceLines line scan
  · intro body r accepted
    refine ⟨build_request (requestOf_counts accepted), ?_⟩
    intro e refused
    rcases answer_status e accepted with fine | failed
    · rw [fine] at refused
      cases refused
    · rw [failed] at refused
      cases refused

/-- A truth value counts as a number, and the label is described across a blank line. -/
theorem building_succeeds_blank_line :
    let settings : Settings :=
      { sourceColumn := .int 0, maxBlankLines := .bool true, kindScanLines := .int 1 }
    let listing : Text := "; Prints\n\nput:\n db 1"
    let document := Document.ofListing (.ofText listing 0 .null)
      (Export.read "put EQU -5").labels ⟨settings.title, 1, true, 1⟩
    settings.Counts 0 1 1 ∧
    (Document.ofGiven settings settings.sourceColumn .null (.str listing)
      (.str "put EQU -5") {}).1 = .ok document ∧
    Description.describeByNumber? (Text.lines listing) (Listing.sourceText 0) 1 (some 2) =
      some (some (" Prints" : Text)) := by
  intro settings listing document
  have counts : settings.Counts 0 1 1 := ⟨⟨rfl, by decide⟩, ⟨rfl, by decide⟩, ⟨rfl, by decide⟩, rfl⟩
  obtain ⟨made, described, -⟩ := building_succeeds settings 0 1 1 counts .null listing "put EQU -5"
  refine ⟨counts, (made {}).trans (if_pos (by decide +kernel)), (described (some 2)).trans ?_⟩
  exact congrArg some (by decide +kernel)

end Service

/-! ## Values that can be shown -/

namespace Document

theorem value_ofListing {listing : Listing} {exported : List Export}
    (once : (exported.map (·.name)).Nodup) {options : Options} {x : Export} (member : x ∈ exported)
    {u : Tree} (found : (ofListing listing exported options).root.get? x.name = some u) :
    u.entry.value = x.value := by
  obtain ⟨y, last, entry⟩ := ofListing_exported listing exported options x member
  rw [← get?_entry, found] at entry
  rw [show u.entry = _ from Option.some.inj entry, ← lastValue_of_nodup once member]
  exact last

/-- The values of a document are those of its exports. -/
theorem showable_iff (listing : Listing) {exported : List Export}
    (once : (exported.map (·.name)).Nodup) (options : Options) :
    ((ofListing listing exported options).entered.all fun p => Html.isShowable p.2.entry) = true ↔
      ∀ x ∈ exported, ∀ v ∈ x.value, 0 ≤ v ∨ Numeral.isShort v = true := by
  have proper := proper_of_shape (ofListing_shape listing exported options)
  have showable (e : Entry) : Html.isShowable e = true ↔
      ∀ v ∈ e.value, 0 ≤ v ∨ Numeral.isShort v = true := by
    cases value : e.value <;> simp [Html.isShowable, value]
  simp only [List.all_eq_true, showable]
  constructor
  · intro all x member
    obtain ⟨u, found⟩ := exists_get?_ofListing listing exported options member
    have entered := (Tree.mem_entered proper _ u).mpr
      ⟨segments x.name, rfl, (Tree.get?_eq_segments _ _).symm.trans found⟩
    rw [← value_ofListing once member found]
    exact all _ entered
  · rintro all ⟨q, u⟩ entered
    obtain ⟨path, rfl, found⟩ := (Tree.mem_entered proper q u).mp entered
    by_cases exported_here : ∃ x ∈ exported, segments x.name = path
    · obtain ⟨x, member, rfl⟩ := exported_here
      rw [← Tree.get?_eq_segments] at found
      rw [value_ofListing once member found]
      exact all x member
    · have present := present_ofListing listing exported options path
      have nonempty : path ≠ [] := (present.mp (by rw [found]; rfl)).1
      have empty : u.entry = {} := by
        apply ofListing_unexported listing exported options path nonempty
        · intro x member same
          exact exported_here ⟨x, member, same⟩
        · rw [Forest.entryAt?, found]
          rfl
      rw [empty]
      intro v member
      cases member

theorem html_of_title {d : Document} {title source : Text} (titled : d.title = .str title)
    (named : d.sourceText = .ok source) :
    d.html = if d.entered.all fun p => Html.isShowable p.2.entry then
        .ok (Html.page title source (d.root.walk []))
      else .error .longInteger := by
  unfold html
  rw [titled, named]
  cases d.entered.all fun p => Html.isShowable p.2.entry <;> rfl

end Document

namespace Service

/-- The page of a request. -/
def Request.page (r : Request) : Text :=
  Html.page r.title (r.name.getD []) (r.document.root.walk [])

/-- No export of a request has a negative value with more digits than a numeral may have. -/
def Request.Showable (r : Request) : Prop :=
  ∀ x ∈ (Export.read r.labels).labels, ∀ v ∈ x.value, 0 ≤ v ∨ Numeral.isShort v = true

/-- Only a value that cannot be shown keeps a request from its page. -/
theorem Request.html_eq (r : Request) :
    (r.Showable → r.document.html = .ok r.page) ∧
      (¬r.Showable → r.document.html = .error .longInteger) := by
  have named : r.document.sourceText = .ok (r.name.getD []) := Document.sourceText_ofText? rfl
  have titled : r.document.title = .str r.title := rfl
  have rendered := Document.html_of_title titled named
  have values : (r.document.entered.all fun p => Html.isShowable p.2.entry) = true ↔ r.Showable :=
    Document.showable_iff _ (Export.read_nodup r.labels) _
  constructor
  · intro showable
    rw [rendered, if_pos (values.mpr showable)]
    rfl
  · intro hidden
    rw [rendered, if_neg (mt values.mp hidden)]

/-- What a request must have to be answered with its page: names that are not too deep, values that
can be shown, and no surrogate on the page. -/
structure Request.HasPage (r : Request) : Prop where
  shallow : r.Shallow
  showable : r.Showable
  plain : r.page.any CodePoint.isSurrogate = false

/-- A request that is accepted is answered with its page if it has one. If not, which may be because
of a negative value alone, the answer is that the service failed; it is never that the request is
at fault. -/
theorem page_answered (body : Utf8.Bytes) (r : Request) (accepted : requestOf body = .ok r) :
    (r.HasPage → handle "POST" "/api/render" body = success (.html r.page)) ∧
      (¬r.HasPage → handle "POST" "/api/render" body = serverError) := by
  have answered := handle_render (requestOf_counts accepted) accepted
  have rendered := r.html_eq
  constructor
  · intro has
    rw [answered, if_pos has.shallow, pageOf, rendered.1 has.showable]
    dsimp only
    rw [has.plain]
    rfl
  · intro lacks
    rw [answered]
    by_cases shallow : r.Shallow
    · rw [if_pos shallow, pageOf]
      by_cases showable : r.Showable
      · rw [rendered.1 showable]
        dsimp only
        have surrogate : r.page.any CodePoint.isSurrogate = true := by
          rw [← Bool.not_eq_false]
          exact fun plain => lacks ⟨shallow, showable, plain⟩
        rw [if_pos surrogate]
      · rw [rendered.2 showable]
    · rw [if_neg shallow]

/-- A request with a name, a description and a negative value that is short. -/
theorem page_answered_negative :
    let r : Request :=
      { listing := "; é\na: nop", labels := "a = -5", name := some "rom.lst", sourceColumn := 0 }
    let body : Utf8.Bytes := ("\x7b\"listing\": \"; é\\na: nop\", \"labels\": \"a = -5\", \"name\":"
      ++ " \"rom.lst\", \"source_column\": \"+0.0\"\x7d").toList.flatMap Utf8.encodeChar
    requestOf body = .ok r ∧ r.HasPage ∧
      handle "POST" "/api/render" body = success (.html r.page) := by
  intro r body
  have accepted : requestOf body = .ok r := by decide +kernel
  have exported : (Export.read r.labels).labels = [⟨"a", some (-5)⟩] := by decide +kernel
  have has : r.HasPage := by
    refine ⟨by decide +kernel, ?_, by decide +kernel⟩
    rw [Request.Showable, exported]
    simp only [List.forall_mem_singleton, Option.mem_some_iff, forall_eq']
    exact .inr (by decide +kernel)
  exact ⟨accepted, has, (page_answered body r accepted).1 has⟩

/-- A negative value of 3572 hexadecimal digits has more than 4300 decimal ones. The request is
accepted and its document is built, but it is answered neither with a page nor with a refusal. -/
theorem long_negative_value_fails :
    let long (front back : String) : List Char :=
      front.toList ++ List.replicate 3572 'f' ++ back.toList
    let r : Request := { listing := "", labels := (long "a = 0x-" "").map .scalar }
    let body : Utf8.Bytes := (long "\x7b\"listing\": \"\", \"labels\": \"a = 0x-" "\"\x7d").flatMap
      Utf8.encodeChar
    requestOf body = .ok r ∧
    (build r.settings (Json.ofText? r.name) (.str r.listing) (.str r.labels)).1 =
      .built r.document ∧
    r.document.html = .error .longInteger ∧ Fault.category (.ofFlaw .longInteger) = .value ∧
    handle "POST" "/api/render" body = serverError := by
  intro long r body
  have accepted : requestOf body = .ok r := by decide +kernel
  have exported : (Export.read r.labels).labels = [⟨"a", some (1 - 16 ^ 3572)⟩] := by
    decide +kernel
  have long_value : Numeral.isShort (1 - 16 ^ 3572) = false := by decide +kernel
  have negative : ¬(0 : Int) ≤ 1 - 16 ^ 3572 := by decide +kernel
  have shallow : r.Shallow := by
    rw [Request.Shallow, exported]
    decide
  clear_value r body
  have hidden : ¬r.Showable := by
    intro showable
    rcases showable _ (exported ▸ List.mem_singleton_self _) _ rfl with count | short
    · exact negative count
    · rw [long_value] at short
      cases short
  have counts := requestOf_counts accepted
  have rendered := r.html_eq.2 hidden
  refine ⟨accepted, (build_request counts).trans (if_pos shallow), rendered, rfl, ?_⟩
  rw [handle_render counts accepted, if_pos shallow, pageOf, rendered]

end Service

end LabelAtlas
