import LabelAtlas.Proofs.Characters
import LabelAtlas.Proofs.Exports
import LabelAtlas.Proofs.Nesting

/-! Pages read back. The tags of a page close each other, the contents and the sections lie in each
other like the entries, and every text that a page shows is found in it unchanged. Labels stand in
attributes without being escaped; the characters of exported names make that safe. -/
namespace LabelAtlas

open Piece Markup

/-! ## Exported names -/

namespace Export

open Source

theorem isPlain_of_isNameChar {c : CodePoint} (named : isNameChar c = true) :
    isPlain c = true := by
  by_contra marked
  simp only [isPlain, isDelimiter, ne_eq, Bool.and_eq_true, Bool.not_eq_true', decide_eq_true_eq,
    Bool.or_eq_false_iff, decide_eq_false_iff_not, not_and_or, not_not] at marked
  rcases marked with rfl | ((rfl | rfl) | rfl) | rfl
  all_goals exact absurd named (by decide +kernel)

/-- The letters outside ASCII that a name may start with are letters of names as well. -/
theorem isNameChar_of_isNameStart {c : CodePoint} (first : isNameStart c = true) :
    isNameChar c = true := by
  simp only [isNameStart, Bool.or_eq_true, decide_eq_true_eq] at first
  rcases first with (((start | rfl) | rfl) | rfl) | rfl
  · exact Text.isNameChar_of_isLabelStart start
  all_goals decide +kernel

section NameCharacters

variable {p : CodePoint → Bool} (passes : ∀ c, isNameChar c = true → p c = true)
include passes

theorem longest?_all {t name value : Text} (first : t.head?.all p = true)
    (found : longest? t = some (name, value)) : name.all p = true := by
  induction t generalizing name with
  | nil => cases found
  | cons c t ih =>
    rw [longest?] at found
    -- The name goes on only where the next character may stand in a name.
    split at found
    next longer value' inner =>
      obtain ⟨rfl, rfl⟩ := Prod.mk.inj (Option.some.inj found)
      split at inner
      next named =>
        have next : t.head?.all p = true := by
          cases t with
          | nil => rfl
          | cons d t => exact passes d named
        exact Bool.and_eq_true_iff.mpr ⟨first, ih next inner⟩
      next => cases inner
    next =>
      obtain ⟨_, -, same⟩ := Option.map_eq_some_iff.mp found
      obtain ⟨rfl, -⟩ := Prod.mk.inj same
      exact Bool.and_eq_true_iff.mpr ⟨first, rfl⟩

theorem line?_all {line name raw : Text} (found : line? line = some (name, raw)) :
    name.all p = true := by
  rw [line?] at found
  split at found
  · cases found
  · split at found
    next start =>
      apply longest?_all passes _ found
      exact passes _ (isNameChar_of_isNameStart start)
    next => cases found

theorem Reading.step_all {r : Reading} (all : ∀ e ∈ r.labels, e.name.all p = true)
    (numbered : Text × Nat) : ∀ e ∈ (r.step numbered).labels, e.name.all p = true := by
  rw [step]
  split
  · exact all
  · split
    · exact all
    next name raw found =>
      intro e member
      rcases mem_put member with rfl | ⟨known, -⟩
      · exact line?_all passes found
      · exact all e known

/-- What holds for all characters that may stand in a name holds for those of exported names. -/
theorem read_all (t : Text) : ∀ e ∈ (read t).labels, e.name.all p = true := by
  have run (numbered : List (Text × Nat)) (r : Reading)
      (all : ∀ e ∈ r.labels, e.name.all p = true) :
      ∀ e ∈ (numbered.foldl Reading.step r).labels, e.name.all p = true := by
    induction numbered generalizing r with
    | nil => exact all
    | cons line numbered ih => exact ih (r.step line) (Reading.step_all passes all line)
  exact run _ {} nofun

end NameCharacters

/-- No exported name holds a character that has a meaning in markup. -/
theorem read_safe (t : Text) : ∀ e ∈ (read t).labels, isSafe e.name = true :=
  read_all (fun _ => isPlain_of_isNameChar) t

end Export

/-! ## Labels -/

section LabelCharacters

variable {p : CodePoint → Bool}

theorem all_segments {name : Text} (all : name.all p = true) :
    ∀ s ∈ segments name, s.all p = true := by
  intro s member
  have part := infix_intercalate [.scalar '.'] (segments name) s member
  have whole : Text.join [.scalar '.'] (segments name) = name := Text.join_splitAt _ _
  rw [← Text.join, whole] at part
  simp only [List.all_eq_true] at all ⊢
  exact fun c inside => all c (part.subset inside)

theorem all_extend (dot : p (.scalar '.') = true) {label s : Text} (above : label.all p = true)
    (all : s.all p = true) : (extend label s).all p = true := by
  rw [extend]
  split
  · exact all
  · rw [List.all_append, above, List.all_cons, dot]
    exact all

theorem all_labelOf (dot : p (.scalar '.') = true) {path : List Text}
    (all : ∀ s ∈ path, s.all p = true) : (labelOf path).all p = true := by
  induction path using List.reverseRecOn with
  | nil => rfl
  | append_singleton path s ih =>
    rw [← extend_labelOf]
    simp only [List.forall_mem_append, List.forall_mem_singleton] at all
    exact all_extend dot (ih all.1) all.2

/-- Labels are made of the characters of names and of dots. -/
theorem Document.all_labels (dot : p (.scalar '.') = true) {exported : List Export}
    (all : ∀ e ∈ exported, e.name.all p = true) (listing : Listing) (options : Options) :
    ∀ v ∈ (ofListing listing exported options).entered, v.1.all p = true := by
  rintro ⟨label, u⟩ member
  have proper := proper_of_shape (ofListing_shape listing exported options)
  obtain ⟨path, rfl, found⟩ := (Tree.mem_entered proper label u).mp member
  -- A path in the tree is the start of the path of an exported name.
  obtain ⟨-, e, known, start⟩ :=
    (present_ofListing listing exported options path).mp (by rw [found]; rfl)
  apply all_labelOf dot
  intro s inside
  exact all_segments (all e known) s (start.subset inside)

end LabelCharacters

theorem isSafe_append (a b : Text) : isSafe (a ++ b) = (isSafe a && isSafe b) :=
  List.all_append

theorem Document.safe_labels {exported : List Export}
    (safe : ∀ e ∈ exported, isSafe e.name = true) (listing : Listing) (options : Options) :
    ∀ p ∈ (ofListing listing exported options).entered, isSafe p.1 = true :=
  all_labels (by decide) safe listing options

namespace Html

/-! ## Sound pieces -/

theorem isSafe_anchor {label : Text} (safe : isSafe label = true) :
    isSafe (anchor label) = true := by
  have start : isSafe "label-" = true := by decide
  have named : isSafe (label.map fun c => if c = .scalar '.' then .scalar '-' else c) = true := by
    rw [isSafe, List.all_map]
    apply List.all_eq_true.mpr
    intro c member
    show isPlain (if c = .scalar '.' then .scalar '-' else c) = true
    split
    · decide
    · exact List.all_eq_true.mp safe c member
  unfold anchor
  rw [isSafe_append, start]
  exact named

theorem sound_opening {tag : Text} {attributes : Attributes}
    (named : (isName tag && !voidTags.contains tag) = true)
    (sound : soundAttributes attributes = true) : (opening tag attributes).isSound = true :=
  Bool.and_eq_true_iff.mpr ⟨named, sound⟩

theorem sound_attribute {name value : Text} {attributes : Attributes} (named : isName name = true)
    (safe : isSafe value = true) (sound : soundAttributes attributes = true) :
    soundAttributes ((name, value) :: attributes) = true := by
  rw [soundAttributes, List.all_cons, named, safe]
  exact sound

theorem contents_sound {v : Visit} (safe : ∀ p ∈ v.entered?, isSafe p.1 = true) :
    ∀ p ∈ contents v, p.isSound = true := by
  cases v with
  | enter label t =>
    have target : isSafe (.scalar '#' :: anchor label) = true := isSafe_anchor (safe _ rfl)
    have link : (opening "a" [("href", .scalar '#' :: anchor label)]).isSound = true :=
      sound_opening (by decide) (sound_attribute (by decide) target rfl)
    simp only [contents, contentsEnter, List.forall_mem_append, List.forall_mem_cons]
    refine ⟨⟨by decide, link, rfl, by decide, nofun⟩, ?_⟩
    split <;> decide
  | leave label t =>
    simp only [contents, contentsLeave]
    split <;> decide

theorem kindBadge_sound (k : Option Kind) : ∀ p ∈ kindBadge k, p.isSound = true := by
  rcases k with _ | k
  · nofun
  · cases k <;> decide

theorem valueBadge_sound (n : Option Int) : ∀ p ∈ valueBadge n, p.isSound = true := by
  cases n with
  | none => nofun
  | some n =>
    simp only [valueBadge, List.forall_mem_cons]
    exact ⟨by decide, rfl, by decide, nofun⟩

theorem descriptionBlock_sound (d : Option Text) :
    ∀ p ∈ descriptionBlock d, p.isSound = true := by
  rcases d with _ | _ | ⟨c, t⟩
  · nofun
  · decide
  · simp only [descriptionBlock, List.forall_mem_cons]
    exact ⟨rfl, by decide, rfl, by decide, nofun⟩

theorem sections_sound {v : Visit} (safe : ∀ p ∈ v.entered?, isSafe p.1 = true) :
    ∀ p ∈ sections v, p.isSound = true := by
  cases v with
  | enter label t =>
    have place : soundAttributes [("id", anchor label)] = true :=
      sound_attribute (by decide) (isSafe_anchor (safe _ rfl)) rfl
    have start : (opening "section" [("class", "label"), ("id", anchor label)]).isSound = true :=
      sound_opening (by decide) (sound_attribute (by decide) (by decide) place)
    have heading : (opening "h2" [("class", headingClass t.entry)]).isSound = true := by
      rw [headingClass]
      split <;> decide
    simp only [sections, sectionEnter, List.forall_mem_append, List.forall_mem_cons]
    exact ⟨⟨⟨⟨⟨start, rfl, heading, rfl, nofun⟩, kindBadge_sound _⟩, valueBadge_sound _⟩,
      by decide, nofun⟩, descriptionBlock_sound _⟩
  | leave label t => exact (by decide : ∀ p ∈ [closing "section"], p.isSound = true)

/-! ## The lines of a page -/

/-- The tokens of a line of a page. -/
def tokens (line : List Piece) : List Token :=
  (grouped (line ++ [newLine])).2

theorem tokens_opening (tag : Text) (attributes : Attributes) :
    tokens [opening tag attributes] = [⟨opening tag attributes, "\n"⟩] :=
  rfl

theorem tokens_closing (tag : Text) : tokens [closing tag] = [⟨closing tag, "\n"⟩] :=
  rfl

/-- The place of an entry's section in a page. -/
def place (label : Text) : Attributes :=
  [("class", "label"), ("id", anchor label)]

/-- What the contents show for an entry: an item, and a link to the place of the entry. -/
def link (p : Text × Tree) : Token × Option Token :=
  (⟨opening "li" [], []⟩,
    some ⟨opening "a" [("href", .scalar '#' :: anchor p.1)], lastSegment p.1⟩)

/-- What the sections show for an entry: its place, and a heading. -/
def heading (p : Text × Tree) : Token × Option Token :=
  (⟨opening "section" (place p.1), "\n"⟩,
    some ⟨opening "h2" [("class", headingClass p.2.entry)], p.1⟩)

/-- The description of an entry, if it is not empty, at the place of the entry. -/
def described? (p : Text × Tree) : Option (Attributes × Text) :=
  (p.2.entry.description.filter (!·.isEmpty)).map (place p.1, ·)

theorem tokens_contents_enter (label : Text) (t : Tree) :
    tokens (contents (.enter label t)) = [⟨opening "li" [], []⟩,
      ⟨opening "a" [("href", .scalar '#' :: anchor label)], lastSegment label⟩, ⟨closing "a", "\n"⟩]
      ++ if t.isLeaf then [] else [⟨opening "ul" [], "\n"⟩] := by
  simp only [contents, contentsEnter, tokens]
  split <;> simp [grouped, newLine]

theorem tokens_contents_leave (label : Text) (t : Tree) :
    tokens (contents (.leave label t)) =
      (if t.isLeaf then [] else [⟨closing "ul", "\n"⟩]) ++ [⟨closing "li", "\n"⟩] := by
  simp only [contents, contentsLeave, tokens]
  split <;> simp [grouped, newLine]

def headingTokens (label : Text) (e : Entry) : List Token :=
  ⟨opening "h2" [("class", headingClass e)], label⟩ ::
    ((grouped (kindBadge e.kind)).2 ++ (grouped (valueBadge e.value)).2) ++ [⟨closing "h2", "\n"⟩]

def descriptionTokens : Option Text → List Token
  | none => []
  | some [] => [⟨opening "div" [("class", "description empty")], []⟩, ⟨closing "div", "\n"⟩]
  | some t => [⟨opening "pre" [("class", "description")], t⟩, ⟨closing "pre", "\n"⟩]

theorem tokens_sections_enter (label : Text) (t : Tree) :
    tokens (sections (.enter label t)) = ⟨opening "section" (place label), "\n"⟩ ::
      (headingTokens label t.entry ++ descriptionTokens t.entry.description) := by
  simp only [sections, sectionEnter, tokens, headingTokens]
  rcases t.entry.kind with _ | k <;> rcases t.entry.value with _ | n <;>
    rcases t.entry.description with _ | _ | ⟨c, d⟩ <;>
    simp [grouped, newLine, kindBadge, valueBadge, descriptionBlock, descriptionTokens, place]

theorem tokens_sections_leave (label : Text) (t : Tree) :
    tokens (sections (.leave label t)) = [⟨closing "section", "\n"⟩] :=
  rfl

theorem heading_among (label : Text) (e : Entry) :
    Among ["h2", "span"] (headingTokens label e) := by
  have kind : Among ["h2", "span"] (grouped (kindBadge e.kind)).2 := by
    apply grouped_among
    cases e.kind <;> rfl
  have value : Among ["h2", "span"] (grouped (valueBadge e.value)).2 := by
    apply grouped_among
    cases e.value <;> rfl
  have start : Among ["h2", "span"] [⟨opening "h2" [("class", headingClass e)], label⟩] :=
    List.forall_mem_singleton.mpr rfl
  exact (start.append (kind.append value)).append (List.forall_mem_singleton.mpr rfl)

theorem description_among (d : Option Text) : Among ["div", "pre"] (descriptionTokens d) := by
  rcases d with _ | _ | ⟨c, t⟩
  · nofun
  all_goals
    intro k member
    simp only [descriptionTokens, List.mem_cons, List.not_mem_nil, or_false] at member
    rcases member with rfl | rfl <;> rfl

/-- The tags of the table of contents. -/
def contentsTags : List Text := ["li", "a", "ul"]

/-- The tags of the sections. -/
def sectionTags : List Text := ["section", "h2", "span", "div", "pre"]

theorem contents_among (visits : List Visit) :
    Among contentsTags (visits.flatMap fun v => tokens (contents v)) := by
  apply among_flatMap
  intro v
  apply grouped_among
  cases v with
  | enter label t =>
    simp only [contents, contentsEnter]
    split <;> rfl
  | leave label t =>
    simp only [contents, contentsLeave]
    split <;> rfl

theorem sections_among (visits : List Visit) :
    Among sectionTags (visits.flatMap fun v => tokens (sections v)) := by
  apply among_flatMap
  intro v
  cases v with
  | enter label t =>
    have heading : Among sectionTags (headingTokens label t.entry) :=
      (heading_among label t.entry).of_subset (by decide)
    have description : Among sectionTags (descriptionTokens t.entry.description) :=
      (description_among t.entry.description).of_subset (by decide)
    rw [tokens_sections_enter]
    exact List.forall_mem_cons.mpr ⟨rfl, heading.append description⟩
  | leave label t => exact List.forall_mem_singleton.mpr rfl

/-! ## Tags that close each other -/

theorem closes_contents (f : Forest) (label : Text) :
    Closes ((f.walk label).flatMap fun v => tokens (contents v)) := by
  apply closes_walk
  intro label t a closes leaf
  -- The list inside an item is opened and closed only if the entry is no leaf.
  rw [tokens_contents_enter, tokens_contents_leave]
  have link := closes_pair "a" [("href", .scalar '#' :: anchor label)] (lastSegment label) "\n"
  by_cases alone : t.isLeaf = true
  · have whole := link.within "li" [] [] "\n"
    simpa [alone, leaf alone] using whole
  · have whole := (link.append (closes.within "ul" [] "\n" "\n")).within "li" [] [] "\n"
    simpa [alone] using whole

theorem closes_heading (label : Text) (e : Entry) : Closes (headingTokens label e) := by
  have kind : Closes (grouped (kindBadge e.kind)).2 := by
    cases e.kind with
    | none => exact closes_nil
    | some k => exact closes_pair _ _ _ _
  have value : Closes (grouped (valueBadge e.value)).2 := by
    cases e.value with
    | none => exact closes_nil
    | some n => exact closes_pair _ _ _ _
  exact (kind.append value).within "h2" [("class", headingClass e)] label "\n"

theorem closes_description (d : Option Text) : Closes (descriptionTokens d) := by
  rcases d with _ | _ | ⟨c, t⟩
  · exact closes_nil
  · exact closes_pair _ _ _ _
  · exact closes_pair _ _ _ _

theorem closes_sections (f : Forest) (label : Text) :
    Closes ((f.walk label).flatMap fun v => tokens (sections v)) := by
  apply closes_walk
  intro label t a closes _
  have entry := (closes_heading label t.entry).append (closes_description t.entry.description)
  have whole := (entry.append closes).within "section" (place label) "\n" "\n"
  rw [tokens_sections_enter, tokens_sections_leave]
  simpa using whole

/-! ## Contents and sections -/

theorem brackets_contents (visits : List Visit) (rest : List Token) :
    brackets "li" ((visits.flatMap fun v => tokens (contents v)) ++ rest)
      = visits.map (·.entered?.map link) ++ brackets "li" rest := by
  induction visits with
  | nil => rfl
  | cons v visits ih =>
    rw [List.map_cons, List.cons_append, ← ih, List.flatMap_cons, List.append_assoc]
    cases v with
    | enter label t =>
      rw [tokens_contents_enter]
      cases t.isLeaf <;> simp [brackets, opens, closes, Visit.entered?, link]
    | leave label t =>
      rw [tokens_contents_leave]
      cases t.isLeaf <;> simp [brackets, opens, closes, Visit.entered?]

theorem brackets_sections (visits : List Visit) :
    brackets "section" (visits.flatMap fun v => tokens (sections v))
      = visits.map (·.entered?.map heading) := by
  induction visits with
  | nil => rfl
  | cons v visits ih =>
    rw [List.map_cons, ← ih, List.flatMap_cons]
    cases v with
    | enter label t =>
      rw [tokens_sections_enter, List.cons_append, List.append_assoc, brackets_opening,
        brackets_other (heading_among label t.entry) (by decide),
        brackets_other (description_among t.entry.description) (by decide)]
      rfl
    | leave label t => rfl

theorem blocks_description (last : Attributes) (d : Option Text) (rest : List Token) :
    blocks "section" "pre" last (descriptionTokens d ++ rest)
      = ((d.filter (!·.isEmpty)).map (last, ·)).toList ++ blocks "section" "pre" last rest := by
  rcases d with _ | _ | ⟨c, t⟩ <;> rfl

theorem blocks_sections (last : Attributes) (visits : List Visit) {rest : List Token}
    (nothing : ∀ last, blocks "section" "pre" last rest = []) :
    blocks "section" "pre" last ((visits.flatMap fun v => tokens (sections v)) ++ rest)
      = (visits.filterMap Visit.entered?).filterMap described? := by
  induction visits generalizing last with
  | nil => exact nothing last
  | cons v visits ih =>
    cases v with
    | enter label t =>
      have entered : Visit.entered? (.enter label t) = some (label, t) := rfl
      rw [List.flatMap_cons, tokens_sections_enter, List.cons_append, List.cons_append,
        List.append_assoc, List.append_assoc, blocks_opening,
        blocks_other (heading_among label t.entry) (by decide) (by decide),
        blocks_description, ih, List.filterMap_cons_some entered, List.filterMap_cons, described?]
      cases t.entry.description.filter (!·.isEmpty) <;> rfl
    | leave label t => exact ih last

/-! ## Whole pages -/

theorem joinLines_concat (lines : List (List Piece)) :
    joinLines (lines ++ [[]]) = lines.flatMap (· ++ [newLine]) := by
  induction lines with
  | nil => rfl
  | cons line lines ih =>
    rw [joinLines, List.cons_append, List.intercalate_cons_of_ne_nil (by simp), List.flatMap_cons,
      ← joinLines, ih]

/-- The lines of a page above the contents. -/
def headLines (title source : Text) : List (List Piece) :=
  [[doctype],
    [opening "html" []],
    [opening "head" []],
    [void "meta" [("charset", "utf-8")]],
    [opening "title" [], text title, closing "title"],
    [void "link" [("rel", "stylesheet"), ("href", styleFile)]],
    [closing "head"],
    [opening "body" []],
    [opening "h1" [], text title, closing "h1"],
    sourceLine source]

/-- The lines of a page from the contents on. -/
def bodyLines (visits : List Visit) : List (List Piece) :=
  [[opening "nav" [("class", "toc")]], [opening "ul" []]] ++ visits.map contents
    ++ [[closing "ul"], [closing "nav"], [opening "main" []]] ++ visits.map sections
    ++ [[closing "main"], [closing "body"], [closing "html"]]

theorem pageLines_split (title source : Text) (visits : List Visit) :
    pageLines title source visits = headLines title source ++ bodyLines visits ++ [[]] := by
  simp [pageLines, headLines, bodyLines]

theorem headLines_sound (title source : Text) :
    ∀ line ∈ headLines title source, ∀ p ∈ line, p.isSound = true := by
  have named : ∀ p ∈ sourceLine source, p.isSound = true := by
    cases source with
    | nil => nofun
    | cons c t =>
      simp only [sourceLine, List.forall_mem_cons]
      exact ⟨by decide, rfl, by decide, nofun⟩
  simp only [headLines, List.forall_mem_cons]
  exact ⟨by decide, by decide, by decide, by decide, ⟨by decide, rfl, by decide, nofun⟩, by decide,
    by decide, by decide, ⟨by decide, rfl, by decide, nofun⟩, named, nofun⟩

theorem bodyLines_sound {visits : List Visit}
    (safe : ∀ v ∈ visits, ∀ p ∈ v.entered?, isSafe p.1 = true) :
    ∀ line ∈ bodyLines visits, ∀ p ∈ line, p.isSound = true := by
  simp only [bodyLines, List.forall_mem_append, List.forall_mem_map]
  exact ⟨⟨⟨⟨by decide, fun v member => contents_sound (safe v member)⟩, by decide⟩,
    fun v member => sections_sound (safe v member)⟩, by decide⟩

theorem page_sound {visits : List Visit}
    (safe : ∀ v ∈ visits, ∀ p ∈ v.entered?, isSafe p.1 = true) (title source : Text) :
    ∀ p ∈ joinLines (pageLines title source visits), p.isSound = true := by
  rw [pageLines_split, joinLines_concat]
  simp only [List.forall_mem_flatMap, List.forall_mem_append, List.forall_mem_singleton]
  exact ⟨fun line member => ⟨headLines_sound title source line member, rfl⟩,
    fun line member => ⟨bodyLines_sound safe line member, rfl⟩⟩

/-- The lines of the body begin with tags, so that the text at the end of a line is the line end. -/
theorem started_bodyLines (visits : List Visit) :
    ∀ line ∈ bodyLines visits, (grouped (line ++ [newLine])).1 = [] := by
  have started_contents (v : Visit) : (grouped (contents v ++ [newLine])).1 = [] := by
    cases v with
    | enter label t => rfl
    | leave label t =>
      simp only [contents, contentsLeave]
      split <;> rfl
  have started_sections (v : Visit) : (grouped (sections v ++ [newLine])).1 = [] := by
    cases v <;> rfl
  simp only [bodyLines, List.forall_mem_append, List.forall_mem_cons, List.forall_mem_map]
  exact ⟨⟨⟨⟨⟨rfl, rfl, nofun⟩, fun v _ => started_contents v⟩, rfl, rfl, rfl, nofun⟩,
    fun v _ => started_sections v⟩, rfl, rfl, rfl, nofun⟩

theorem grouped_lines {lines : List (List Piece)}
    (started : ∀ line ∈ lines, (grouped (line ++ [newLine])).1 = []) :
    grouped (lines.flatMap (· ++ [newLine])) = ([], lines.flatMap tokens) := by
  induction lines with
  | nil => rfl
  | cons line lines ih =>
    obtain ⟨first, others⟩ := List.forall_mem_cons.mp started
    rw [List.flatMap_cons, grouped_append _ (by rw [ih others]), ih others, first,
      List.flatMap_cons]
    rfl

def headTokens (title source : Text) : List Token :=
  (grouped ((headLines title source).flatMap (· ++ [newLine]))).2

/-- The tokens inside the table of contents. -/
def contentsTokens (visits : List Visit) : List Token :=
  ⟨opening "ul" [], "\n"⟩ :: (visits.flatMap fun v => tokens (contents v))
    ++ [⟨closing "ul", "\n"⟩]

def navTokens (visits : List Visit) : List Token :=
  ⟨opening "nav" [("class", "toc")], "\n"⟩ :: contentsTokens visits ++ [⟨closing "nav", "\n"⟩]

/-- The tokens inside the main part. -/
def sectionsTokens (visits : List Visit) : List Token :=
  visits.flatMap fun v => tokens (sections v)

def mainTokens (visits : List Visit) : List Token :=
  ⟨opening "main" [], "\n"⟩ :: sectionsTokens visits ++ [⟨closing "main", "\n"⟩]

def pageTokens (title source : Text) (visits : List Visit) : List Token :=
  headTokens title source ++ navTokens visits ++ mainTokens visits
    ++ [⟨closing "body", "\n"⟩, ⟨closing "html", "\n"⟩]

theorem grouped_page (title source : Text) (visits : List Visit) :
    grouped (joinLines (pageLines title source visits))
      = ([], pageTokens title source visits) := by
  have body := grouped_lines (started_bodyLines visits)
  have head : (grouped ((headLines title source).flatMap (· ++ [newLine]))).1 = [] := rfl
  rw [pageLines_split, joinLines_concat, List.flatMap_append, grouped_append _ (by rw [body]), body,
    head, ← headTokens]
  simp [pageTokens, navTokens, mainTokens, contentsTokens, sectionsTokens, bodyLines,
    List.flatMap_map, tokens_opening, tokens_closing]

theorem read?_page {visits : List Visit}
    (safe : ∀ v ∈ visits, ∀ p ∈ v.entered?, isSafe p.1 = true) (title source : Text) :
    read? (page title source visits) = some (pageTokens title source visits) := by
  have grouping := grouped_page title source visits
  rw [page, read?_writePieces (by rw [grouping]) (page_sound safe title source), grouping]

theorem pageTokens_tags (title source : Text) (visits : List Visit) :
    (pageTokens title source visits).map (·.tag)
      = (joinLines (pageLines title source visits)).filter isTag := by
  rw [← grouped_tags, grouped_page]

/-! ## Parts of a page -/

/-- The tags above the table of contents. -/
def headTags : List Text := ["html", "head", "title", "body", "h1", "p"]

def navTags : List Text := "nav" :: contentsTags

def mainTags : List Text := "main" :: sectionTags

theorem head_among (title source : Text) : Among headTags (headTokens title source) := by
  apply grouped_among
  cases source <;> rfl

theorem contentsTokens_among (visits : List Visit) : Among contentsTags (contentsTokens visits) :=
  (contents_among visits).within rfl [] "\n" "\n"

theorem nav_among (visits : List Visit) : Among navTags (navTokens visits) :=
  ((contentsTokens_among visits).of_subset (by decide)).within rfl _ _ _

theorem main_among (visits : List Visit) : Among mainTags (mainTokens visits) :=
  ((sections_among visits).of_subset (by decide)).within rfl _ _ _

/-- Tags that are opened only above the table of contents. -/
theorem opened_page (title source : Text) (visits : List Visit) {tag : Text}
    (other : tag ∉ navTags ++ mainTags) :
    opened tag (pageTokens title source visits) = opened tag (headTokens title source) := by
  have nav : Among (navTags ++ mainTags) (navTokens visits) :=
    (nav_among visits).of_subset (List.subset_append_left _ _)
  have main : Among (navTags ++ mainTags) (mainTokens visits) :=
    (main_among visits).of_subset (List.subset_append_right _ _)
  have nothing := opened_other (nav.append main) other
  rw [pageTokens, opened, List.append_assoc (headTokens title source), List.filter_append,
    List.filter_append, ← opened, ← opened, nothing, List.append_nil]
  exact List.append_nil _

theorem inside_nav (title source : Text) (visits : List Visit) :
    inside "nav" (pageTokens title source visits) = contentsTokens visits := by
  simp only [pageTokens, navTokens, List.append_assoc, List.cons_append]
  exact inside_eq (head_among title source) (by decide) (contentsTokens_among visits) (by decide)

theorem inside_main (title source : Text) (visits : List Visit) :
    inside "main" (pageTokens title source visits) = sectionsTokens visits := by
  have head : Among (headTags ++ navTags) (headTokens title source) :=
    (head_among title source).of_subset (List.subset_append_left _ _)
  have nav : Among (headTags ++ navTags) (navTokens visits) :=
    (nav_among visits).of_subset (List.subset_append_right _ _)
  simp only [pageTokens, mainTokens, List.append_assoc (_ ++ _), List.append_assoc _ [_],
    List.cons_append]
  exact inside_eq (head.append nav) (by decide) (sections_among visits) (by decide)

theorem nesting?_contents (f : Forest) (label : Text) :
    nesting? "li" (contentsTokens (f.walk label)) = some (f.nesting link label) := by
  have around : brackets "li" (contentsTokens (f.walk label))
      = (f.walk label).map (·.entered?.map link) :=
    (brackets_contents (f.walk label) [⟨closing "ul", "\n"⟩]).trans (List.append_nil _)
  rw [nesting?, around, Forest.ofBrackets?_walk]

theorem nesting?_sections (f : Forest) (label : Text) :
    nesting? "section" (sectionsTokens (f.walk label)) = some (f.nesting heading label) := by
  rw [nesting?, sectionsTokens, brackets_sections, Forest.ofBrackets?_walk]

theorem blocks_page (title source : Text) (visits : List Visit) :
    blocks "section" "pre" [] (pageTokens title source visits)
      = (visits.filterMap Visit.entered?).filterMap described? := by
  rw [pageTokens, List.append_assoc, List.append_assoc,
    blocks_other (head_among title source) (by decide) (by decide),
    blocks_other (nav_among visits) (by decide) (by decide), mainTokens, List.append_assoc]
  exact blocks_sections [] visits fun _ => rfl

theorem head_opens (title source : Text) :
    ((headTokens title source).map (·.tag)).foldlM Piece.step []
      = some (["body", "html"] : List Text) := by
  cases source <;> rfl

theorem page_closes (title source : Text) (f : Forest) (label : Text) :
    ((pageTokens title source (f.walk label)).map (·.tag)).foldlM Piece.step [] = some [] := by
  have nav : Closes (navTokens (f.walk label)) :=
    ((closes_contents f label).within "ul" [] "\n" "\n").within _ _ _ _
  have main : Closes (mainTokens (f.walk label)) := (closes_sections f label).within _ _ _ _
  rw [pageTokens, List.append_assoc (headTokens title source), List.map_append, List.map_append,
    List.foldlM_append, List.foldlM_append, head_opens]
  simp only [Option.bind_eq_bind, Option.bind_some, nav.append main _]
  rfl

theorem opened_head (title source : Text) :
    opened "title" (headTokens title source) = [⟨opening "title" [], title⟩] ∧
    opened "h1" (headTokens title source) = [⟨opening "h1" [], title⟩] ∧
    opened "p" (headTokens title source) = if source = [] then []
      else [⟨opening "p" [("class", "source")], "Source: " ++ source⟩] := by
  cases source <;>
    simp [headTokens, headLines, sourceLine, grouped, newLine, opened, opens]

/-- What is read in the page of a tree. -/
structure Shows (title source : Text) (t : Tree) (tokens : List Token) : Prop where
  /-- The tags are those of the page, and no text adds one. -/
  tags : tokens.map (·.tag) = (joinLines (pageLines title source (t.walk []))).filter isTag
  /-- Every closing tag matches the one opened last, and none stays open. -/
  closed : (tokens.map (·.tag)).foldlM Piece.step [] = some []
  /-- Items and sections lie in each other like the entries, each with what it shows first. -/
  contents : nesting? "li" (inside "nav" tokens) = some (t.below.nesting link [])
  sections : nesting? "section" (inside "main" tokens) = some (t.below.nesting heading [])
  /-- The blocks hold the descriptions, and stand in the sections of their entries. -/
  descriptions : blocks "section" "pre" [] tokens = (t.entered []).filterMap described?
  titles : opened "title" tokens = [⟨opening "title" [], title⟩]
  headlines : opened "h1" tokens = [⟨opening "h1" [], title⟩]
  sources : opened "p" tokens = if source = [] then []
    else [⟨opening "p" [("class", "source")], "Source: " ++ source⟩]

theorem shows_pageTokens (title source : Text) (t : Tree) :
    Shows title source t (pageTokens title source (t.walk [])) := by
  obtain ⟨titled, headed, named⟩ := opened_head title source
  constructor
  · exact pageTokens_tags title source (t.walk [])
  · exact page_closes title source t.below []
  · rw [inside_nav]
    exact nesting?_contents t.below []
  · rw [inside_main]
    exact nesting?_sections t.below []
  · exact blocks_page title source (t.walk [])
  · rw [opened_page _ _ _ (by decide), titled]
  · rw [opened_page _ _ _ (by decide), headed]
  · rw [opened_page _ _ _ (by decide), named]

end Html

namespace Document

theorem sourceText_ofText? {d : Document} {source : Option Text}
    (named : d.sourceName = Json.ofText? source) : d.sourceText = .ok (source.getD []) := by
  rw [sourceText, named]
  cases source <;> rfl

/-- A page, cut at its angle brackets, is read as tags that close each other. The contents and the
sections lie in each other like the entries of the document. Title, source name, labels and
descriptions are read as they were given, so that none of them adds a tag, ends an attribute or
holds an ampersand that begins no entity. -/
theorem html_shows (listing labels title : Text) (source : Option Text) (column : Nat)
    (options : Options) (page : Text) :
    let d := ofListing (.ofText listing column (Json.ofText? source)) (Export.read labels).labels
      { options with title := .str title }
    d.html = .ok page →
      ∃ tokens, read? page = some tokens ∧ Html.Shows title (source.getD []) d.root tokens := by
  intro d rendered
  obtain ⟨shown, name, titled, named, rfl⟩ := html_ok rendered
  obtain rfl : title = shown := Json.str.inj titled
  have same : name = source.getD [] :=
    Except.ok.inj (named.symm.trans (sourceText_ofText? rfl))
  subst same
  have safe := safe_labels (Export.read_safe labels) (.ofText listing column (Json.ofText? source))
    { options with title := .str title }
  have walked : ∀ v ∈ d.root.walk [], ∀ p ∈ v.entered?, isSafe p.1 = true := by
    intro v member p entered
    exact safe p (List.mem_filterMap.mpr ⟨v, member, entered⟩)
  exact ⟨_, Html.read?_page walked title _, Html.shows_pageTokens title _ d.root⟩

/-- Tags, quotes and ampersands in a title, a source name and a comment. -/
theorem html_shows_quotes :
    let title : Text := "A </title> & \"more\""
    let comment : Text := " Says <b>\"hi\"</b> &amp; 'bye'"
    let d := ofListing (.ofText (";" ++ comment ++ "\ntext.put:\n") 0 (.str "<a> & 'b'"))
      (Export.read "text.put: EQU 1\nmain EQU $10\n").labels { title := .str title }
    ∃ page tokens, d.html = .ok page ∧ read? page = some tokens ∧
      opened "title" tokens = [⟨opening "title" [], title⟩] ∧
      opened "p" tokens = [⟨opening "p" [("class", "source")], "Source: <a> & 'b'"⟩] ∧
      blocks "section" "pre" [] tokens = [(Html.place "text.put", comment)] := by
  intro title comment d
  have there : d.html.toOption.isSome = true := by decide +kernel
  have described : d.entered.filterMap Html.described? = [(Html.place "text.put", comment)] := by
    decide +kernel
  cases rendered : d.html with
  | error flaw =>
    rw [rendered] at there
    cases there
  | ok page =>
    obtain ⟨tokens, read, shows⟩ := html_shows (";" ++ comment ++ "\ntext.put:\n")
      "text.put: EQU 1\nmain EQU $10\n" title (some "<a> & 'b'") 0 {} page rendered
    exact ⟨page, tokens, rfl, read, shows.titles, shows.sources, shows.descriptions.trans described⟩

end Document

end LabelAtlas
