import LabelAtlas.Proofs.Building
import LabelAtlas.Proofs.Characters
import LabelAtlas.Proofs.Scopes

/-! Sources written block by block, each a comment, blank lines, a label and the instructions behind
it. Whatever columns a listing puts in front of such a source, the label of a block is found on its
own line and described by its own comment. -/
namespace LabelAtlas

open Text Source Definition

/-- A name that can stand as a label in any module and does not read as the end of one. -/
structure IsName (name : Text) : Prop where
  first : name.head?.any (fun c => c.isAlpha || c = .scalar '_') = true
  rest : ∀ c ∈ name.tail, isNameChar c = true
  no_end : endsModule name = false

/-- An indented line with something on it that is neither a comment nor a directive. -/
structure IsInstruction (line : Text) : Prop where
  indented : line.head?.any isBlank = true
  written : isBlankLine line = false
  no_comment : (stripStart line).head? ≠ some (.scalar ';')
  no_directive : directive? line = none

/-- Comment lines are given by their texts. -/
structure Block where
  comments : List Text
  blanks : List Text
  name : Text
  body : List Text
  one_line : ∀ t ∈ comments, CodePoint.scalar '\n' ∉ t
  blank : ∀ t ∈ blanks, isBlankLine t = true
  named : IsName name
  instructions : ∀ t ∈ body, IsInstruction t

/-- A label on a line of its own. -/
def labelLine (name : Text) : Text :=
  name ++ [.scalar ':']

/-- The lines above the label of a block. -/
def Block.above (b : Block) : List Text :=
  b.comments.map (.scalar ';' :: ·) ++ b.blanks

def Block.source (b : Block) : List Text :=
  b.above ++ labelLine b.name :: b.body

/-- A line of a listing shows a line of a source behind so many other characters. Banners start
with a number sign. -/
def Shows (column : Nat) (line source : Text) : Prop :=
  ∃ margin : Text, margin.length = column ∧ margin.head? ≠ some (.scalar '#') ∧
    line = margin ++ source

/-! ## Lines of a block -/

theorem comment_stripEnd (t : Text) : stripEnd (.scalar ';' :: t) = .scalar ';' :: stripEnd t :=
  stripEnd_cons _ t (by decide)

theorem comment_directive? (t : Text) : directive? (.scalar ';' :: t) = none := by
  have empty : code (.scalar ';' :: t) = [] := rfl
  rw [directive?, empty]
  rfl

theorem comment_label? (t : Text) : label? (.scalar ';' :: t) = none := rfl

theorem comment_body (t : Text) (one_line : CodePoint.scalar '\n' ∉ t) :
    commentBody? (.scalar ';' :: t) = some t := by
  have start : stripStart (.scalar ';' :: t) = .scalar ';' :: t :=
    List.dropWhile_cons_of_neg (by decide)
  rw [commentBody?, start]
  have whole : t.takeWhile (· ≠ .scalar '\n') = t := by
    apply List.takeWhile_eq_self_iff.mpr
    intro c member
    have other : c ≠ .scalar '\n' := fun same => one_line (same ▸ member)
    simpa using other
  exact congrArg some whole

theorem IsName.isLabelStart {c : CodePoint} {rest : Text} (named : IsName (c :: rest)) :
    isLabelStart c = true := by
  have first := named.first
  simp only [List.head?_cons, Option.any_some, Bool.or_eq_true] at first
  rcases first with letter | underscore <;> simp_all [Source.isLabelStart]

theorem IsName.nameChars {name : Text} (named : IsName name) : ∀ c ∈ name, isNameChar c = true := by
  cases name with
  | nil => simp
  | cons c rest =>
    intro d member
    rcases List.mem_cons.mp member with rfl | later
    · exact isNameChar_of_isLabelStart named.isLabelStart
    · exact named.rest d later

theorem IsName.plain {name : Text} (named : IsName name) :
    isLocal name = false ∧ name.head? ≠ some (.scalar '@') := by
  have first := named.first
  cases name with
  | nil => simp at first
  | cons c rest =>
    simp only [isLocal, List.head?_cons, Option.some.injEq, decide_eq_false_iff_not, ne_eq]
    constructor <;> rintro rfl <;> simp [CodePoint.isAlpha, CodePoint.passes] at first

theorem label_stripEnd (name : Text) : stripEnd (labelLine name) = labelLine name :=
  stripEnd_concat name ':' (by decide)

theorem mem_labelLine {name : Text} {c : CodePoint} (member : c ∈ labelLine name) :
    c ∈ name ∨ c = .scalar ':' := by
  simpa [labelLine] using member

theorem IsName.code_label {name : Text} (named : IsName name) :
    code (labelLine name) = labelLine name := by
  apply codeFrom_plain
  intro c member
  rcases mem_labelLine member with inside | rfl
  · exact not_mark_of_isNameChar (named.nameChars c inside)
  · decide

theorem IsName.label_label? {name : Text} (named : IsName name) :
    label? (labelLine name) = some name := by
  rw [label?, named.code_label]
  cases name with
  | nil => exact absurd named.first (by simp)
  | cons c rest =>
    have whole : (rest ++ [CodePoint.scalar ':']).takeWhile isNameChar = rest := by
      have inside : ∀ d ∈ rest, isNameChar d = true := named.rest
      have stops : isNameChar (.scalar ':') = false := by decide +kernel
      rw [List.takeWhile_append_of_pos inside]
      simp [stops]
    simp [labelLine, split, named.isLabelStart, whole]

theorem IsName.solid {name : Text} (named : IsName name) : ∀ c ∈ name, isBlank c = false :=
  fun c member => not_isBlank_of_isNameChar (named.nameChars c member)

theorem moduleName?_solid {t : Text} (solid : ∀ c ∈ t, isBlank c = false) :
    moduleName? t = none := by
  rw [moduleName?, stripStart_solid solid]
  cases found : afterWord? "module" t with
  | none => rfl
  | some behind =>
    cases behind with
    | nil => rfl
    | cons c behind =>
      have inside : c ∈ t := by
        unfold afterWord? at found
        split at found
        · exact List.mem_of_mem_drop (Option.some.inj found ▸ List.mem_cons_self)
        · cases found
      simp [solid c inside]

theorem endsModule_colon {name : Text} (solid : ∀ c ∈ labelLine name, isBlank c = false) :
    endsModule (labelLine name) = endsModule name := by
  have name_solid : ∀ c ∈ name, isBlank c = false :=
    fun c member => solid c (List.mem_append_left _ member)
  unfold endsModule
  rw [stripStart_solid solid, stripStart_solid name_solid, labelLine,
    afterWord?_append _ name _ (by decide)]
  cases afterWord? "endmodule" name with
  | none => rfl
  | some behind =>
    have same := startsWithWord_append behind [.scalar ':'] (by decide +kernel)
    cases starts : Export.startsWithWord behind <;> simp_all [Option.filter_some]

/-- A label is no directive: no blank follows the word that opens a module, and the word that ends
one is no name. -/
theorem IsName.label_directive? {name : Text} (named : IsName name) :
    directive? (labelLine name) = none := by
  have solid : ∀ c ∈ labelLine name, isBlank c = false := by
    intro c member
    rcases mem_labelLine member with inside | rfl
    · exact named.solid c inside
    · decide
  rw [directive?, named.code_label, moduleName?_solid solid, endsModule_colon solid, named.no_end]
  rfl

theorem stripStart_eq_nil_iff (t : Text) : stripStart t = [] ↔ isBlankLine t = true := by
  simp [stripStart, isBlankLine]

/-- A line that is neither blank nor a comment ends the search for a comment above a label. -/
def isSolid (line : Text) : Bool :=
  !isBlankLine line && (commentBody? line).isNone

theorem isSolid_of_stripStart {line t : Text} {c : CodePoint} (start : stripStart line = c :: t)
    (other : c ≠ .scalar ';') : isSolid line = true := by
  have written : isBlankLine line = false := by
    rw [← Bool.not_eq_true, ← stripStart_eq_nil_iff, start]
    exact List.cons_ne_nil c t
  have no_comment : commentBody? line = none := by
    rw [commentBody?, start]
    split
    · rename_i same
      exact absurd (List.cons.inj same).1 other
    · rfl
  simp [isSolid, written, no_comment]

theorem IsName.label_solid {name : Text} (named : IsName name) :
    isSolid (labelLine name) = true := by
  cases name with
  | nil => exact absurd named.first (by simp)
  | cons c rest =>
    apply isSolid_of_stripStart (c := c) (t := labelLine rest)
    · exact List.dropWhile_cons_of_neg (by simp [named.solid c])
    · rintro rfl
      exact absurd (named.nameChars _ List.mem_cons_self) (by decide +kernel)

/-- Without the blanks at its end an instruction still starts with a blank, and what follows its
blanks is not a semicolon. -/
theorem IsInstruction.shown {line : Text} (h : IsInstruction line) :
    (∃ c t, stripEnd line = c :: t ∧ isBlank c = true) ∧
    ∃ d u, stripStart (stripEnd line) = d :: u ∧ d ≠ .scalar ';' := by
  obtain ⟨w, whole, blank⟩ := stripEnd_append_stripped line
  have joined := stripStart_append_blank (stripEnd line) w blank
  rw [← whole] at joined
  have written : stripStart line ≠ [] := by
    rw [ne_eq, stripStart_eq_nil_iff, h.written]
    exact Bool.false_ne_true
  cases start : stripStart (stripEnd line) with
  | nil =>
    rw [start] at joined
    exact absurd joined written
  | cons d u =>
    rw [start, if_neg (by simp)] at joined
    refine ⟨?_, d, u, rfl, ?_⟩
    · cases kept : stripEnd line with
      | nil =>
        rw [kept] at start
        cases start
      | cons c t =>
        have indented := h.indented
        rw [whole, kept] at indented
        exact ⟨c, t, rfl, by simpa using indented⟩
    · rintro rfl
      apply h.no_comment
      rw [joined]
      rfl

theorem IsInstruction.no_label {line : Text} (h : IsInstruction line) :
    label? (stripEnd line) = none := by
  obtain ⟨⟨c, t, start, blank⟩, _⟩ := h.shown
  rw [label?, code, start, codeFrom_cons_blank c t blank]
  simp [split, not_isLabelStart_of_isBlank blank]

theorem IsInstruction.solid {line : Text} (h : IsInstruction line) :
    isSolid (stripEnd line) = true := by
  obtain ⟨_, d, u, start, other⟩ := h.shown
  exact isSolid_of_stripStart start other

theorem IsInstruction.shown_directive? {line : Text} (h : IsInstruction line) :
    directive? (stripEnd line) = none := by
  rw [directive?_stripEnd]
  exact h.no_directive

theorem blank_stripEnd {t : Text} (blank : isBlankLine t = true) : stripEnd t = [] :=
  stripEnd_of_blank (by simpa [isBlankLine] using blank)

/-! ## Blocks -/

namespace Block

/-- The lines above a label neither direct nor define anything. -/
theorem above_silent (b : Block) (t : Text) (member : t ∈ b.above) :
    directive? (stripEnd t) = none ∧ label? (stripEnd t) = none := by
  rcases List.mem_append.mp member with comment | blank
  · obtain ⟨text, _, rfl⟩ := List.mem_map.mp comment
    rw [comment_stripEnd]
    exact ⟨comment_directive? _, comment_label? _⟩
  · rw [blank_stripEnd (b.blank t blank)]
    exact ⟨rfl, rfl⟩

theorem source_directive? (b : Block) (t : Text) (member : t ∈ b.source) :
    directive? (stripEnd t) = none := by
  rcases List.mem_append.mp member with above | below
  · exact (b.above_silent t above).1
  · rcases List.mem_cons.mp below with rfl | behind
    · rw [label_stripEnd]
      exact b.named.label_directive?
    · exact (b.instructions t behind).shown_directive?

theorem source_label? (b : Block) (t : Text) (member : t ∈ b.source) :
    ∀ label ∈ label? (stripEnd t), label = b.name := by
  intro label read
  rcases List.mem_append.mp member with above | below
  · rw [(b.above_silent t above).2] at read
    cases read
  · rcases List.mem_cons.mp below with rfl | behind
    · rw [label_stripEnd, b.named.label_label?] at read
      exact (Option.mem_some.mp read).symm
    · rw [(b.instructions t behind).no_label] at read
      cases read

/-- A block ends with its label or an instruction. -/
theorem source_last (b : Block) (t : Text) (last : t ∈ b.source.getLast?) :
    isSolid (stripEnd t) = true := by
  rw [source, List.getLast?_append_of_ne_nil _ (by simp)] at last
  rcases List.mem_cons.mp (List.mem_of_getLast? last) with rfl | behind
  · rw [label_stripEnd]
    exact b.named.label_solid
  · exact (b.instructions t behind).solid

theorem sources_last (blocks : List Block) (t : Text)
    (last : t ∈ (blocks.flatMap source).getLast?) : isSolid (stripEnd t) = true := by
  rcases List.eq_nil_or_concat blocks with rfl | ⟨init, b, rfl⟩
  · cases last
  · have written : b.source ≠ [] := by simp [source]
    rw [List.concat_eq_append, List.flatMap_append, List.flatMap_singleton,
      List.getLast?_append_of_ne_nil _ written] at last
    exact b.source_last t last

/-- The lines of blocks, cut at the label of one of them. -/
theorem sources_cut (before later : List Block) (b : Block) :
    (before ++ b :: later).flatMap source =
      (before.flatMap source ++ b.above) ++
        labelLine b.name :: (b.body ++ later.flatMap source) := by
  simp [source]

end Block

/-- Every name is defined by the label line of its own block. -/
theorem locate_block (before later : List Block) (b : Block)
    (fresh : ∀ a ∈ before, a.name ≠ b.name) :
    locate (definitions (((before ++ b :: later).flatMap Block.source).map stripEnd)) b.name =
      some ((before.flatMap Block.source).length + b.above.length) := by
  have every (line : Text)
      (member : line ∈ ((before ++ b :: later).flatMap Block.source).map stripEnd) :
      ∃ a ∈ before ++ b :: later, ∃ t ∈ a.source, stripEnd t = line := by
    obtain ⟨t, inside, same⟩ := List.mem_map.mp member
    obtain ⟨a, block, here⟩ := List.mem_flatMap.mp inside
    exact ⟨a, block, t, here, same⟩
  have named := nameOn?_plain (((before ++ b :: later).flatMap Block.source).map stripEnd)
    (fun line member => by
      obtain ⟨a, _, t, here, rfl⟩ := every line member
      exact a.source_directive? t here)
    (fun line member label read => by
      obtain ⟨a, _, t, here, rfl⟩ := every line member
      rw [a.source_label? t here label read]
      exact a.named.plain)
  rw [locate_definitions, List.find?_range_eq_some]
  simp only [named, decide_eq_true_eq, Bool.not_eq_eq_eq_not, Bool.not_true,
    decide_eq_false_iff_not]
  rw [Block.sources_cut]
  refine ⟨?_, by simp, ?_⟩
  · rw [List.map_append, List.getElem?_append_right (by simp)]
    simpa [label_stripEnd] using b.named.label_label?
  · intro j inside read
    rw [List.map_append, List.getElem?_append_left (by simpa using inside)] at read
    obtain ⟨line, found, read⟩ := Option.bind_eq_some_iff.mp read
    obtain ⟨t, member, rfl⟩ := List.mem_map.mp (List.mem_of_getElem? found)
    rcases List.mem_append.mp member with earlier | above
    · obtain ⟨a, block, here⟩ := List.mem_flatMap.mp earlier
      exact fresh a block (a.source_label? t here b.name read).symm
    · rw [(b.above_silent t above).2] at read
      cases read

/-! ## Comments above -/

theorem not_isBlankLine_of_comment {line body : Text} (read : commentBody? line = some body) :
    isBlankLine line = false := by
  rw [← Bool.not_eq_true, ← stripStart_eq_nil_iff]
  intro empty
  rw [commentBody?, empty] at read
  cases read

theorem commentRun_layers (comments rest bodies : List Text)
    (read : comments.map commentBody? = bodies.map some)
    (stops : ∀ t ∈ rest.head?, isSolid t = true) :
    Description.commentRun (comments ++ rest) = bodies := by
  induction comments generalizing bodies with
  | nil =>
    cases bodies with
    | cons body bodies => cases read
    | nil =>
      cases rest with
      | nil => rfl
      | cons t rest =>
        have solid := stops t rfl
        simp only [isSolid, Bool.and_eq_true, Option.isNone_iff_eq_none] at solid
        simp [Description.commentRun, solid.2]
  | cons line comments ih =>
    cases bodies with
    | nil => cases read
    | cons body bodies =>
      obtain ⟨first, others⟩ := List.cons.inj read
      simp [Description.commentRun, first, ih bodies others]

/-- Read upwards, a comment behind tolerated blank lines is the description, and it ends where
another kind of line begins. Only where nothing but blanks is above is there none. -/
theorem ofAbove_layers (tolerance : Int) (blanks comments rest bodies : List Text)
    (blank : ∀ t ∈ blanks, isBlankLine t = true) (tolerated : blanks.length ≤ tolerance)
    (read : comments.map commentBody? = bodies.map some)
    (stops : ∀ t ∈ rest.head?, isSolid t = true) :
    Description.ofAbove tolerance (blanks ++ (comments ++ rest)) =
      if comments ++ rest = [] then none else some (join "\n" bodies.reverse) := by
  have ends : (comments ++ rest).takeWhile isBlankLine = [] := by
    cases comments with
    | cons line comments =>
      cases bodies with
      | nil => cases read
      | cons body bodies =>
        have first := not_isBlankLine_of_comment (List.cons.inj read).1
        simp [first]
    | nil =>
      cases rest with
      | nil => rfl
      | cons t rest =>
        have solid := stops t rfl
        simp only [isSolid, Bool.and_eq_true, Bool.not_eq_true'] at solid
        simp [solid.1]
  have count : Description.blankCount (blanks ++ (comments ++ rest)) = blanks.length := by
    rw [Description.blankCount, List.takeWhile_append_of_pos blank, ends, List.append_nil]
  have allowed : ¬tolerance < blanks.length := by omega
  unfold Description.ofAbove
  simp only [count, allowed, decide_false, Bool.and_false, Bool.or_false]
  rw [List.drop_left, commentRun_layers comments rest bodies read stops]
  by_cases nothing : comments ++ rest = []
  · simp [nothing]
  · have more : blanks.length ≠ (blanks ++ (comments ++ rest)).length := by
      have := List.length_pos_iff.mpr nothing
      rw [List.length_append]
      omega
    rw [if_neg nothing, if_neg (by simpa only [decide_eq_true_eq] using more)]

/-! ## Listings -/

theorem sourceText_shown {column : Nat} {line source : Text} (positive : 0 < column)
    (shows : Shows column line source) : Listing.sourceText column line = stripEnd source := by
  obtain ⟨margin, length, no_banner, rfl⟩ := shows
  have margin_first : (margin ++ source).head? = margin.head? := by
    cases margin with
    | nil => simp at length; omega
    | cons c margin => rfl
  have cut : Listing.columnIn (margin ++ source).length column = margin.length := by
    rw [Listing.columnIn, if_neg (by omega), Int.toNat_natCast, length]
  rw [Listing.sourceText, Listing.isBanner, margin_first, cut, List.drop_left]
  simp [no_banner]

theorem sourceLines_shown {column : Nat} (positive : 0 < column) {lines sources : List Text}
    (shown : List.Forall₂ (Shows column) lines sources) :
    lines.map (Listing.sourceText column) = sources.map stripEnd := by
  induction shown with
  | nil => rfl
  | cons first _ ih => rw [List.map_cons, List.map_cons, sourceText_shown positive first, ih]

/-- The description that a block writes for its label. A label without a comment has an empty one,
and only if nothing is above it has it none. -/
def Block.documentation (before : List Block) (b : Block) : Option Text :=
  if b.comments ≠ [] then some (join "\n" (b.comments.map stripEnd))
  else if before = [] then none
  else some []

theorem describe_block (before : List Block) (b : Block) (tolerance : Int)
    (tolerated : b.blanks.length ≤ tolerance) :
    Description.ofAbove tolerance
        ((before.flatMap Block.source ++ b.above).map stripEnd).reverse =
      b.documentation before := by
  have layers : ((before.flatMap Block.source ++ b.above).map stripEnd).reverse =
      (b.blanks.map stripEnd).reverse ++
        (((b.comments.map (.scalar ';' :: ·)).map stripEnd).reverse ++
          ((before.flatMap Block.source).map stripEnd).reverse) := by
    simp [Block.above]
  rw [layers, ofAbove_layers tolerance _ _ _ (b.comments.map stripEnd).reverse]
  · rw [List.reverse_reverse, Block.documentation]
    by_cases uncommented : b.comments = []
    · by_cases first : before = []
      · simp [uncommented, first]
      · obtain ⟨a, others, rfl⟩ := List.exists_cons_of_ne_nil first
        simp [uncommented, Block.source, join]
    · simp [uncommented]
  · intro line member
    obtain ⟨t, blank, rfl⟩ := List.mem_map.mp (List.mem_reverse.mp member)
    rw [blank_stripEnd (b.blank t blank)]
    rfl
  · simpa using tolerated
  · rw [List.map_reverse, List.map_reverse, List.map_map, List.map_map, List.map_map]
    congr 1
    apply List.map_congr_left
    intro t comment
    simp only [Function.comp_apply, comment_stripEnd]
    exact comment_body _ fun inside => b.one_line t comment (stripEnd_subset inside)
  · intro line last
    rw [List.head?_reverse, List.getLast?_map] at last
    obtain ⟨t, here, rfl⟩ := Option.map_eq_some_iff.mp last
    exact Block.sources_last before t here

/-- The lines above a line are read as their source texts. -/
theorem describe_shown (lines : List Text) (view : Text → Text) (tolerance : Int) (n : Nat)
    (inside : n ≤ lines.length) :
    Description.describe lines view tolerance (some n) =
      Description.ofAbove tolerance ((lines.map view).take n).reverse := by
  show (if n ≤ lines.length then _ else _) = _
  rw [if_pos inside, List.map_reverse, List.map_take]

/-- Documentation written in a source is the documentation found. However the names of the blocks
are exported and whatever stands in the columns of the listing, every block's label is found on its
own line and has the comment of its own block, without the blanks at the end of its lines. The
document is built unless a name is too deep to be worked on. -/
theorem documentation_found (column : Nat) (positive : 0 < column) (name : Json)
    (blocks : List Block) (distinct : (blocks.map (·.name)).Nodup) (lines : List Text)
    (shown : List.Forall₂ (Shows column) lines (blocks.flatMap Block.source))
    (options : Document.Options)
    (tolerated : ∀ b ∈ blocks, b.blanks.length ≤ options.tolerance)
    (exported : List Export) (listed : ∀ b ∈ blocks, b.name ∈ exported.map (·.name))
    (before later : List Block) (b : Block) (here : blocks = before ++ b :: later) :
    let document := Document.ofListing ⟨lines, column, name⟩ exported options
    (∀ w, (Document.ofPlan options.plan (.whole column) name lines exported w).1 =
      if ∀ x ∈ exported, (segments x.name).length ≤ Tree.maxWalkDepth then .ok document
      else .error .tooDeep) ∧
    ∃ u, document.root.get? b.name = some u ∧
      u.entry.line = some (((before.flatMap Block.source).length + b.above.length : Nat) : Int) ∧
      u.entry.description = b.documentation before := by
  intro document
  subst here
  have fresh : ∀ a ∈ before, a.name ≠ b.name := by
    intro a earlier same
    rw [List.map_append, List.nodup_append] at distinct
    exact distinct.2.2 a.name (List.mem_map_of_mem earlier) b.name (by simp) same
  have sources := sourceLines_shown positive shown
  have located : Document.lineOf (definitions (Listing.sourceLines ⟨lines, column, name⟩)) b.name =
      some (((before.flatMap Block.source).length + b.above.length : Nat) : Int) := by
    show (locate (definitions (lines.map (Listing.sourceText column))) b.name).map Int.ofNat = _
    rw [sources, locate_block before later b fresh]
    rfl
  have described : Description.describe lines (Listing.sourceText column) options.tolerance
      (some (((before.flatMap Block.source).length + b.above.length : Nat) : Int)) =
      b.documentation before := by
    have inside : (before.flatMap Block.source).length + b.above.length ≤ lines.length := by
      have length := congrArg List.length sources
      rw [List.length_map, Block.sources_cut] at length
      simp [length]
    rw [describe_shown _ _ _ _ inside, sources, Block.sources_cut, List.map_append,
      List.take_left' (by simp)]
    exact describe_block before b options.tolerance (tolerated b (by simp))
  obtain ⟨x, member, same⟩ := List.mem_map.mp (listed b (by simp))
  obtain ⟨y, _, entry⟩ :=
    Document.ofListing_exported ⟨lines, column, name⟩ exported options x member
  rw [same] at entry
  rw [← Document.get?_entry] at entry
  obtain ⟨u, found, filled⟩ := Option.map_eq_some_iff.mp entry
  refine ⟨Document.ofPlan_whole ⟨lines, column, name⟩ exported options, u, found, ?_, ?_⟩
  · rw [filled]
    exact located
  · rw [filled]
    simp only [Document.filled, located]
    exact described

def printBlock : Block where
  comments := [" Prints a text. ", "HL = text"]
  blanks := [[]]
  name := "print"
  body := ["    ret  ; done"]
  one_line := by decide
  blank := by decide
  named := ⟨by decide, by decide +kernel, by decide +kernel⟩
  instructions := by
    intro t member
    rw [List.mem_singleton.mp member]
    exact ⟨by decide, by decide, by decide, by decide +kernel⟩

def putBlock : Block where
  comments := []
  blanks := []
  name := "text.put"
  body := []
  one_line := by decide
  blank := by decide
  named := ⟨by decide, by decide +kernel, by decide +kernel⟩
  instructions := by simp

theorem documentation_found_print :
    ∃ u, (Document.ofListing
        ⟨["10 ; Prints a text. ", "11 ;HL = text", "12 ", "13 print:", "14     ret  ; done",
          "15 text.put:"], 3, .null⟩
        [⟨"text.put", some 5⟩, ⟨"print", none⟩] {}).root.get? "print" = some u ∧
      u.entry.line = some 3 ∧ u.entry.description = some " Prints a text.\nHL = text" := by
  have shown : List.Forall₂ (Shows 3)
      (["10 ; Prints a text. ", "11 ;HL = text", "12 ", "13 print:", "14     ret  ; done",
        "15 text.put:"] : List Text) ([printBlock, putBlock].flatMap Block.source) :=
    .cons ⟨"10 ", rfl, by decide, rfl⟩ <| .cons ⟨"11 ", rfl, by decide, rfl⟩ <|
    .cons ⟨"12 ", rfl, by decide, rfl⟩ <| .cons ⟨"13 ", rfl, by decide, rfl⟩ <|
    .cons ⟨"14 ", rfl, by decide, rfl⟩ <| .cons ⟨"15 ", rfl, by decide, rfl⟩ .nil
  exact (documentation_found 3 (by decide) .null [printBlock, putBlock] (by decide) _ shown {}
    (by decide) _ (by decide) [] [putBlock] printBlock rfl).2

end LabelAtlas
