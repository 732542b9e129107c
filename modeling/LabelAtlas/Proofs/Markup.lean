import LabelAtlas.Page.Markup
import LabelAtlas.Proofs.Walks

/-! Markup read back. A text is cut at its angle brackets into tags and the texts behind them, and
the texts stand for what was escaped; nothing in a text can be taken for a tag. -/
namespace LabelAtlas

/-- A tag and the text behind it, up to the next tag. -/
structure Token where
  tag : Piece
  text : Text
  deriving DecidableEq, Repr

namespace Markup

open Text

def isDelimiter (c : CodePoint) : Bool :=
  c = '<' || c = '>' || c = '"' || c = '\''

/-- What a text in markup stands for. Every ampersand has to begin an entity, and delimiters can be
written by entities only. -/
def unescape? : Text → Option Text
  | .scalar '&' :: .scalar 'a' :: .scalar 'm' :: .scalar 'p' :: .scalar ';' :: t =>
    (unescape? t).map (.scalar '&' :: ·)
  | .scalar '&' :: .scalar 'l' :: .scalar 't' :: .scalar ';' :: t =>
    (unescape? t).map (.scalar '<' :: ·)
  | .scalar '&' :: .scalar 'g' :: .scalar 't' :: .scalar ';' :: t =>
    (unescape? t).map (.scalar '>' :: ·)
  | .scalar '&' :: .scalar 'q' :: .scalar 'u' :: .scalar 'o' :: .scalar 't' :: .scalar ';' :: t =>
    (unescape? t).map (.scalar '"' :: ·)
  | .scalar '&' :: .scalar '#' :: .scalar 'x' :: .scalar '2' :: .scalar '7' :: .scalar ';' :: t =>
    (unescape? t).map (.scalar '\'' :: ·)
  | c :: t => if c = '&' || isDelimiter c then none else (unescape? t).map (c :: ·)
  | [] => some []

theorem unescape?_cons {c : CodePoint} (other : c ≠ '&') (plain : isDelimiter c = false)
    (t : Text) : unescape? (c :: t) = (unescape? t).map (c :: ·) := by
  simp [unescape?, other, plain]

theorem unescape?_escapeChar (c : CodePoint) (t : Text) :
    unescape? (Piece.escapeChar c ++ t) = (unescape? t).map (c :: ·) := by
  unfold Piece.escapeChar
  iterate 5
    split
    next same => subst same; rfl
  next amp lt gt quote tick =>
    apply unescape?_cons amp
    simp [isDelimiter, lt, gt, quote, tick]

theorem unescape?_escape (t : Text) : unescape? (Piece.escape t) = some t := by
  induction t with
  | nil => rfl
  | cons c t ih =>
    rw [Piece.escape, List.flatMap_cons, unescape?_escapeChar, ← Piece.escape, ih]
    rfl

theorem no_delimiter_escapeChar (c : CodePoint) :
    ∀ d ∈ Piece.escapeChar c, isDelimiter d = false := by
  unfold Piece.escapeChar
  iterate 5
    split
    · decide
  next amp lt gt quote tick => simp [isDelimiter, lt, gt, quote, tick]

theorem no_delimiter_escape (t : Text) : ∀ d ∈ Piece.escape t, isDelimiter d = false := by
  intro d member
  obtain ⟨c, -, inside⟩ := List.mem_flatMap.mp member
  exact no_delimiter_escapeChar c d inside

/-- A character that stands for itself. -/
def isPlain (c : CodePoint) : Bool :=
  c ≠ '&' && !isDelimiter c

def isSafe (t : Text) : Bool :=
  t.all isPlain

theorem unescape?_safe {t : Text} (safe : isSafe t = true) : unescape? t = some t := by
  induction t with
  | nil => rfl
  | cons c t ih =>
    simp only [isSafe, List.all_cons, isPlain, Bool.and_eq_true, decide_eq_true_eq,
      Bool.not_eq_true'] at safe
    rw [unescape?_cons safe.1.1 safe.1.2, ih (by simpa [isSafe, isPlain] using safe.2)]
    rfl

/-! ## Tags -/

/-- The tags that are never closed. -/
def voidTags : List Text := ["meta", "link"]

/-- What stands before the value of an attribute, up to the quote. -/
def attributeName? : Text → Option Text
  | .scalar ' ' :: t => if t.getLast? = some (.scalar '=') then some t.dropLast else none
  | _ => none

/-- Attributes, cut at the quotes. -/
def attributes? : List Text → Option Attributes
  | name :: value :: parts => do
    let name ← attributeName? name
    let value ← unescape? value
    return (name, value) :: (← attributes? parts)
  | [[]] => some []
  | _ => none

/-- What stands between two angle brackets. -/
def tag? (t : Text) : Option Piece :=
  if t = "!DOCTYPE html" then some .doctype
  else if t.head? = some (.scalar '/') then some (.closing t.tail)
  else do
    let name := t.takeWhile (· ≠ .scalar ' ')
    let attributes ← attributes? (splitAt '"' (t.dropWhile (· ≠ .scalar ' ')))
    return if voidTags.contains name then .void name attributes else .opening name attributes

/-- A tag and the text behind it, cut at the bracket between them. -/
def token? (t : Text) : Option Token :=
  match splitAt '>' t with
  | [tag, text] => do return ⟨← tag? tag, ← unescape? text⟩
  | _ => none

/-- A markup, cut at its angle brackets. It has to begin with a tag. -/
def read? (t : Text) : Option (List Token) :=
  match splitAt '<' t with
  | [] :: parts => parts.mapM token?
  | _ => none

end Markup

namespace Piece

open Markup

def isTag : Piece → Bool
  | text _ => false
  | _ => true

/-- What a tag has between its brackets. -/
def content : Piece → Text
  | doctype => "!DOCTYPE html"
  | opening tag attributes | void tag attributes => tag ++ writeAttributes attributes
  | closing tag => .scalar '/' :: tag
  | text _ => []

theorem content_opening (tag : Text) (attributes : Attributes) :
    (opening tag attributes).content = tag ++ writeAttributes attributes :=
  rfl

theorem content_void (tag : Text) (attributes : Attributes) :
    (void tag attributes).content = tag ++ writeAttributes attributes :=
  rfl

theorem content_closing (tag : Text) : (closing tag).content = .scalar '/' :: tag :=
  rfl

theorem write_text (t : Text) : (text t).write = escape t :=
  rfl

/-- The names of tags and attributes are made of ASCII letters and digits. -/
def isName (t : Text) : Bool :=
  !t.isEmpty && t.all (CodePoint.passes Char.isAlphanum)

def soundAttributes (attributes : Attributes) : Bool :=
  attributes.all fun a => isName a.1 && isSafe a.2

/-- A piece that can be read again. -/
def isSound : Piece → Bool
  | doctype | text _ => true
  | opening tag attributes => isName tag && !voidTags.contains tag && soundAttributes attributes
  | void tag attributes => isName tag && voidTags.contains tag && soundAttributes attributes
  | closing tag => isName tag

theorem write_tag {p : Piece} (tagged : p.isTag = true) :
    p.write = .scalar '<' :: p.content ++ ">" := by
  cases p with
  | text t => cases tagged
  | doctype | opening | void | closing => rfl

theorem isName_unlike {t : Text} (named : isName t = true) {c : Char}
    (other : c.isAlphanum = false) : CodePoint.scalar c ∉ t := by
  intro member
  simp only [isName, Bool.and_eq_true, List.all_eq_true] at named
  have letter := named.2 _ member
  rw [CodePoint.passes, other] at letter
  cases letter

theorem isSafe_unlike {t : Text} (safe : isSafe t = true) {c : CodePoint}
    (mark : isDelimiter c = true) : c ∉ t := by
  intro member
  simp only [isSafe, List.all_eq_true] at safe
  have plain := safe c member
  rw [isPlain, mark] at plain
  simp at plain

theorem attributeName?_written {name : Text} :
    attributeName? (" " ++ name ++ "=") = some name := by
  simp [attributeName?]

theorem attributes?_written {attributes : Attributes} (sound : soundAttributes attributes = true) :
    attributes? (Text.splitAt '"' (writeAttributes attributes)) = some attributes := by
  induction attributes with
  | nil => rfl
  | cons a attributes ih =>
    obtain ⟨name, value⟩ := a
    simp only [soundAttributes, List.all_cons, Bool.and_eq_true] at sound
    obtain ⟨⟨named, safe⟩, others⟩ := sound
    have first : CodePoint.scalar '"' ∉ (" " ++ name ++ "=" : Text) := by
      simpa using isName_unlike named (c := '"') (by decide)
    have cut : writeAttributes ((name, value) :: attributes) = (" " ++ name ++ "=" : Text)
        ++ .scalar '"' :: (value ++ .scalar '"' :: writeAttributes attributes) := by
      simp [writeAttributes]
    rw [cut, Text.splitAt_append_mark _ _ _ first,
      Text.splitAt_append_mark _ _ _ (isSafe_unlike safe (by decide)), attributes?,
      attributeName?_written, unescape?_safe safe, ih others]
    rfl

theorem isName_cons {t : Text} (named : isName t = true) :
    ∃ c u, t = c :: u ∧ CodePoint.passes Char.isAlphanum c = true := by
  cases t with
  | nil => cases named
  | cons c u =>
    simp only [isName, List.all_cons, Bool.and_eq_true] at named
    exact ⟨c, u, rfl, named.2.1⟩

/-- A name ends at a blank, and the attributes begin with one. -/
theorem name_before_attributes {tag : Text} (named : isName tag = true) (attributes : Attributes) :
    let written := tag ++ writeAttributes attributes
    written.takeWhile (· ≠ .scalar ' ') = tag ∧
    written.dropWhile (· ≠ .scalar ' ') = writeAttributes attributes := by
  intro written
  have solid : ∀ c ∈ tag, decide (c ≠ .scalar ' ') = true := by
    intro c member
    have other : c ≠ .scalar ' ' := by
      rintro rfl
      exact isName_unlike named (by decide) member
    simpa using other
  rw [List.takeWhile_append_of_pos solid, List.dropWhile_append_of_pos solid]
  cases attributes with
  | nil => simp [writeAttributes]
  | cons a attributes => simp [writeAttributes]

theorem tag?_named {tag : Text} (named : isName tag = true) {attributes : Attributes}
    (sound : soundAttributes attributes = true) :
    tag? (tag ++ writeAttributes attributes) = some (if voidTags.contains tag
      then .void tag attributes else .opening tag attributes) := by
  obtain ⟨name, rest⟩ := name_before_attributes named attributes
  obtain ⟨c, u, rfl, letter⟩ := isName_cons named
  have unlike (d : Char) (other : d.isAlphanum = false) : c ≠ .scalar d := by
    rintro rfl
    exact absurd (other.symm.trans letter) (by decide)
  have first : (c :: u ++ writeAttributes attributes).head? ≠ some (.scalar '/') := by
    simpa using unlike '/' (by decide)
  have second : c :: u ++ writeAttributes attributes ≠ ("!DOCTYPE html" : Text) := by
    intro same
    exact unlike '!' (by decide) (List.cons.inj same).1
  rw [tag?, if_neg second, if_neg first, rest, attributes?_written sound, name]
  rfl

/-- A tag is told by what stands between its brackets. -/
theorem tag?_content {p : Piece} (tagged : p.isTag = true) (sound : p.isSound = true) :
    tag? p.content = some p := by
  cases p with
  | text t => cases tagged
  | doctype => rfl
  | opening tag attributes =>
    simp only [isSound, Bool.and_eq_true, Bool.not_eq_true'] at sound
    obtain ⟨⟨named, other⟩, attributes_sound⟩ := sound
    rw [content_opening, tag?_named named attributes_sound, other]
    rfl
  | void tag attributes =>
    simp only [isSound, Bool.and_eq_true] at sound
    obtain ⟨⟨named, known⟩, attributes_sound⟩ := sound
    rw [content_void, tag?_named named attributes_sound, known]
    rfl
  | closing tag =>
    have other : (CodePoint.scalar '/' :: tag) ≠ ("!DOCTYPE html" : Text) := by
      intro same
      exact absurd (List.cons.inj same).1 (by decide)
    rw [content_closing, tag?, if_neg other]
    rfl

theorem no_bracket_writeAttributes {attributes : Attributes}
    (sound : soundAttributes attributes = true) {c : Char} (bracket : c = '<' ∨ c = '>') :
    CodePoint.scalar c ∉ writeAttributes attributes := by
  intro member
  obtain ⟨a, known, inside⟩ := List.mem_flatMap.mp member
  simp only [soundAttributes, List.all_eq_true, Bool.and_eq_true] at sound
  obtain ⟨named, safe⟩ := sound a known
  have name : CodePoint.scalar c ∉ a.1 := by
    rcases bracket with rfl | rfl <;> exact isName_unlike named (by decide)
  have value : CodePoint.scalar c ∉ a.2 := by
    rcases bracket with rfl | rfl <;> exact isSafe_unlike safe (by decide)
  rcases bracket with rfl | rfl <;> simp_all

/-- Between the brackets of a tag there is no bracket. -/
theorem no_bracket_content {p : Piece} (sound : p.isSound = true) {c : Char}
    (bracket : c = '<' ∨ c = '>') : CodePoint.scalar c ∉ p.content := by
  have other : c.isAlphanum = false := by rcases bracket with rfl | rfl <;> decide
  cases p with
  | text t => exact List.not_mem_nil
  | doctype => rcases bracket with rfl | rfl <;> decide
  | opening name attributes =>
    simp only [isSound, Bool.and_eq_true] at sound
    rw [content_opening, List.mem_append, not_or]
    exact ⟨isName_unlike sound.1.1 other, no_bracket_writeAttributes sound.2 bracket⟩
  | void name attributes =>
    simp only [isSound, Bool.and_eq_true] at sound
    rw [content_void, List.mem_append, not_or]
    exact ⟨isName_unlike sound.1.1 other, no_bracket_writeAttributes sound.2 bracket⟩
  | closing name =>
    rw [content_closing, List.mem_cons, not_or]
    refine ⟨?_, isName_unlike sound other⟩
    rcases bracket with rfl | rfl <;> decide

end Piece

namespace Markup

open Text Piece

/-- The texts in front of the first tag, and the tags with the texts behind them. -/
def grouped : List Piece → Text × List Token
  | [] => ([], [])
  | .text t :: pieces => (t ++ (grouped pieces).1, (grouped pieces).2)
  | p :: pieces => ([], ⟨p, (grouped pieces).1⟩ :: (grouped pieces).2)

theorem grouped_tag {p : Piece} (tagged : p.isTag = true) (pieces : List Piece) :
    grouped (p :: pieces) = ([], ⟨p, (grouped pieces).1⟩ :: (grouped pieces).2) := by
  cases p with
  | text t => cases tagged
  | doctype | opening | void | closing => rfl

theorem escape_append (a b : Text) : escape (a ++ b) = escape a ++ escape b :=
  List.flatMap_append

/-- Pieces are written as the texts in front and the tags with their texts, each behind a
bracket. -/
theorem writePieces_grouped (pieces : List Piece) :
    writePieces pieces = escape (grouped pieces).1 ++ (grouped pieces).2.flatMap fun k =>
      .scalar '<' :: (k.tag.content ++ .scalar '>' :: escape k.text) := by
  induction pieces with
  | nil => rfl
  | cons p pieces ih =>
    rw [writePieces, List.flatMap_cons, ← writePieces, ih]
    by_cases tagged : p.isTag = true
    · rw [grouped_tag tagged, write_tag tagged]
      simp [escape]
    · cases p with
      | text t => rw [grouped, escape_append, write_text, List.append_assoc]
      | doctype | opening | void | closing => exact absurd rfl tagged

theorem mem_grouped {pieces : List Piece} {k : Token} (member : k ∈ (grouped pieces).2) :
    k.tag ∈ pieces ∧ k.tag.isTag = true := by
  induction pieces with
  | nil => cases member
  | cons p pieces ih =>
    by_cases tagged : p.isTag = true
    · rw [grouped_tag tagged] at member
      rcases List.mem_cons.mp member with rfl | later
      · exact ⟨List.mem_cons_self, tagged⟩
      · exact ⟨List.mem_cons_of_mem _ (ih later).1, (ih later).2⟩
    · cases p with
      | text t => exact ⟨List.mem_cons_of_mem _ (ih member).1, (ih member).2⟩
      | doctype | opening | void | closing => exact absurd rfl tagged

theorem token?_written {k : Token} (tagged : k.tag.isTag = true) (sound : k.tag.isSound = true) :
    token? (k.tag.content ++ .scalar '>' :: escape k.text) = some k := by
  have text : CodePoint.scalar '>' ∉ escape k.text := by
    intro member
    exact absurd (no_delimiter_escape k.text _ member) (by decide)
  rw [token?, splitAt_append_mark _ _ _ (no_bracket_content sound (.inr rfl)),
    splitAt_unmarked _ _ text]
  simp [tag?_content tagged sound, unescape?_escape]

theorem mapM_token?_written {tokens : List Token}
    (each : ∀ k ∈ tokens, k.tag.isTag = true ∧ k.tag.isSound = true) :
    (tokens.map fun k => k.tag.content ++ .scalar '>' :: escape k.text).mapM token?
      = some tokens := by
  induction tokens with
  | nil => rfl
  | cons k tokens ih =>
    obtain ⟨⟨tagged, sound⟩, others⟩ := List.forall_mem_cons.mp each
    rw [List.map_cons, List.mapM_cons, token?_written tagged sound, ih others]
    rfl

/-- Pieces that start with a tag are read back from what is written for them. -/
theorem read?_writePieces {pieces : List Piece} (started : (grouped pieces).1 = [])
    (sound : ∀ p ∈ pieces, p.isSound = true) :
    read? (writePieces pieces) = some (grouped pieces).2 := by
  have each (k : Token) (member : k ∈ (grouped pieces).2) :
      k.tag.isTag = true ∧ k.tag.isSound = true :=
    ⟨(mem_grouped member).2, sound _ (mem_grouped member).1⟩
  have cut : splitAt '<' (writePieces pieces) = [] :: (grouped pieces).2.map fun k =>
      k.tag.content ++ .scalar '>' :: escape k.text := by
    have joined : writePieces pieces = join [.scalar '<'] ([] :: (grouped pieces).2.map fun k =>
        k.tag.content ++ .scalar '>' :: escape k.text) := by
      rw [writePieces_grouped, started, join, intercalate_eq_flatMap, List.flatMap_map]
      rfl
    rw [joined, splitAt_join _ _ (by simp)]
    intro part member
    rcases List.mem_cons.mp member with rfl | later
    · simp
    · obtain ⟨k, inside, rfl⟩ := List.mem_map.mp later
      have text : CodePoint.scalar '<' ∉ escape k.text := by
        intro member
        exact absurd (no_delimiter_escape k.text _ member) (by decide)
      simp [no_bracket_content (each k inside).2 (.inl rfl), text]
  rw [read?, cut]
  exact mapM_token?_written each

theorem grouped_append (a : List Piece) {b : List Piece} (started : (grouped b).1 = []) :
    grouped (a ++ b) = ((grouped a).1, (grouped a).2 ++ (grouped b).2) := by
  induction a with
  | nil => exact Prod.ext started rfl
  | cons p a ih =>
    by_cases tagged : p.isTag = true
    · rw [List.cons_append, grouped_tag tagged, grouped_tag tagged, ih, List.cons_append]
    · cases p with
      | text t => rw [List.cons_append, grouped, grouped, ih]
      | doctype | opening | void | closing => exact absurd rfl tagged

theorem grouped_tags (pieces : List Piece) :
    (grouped pieces).2.map (·.tag) = pieces.filter isTag := by
  induction pieces with
  | nil => rfl
  | cons p pieces ih =>
    by_cases tagged : p.isTag = true
    · rw [grouped_tag tagged, List.filter_cons_of_pos tagged, List.map_cons, ih]
    · cases p with
      | text t => rw [grouped, ih]; rfl
      | doctype | opening | void | closing => exact absurd rfl tagged

end Markup

end LabelAtlas
