import LabelAtlas.Generate
import LabelAtlas.Proofs.Encoding
import LabelAtlas.Proofs.Pages

/-! Texts that files can hold. Only a text without surrogates can be encoded. What is read from a
file has none, and a document of such texts is rendered without any, whatever bytes the files
hold. -/
namespace LabelAtlas

@[simp] theorem CodePoint.isSurrogate_scalar (c : Char) : (scalar c).isSurrogate = false :=
  rfl

namespace Text

/-- There is no surrogate in a text. -/
def Encodable (t : Text) : Prop :=
  ∀ c ∈ t, c.isSurrogate = false

theorem encodable_iff (t : Text) : t.Encodable ↔ t.any CodePoint.isSurrogate = false := by
  simp [Encodable]

theorem Encodable.exists_encode {t : Text} (plain : t.Encodable) :
    ∃ bytes, Utf8.encode t = .ok bytes :=
  (Utf8.exists_encode_iff t).mpr ((encodable_iff t).mp plain)

theorem Encodable.of_subset {t part : Text} (plain : t.Encodable) (subset : part ⊆ t) :
    part.Encodable :=
  fun c member => plain c (subset member)

@[simp] theorem encodable_nil : Encodable [] :=
  List.forall_mem_nil _

@[simp] theorem encodable_cons (c : CodePoint) (t : Text) :
    Encodable (c :: t) ↔ c.isSurrogate = false ∧ t.Encodable :=
  List.forall_mem_cons

@[simp] theorem encodable_append (a b : Text) :
    Encodable (a ++ b) ↔ a.Encodable ∧ b.Encodable :=
  List.forall_mem_append

@[simp] theorem encodable_chars (cs : List Char) : Encodable (cs.map .scalar) := by
  simp [Encodable]

@[simp] theorem encodable_replicate (n : Nat) (c : Char) :
    Encodable (List.replicate n (.scalar c)) := by
  intro d member
  rw [List.eq_of_mem_replicate member]
  rfl

theorem encodable_flatMap {α : Type} {items : List α} {f : α → Text}
    (each : ∀ x ∈ items, (f x).Encodable) : Encodable (items.flatMap f) := by
  intro c member
  obtain ⟨x, inside, here⟩ := List.mem_flatMap.mp member
  exact each x inside c here

theorem encodable_join {separator : Text} {parts : List Text} (between : separator.Encodable)
    (each : ∀ part ∈ parts, part.Encodable) : Encodable (join separator parts) := by
  intro c member
  rcases mem_join member with here | ⟨part, inside, here⟩
  · exact between c here
  · exact each part inside c here

end Text

/-! ## What is read from files -/

theorem CodePoint.isSurrogate_ofNat {n : Nat} (outside : n < 0xD800 ∨ 0xDFFF < n) :
    (ofNat n).isSurrogate = false := by
  have other : ¬(n - firstSurrogate < 0x800 ∧ firstSurrogate ≤ n) := by
    unfold firstSurrogate
    omega
  rw [ofNat, dif_neg other]
  rfl

namespace Utf8

/-- Whatever bytes are still to come, a pending character will not be a surrogate: each of them
adds six bits to the number. -/
structure Pending.Scalar (p : Pending) : Prop where
  more : 0 < p.need
  scalar : ∀ b, p.low.toNat ≤ b → b ≤ p.high.toNat →
    ∀ n, n / 64 ^ (p.need - 1) = p.value * 64 + (b - 0x80) → n < 0xD800 ∨ 0xDFFF < n

/-- The bounds of the second byte leave the surrogates out. -/
theorem lead?_scalar {b : UInt8} {position : Nat} {p : Pending}
    (led : lead? true b position = some p) : p.Scalar := by
  simp only [lead?, UInt8.le_iff_toNat_le, ← UInt8.toNat_inj, UInt8.reduceToNat, and_true] at led
  split at led
  · cases led
    refine ⟨Nat.one_pos, ?_⟩
    intro c low high n value
    simp only [UInt8.reduceToNat] at low high value
    omega
  split at led
  · cases led
    refine ⟨Nat.two_pos, ?_⟩
    intro c low high n value
    simp only [apply_ite UInt8.toNat, UInt8.reduceToNat] at low high value
    split at low <;> split at high <;> omega
  split at led
  · cases led
    refine ⟨Nat.zero_lt_succ 2, ?_⟩
    intro c low high n value
    simp only [apply_ite UInt8.toNat, UInt8.reduceToNat] at low high value
    split at low <;> split at high <;> omega
  · cases led

theorem Pending.Scalar.push {p : Pending} (avoids : p.Scalar) {b : UInt8} (low : p.low ≤ b)
    (high : b ≤ p.high) (more : p.need ≠ 1) : (p.push b).Scalar := by
  have several := avoids.more
  constructor
  · show 0 < p.need - 1
    omega
  · intro c _ highest n value
    have bits : c ≤ 0xBF := highest
    apply avoids.scalar b.toNat (UInt8.le_iff_toNat_le.mp low) (UInt8.le_iff_toNat_le.mp high)
    -- One byte less is still to come, so the number is six bits longer.
    have need : p.need - 1 = (p.push b).need - 1 + 1 := by
      show p.need - 1 = p.need - 1 - 1 + 1
      omega
    rw [need, Nat.pow_succ, ← Nat.div_div_eq_div_mul, value]
    show (p.joined b * 64 + (c - 0x80)) / 64 = p.joined b
    omega

/-- The last byte makes a pending character whole. -/
theorem Pending.Scalar.joined {p : Pending} (avoids : p.Scalar) {b : UInt8} (low : p.low ≤ b)
    (high : b ≤ p.high) (last : p.need = 1) :
    (CodePoint.ofNat (p.joined b)).isSurrogate = false := by
  apply CodePoint.isSurrogate_ofNat
  apply avoids.scalar b.toNat (UInt8.le_iff_toNat_le.mp low) (UInt8.le_iff_toNat_le.mp high)
  rw [last, Nat.sub_self, Nat.pow_zero, Nat.div_one]
  rfl

theorem decodeFrom_encodable {position : Nat} {pending : Option Pending} {bytes : Bytes} {t : Text}
    (avoids : ∀ p ∈ pending, p.Scalar) (decoded : decodeFrom true position pending bytes = .ok t) :
    t.Encodable := by
  fun_induction decodeFrom true position pending bytes generalizing t with
  | case1 =>
    cases decoded
    exact Text.encodable_nil
  | case3 position b rest ascii ih =>
    obtain ⟨more, further, rfl⟩ := map_ok decoded
    have small : b.toNat < 0x80 := UInt8.lt_iff_toNat_lt.mp ascii
    have first : (CodePoint.ofNat b.toNat).isSurrogate = false :=
      CodePoint.isSurrogate_ofNat (by omega)
    exact (Text.encodable_cons _ _).mpr ⟨first, ih avoids further⟩
  | case5 position b rest _ p led ih =>
    apply ih _ decoded
    rintro _ ⟨⟩
    exact lead?_scalar led
  | case6 position p b rest allowed last ih =>
    obtain ⟨more, further, rfl⟩ := map_ok decoded
    have first := (avoids p rfl).joined allowed.1 allowed.2 last
    exact (Text.encodable_cons _ _).mpr ⟨first, ih (by simp) further⟩
  | case7 position p b rest allowed more ih =>
    apply ih _ decoded
    rintro _ ⟨⟩
    exact (avoids p rfl).push allowed.1 allowed.2 more
  | case2 | case4 | case8 => cases decoded

end Utf8

namespace Encoding

theorem latin1Char_isSurrogate (b : UInt8) : (latin1Char b).isSurrogate = false := by
  apply CodePoint.isSurrogate_ofNat
  have small := b.toNat_lt
  omega

theorem windowsChar?_isSurrogate {b : UInt8} {c : CodePoint} (read : windowsChar? b = some c) :
    c.isSurrogate = false := by
  have row : ∀ n ∈ windowsRow, n < 0xD800 := by decide
  unfold windowsChar? at read
  generalize windowsRow = chars at row read
  split at read
  · split at read
    · cases read
    · obtain rfl := Option.some.inj read
      apply CodePoint.isSurrogate_ofNat
      left
      rw [List.getD_eq_getElem?_getD]
      cases found : chars[b.toNat - 0x80]? with
      | none => exact Nat.zero_lt_succ _
      | some n => exact row n (List.mem_of_getElem? found)
  · obtain rfl := Option.some.inj read
    exact latin1Char_isSurrogate b

theorem mapM_windowsChar?_encodable {bytes : Utf8.Bytes} {t : Text}
    (read : bytes.mapM windowsChar? = some t) : t.Encodable := by
  induction bytes generalizing t with
  | nil =>
    cases read
    exact Text.encodable_nil
  | cons b bytes ih =>
    rw [List.mapM_cons] at read
    obtain ⟨c, first, later⟩ := Option.bind_eq_some_iff.mp read
    obtain ⟨more, further, same⟩ := Option.bind_eq_some_iff.mp later
    cases same
    exact (Text.encodable_cons _ _).mpr ⟨windowsChar?_isSurrogate first, ih further⟩

theorem decode_encodable (bytes : Utf8.Bytes) : (decode bytes).2.Encodable := by
  unfold decode
  split
  next t decoded =>
    have whole : Utf8.decodeFrom true 0 none bytes = .ok t := decoded
    exact Utf8.decodeFrom_encodable (by simp) whole
  next =>
    split
    next t read => exact mapM_windowsChar?_encodable read
    next =>
      intro c member
      obtain ⟨b, -, rfl⟩ := List.mem_map.mp member
      exact latin1Char_isSurrogate b

end Encoding

theorem Text.Encodable.unifyBreaks {t : Text} (plain : t.Encodable) :
    (unifyBreaks t).Encodable := by
  fun_induction Text.unifyBreaks t with
  | case1 => exact plain
  | case2 t ih =>
    simp only [encodable_cons] at plain
    simpa using ih plain.2.2
  | case3 c t _ ih =>
    rw [encodable_cons] at plain ⊢
    refine ⟨?_, ih plain.2⟩
    split
    · rfl
    · exact plain.1

/-- Whatever bytes a file holds, its text can be encoded. -/
theorem Encoding.readText_encodable (bytes : Utf8.Bytes) : (readText bytes).2.Encodable :=
  (decode_encodable bytes).unifyBreaks

/-! ## Listings and names -/

theorem Text.mem_lines {t line : Text} {c : CodePoint} (there : line ∈ lines t)
    (member : c ∈ line) : c ∈ t := by
  fun_induction Text.lines t generalizing line with
  | case1 => cases there
  | case2 t ih =>
    rcases List.mem_cons.mp there with rfl | later
    · cases member
    · exact List.mem_cons_of_mem _ (List.mem_cons_of_mem _ (ih later member))
  | case3 d t _ _ ih =>
    rcases List.mem_cons.mp there with rfl | later
    · cases member
    · exact List.mem_cons_of_mem _ (ih later member)
  | case4 d t _ _ empty ih =>
    cases List.mem_singleton.mp there
    cases List.mem_singleton.mp member
    exact List.mem_cons_self
  | case5 d t _ _ first rest found ih =>
    rw [found] at ih
    rcases List.mem_cons.mp there with rfl | later
    · rcases List.mem_cons.mp member with rfl | inside
      · exact List.mem_cons_self
      · exact List.mem_cons_of_mem _ (ih List.mem_cons_self inside)
    · exact List.mem_cons_of_mem _ (ih (List.mem_cons_of_mem _ later) member)

theorem Listing.sourceText_subset (column : Int) (line : Text) :
    sourceText column line ⊆ line := by
  intro c member
  unfold sourceText at member
  split at member
  · cases member
  · exact List.mem_of_mem_drop (Text.stripEnd_subset member)

theorem Source.commentBody?_subset {line body : Text} (found : commentBody? line = some body) :
    body ⊆ line := by
  unfold commentBody? at found
  split at found
  next t start =>
    cases found
    intro c member
    have inside : c ∈ Text.stripStart line := by
      rw [start]
      exact List.mem_cons_of_mem _ (List.takeWhile_subset _ member)
    exact (List.dropWhile_suffix _).subset inside
  next => cases found

namespace Description

theorem commentRun_encodable {lines : List Text} (plain : ∀ line ∈ lines, line.Encodable) :
    ∀ body ∈ commentRun lines, body.Encodable := by
  induction lines with
  | nil => exact List.forall_mem_nil _
  | cons line lines ih =>
    rw [List.forall_mem_cons] at plain
    unfold commentRun
    split
    next body found =>
      rw [List.forall_mem_cons]
      exact ⟨plain.1.of_subset (Source.commentBody?_subset found), ih plain.2⟩
    next => exact List.forall_mem_nil _

theorem describe_encodable {lines : List Text} {view : Text → Text}
    (plain : ∀ line ∈ lines, (view line).Encodable) {tolerance : Int} {line : Option Int} {t : Text}
    (described : describe lines view tolerance line = some t) : t.Encodable := by
  unfold describe at described
  split at described
  next n =>
    split at described
    · unfold ofAbove at described
      dsimp only at described
      split at described
      · cases described
      · cases described
        apply Text.encodable_join (by simp)
        intro body member
        apply commentRun_encodable _ body (List.mem_reverse.mp member)
        intro above inside
        obtain ⟨source, there, rfl⟩ := List.mem_map.mp (List.mem_of_mem_drop inside)
        exact plain source (List.mem_of_mem_take (List.mem_reverse.mp there))
    · cases described
  next => cases described

end Description

namespace Export

open Source

theorem isSurrogate_of_isNameChar {c : CodePoint} (named : isNameChar c = true) :
    c.isSurrogate = false := by
  cases c with
  | scalar c => rfl
  | surrogate n =>
    have separate : Text.apart (Text.asciiNameRanges ++ Text.letterRanges) [(0xD800, 0xDFFF)] =
        true := by
      decide +kernel
    have outside := Text.not_inRanges_of_apart separate (Text.isNameChar_inRanges _ named)
    have inside : Text.inRanges [(0xD800, 0xDFFF)] (CodePoint.surrogate n).toNat = true := by
      rw [Text.inRanges_iff]
      refine ⟨_, List.mem_singleton_self _, Nat.le_add_right _ _, ?_⟩
      have small := n.isLt
      show 0xD800 + n.val ≤ 0xDFFF
      omega
    rw [inside] at outside
    cases outside

/-- A name holds no surrogate, whatever the text it is exported by. -/
theorem read_encodable (t : Text) : ∀ e ∈ (read t).labels, e.name.Encodable := by
  intro e member c inside
  have all := read_all (p := fun c => !c.isSurrogate)
    (fun c named => by simp [isSurrogate_of_isNameChar named]) t e member
  simpa using List.all_eq_true.mp all c inside

end Export

/-! ## Numbers -/

theorem Text.digits_encodable (base n : Nat) : (digits base n).Encodable :=
  encodable_chars _

theorem Text.lowerHex_encodable (width n : Nat) : (lowerHex width n).Encodable :=
  (encodable_append _ _).mpr ⟨encodable_replicate _ _, digits_encodable 16 n⟩

namespace Numeral

theorem decimal_encodable (n : Int) : (decimal n).Encodable := by
  unfold decimal
  split <;> simp [Text.digits_encodable]

theorem upperHex_encodable (width n : Nat) : (upperHex width n).Encodable := by
  have upper : Text.Encodable ((Text.digits 16 n).map CodePoint.toUpper) := by
    intro c member
    obtain ⟨d, inside, rfl⟩ := List.mem_map.mp member
    obtain ⟨digit, -, rfl⟩ := List.mem_map.mp inside
    rfl
  exact (Text.encodable_append _ _).mpr ⟨Text.encodable_replicate _ _, upper⟩

end Numeral

namespace Binary64

theorem zeros_encodable (n : Nat) : (zeros n).Encodable :=
  Text.encodable_replicate n '0'

theorem layout_encodable {digits : Text} (plain : digits.Encodable) (lead : Int) :
    (layout digits lead).Encodable := by
  have first (n : Nat) : Text.Encodable (digits.take n) :=
    plain.of_subset (List.take_subset n digits)
  have rest (n : Nat) : Text.Encodable (digits.drop n) :=
    plain.of_subset (List.drop_subset n digits)
  unfold layout
  split
  · simp only [Text.encodable_append, Text.encodable_chars, zeros_encodable, plain, and_self]
  split
  · dsimp only
    split <;> simp only [Text.encodable_append, Text.encodable_chars, zeros_encodable, first, rest,
      and_self]
  · dsimp only
    split <;> split <;> simp only [Text.encodable_append, Text.encodable_cons,
      Text.encodable_chars, Text.encodable_nil, CodePoint.isSurrogate_scalar, zeros_encodable,
      Text.digits_encodable, first, rest, and_self]

theorem text_encodable {nameOfNan nameOfInfinity : Text} (nan : nameOfNan.Encodable)
    (infinity : nameOfInfinity.Encodable) (x : Binary64) :
    (x.text nameOfNan nameOfInfinity).Encodable := by
  have sign (negative : Bool) : (signText negative).Encodable := by
    cases negative <;> [exact Text.encodable_nil; exact Text.encodable_chars _]
  cases x with
  | nan => exact nan
  | infinite negative => exact (Text.encodable_append _ _).mpr ⟨sign negative, infinity⟩
  | finite negative m e =>
    unfold text
    dsimp only
    split
    · exact (Text.encodable_append _ _).mpr ⟨sign negative, Text.encodable_chars _⟩
    · apply (Text.encodable_append _ _).mpr
      refine ⟨sign negative, layout_encodable ?_ _⟩
      exact (Text.digits_encodable 10 _).of_subset (Text.dropEndWhile_subset _ _)

end Binary64

/-! ## Pages -/

namespace Piece

/-- The texts of a piece, and its tag and attributes, can be encoded. -/
def Encodable : Piece → Prop
  | doctype => True
  | opening tag attributes | void tag attributes =>
    tag.Encodable ∧ ∀ a ∈ attributes, a.1.Encodable ∧ a.2.Encodable
  | closing tag => tag.Encodable
  | text t => t.Encodable

@[simp] theorem encodable_doctype : doctype.Encodable :=
  trivial

@[simp] theorem encodable_opening (tag : Text) (attributes : Attributes) :
    (opening tag attributes).Encodable ↔
      tag.Encodable ∧ ∀ a ∈ attributes, a.1.Encodable ∧ a.2.Encodable :=
  Iff.rfl

@[simp] theorem encodable_void (tag : Text) (attributes : Attributes) :
    (void tag attributes).Encodable ↔
      tag.Encodable ∧ ∀ a ∈ attributes, a.1.Encodable ∧ a.2.Encodable :=
  Iff.rfl

@[simp] theorem encodable_closing (tag : Text) : (closing tag).Encodable ↔ tag.Encodable :=
  Iff.rfl

@[simp] theorem encodable_text (t : Text) : (text t).Encodable ↔ t.Encodable :=
  Iff.rfl

@[simp] theorem encodable_newLine : newLine.Encodable :=
  Text.encodable_chars _

theorem escape_encodable {t : Text} (plain : t.Encodable) : (escape t).Encodable := by
  apply Text.encodable_flatMap
  intro c member
  unfold escapeChar
  repeat' split
  all_goals first | exact Text.encodable_chars _ | simpa using plain c member

theorem writeAttributes_encodable {attributes : Attributes}
    (plain : ∀ a ∈ attributes, a.1.Encodable ∧ a.2.Encodable) :
    (writeAttributes attributes).Encodable := by
  apply Text.encodable_flatMap
  intro a member
  simp only [Text.encodable_append, Text.encodable_chars, plain a member, and_self]

theorem Encodable.write {p : Piece} (plain : p.Encodable) : p.write.Encodable := by
  cases p with
  | doctype =>
    change Text.Encodable ("<!DOCTYPE html>" : Text)
    exact Text.encodable_chars _
  | opening tag attributes | void tag attributes =>
    change Text.Encodable (.scalar '<' :: tag ++ writeAttributes attributes ++ ">")
    simp only [List.cons_append, Text.encodable_cons, Text.encodable_append, Text.encodable_chars,
      CodePoint.isSurrogate_scalar, plain.1, writeAttributes_encodable plain.2, and_self]
  | closing tag =>
    have named : tag.Encodable := plain
    change Text.Encodable ("</" ++ tag ++ ">")
    simp only [Text.encodable_append, Text.encodable_chars, named, and_self]
  | text t => exact escape_encodable plain

theorem writePieces_encodable {pieces : List Piece} (plain : ∀ p ∈ pieces, p.Encodable) :
    (writePieces pieces).Encodable :=
  Text.encodable_flatMap fun p member => (plain p member).write

end Piece

namespace Html

open Piece

/-- The label and the description of an entry can be encoded. -/
def Shown (p : Text × Tree) : Prop :=
  p.1.Encodable ∧ ∀ t ∈ p.2.entry.description, t.Encodable

theorem anchor_encodable {label : Text} (plain : label.Encodable) : (anchor label).Encodable := by
  unfold anchor
  rw [Text.encodable_append]
  refine ⟨Text.encodable_chars _, ?_⟩
  intro c member
  obtain ⟨d, inside, rfl⟩ := List.mem_map.mp member
  split
  · rfl
  · exact plain d inside

theorem lastSegment_encodable {label : Text} (plain : label.Encodable) :
    (lastSegment label).Encodable := by
  unfold lastSegment
  cases last : (segments label).getLast? with
  | none => exact Text.encodable_nil
  | some s =>
    have all : label.all (!·.isSurrogate) = true := by simpa [Text.Encodable] using plain
    have part := all_segments all s (List.mem_of_getLast? last)
    simpa [Text.Encodable] using part

theorem valueText_encodable (n : Int) : (valueText n).Encodable := by
  unfold valueText
  split
  · exact Numeral.decimal_encodable n
  · simp only [Text.encodable_append, Text.encodable_chars, Numeral.upperHex_encodable, and_self]

theorem contents_encodable {v : Visit} (shown : ∀ p ∈ v.entered?, Shown p) :
    ∀ p ∈ contents v, p.Encodable := by
  cases v with
  | enter label t =>
    have plain : label.Encodable := (shown _ rfl).1
    simp only [contents, contentsEnter, List.forall_mem_append]
    constructor
    · simp [anchor_encodable plain, lastSegment_encodable plain]
    · split <;> simp
  | leave label t =>
    simp only [contents, contentsLeave]
    split <;> simp

theorem kindBadge_encodable (k : Option Kind) : ∀ p ∈ kindBadge k, p.Encodable := by
  cases k with
  | none => exact List.forall_mem_nil _
  | some k =>
    have named : k.name.Encodable := by cases k <;> exact Text.encodable_chars _
    simp [kindBadge, named]

theorem valueBadge_encodable (n : Option Int) : ∀ p ∈ valueBadge n, p.Encodable := by
  cases n with
  | none => exact List.forall_mem_nil _
  | some n => simp [valueBadge, valueText_encodable n]

theorem descriptionBlock_encodable {d : Option Text} (plain : ∀ t ∈ d, t.Encodable) :
    ∀ p ∈ descriptionBlock d, p.Encodable := by
  rcases d with _ | _ | ⟨c, t⟩
  · exact List.forall_mem_nil _
  · simp [descriptionBlock]
  · have shown : Text.Encodable (c :: t) := plain _ rfl
    simpa [descriptionBlock] using shown

theorem sections_encodable {v : Visit} (shown : ∀ p ∈ v.entered?, Shown p) :
    ∀ p ∈ sections v, p.Encodable := by
  cases v with
  | enter label t =>
    have plain : label.Encodable := (shown _ rfl).1
    have described := descriptionBlock_encodable (shown _ rfl).2
    have heading : (headingClass t.entry).Encodable := by
      unfold headingClass
      split <;> exact Text.encodable_chars _
    simp only [sections, sectionEnter, List.forall_mem_append]
    refine ⟨⟨⟨⟨?_, kindBadge_encodable _⟩, valueBadge_encodable _⟩, ?_⟩, described⟩
    · simp [plain, anchor_encodable plain, heading]
    · simp
  | leave label t => simp [sections]

theorem sourceLine_encodable {source : Text} (plain : source.Encodable) :
    ∀ p ∈ sourceLine source, p.Encodable := by
  cases source with
  | nil => exact List.forall_mem_nil _
  | cons c t => simpa [sourceLine] using plain

theorem headLines_encodable {title source : Text} (titled : title.Encodable)
    (named : source.Encodable) : ∀ line ∈ headLines title source, ∀ p ∈ line, p.Encodable := by
  have sheet : styleFile.Encodable := Text.encodable_chars "style.css".toList
  simp only [headLines, List.forall_mem_cons]
  simpa [titled, sheet] using sourceLine_encodable named

theorem bodyLines_encodable {visits : List Visit}
    (shown : ∀ v ∈ visits, ∀ p ∈ v.entered?, Shown p) :
    ∀ line ∈ bodyLines visits, ∀ p ∈ line, p.Encodable := by
  simp only [bodyLines, List.forall_mem_append, List.forall_mem_map]
  refine ⟨⟨⟨⟨?_, fun v member => contents_encodable (shown v member)⟩, ?_⟩,
    fun v member => sections_encodable (shown v member)⟩, ?_⟩
  all_goals simp

/-- A page can be encoded if its title, its source name and all it shows of entries can be. -/
theorem page_encodable {title source : Text} {visits : List Visit} (titled : title.Encodable)
    (named : source.Encodable) (shown : ∀ v ∈ visits, ∀ p ∈ v.entered?, Shown p) :
    (page title source visits).Encodable := by
  apply writePieces_encodable
  rw [pageLines_split, joinLines_concat]
  simp only [List.forall_mem_flatMap, List.forall_mem_append, List.forall_mem_singleton]
  exact ⟨fun line member => ⟨headLines_encodable titled named line member, encodable_newLine⟩,
    fun line member => ⟨bodyLines_encodable shown line member, encodable_newLine⟩⟩

end Html

/-! ## JSON -/

namespace Json

theorem encodableItems_iff (items : List Json) :
    encodableItems items = true ↔ ∀ v ∈ items, v.isEncodable = true := by
  induction items with
  | nil => simp [encodableItems]
  | cons v items ih => simp [encodableItems, ih]

theorem encodableMembers_iff (members : Object) :
    encodableMembers members = true ↔ ∀ m ∈ members, m.1.Encodable ∧ m.2.isEncodable = true := by
  induction members with
  | nil => simp [encodableMembers]
  | cons m members ih => simp [encodableMembers, ih, Text.Encodable]

@[simp] theorem isEncodable_int (n : Int) : (int n).isEncodable = true :=
  rfl

@[simp] theorem isEncodable_str (t : Text) : (str t).isEncodable = true ↔ t.Encodable := by
  simp [isEncodable, Text.Encodable]

@[simp] theorem isEncodable_arr (items : List Json) :
    (arr items).isEncodable = true ↔ ∀ v ∈ items, v.isEncodable = true := by
  rw [isEncodable, encodableItems_iff]

@[simp] theorem isEncodable_obj (members : Object) :
    (obj members).isEncodable = true ↔ ∀ m ∈ members, m.1.Encodable ∧ m.2.isEncodable = true := by
  rw [isEncodable, encodableMembers_iff]

theorem escapeChar_encodable {c : CodePoint} (plain : c.isSurrogate = false) :
    (escapeChar c).Encodable := by
  have control : Text.Encodable ("\\u" ++ Text.lowerHex 4 c.toNat) := by
    simp [Text.lowerHex_encodable]
  unfold escapeChar
  repeat' split
  all_goals first | exact Text.encodable_chars _ | exact control | simpa using plain

theorem writeString_encodable {t : Text} (plain : t.Encodable) : (writeString t).Encodable := by
  have escaped : Text.Encodable (t.flatMap escapeChar) :=
    Text.encodable_flatMap fun c member => escapeChar_encodable (plain c member)
  simp [writeString, escaped]

theorem newLine_encodable (depth : Nat) : (newLine depth).Encodable := by
  simp [newLine]

theorem block_encodable (depth : Nat) {parts : List Text}
    (plain : ∀ part ∈ parts, part.Encodable) : (block depth parts).Encodable := by
  have between : Text.Encodable (.scalar ',' :: newLine (depth + 1)) := by
    simp [newLine_encodable]
  unfold block
  split
  · exact Text.encodable_nil
  · simp [newLine_encodable, Text.encodable_join between plain]

mutual

theorem writeAt_encodable (v : Json) (depth : Nat) (plain : v.isEncodable = true) :
    (v.writeAt depth).Encodable := by
  cases v with
  | null => exact Text.encodable_chars _
  | bool b => cases b <;> exact Text.encodable_chars _
  | int n => exact Numeral.decimal_encodable n
  | real x => exact x.text_encodable (Text.encodable_chars _) (Text.encodable_chars _)
  | str t => exact writeString_encodable ((isEncodable_str t).mp plain)
  | arr items =>
    have inside := block_encodable depth (writeItems_encodable items (depth + 1) plain)
    simp [writeAt, inside]
  | obj members =>
    have inside := block_encodable depth (writeMembers_encodable members (depth + 1) plain)
    simp [writeAt, inside]

theorem writeItems_encodable (items : List Json) (depth : Nat)
    (plain : encodableItems items = true) : ∀ part ∈ writeItems depth items, part.Encodable := by
  cases items with
  | nil => exact List.forall_mem_nil _
  | cons v items =>
    simp only [encodableItems, Bool.and_eq_true] at plain
    simp only [writeItems, List.forall_mem_cons]
    exact ⟨writeAt_encodable v depth plain.1, writeItems_encodable items depth plain.2⟩

theorem writeMembers_encodable (members : List (Text × Json)) (depth : Nat)
    (plain : encodableMembers members = true) :
    ∀ part ∈ writeMembers depth members, part.Encodable := by
  cases members with
  | nil => exact List.forall_mem_nil _
  | cons m members =>
    obtain ⟨k, v⟩ := m
    simp only [encodableMembers, Bool.and_eq_true, Bool.not_eq_true'] at plain
    have key := writeString_encodable ((Text.encodable_iff k).mpr plain.1.1)
    have value := writeAt_encodable v depth plain.1.2
    simp only [writeMembers, List.forall_mem_cons]
    refine ⟨?_, writeMembers_encodable members depth plain.2⟩
    simp [key, value]

end

end Json

/-! ## Documents -/

theorem Json.isEncodable_ofText? {t : Option Text} (plain : ∀ u ∈ t, u.Encodable) :
    (ofText? t).isEncodable = true := by
  cases t with
  | none => rfl
  | some t => exact (isEncodable_str t).mpr (plain t rfl)

@[simp] theorem Json.isEncodable_ofInt? (n : Option Int) : (ofInt? n).isEncodable = true := by
  cases n <;> rfl

theorem Kind.name_encodable (k : Kind) : k.name.Encodable := by
  cases k <;> exact Text.encodable_chars _

theorem entryMembers_encodable {label : Text} {e : Entry} {below : Forest} {children : List Json}
    (shown : Html.Shown (label, ⟨e, below⟩)) (each : ∀ v ∈ children, v.isEncodable = true) :
    (entryMembers (.str label) e children).isEncodable = true := by
  have labelled : label.Encodable := shown.1
  have described := Json.isEncodable_ofText? shown.2
  have kind : (Json.ofText? (e.kind.map Kind.name)).isEncodable = true := by
    apply Json.isEncodable_ofText?
    intro t member
    obtain ⟨k, -, rfl⟩ := Option.map_eq_some_iff.mp member
    exact k.name_encodable
  simp only [entryMembers, Json.isEncodable_obj, List.forall_mem_cons]
  simpa [labelled, described, kind] using each

theorem Forest.outline_encodable (label : Text) (f : Forest)
    (shown : ∀ p ∈ f.entered label, Html.Shown p) :
    ∀ v ∈ f.outline label, v.isEncodable = true := by
  induction f generalizing label with
  | nil => exact List.forall_mem_nil _
  | cons s e below next below_ih next_ih =>
    simp only [entered, walk, List.filterMap_cons, List.filterMap_append, Visit.entered?,
      List.forall_mem_cons, List.forall_mem_append] at shown
    obtain ⟨here, inside, beside⟩ := shown
    rw [outline, List.forall_mem_cons]
    exact ⟨entryMembers_encodable here (below_ih _ inside), next_ih label beside⟩

theorem Statistics.toJson_encodable (s : Statistics) : s.toJson.isEncodable = true := by
  have kinds : (Json.obj (s.kinds.map fun p => (p.1.name, .int p.2))).isEncodable = true := by
    rw [Json.isEncodable_obj, List.forall_mem_map]
    exact fun p _ => ⟨p.1.name_encodable, rfl⟩
  simp only [toJson, Json.isEncodable_obj, List.forall_mem_cons]
  simpa using kinds

namespace Document

/-- All that a document shows can be encoded. -/
structure Encodable (d : Document) : Prop where
  title : d.title.isEncodable = true
  source : d.sourceName.isEncodable = true
  metadata : d.metadata.isEncodable = true
  entries : ∀ p ∈ d.entered, Html.Shown p

namespace Encodable

variable {d : Document} {t : Text}

theorem html (plain : d.Encodable) (rendered : d.html = .ok t) : t.Encodable := by
  obtain ⟨title, source, titled, named, rfl⟩ := html_ok rendered
  apply Html.page_encodable
  · have encodable := plain.title
    rwa [titled, Json.isEncodable_str] at encodable
  · unfold sourceText at named
    split at named
    next name given =>
      cases named
      have encodable := plain.source
      rwa [given, Json.isEncodable_str] at encodable
    next =>
      split at named
      · cases named
      · cases named
        exact Text.encodable_nil
  · intro v member p shown
    exact plain.entries p (List.mem_filterMap.mpr ⟨v, member, shown⟩)

theorem toJson (plain : d.Encodable) {v : Json} (outlined : d.toJson = .ok v) :
    v.isEncodable = true := by
  obtain ⟨s, -, rfl⟩ := map_ok outlined
  have entries := Forest.outline_encodable [] d.root.below plain.entries
  simp only [Json.isEncodable_obj, List.forall_mem_cons]
  simpa [plain.title, plain.source, plain.metadata, s.toJson_encodable] using entries

theorem json (plain : d.Encodable) {time : Text} (stamp : time.Encodable)
    (rendered : d.json time = .ok t) : t.Encodable := by
  obtain ⟨v, outlined, rfl⟩ := json_ok rendered
  apply Json.writeAt_encodable
  simp only [exportJson, Json.isEncodable_obj, List.forall_mem_cons]
  simpa [stamp] using plain.toJson outlined

theorem render (plain : d.Encodable) {time : Text} (stamp : time.Encodable) {f : Format}
    (rendered : d.render time f = .ok t) : t.Encodable := by
  cases f with
  | html => exact plain.html rendered
  | json => exact plain.json stamp rendered

end Encodable

/-- The document of a listing can be encoded if its lines, its name and the title can be. -/
theorem ofListing_encodable {listing : Listing} {exported : List Export} {options : Options}
    (titled : options.title.isEncodable = true) (named : listing.name.isEncodable = true)
    (lines : ∀ line ∈ listing.lines, line.Encodable)
    (names : ∀ x ∈ exported, x.name.Encodable) :
    (ofListing listing exported options).Encodable where
  title := titled
  source := named
  metadata := by
    simp only [ofListing, Json.isEncodable_obj, List.forall_mem_singleton, Json.isEncodable_arr,
      List.forall_mem_map, Json.isEncodable_str]
    refine ⟨Text.encodable_chars _, ?_⟩
    intro name member
    obtain ⟨x, known, rfl⟩ := List.mem_map.mp (List.mem_filter.mp member).1
    exact names x known
  entries := by
    have plain : ∀ x ∈ exported, x.name.all (!·.isSurrogate) = true := by
      simpa [Text.Encodable] using names
    have labels := all_labels rfl plain listing options
    rintro ⟨label, u⟩ member
    constructor
    · simpa [Text.Encodable] using labels _ member
    · intro t described
      have proper := proper_of_shape (ofListing_shape listing exported options)
      obtain ⟨path, -, found⟩ := (Tree.mem_entered proper label u).mp member
      have nonempty : path ≠ [] := by
        rintro rfl
        cases found
      have entry : (ofListing listing exported options).root.below.entryAt? path =
          some u.entry := by
        rw [Forest.entryAt?, found]
        rfl
      have comment := ofListing_description listing exported options path nonempty u.entry entry
      apply Description.describe_encodable _ (comment.symm.trans described)
      intro line inside
      exact (lines line inside).of_subset (Listing.sourceText_subset _ _)

end Document

end LabelAtlas
