import LabelAtlas.Text.CodePoint

/-!
Texts are lists of code points: positions count code points, and every rule on texts is a rule on
lists.
-/

namespace LabelAtlas

abbrev Text := List CodePoint

instance : Coe String Text := ⟨fun s => s.toList.map .scalar⟩

namespace Text

def inRanges (ranges : List (Nat × Nat)) (n : Nat) : Bool :=
  ranges.any fun r => r.1 ≤ n && n ≤ r.2

/-- The blanks: tab to carriage return, the four separators and the space, next line, and the
space separators of Unicode. Zero-width characters are not blank. -/
def isBlank (c : CodePoint) : Bool :=
  inRanges [(0x09, 0x0D), (0x1C, 0x20), (0x85, 0x85), (0xA0, 0xA0), (0x1680, 0x1680),
    (0x2000, 0x200A), (0x2028, 0x2029), (0x202F, 0x202F), (0x205F, 0x205F), (0x3000, 0x3000)]
    c.toNat

def dropEndWhile (p : CodePoint → Bool) (t : Text) : Text :=
  (t.reverse.dropWhile p).reverse

def stripStart (t : Text) : Text :=
  t.dropWhile isBlank

def stripEnd (t : Text) : Text :=
  dropEndWhile isBlank t

def strip (t : Text) : Text :=
  stripEnd (stripStart t)

/-- The text between the marks, one part more than there are marks. -/
def splitAt (mark : CodePoint) : Text → List Text
  | [] => [[]]
  | c :: t =>
    if c = mark then [] :: splitAt mark t
    else match splitAt mark t with
      | [] => [[c]]
      | part :: parts => (c :: part) :: parts

/-- What stands before the first mark and what stands behind it. -/
def cutAt? (mark : CodePoint) : Text → Option (Text × Text)
  | [] => none
  | c :: t =>
    if c = mark then some ([], t) else (cutAt? mark t).map fun p => (c :: p.1, p.2)

theorem length_cutAt? {mark : CodePoint} {t first rest : Text}
    (cut : cutAt? mark t = some (first, rest)) : rest.length < t.length := by
  induction t generalizing first with
  | nil => cases cut
  | cons c t ih =>
    rw [cutAt?] at cut
    split at cut
    · cases cut
      exact Nat.lt_succ_self _
    · obtain ⟨⟨before, _⟩, inside, same⟩ := Option.map_eq_some_iff.mp cut
      cases same
      exact Nat.lt_succ_of_lt (ih inside)

def join (separator : Text) (parts : List Text) : Text :=
  separator.intercalate parts

/-- The rest of a text after a given start. -/
def after? (start t : Text) : Option Text :=
  if start.isPrefixOf t then some (t.drop start.length) else none

/-- An ASCII word in any letter case, and what follows it. The word is given in lower case. -/
def afterWord? (word t : Text) : Option Text :=
  if (t.take word.length).map CodePoint.toLower = word then some (t.drop word.length) else none

end Text

end LabelAtlas
