import LabelAtlas.Proofs.Markup

/-! How tags lie in each other. The tags of a kind are brackets, each opening one with what it
shows, and brackets that fit are read as items inside and behind each other. A walk over a tree
gives brackets that are read as the tree. -/
namespace LabelAtlas

open Piece

/-! ## Open tags -/

namespace Piece

def opens (tag : Text) : Piece → Bool
  | opening t _ => t = tag
  | _ => false

def closes (tag : Text) : Piece → Bool
  | closing t => t = tag
  | _ => false

def attributes : Piece → Attributes
  | opening _ a | void _ a => a
  | _ => []

/-- The tags that stay open behind a piece. A closing tag has to match the one opened last. -/
def step (opened : List Text) : Piece → Option (List Text)
  | opening tag _ => some (tag :: opened)
  | closing tag => match opened with
    | [] => none
    | last :: rest => if last = tag then some rest else none
  | _ => some opened

/-- A piece that opens and closes no tags but some. -/
def isAmong (names : List Text) : Piece → Bool
  | opening tag _ | closing tag => names.contains tag
  | _ => true

theorem isAmong_of_subset {names more : List Text} (subset : names ⊆ more) {p : Piece}
    (among : p.isAmong names = true) : p.isAmong more = true := by
  cases p with
  | opening t a | closing t =>
    simp only [isAmong, List.contains_iff_mem] at among ⊢
    exact subset among
  | doctype | void | text => rfl

/-- A piece that is among some tags opens and closes no other. -/
theorem other_of_isAmong {names : List Text} {p : Piece} (among : p.isAmong names = true)
    {tag : Text} (other : tag ∉ names) : p.opens tag = false ∧ p.closes tag = false := by
  cases p with
  | opening t a | closing t =>
    have unlike : t ≠ tag := by
      rintro rfl
      exact other (List.contains_iff_mem.mp among)
    simp [opens, closes, unlike]
  | doctype | void | text => exact ⟨rfl, rfl⟩

end Piece

namespace Markup

/-- Tags that close whatever they open. -/
def Closes (tokens : List Token) : Prop :=
  ∀ opened, (tokens.map (·.tag)).foldlM Piece.step opened = some opened

theorem Closes.append {a b : List Token} (first : Closes a) (second : Closes b) :
    Closes (a ++ b) := by
  intro opened
  rw [List.map_append, List.foldlM_append, first opened]
  exact second opened

theorem Closes.within {a : List Token} (closes : Closes a) (tag : Text) (attributes : Attributes)
    (text behind : Text) :
    Closes (⟨opening tag attributes, text⟩ :: a ++ [⟨closing tag, behind⟩]) := by
  intro opened
  have inner := closes (tag :: opened)
  simp only [List.map_cons, List.map_append, List.cons_append, List.foldlM_cons,
    List.foldlM_append, List.map_nil, List.foldlM_nil, Piece.step, Option.bind_eq_bind,
    Option.bind_some, inner, if_true]
  rfl

theorem closes_nil : Closes [] :=
  fun _ => rfl

theorem closes_pair (tag : Text) (attributes : Attributes) (text behind : Text) :
    Closes [⟨opening tag attributes, text⟩, ⟨closing tag, behind⟩] := by
  simpa using closes_nil.within tag attributes text behind

/-- If the tags for entering and leaving an entry close around all that closes, a walk closes. A
leaf has nothing between them. -/
theorem closes_walk (part : Visit → List Token)
    (around : ∀ label t a, Closes a → (t.isLeaf = true → a = []) →
      Closes (part (.enter label t) ++ a ++ part (.leave label t)))
    (f : Forest) (label : Text) : Closes ((f.walk label).flatMap part) := by
  induction f generalizing label with
  | nil => exact closes_nil
  | cons s e below next below_ih next_ih =>
    have alone : Tree.isLeaf ⟨e, below⟩ = true →
        (below.walk (extend label s)).flatMap part = [] := by
      intro leaf
      cases below with
      | nil => rfl
      | cons => cases leaf
    have inner := around (extend label s) ⟨e, below⟩ _ (below_ih (extend label s)) alone
    have whole := inner.append (next_ih label)
    simpa [Forest.walk] using whole

/-! ## Parts of a markup -/

/-- The tokens of a kind of opening tag. -/
def opened (tag : Text) (tokens : List Token) : List Token :=
  tokens.filter (·.tag.opens tag)

/-- The tokens between the first opening tag of a kind and the next closing tag of that kind. -/
def inside (tag : Text) (tokens : List Token) : List Token :=
  ((tokens.dropWhile fun k => !k.tag.opens tag).drop 1).takeWhile fun k => !k.tag.closes tag

/-- The texts in blocks of a kind, each with the attributes of the tag around it that was opened
last. -/
def blocks (around tag : Text) : Attributes → List Token → List (Attributes × Text)
  | _, [] => []
  | last, k :: tokens =>
    if k.tag.opens around then blocks around tag k.tag.attributes tokens
    else if k.tag.opens tag then (last, k.text) :: blocks around tag last tokens
    else blocks around tag last tokens

/-- Tokens with tags of some kinds only. -/
def Among (names : List Text) (tokens : List Token) : Prop :=
  ∀ k ∈ tokens, k.tag.isAmong names = true

theorem Among.append {names : List Text} {a b : List Token} (first : Among names a)
    (second : Among names b) : Among names (a ++ b) :=
  List.forall_mem_append.mpr ⟨first, second⟩

theorem Among.within {names : List Text} {a : List Token} (among : Among names a) {tag : Text}
    (known : names.contains tag = true) (attributes : Attributes) (text behind : Text) :
    Among names (⟨opening tag attributes, text⟩ :: a ++ [⟨closing tag, behind⟩]) :=
  Among.append (List.forall_mem_cons.mpr ⟨known, among⟩) (List.forall_mem_singleton.mpr known)

theorem among_flatMap {α : Type} {names : List Text} {part : α → List Token}
    (each : ∀ x, Among names (part x)) (items : List α) : Among names (items.flatMap part) :=
  List.forall_mem_flatMap.mpr fun x _ => each x

theorem Among.of_subset {names more : List Text} (subset : names ⊆ more) {tokens : List Token}
    (among : Among names tokens) : Among more tokens :=
  fun k member => isAmong_of_subset subset (among k member)

theorem grouped_among {names : List Text} {pieces : List Piece}
    (among : pieces.all (isAmong names) = true) : Among names (grouped pieces).2 :=
  fun k member => List.all_eq_true.mp among k.tag (mem_grouped member).1

theorem inside_eq {tag : Text} {names more : List Text} {before within after : List Token}
    {attributes : Attributes} {text behind : Text} (before_among : Among names before)
    (before_other : tag ∉ names) (within_among : Among more within) (within_other : tag ∉ more) :
    inside tag (before ++ ⟨opening tag attributes, text⟩ ::
      (within ++ ⟨closing tag, behind⟩ :: after)) = within := by
  have unopened : ∀ k ∈ before, (!k.tag.opens tag) = true := by
    intro k member
    rw [(other_of_isAmong (before_among k member) before_other).1]
    rfl
  have unclosed : ∀ k ∈ within, (!k.tag.closes tag) = true := by
    intro k member
    rw [(other_of_isAmong (within_among k member) within_other).2]
    rfl
  rw [inside, List.dropWhile_append_of_pos unopened,
    List.dropWhile_cons_of_neg (by simp [opens]), List.drop_one, List.tail_cons,
    List.takeWhile_append_of_pos unclosed]
  simp [closes]

theorem opened_other {names : List Text} {tokens : List Token} (among : Among names tokens)
    {tag : Text} (other : tag ∉ names) : opened tag tokens = [] := by
  apply List.filter_eq_nil_iff.mpr
  intro k member
  rw [(other_of_isAmong (among k member) other).1]
  exact Bool.false_ne_true

theorem blocks_opening (around tag : Text) (last attributes : Attributes) (text : Text)
    (tokens : List Token) : blocks around tag last (⟨opening around attributes, text⟩ :: tokens)
      = blocks around tag attributes tokens :=
  if_pos (decide_eq_true rfl)

theorem blocks_other {names : List Text} {a : List Token} (among : Among names a)
    {around tag : Text} (neither : around ∉ names) (nor : tag ∉ names) (last : Attributes)
    (b : List Token) : blocks around tag last (a ++ b) = blocks around tag last b := by
  induction a with
  | nil => rfl
  | cons k a ih =>
    obtain ⟨first, others⟩ := List.forall_mem_cons.mp among
    rw [List.cons_append, blocks, (other_of_isAmong first neither).1,
      (other_of_isAmong first nor).1]
    exact ih others

end Markup

/-! ## Brackets -/

/-- How items lie in each other: the first one, what is inside it, and what is behind it. -/
inductive Nesting (α : Type) where
  | nil
  | cons (item : α) (within behind : Nesting α)
  deriving DecidableEq, Repr

namespace Nesting

variable {α : Type}

def append : Nesting α → Nesting α → Nesting α
  | nil, last => last
  | cons item within behind, last => cons item within (behind.append last)

theorem append_nil (n : Nesting α) : n.append nil = n := by
  induction n with
  | nil => rfl
  | cons item within behind _ ih => rw [append, ih]

/-- What is read of brackets from the last one on, as a list of places. An opening bracket carries
an item; a closing one begins a place inside, and the opening one joins what was read inside with
what is behind. -/
def places? : List (Option α) → Option (List (Nesting α))
  | [] => some [nil]
  | none :: brackets => (places? brackets).map (nil :: ·)
  | some item :: brackets => match places? brackets with
    | some (within :: behind :: places) => some (cons item within behind :: places)
    | _ => none

/-- The nesting of brackets that fit. -/
def ofBrackets? (brackets : List (Option α)) : Option (Nesting α) :=
  match places? brackets with
  | some [n] => some n
  | _ => none

end Nesting

namespace Forest

variable {α : Type}

/-- How the entries lie in each other, shown by their labels and what is below them. -/
def nesting (g : Text × Tree → α) (label : Text) : Forest → Nesting α
  | nil => .nil
  | cons s e below next =>
    .cons (g (extend label s, ⟨e, below⟩)) (below.nesting g (extend label s)) (next.nesting g label)

/-- The visits to an entry are a pair of brackets, with the visits to all below it between them. -/
theorem places?_walk (g : Text × Tree → α) (f : Forest) (label : Text) (brackets : List (Option α))
    (behind : Nesting α) (places : List (Nesting α))
    (read : Nesting.places? brackets = some (behind :: places)) :
    Nesting.places? ((f.walk label).map (·.entered?.map g) ++ brackets)
      = some ((f.nesting g label).append behind :: places) := by
  induction f generalizing label brackets behind places with
  | nil => exact read
  | cons s e below next below_ih next_ih =>
    -- Brackets are read from the end: first the entries behind this one, then, in a place of their
    -- own, those below it.
    have later := next_ih label brackets behind places read
    have inner := below_ih (extend label s) (none :: _) .nil _ (by rw [Nesting.places?, later]; rfl)
    rw [Nesting.append_nil] at inner
    simp only [walk, List.map_cons, List.map_append, List.cons_append, List.append_assoc]
    change Nesting.places? (some _ :: (_ ++ none :: _)) = _
    rw [Nesting.places?, inner]
    rfl

/-- A walk is read as the entries it goes along. -/
theorem ofBrackets?_walk (g : Text × Tree → α) (f : Forest) (label : Text) :
    Nesting.ofBrackets? ((f.walk label).map (·.entered?.map g)) = some (f.nesting g label) := by
  have read := f.places?_walk g label [] .nil [] rfl
  rw [List.append_nil, Nesting.append_nil] at read
  rw [Nesting.ofBrackets?, read]

end Forest

namespace Markup

/-- The tags of a kind as brackets. An opening one carries its token and the token behind it, which
is the first one inside. -/
def brackets (tag : Text) : List Token → List (Option (Token × Option Token))
  | [] => []
  | k :: tokens =>
    if k.tag.opens tag then some (k, tokens.head?) :: brackets tag tokens
    else if k.tag.closes tag then none :: brackets tag tokens
    else brackets tag tokens

theorem brackets_opening (tag : Text) (attributes : Attributes) (text : Text)
    (tokens : List Token) : brackets tag (⟨opening tag attributes, text⟩ :: tokens)
      = some (⟨opening tag attributes, text⟩, tokens.head?) :: brackets tag tokens :=
  if_pos (decide_eq_true rfl)

theorem brackets_other {names : List Text} {a : List Token} (among : Among names a) {tag : Text}
    (other : tag ∉ names) (b : List Token) : brackets tag (a ++ b) = brackets tag b := by
  induction a with
  | nil => rfl
  | cons k a ih =>
    obtain ⟨first, others⟩ := List.forall_mem_cons.mp among
    obtain ⟨unopened, unclosed⟩ := other_of_isAmong first other
    rw [List.cons_append, brackets, unopened, unclosed]
    exact ih others

/-- How the tags of a kind lie in each other. -/
def nesting? (tag : Text) (tokens : List Token) : Option (Nesting (Token × Option Token)) :=
  Nesting.ofBrackets? (brackets tag tokens)

end Markup

end LabelAtlas
