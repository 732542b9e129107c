import LabelAtlas.Binary64
import LabelAtlas.Text.Quoted

/-!
JSON values. Members of an object are kept in order; whole numbers and fractions are told apart.
-/

namespace LabelAtlas

inductive Json where
  | null
  | bool (b : Bool)
  | int (n : Int)
  | real (x : Binary64)
  | str (t : Text)
  | arr (items : List Json)
  | obj (members : List (Text × Json))
  deriving Repr

namespace Json

mutual

def decEq : (a b : Json) → Decidable (a = b)
  | .null, .null => isTrue rfl
  | .bool a, .bool b => decidable_of_iff (a = b) (by simp)
  | .int a, .int b => decidable_of_iff (a = b) (by simp)
  | .real a, .real b => decidable_of_iff (a = b) (by simp)
  | .str a, .str b => decidable_of_iff (a = b) (by simp)
  | .arr a, .arr b =>
    have := decEqItems a b
    decidable_of_iff (a = b) (by simp)
  | .obj a, .obj b =>
    have := decEqMembers a b
    decidable_of_iff (a = b) (by simp)
  | .null, .bool _ | .null, .int _ | .null, .real _ | .null, .str _ | .null, .arr _
  | .null, .obj _ | .bool _, .null | .bool _, .int _ | .bool _, .real _ | .bool _, .str _
  | .bool _, .arr _ | .bool _, .obj _ | .int _, .null | .int _, .bool _ | .int _, .real _
  | .int _, .str _ | .int _, .arr _ | .int _, .obj _ | .real _, .null | .real _, .bool _
  | .real _, .int _ | .real _, .str _ | .real _, .arr _ | .real _, .obj _ | .str _, .null
  | .str _, .bool _ | .str _, .int _ | .str _, .real _ | .str _, .arr _ | .str _, .obj _
  | .arr _, .null | .arr _, .bool _ | .arr _, .int _ | .arr _, .real _ | .arr _, .str _
  | .arr _, .obj _ | .obj _, .null | .obj _, .bool _ | .obj _, .int _ | .obj _, .real _
  | .obj _, .str _ | .obj _, .arr _ => isFalse (by simp)

def decEqItems : (a b : List Json) → Decidable (a = b)
  | [], [] => isTrue rfl
  | [], _ :: _ | _ :: _, [] => isFalse (by simp)
  | x :: xs, y :: ys =>
    have := decEq x y
    have := decEqItems xs ys
    decidable_of_iff (x = y ∧ xs = ys) (by simp)

def decEqMembers : (a b : List (Text × Json)) → Decidable (a = b)
  | [], [] => isTrue rfl
  | [], _ :: _ | _ :: _, [] => isFalse (by simp)
  | (k, x) :: xs, (l, y) :: ys =>
    have := decEq x y
    have := decEqMembers xs ys
    decidable_of_iff (k = l ∧ x = y ∧ xs = ys) (by simp [and_assoc])

end

instance : DecidableEq Json := decEq

abbrev Object := List (Text × Json)

def get? (key : Text) (members : Object) : Option Json :=
  (members.find? (·.1 = key)).map (·.2)

/-- A member given again keeps its place and takes the later value. -/
def put (key : Text) (value : Json) (members : Object) : Object :=
  if members.any (·.1 = key) then members.map fun m => if m.1 = key then (key, value) else m
  else members ++ [(key, value)]

/-- Empty, zero and missing values count as false. -/
def isTruthy : Json → Bool
  | null => false
  | bool b => b
  | int n => n ≠ 0
  | real x => !x.isZero
  | str t => !t.isEmpty
  | arr items => !items.isEmpty
  | obj members => !members.isEmpty

def ofText? : Option Text → Json
  | some t => str t
  | none => null

def ofInt? : Option Int → Json
  | some n => int n
  | none => null

mutual

/-- Whether a test holds for every value inside a value that holds no others. -/
def allScalars (p : Json → Bool) : Json → Bool
  | arr items => itemScalars p items
  | obj members => memberScalars p members
  | v => p v

def itemScalars (p : Json → Bool) : List Json → Bool
  | [] => true
  | x :: xs => allScalars p x && itemScalars p xs

def memberScalars (p : Json → Bool) : List (Text × Json) → Bool
  | [] => true
  | (_, x) :: xs => allScalars p x && memberScalars p xs

end

/-- Whether every number inside a value is finite. -/
def isFinite : Json → Bool :=
  allScalars fun
    | real (.infinite _) | real .nan => false
    | _ => true

mutual

/-- Whether no key and no text inside a value has a surrogate. -/
def isEncodable : Json → Bool
  | str t => !t.any CodePoint.isSurrogate
  | arr items => encodableItems items
  | obj members => encodableMembers members
  | _ => true

def encodableItems : List Json → Bool
  | [] => true
  | x :: xs => isEncodable x && encodableItems xs

def encodableMembers : List (Text × Json) → Bool
  | [] => true
  | (k, x) :: xs => !k.any CodePoint.isSurrogate && isEncodable x && encodableMembers xs

end

mutual

/-- How many arrays and objects lie in each other at the deepest place. -/
def depth : Json → Nat
  | arr items => depthOfItems items + 1
  | obj members => depthOfMembers members + 1
  | _ => 0

def depthOfItems : List Json → Nat
  | [] => 0
  | x :: xs => max (depth x) (depthOfItems xs)

def depthOfMembers : List (Text × Json) → Nat
  | [] => 0
  | (_, x) :: xs => max (depth x) (depthOfMembers xs)

end

mutual

/-- A value as messages and summaries show it. -/
def literal : Json → Text
  | null => "None"
  | bool b => if b then "True" else "False"
  | int n => Numeral.decimal n
  | real x => x.text "nan" "inf"
  | str t => Text.quoted t
  | arr items => "[" ++ Text.join ", " (literalItems items) ++ "]"
  | obj members => "\x7b" ++ Text.join ", " (literalMembers members) ++ "\x7d"

def literalItems : List Json → List Text
  | [] => []
  | x :: xs => literal x :: literalItems xs

def literalMembers : List (Text × Json) → List Text
  | [] => []
  | (k, x) :: xs => (Text.quoted k ++ ": " ++ literal x) :: literalMembers xs

end

/-- A value inside a message: texts stand without quotes. -/
def shown : Json → Text
  | str t => t
  | v => literal v

/-- A value inside a message, or what stands for it if it is empty. -/
def shownOr (fallback : Text) (v : Json) : Text :=
  if v.isTruthy then v.shown else fallback

end Json

end LabelAtlas
