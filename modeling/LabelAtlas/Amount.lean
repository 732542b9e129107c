import LabelAtlas.Json.Value

/-! Numbers as they are given: whole ones, and fractions that may or may not be of use. -/
namespace LabelAtlas

inductive Amount where
  | whole (n : Int)
  | real (x : Binary64)
  deriving DecidableEq, Repr

namespace Amount

/-- Truth values count as zero and one. -/
def ofJson? : Json → Option Amount
  | .int n => some (.whole n)
  | .bool b => some (.whole (if b then 1 else 0))
  | .real x => some (.real x)
  | _ => none

def isNegative : Amount → Bool
  | whole n => n < 0
  | real x => x.isNegative

/-- The greatest count of at most `bound` that is not above a number. -/
def limit (a : Amount) (bound : Nat) : Int :=
  match a with
  | whole n => n
  | real x => x.floor?.getD (if x.isNegative then -1 else bound)

end Amount

end LabelAtlas
