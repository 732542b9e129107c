/-!
Code points. A surrogate stands for a character only together with another one, but JSON can write
one alone, and it then goes through a text like any character: it is neither a letter nor a digit
nor a blank, and no file can hold it.
-/

namespace LabelAtlas

inductive CodePoint where
  | scalar (c : Char)
  /-- The surrogates are numbered from the first one on. -/
  | surrogate (n : Fin 0x800)
  deriving DecidableEq, Repr

instance : Coe Char CodePoint := ⟨.scalar⟩

namespace CodePoint

def firstSurrogate : Nat := 0xD800

def toNat : CodePoint → Nat
  | scalar c => c.toNat
  | surrogate n => firstSurrogate + n

def ofNat (n : Nat) : CodePoint :=
  if h : n - firstSurrogate < 0x800 ∧ firstSurrogate ≤ n then surrogate ⟨n - firstSurrogate, h.1⟩
  else scalar (Char.ofNat n)

def isSurrogate : CodePoint → Bool
  | scalar _ => false
  | surrogate _ => true

/-- A test on characters, which no surrogate passes. -/
def passes (p : Char → Bool) : CodePoint → Bool
  | scalar c => p c
  | surrogate _ => false

/-- The ASCII digits. -/
def isDigit : CodePoint → Bool :=
  passes Char.isDigit

/-- The ASCII letters. -/
def isAlpha : CodePoint → Bool :=
  passes Char.isAlpha

/-- Changes characters and leaves surrogates alone. -/
def mapChar (f : Char → Char) : CodePoint → CodePoint
  | scalar c => scalar (f c)
  | surrogate n => surrogate n

/-- Lower case for the ASCII letters. -/
def toLower : CodePoint → CodePoint :=
  mapChar Char.toLower

/-- Upper case for the ASCII letters. -/
def toUpper : CodePoint → CodePoint :=
  mapChar Char.toUpper

/-- The first of the two surrogates that stand for a character beyond the first 65536. -/
def isHighUnit (n : Nat) : Bool :=
  0xD800 ≤ n && n < 0xDC00

def isLowUnit (n : Nat) : Bool :=
  0xDC00 ≤ n && n < 0xE000

/-- The code point of a high and a low unit. -/
def ofPair (high low : Nat) : CodePoint :=
  ofNat (0x10000 + (high - 0xD800) * 0x400 + (low - 0xDC00))

end CodePoint

end LabelAtlas
