import LabelAtlas.Numeral
import LabelAtlas.Text.Quoted

/-! UTF-8, read one byte at a time. A character of more than one byte is pending until its last byte
is read; what its next byte may be excludes overlong forms and, where reading is strict, surrogates.
A text with a surrogate cannot be written. -/
namespace LabelAtlas.Utf8

abbrev Bytes := List UInt8

inductive Reason where
  | invalidStart
  | invalidContinuation
  | unexpectedEnd
  deriving DecidableEq, Repr

/-- The bytes from `start` to `stop`, of which `byte` is the first, are not UTF-8. -/
structure Error where
  reason : Reason
  byte : UInt8
  start : Nat
  stop : Nat
  deriving DecidableEq, Repr

/-- A character of which `need` bytes are still to come, the next between `low` and `high`. -/
structure Pending where
  byte : UInt8
  start : Nat
  need : Nat
  low : UInt8
  high : UInt8
  value : Nat
  deriving DecidableEq, Repr

/-- The bytes that start a character of more than one byte. The second byte tells a surrogate. -/
def lead? (strict : Bool) (b : UInt8) (position : Nat) : Option Pending :=
  if 0xC2 ≤ b ∧ b ≤ 0xDF then some ⟨b, position, 1, 0x80, 0xBF, b.toNat - 0xC0⟩
  else if 0xE0 ≤ b ∧ b ≤ 0xEF then
    some ⟨b, position, 2, if b = 0xE0 then 0xA0 else 0x80,
      if b = 0xED ∧ strict = true then 0x9F else 0xBF, b.toNat - 0xE0⟩
  else if 0xF0 ≤ b ∧ b ≤ 0xF4 then
    some ⟨b, position, 3, if b = 0xF0 then 0x90 else 0x80, if b = 0xF4 then 0x8F else 0xBF,
      b.toNat - 0xF0⟩
  else none

def Pending.joined (p : Pending) (b : UInt8) : Nat :=
  p.value * 64 + (b.toNat - 0x80)

/-- The pending character after one more byte. -/
def Pending.push (p : Pending) (b : UInt8) : Pending :=
  { p with need := p.need - 1, low := 0x80, high := 0xBF, value := p.joined b }

def decodeFrom (strict : Bool) (position : Nat) : Option Pending → Bytes → Except Error Text
  | none, [] => .ok []
  | some p, [] => .error ⟨.unexpectedEnd, p.byte, p.start, position - 1⟩
  | none, b :: rest =>
    if b < 0x80 then (decodeFrom strict (position + 1) none rest).map (.ofNat b.toNat :: ·)
    else match lead? strict b position with
      | none => .error ⟨.invalidStart, b, position, position⟩
      | some p => decodeFrom strict (position + 1) (some p) rest
  | some p, b :: rest =>
    if p.low ≤ b ∧ b ≤ p.high then
      if p.need = 1 then
        (decodeFrom strict (position + 1) none rest).map (.ofNat (p.joined b) :: ·)
      else decodeFrom strict (position + 1) (some (p.push b)) rest
    else .error ⟨.invalidContinuation, p.byte, p.start, position - 1⟩

def decode (bytes : Bytes) : Except Error Text :=
  decodeFrom true 0 none bytes

/-- Reads surrogates that are written like other characters. -/
def decodePassing (bytes : Bytes) : Except Error Text :=
  decodeFrom false 0 none bytes

def tailByte (n : Nat) : UInt8 :=
  UInt8.ofNat (0x80 + n % 64)

/-- The bytes of a code point, given by its number. -/
def encodeNat (n : Nat) : Bytes :=
  if n < 0x80 then [UInt8.ofNat n]
  else if n < 0x800 then [UInt8.ofNat (0xC0 + n / 64), tailByte n]
  else if n < 0x10000 then [UInt8.ofNat (0xE0 + n / 4096), tailByte (n / 64), tailByte n]
  else [UInt8.ofNat (0xF0 + n / 262144), tailByte (n / 4096), tailByte (n / 64), tailByte n]

def encodeChar (c : Char) : Bytes :=
  encodeNat c.toNat

/-- A row of surrogates, from `start` to `stop`, of which `code` is the first. -/
structure Unencodable where
  code : Nat
  start : Nat
  stop : Nat
  deriving DecidableEq, Repr

/-- The first row of surrogates that starts where a test holds. -/
def surrogates? (starts : CodePoint → Bool) (t : Text) : Option Unencodable :=
  let start := (t.takeWhile (!starts ·)).length
  match t.drop start with
  | [] => none
  | c :: rest => some ⟨c.toNat, start, start + (rest.takeWhile CodePoint.isSurrogate).length⟩

def encode (t : Text) : Except Unencodable Bytes :=
  match surrogates? CodePoint.isSurrogate t with
  | some e => .error e
  | none => .ok (t.flatMap fun
    | .scalar c => encodeChar c
    | .surrogate _ => [])

/-- The names of files are bytes, and a byte from 0x80 on that is not UTF-8 is given by a
surrogate. -/
def byteOf? : CodePoint → Option UInt8
  | .scalar _ => none
  | .surrogate n =>
    if 0x480 ≤ n.val ∧ n.val < 0x500 then some (UInt8.ofNat (n.val - 0x400)) else none

/-- The bytes of the name of a file. -/
def encodeName (t : Text) : Except Unencodable Bytes :=
  match surrogates? (fun c => c.isSurrogate && (byteOf? c).isNone) t with
  | some e => .error e
  | none => .ok (t.flatMap fun
    | .scalar c => encodeChar c
    | .surrogate n => (byteOf? (.surrogate n)).toList)

def Reason.text : Reason → Text
  | invalidStart => "invalid start byte"
  | invalidContinuation => "invalid continuation byte"
  | unexpectedEnd => "unexpected end of data"

def Error.message (e : Error) : Text :=
  let place : Text :=
    if e.start = e.stop then
      "byte 0x" ++ Text.lowerHex 2 e.byte.toNat ++ " in position " ++ Numeral.decimal e.start
    else "bytes in position " ++ Numeral.decimal e.start ++ "-" ++ Numeral.decimal e.stop
  "'utf-8' codec can't decode " ++ place ++ ": " ++ e.reason.text

def Unencodable.message (e : Unencodable) : Text :=
  let place : Text :=
    if e.start = e.stop then
      "character " ++ Text.quoted [.ofNat e.code] ++ " in position " ++ Numeral.decimal e.start
    else "characters in position " ++ Numeral.decimal e.start ++ "-" ++ Numeral.decimal e.stop
  "'utf-8' codec can't encode " ++ place ++ ": surrogates not allowed"

end LabelAtlas.Utf8
