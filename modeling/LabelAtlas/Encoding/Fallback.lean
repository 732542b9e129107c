import LabelAtlas.Encoding.Utf8
import LabelAtlas.Text.Lines

/-! Texts of unknown encoding. Assembler sources are often written in a legacy code page: what is
not UTF-8 is read as Windows-1252, and what that page leaves undefined as Latin-1, which has a
character for every byte. -/
namespace LabelAtlas.Encoding

open Utf8 (Bytes)

inductive Charset where
  | utf8
  | windows1252
  | latin1
  deriving DecidableEq, Repr

def Charset.name : Charset → Text
  | utf8 => "utf-8"
  | windows1252 => "cp1252"
  | latin1 => "latin-1"

/-- The characters of Windows-1252 from 0x80 to 0x9F; zero marks the five undefined bytes. -/
def windowsRow : List Nat := [
  0x20AC, 0, 0x201A, 0x192, 0x201E, 0x2026, 0x2020, 0x2021, 0x2C6, 0x2030, 0x160, 0x2039, 0x152, 0,
  0x17D, 0, 0, 0x2018, 0x2019, 0x201C, 0x201D, 0x2022, 0x2013, 0x2014, 0x2DC, 0x2122, 0x161,
  0x203A, 0x153, 0, 0x17E, 0x178]

def latin1Char (b : UInt8) : CodePoint :=
  .ofNat b.toNat

def windowsChar? (b : UInt8) : Option CodePoint :=
  if 0x80 ≤ b ∧ b < 0xA0 then
    match windowsRow.getD (b.toNat - 0x80) 0 with
    | 0 => none
    | n => some (.ofNat n)
  else some (latin1Char b)

/-- The characters of a byte string and the encoding that gave them. -/
def decode (bytes : Bytes) : Charset × Text :=
  match Utf8.decode bytes with
  | .ok t => (.utf8, t)
  | .error _ =>
    match bytes.mapM windowsChar? with
    | some t => (.windows1252, t)
    | none => (.latin1, bytes.map latin1Char)

/-- The text of a file: decoded, with all line ends as line feeds. -/
def readText (bytes : Bytes) : Charset × Text :=
  let (charset, t) := decode bytes
  (charset, Text.unifyBreaks t)

end LabelAtlas.Encoding
