import Mathlib.Data.List.TakeWhile
import LabelAtlas.Encoding.Fallback
import LabelAtlas.Export.Labels

/-! Texts in files. A text that can be encoded is read back as it was written, up to its line ends,
and its lines do not depend on those. -/
namespace LabelAtlas

theorem CodePoint.ofNat_char (c : Char) : ofNat c.toNat = .scalar c := by
  have valid : c.toNat < 0xD800 ∨ 0xDFFF < c.toNat ∧ c.toNat < 0x110000 := c.valid
  have other : ¬(c.toNat - firstSurrogate < 0x800 ∧ firstSurrogate ≤ c.toNat) := by
    unfold firstSurrogate
    omega
  rw [ofNat, dif_neg other, Char.ofNat_toNat]

namespace Utf8

variable {strict : Bool}

theorem toNat_byte {n : Nat} (small : n < 256) : (UInt8.ofNat n).toNat = n := by
  simp [Nat.mod_eq_of_lt small]

theorem toNat_tailByte (n : Nat) : (tailByte n).toNat = 0x80 + n % 64 :=
  toNat_byte (by omega)

theorem joined_tailByte (p : Pending) (n : Nat) :
    p.joined (tailByte n) = p.value * 64 + n % 64 := by
  have byte := toNat_tailByte n
  unfold Pending.joined
  omega

/-- The last byte of a character. -/
theorem decodeFrom_last (p : Pending) (n position : Nat) (rest : Bytes) (last : p.need = 1)
    (low : p.low.toNat ≤ 0x80 + n % 64) (high : 0x80 + n % 64 ≤ p.high.toNat) :
    decodeFrom strict position (some p) (tailByte n :: rest) =
      (decodeFrom strict (position + 1) none rest).map (.ofNat (p.value * 64 + n % 64) :: ·) := by
  rw [← toNat_tailByte, ← UInt8.le_iff_toNat_le] at low high
  rw [decodeFrom, if_pos ⟨low, high⟩, if_pos last, joined_tailByte]

/-- A byte of a character between its first and its last. -/
theorem decodeFrom_more (p : Pending) (n position : Nat) (rest : Bytes) (more : p.need ≠ 1)
    (low : p.low.toNat ≤ 0x80 + n % 64) (high : 0x80 + n % 64 ≤ p.high.toNat) :
    decodeFrom strict position (some p) (tailByte n :: rest) =
      decodeFrom strict (position + 1)
        (some ⟨p.byte, p.start, p.need - 1, 0x80, 0xBF, p.value * 64 + n % 64⟩) rest := by
  rw [← toNat_tailByte, ← UInt8.le_iff_toNat_le] at low high
  rw [decodeFrom, if_pos ⟨low, high⟩, if_neg more, Pending.push, joined_tailByte]

/-- The first byte of a character with more than one. -/
theorem decodeFrom_lead (b : UInt8) (p : Pending) (position : Nat) (rest : Bytes)
    (more : 0x80 ≤ b.toNat) (leads : lead? strict b position = some p) :
    decodeFrom strict position none (b :: rest) =
      decodeFrom strict (position + 1) (some p) rest := by
  have notAscii : ¬b < 0x80 := by
    simp only [UInt8.lt_iff_toNat_lt, UInt8.reduceToNat]
    omega
  rw [decodeFrom, if_neg notAscii, leads]

theorem byte_between {n : Nat} (small : n < 256) (low high : UInt8) :
    low ≤ UInt8.ofNat n ∧ UInt8.ofNat n ≤ high ↔ low.toNat ≤ n ∧ n ≤ high.toNat := by
  rw [UInt8.le_iff_toNat_le, UInt8.le_iff_toNat_le, toNat_byte small]

theorem byte_eq_iff {n : Nat} (small : n < 256) (b : UInt8) : UInt8.ofNat n = b ↔ n = b.toNat := by
  rw [← UInt8.toNat_inj, toNat_byte small]

theorem lead?_two (n position : Nat) (least : 2 ≤ n) (most : n < 32) :
    lead? strict (UInt8.ofNat (0xC0 + n)) position =
      some ⟨UInt8.ofNat (0xC0 + n), position, 1, 0x80, 0xBF, n⟩ := by
  have small : 0xC0 + n < 256 := by omega
  simp only [lead?, byte_between small, toNat_byte small, UInt8.reduceToNat]
  rw [if_pos (by omega), Nat.add_sub_cancel_left]

/-- The second byte is bounded so that no form is overlong and, if need be, none is a surrogate. -/
theorem lead?_three (n position : Nat) (most : n < 16) :
    lead? strict (UInt8.ofNat (0xE0 + n)) position =
      some ⟨UInt8.ofNat (0xE0 + n), position, 2, if n = 0 then 0xA0 else 0x80,
        if n = 13 ∧ strict = true then 0x9F else 0xBF, n⟩ := by
  have small : 0xE0 + n < 256 := by omega
  have first : 0xE0 + n = 0xE0 ↔ n = 0 := by omega
  have surrogate : 0xE0 + n = 0xED ↔ n = 13 := by omega
  simp only [lead?, byte_between small, byte_eq_iff small, toNat_byte small, UInt8.reduceToNat,
    first, surrogate]
  rw [if_neg (by omega), if_pos (by omega), Nat.add_sub_cancel_left]

/-- The second byte is bounded so that no form is overlong and none is beyond the last character. -/
theorem lead?_four (n position : Nat) (most : n < 5) :
    lead? strict (UInt8.ofNat (0xF0 + n)) position =
      some ⟨UInt8.ofNat (0xF0 + n), position, 3, if n = 0 then 0x90 else 0x80,
        if n = 4 then 0x8F else 0xBF, n⟩ := by
  have small : 0xF0 + n < 256 := by omega
  have first : 0xF0 + n = 0xF0 ↔ n = 0 := by omega
  have last : 0xF0 + n = 0xF4 ↔ n = 4 := by omega
  simp only [lead?, byte_between small, byte_eq_iff small, toNat_byte small, UInt8.reduceToNat,
    first, last]
  rw [if_neg (by omega), if_neg (by omega), if_pos (by omega), Nat.add_sub_cancel_left]

theorem decodeFrom_one {n : Nat} (most : n < 0x80) (position : Nat) (rest : Bytes) :
    decodeFrom strict position none (UInt8.ofNat n :: rest) =
      (decodeFrom strict (position + 1) none rest).map (.ofNat n :: ·) := by
  have byte := toNat_byte (n := n) (by omega)
  have ascii : UInt8.ofNat n < 0x80 := by
    simp only [UInt8.lt_iff_toNat_lt, byte, UInt8.reduceToNat]
    omega
  rw [decodeFrom, if_pos ascii, byte]

theorem decodeFrom_two {n : Nat} (least : 0x80 ≤ n) (most : n < 0x800) (position : Nat)
    (rest : Bytes) :
    decodeFrom strict position none (UInt8.ofNat (0xC0 + n / 64) :: tailByte n :: rest) =
      (decodeFrom strict (position + 2) none rest).map (.ofNat n :: ·) := by
  have value : n / 64 * 64 + n % 64 = n := by omega
  rw [decodeFrom_lead _ _ _ _ (by rw [toNat_byte] <;> omega)
      (lead?_two (n / 64) position (by omega) (by omega)),
    decodeFrom_last _ _ _ _ rfl (by simp) (by simp; omega), value]

theorem decodeFrom_three {n : Nat} (least : 0x800 ≤ n) (most : n < 0x10000)
    (allowed : strict = true → n < 0xD800 ∨ 0xDFFF < n) (position : Nat) (rest : Bytes) :
    decodeFrom strict position none
        (UInt8.ofNat (0xE0 + n / 4096) :: tailByte (n / 64) :: tailByte n :: rest) =
      (decodeFrom strict (position + 3) none rest).map (.ofNat n :: ·) := by
  have low : (if n / 4096 = 0 then 0xA0 else 0x80 : UInt8).toNat ≤ 0x80 + n / 64 % 64 := by
    split <;> simp only [UInt8.reduceToNat] <;> omega
  have high : 0x80 + n / 64 % 64 ≤
      (if n / 4096 = 13 ∧ strict = true then 0x9F else 0xBF : UInt8).toNat := by
    split
    · rename_i surrogate
      have scalar := allowed surrogate.2
      simp only [UInt8.reduceToNat]
      omega
    · simp only [UInt8.reduceToNat]
      omega
  have value : (n / 4096 * 64 + n / 64 % 64) * 64 + n % 64 = n := by omega
  rw [decodeFrom_lead _ _ _ _ (by rw [toNat_byte] <;> omega)
      (lead?_three (n / 4096) position (by omega)),
    decodeFrom_more _ _ _ _ (by simp) low high,
    decodeFrom_last _ _ _ _ rfl (by simp) (by simp; omega), value]

theorem decodeFrom_four {n : Nat} (least : 0x10000 ≤ n) (most : n < 0x110000) (position : Nat)
    (rest : Bytes) :
    decodeFrom strict position none (UInt8.ofNat (0xF0 + n / 262144) :: tailByte (n / 4096) ::
        tailByte (n / 64) :: tailByte n :: rest) =
      (decodeFrom strict (position + 4) none rest).map (.ofNat n :: ·) := by
  have low : (if n / 262144 = 0 then 0x90 else 0x80 : UInt8).toNat ≤ 0x80 + n / 4096 % 64 := by
    split <;> simp only [UInt8.reduceToNat] <;> omega
  have high : 0x80 + n / 4096 % 64 ≤ (if n / 262144 = 4 then 0x8F else 0xBF : UInt8).toNat := by
    split <;> simp only [UInt8.reduceToNat] <;> omega
  have value : ((n / 262144 * 64 + n / 4096 % 64) * 64 + n / 64 % 64) * 64 + n % 64 = n := by
    omega
  rw [decodeFrom_lead _ _ _ _ (by rw [toNat_byte] <;> omega)
      (lead?_four (n / 262144) position (by omega)),
    decodeFrom_more _ _ _ _ (by simp) low high,
    decodeFrom_more _ _ _ _ (by simp) (by simp) (by simp; omega),
    decodeFrom_last _ _ _ _ rfl (by simp) (by simp; omega), value]

/-- Decoding starts with the character whose bytes come first. -/
theorem decodeFrom_encodeChar (c : Char) (position : Nat) (rest : Bytes) :
    ∃ next, decodeFrom strict position none (encodeChar c ++ rest) =
      (decodeFrom strict next none rest).map (.scalar c :: ·) := by
  have valid : c.toNat < 0xD800 ∨ 0xDFFF < c.toNat ∧ c.toNat < 0x110000 := c.valid
  rw [← CodePoint.ofNat_char c]
  rw [encodeChar, encodeNat]
  generalize c.toNat = n at valid
  split
  · exact ⟨position + 1, decodeFrom_one ‹_› position rest⟩
  split
  · exact ⟨position + 2, decodeFrom_two (by omega) ‹_› position rest⟩
  split
  · exact ⟨position + 3, decodeFrom_three (by omega) ‹_› (fun _ => by omega) position rest⟩
  · exact ⟨position + 4, decodeFrom_four (by omega) (by omega) position rest⟩

theorem decodeFrom_chars (write : CodePoint → Bytes)
    (chars : ∀ c, write (.scalar c) = encodeChar c) (t : Text)
    (plain : t.any CodePoint.isSurrogate = false) (position : Nat) :
    decodeFrom strict position none (t.flatMap write) = .ok t := by
  induction t generalizing position with
  | nil => rfl
  | cons c t ih =>
    rw [List.any_cons, Bool.or_eq_false_iff] at plain
    cases c with
    | surrogate n => cases plain.1
    | scalar c =>
      obtain ⟨next, first⟩ := decodeFrom_encodeChar c position (t.flatMap write)
      rw [List.flatMap_cons, chars, first, ih plain.2]
      rfl

theorem surrogates?_eq_none_iff (starts : CodePoint → Bool) (t : Text) :
    surrogates? starts t = none ↔ t.any starts = false := by
  have all : t.drop (t.takeWhile (!starts ·)).length = [] ↔ t.any starts = false := by
    rw [List.drop_eq_nil_iff, List.any_eq_false]
    constructor
    · intro long
      have same := (List.takeWhile_prefix (!starts ·)).eq_of_length_le long
      simpa using List.takeWhile_eq_self_iff.mp same
    · intro none
      rw [List.takeWhile_eq_self_iff.mpr (by simpa using none)]
  rw [← all]
  unfold surrogates?
  dsimp only
  split <;> simp_all

/-- A text can be encoded exactly if there is no surrogate in it. -/
theorem exists_encode_iff (t : Text) :
    (∃ bytes, encode t = .ok bytes) ↔ t.any CodePoint.isSurrogate = false := by
  rw [← surrogates?_eq_none_iff]
  unfold encode
  cases surrogates? CodePoint.isSurrogate t <;> simp

/-- What has been encoded is decoded again. -/
theorem decode_encode {t : Text} {bytes : Bytes} (encoded : encode t = .ok bytes) :
    decode bytes = .ok t := by
  have plain := (exists_encode_iff t).mp ⟨bytes, encoded⟩
  unfold encode at encoded
  rw [(surrogates?_eq_none_iff _ t).mpr plain] at encoded
  cases encoded
  exact decodeFrom_chars _ (fun _ => rfl) t plain 0

end Utf8

namespace Text

/-- Only a carriage return looks at what follows it. -/
theorem lines_cons (c : CodePoint) (t : Text) (other : c ≠ '\r') :
    lines (c :: t) =
      if isBreak c then [] :: lines t
      else match lines t with
        | [] => [[c]]
        | line :: rest => (c :: line) :: rest :=
  lines.eq_3 c t fun _ same _ => other same

/-- A carriage return breaks a line as a line feed does, so the lines of a text stay the same. -/
theorem lines_unifyBreaks (t : Text) : lines (unifyBreaks t) = lines t := by
  fun_induction unifyBreaks t with
  | case1 => rfl
  | case2 t ih =>
    rw [lines_cons _ _ (by decide), ih]
    rfl
  | case3 c t alone ih =>
    by_cases carriage : c = '\r'
    · subst carriage
      rw [if_pos rfl, lines_cons _ _ (by decide), ih, lines.eq_3 _ t alone]
      rfl
    · rw [if_neg carriage, lines_cons c _ carriage, lines_cons c _ carriage, ih]

end Text

theorem Export.read_unifyBreaks (t : Text) : read (Text.unifyBreaks t) = read t := by
  rw [read, Text.lines_unifyBreaks, read]

/-- A file that holds the encoding of a text gives the text, with its line ends as line feeds. -/
theorem Encoding.readText_encode {t : Text} {bytes : Utf8.Bytes}
    (encoded : Utf8.encode t = .ok bytes) : readText bytes = (.utf8, Text.unifyBreaks t) := by
  rw [readText, decode, Utf8.decode_encode encoded]

end LabelAtlas
