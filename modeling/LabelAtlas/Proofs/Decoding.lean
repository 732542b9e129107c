import LabelAtlas.Proofs.Encodable

/-! Files of unknown encoding. UTF-8 is read if the bytes are UTF-8 and only then, so a file is in
one of three encodings, and every file can be read. -/
namespace LabelAtlas

theorem CodePoint.exists_char {n : Nat} (valid : n.isValidChar) : ∃ c : Char, c.toNat = n :=
  ⟨Char.ofNatAux n valid, rfl⟩

/-! ## UTF-8 -/

namespace Utf8

theorem encodeChar_eq_utf8EncodeChar (c : Char) : encodeChar c = String.utf8EncodeChar c := by
  have valid : c.toNat < 0xD800 ∨ 0xDFFF < c.toNat ∧ c.toNat < 0x110000 := c.valid
  have tail (n : Nat) : tailByte n = UInt8.ofNat (n % 64 + 0x80) := by rw [tailByte, Nat.add_comm]
  rw [encodeChar]
  unfold encodeNat String.utf8EncodeChar
  simp only [tail]
  have value : c.val.toNat = c.toNat := rfl
  simp only [value]
  generalize c.toNat = n at valid
  split
  · rw [if_pos (by omega)]
  split
  · rw [if_neg (by omega), if_pos (by omega),
      Nat.mod_eq_of_lt (by omega : n / 64 < 32), Nat.add_comm]
  split
  · rw [if_neg (by omega), if_neg (by omega), if_pos (by omega),
      Nat.mod_eq_of_lt (by omega : n / 4096 < 16), Nat.add_comm]
  · rw [if_neg (by omega), if_neg (by omega), if_neg (by omega),
      Nat.mod_eq_of_lt (by omega : n / 262144 < 8), Nat.add_comm]

/-- The last bytes of a number. -/
def tails : Nat → Nat → Bytes
  | 0, _ => []
  | k + 1, n => tailByte (n / 64 ^ k) :: tails k n

/-- Whatever number a pending character will be, it is written with the bytes read so far first. -/
structure Pending.Follows (p : Pending) (read : Bytes) : Prop where
  more : 0 < p.need
  whole : ∀ b : UInt8, p.low ≤ b → b ≤ p.high → ∀ n, n / 64 ^ (p.need - 1) = p.joined b →
    n < 0x110000 ∧ encodeNat n = read ++ b :: tails (p.need - 1) n

theorem byte_eq {b : UInt8} {n : Nat} (same : n = b.toNat) : UInt8.ofNat n = b := by
  rw [same, UInt8.ofNat_toNat]

theorem tailByte_eq {b : UInt8} {n : Nat} (same : 0x80 + n % 64 = b.toNat) : tailByte n = b :=
  byte_eq same

theorem follows_two {b : UInt8} (position : Nat) (least : 0xC2 ≤ b.toNat) (most : b.toNat ≤ 0xDF) :
    Pending.Follows ⟨b, position, 1, 0x80, 0xBF, b.toNat - 0xC0⟩ [b] := by
  refine ⟨Nat.one_pos, ?_⟩
  intro c low high n value
  simp only [UInt8.le_iff_toNat_le, UInt8.reduceToNat] at low high
  have number : n / 1 = (b.toNat - 0xC0) * 64 + (c.toNat - 0x80) := value
  have first : UInt8.ofNat (0xC0 + n / 64) = b := byte_eq (by omega)
  have second : tailByte n = c := tailByte_eq (by omega)
  refine ⟨by omega, ?_⟩
  rw [encodeNat, if_neg (by omega), if_pos (by omega), first, second]
  rfl

/-- The bounds of the second byte leave the overlong forms out. -/
theorem follows_three {b : UInt8} (position : Nat) (least : 0xE0 ≤ b.toNat)
    (most : b.toNat ≤ 0xEF) :
    Pending.Follows ⟨b, position, 2, if b.toNat = 0xE0 then 0xA0 else 0x80,
      if b.toNat = 0xED then 0x9F else 0xBF, b.toNat - 0xE0⟩ [b] := by
  refine ⟨Nat.two_pos, ?_⟩
  intro c low high n value
  simp only [UInt8.le_iff_toNat_le, apply_ite UInt8.toNat, UInt8.reduceToNat] at low high
  have number : n / 64 = (b.toNat - 0xE0) * 64 + (c.toNat - 0x80) := value
  have bounds : 0x80 ≤ c.toNat ∧ c.toNat ≤ 0xBF ∧ (b.toNat = 0xE0 → 0xA0 ≤ c.toNat) := by
    split at low <;> split at high <;> omega
  have first : UInt8.ofNat (0xE0 + n / 4096) = b := byte_eq (by omega)
  have second : tailByte (n / 64) = c := tailByte_eq (by omega)
  refine ⟨by omega, ?_⟩
  rw [encodeNat, if_neg (by omega), if_neg (by omega), if_pos (by omega), first, second]
  show _ = [b, c, tailByte (n / 1)]
  rw [Nat.div_one]

/-- The bounds of the second byte leave out the overlong forms and what is beyond the last
character. -/
theorem follows_four {b : UInt8} (position : Nat) (least : 0xF0 ≤ b.toNat)
    (most : b.toNat ≤ 0xF4) :
    Pending.Follows ⟨b, position, 3, if b.toNat = 0xF0 then 0x90 else 0x80,
      if b.toNat = 0xF4 then 0x8F else 0xBF, b.toNat - 0xF0⟩ [b] := by
  refine ⟨Nat.zero_lt_succ 2, ?_⟩
  intro c low high n value
  simp only [UInt8.le_iff_toNat_le, apply_ite UInt8.toNat, UInt8.reduceToNat] at low high
  have number : n / 4096 = (b.toNat - 0xF0) * 64 + (c.toNat - 0x80) := value
  have bounds : 0x80 ≤ c.toNat ∧ c.toNat ≤ 0xBF ∧ (b.toNat = 0xF0 → 0x90 ≤ c.toNat) ∧
      (b.toNat = 0xF4 → c.toNat ≤ 0x8F) := by
    split at low <;> split at high <;> omega
  have first : UInt8.ofNat (0xF0 + n / 262144) = b := byte_eq (by omega)
  have second : tailByte (n / 4096) = c := tailByte_eq (by omega)
  refine ⟨by omega, ?_⟩
  rw [encodeNat, if_neg (by omega), if_neg (by omega), if_neg (by omega), first, second]
  show _ = [b, c, tailByte (n / 64), tailByte (n / 1)]
  rw [Nat.div_one]

theorem lead?_follows {b : UInt8} {position : Nat} {p : Pending}
    (led : lead? true b position = some p) : p.Follows [b] := by
  simp only [lead?, UInt8.le_iff_toNat_le, ← UInt8.toNat_inj, UInt8.reduceToNat, and_true] at led
  split at led
  next range =>
    obtain rfl := Option.some.inj led
    exact follows_two position range.1 range.2
  split at led
  next range =>
    obtain rfl := Option.some.inj led
    exact follows_three position range.1 range.2
  split at led
  next range =>
    obtain rfl := Option.some.inj led
    exact follows_four position range.1 range.2
  · cases led

theorem Pending.Follows.push {p : Pending} {read : Bytes} (follows : p.Follows read) {b : UInt8}
    (low : p.low ≤ b) (high : b ≤ p.high) (more : p.need ≠ 1) :
    (p.push b).Follows (read ++ [b]) := by
  have several := follows.more
  have need : p.need - 1 = (p.push b).need - 1 + 1 := by
    show p.need - 1 = p.need - 1 - 1 + 1
    omega
  constructor
  · show 0 < p.need - 1
    omega
  · intro c lowest highest n value
    have least : 0x80 ≤ c.toNat := UInt8.le_iff_toNat_le.mp lowest
    have most : c.toNat ≤ 0xBF := UInt8.le_iff_toNat_le.mp highest
    -- One byte less is still to come, so the number is six bits longer.
    have bits : n / 64 ^ ((p.push b).need - 1) = p.joined b * 64 + (c.toNat - 0x80) := value
    have shorter : n / 64 ^ (p.need - 1) = p.joined b := by
      rw [need, Nat.pow_succ, ← Nat.div_div_eq_div_mul, bits]
      omega
    obtain ⟨bound, written⟩ := follows.whole b low high n shorter
    have next : tailByte (n / 64 ^ ((p.push b).need - 1)) = c := by
      apply tailByte_eq
      omega
    refine ⟨bound, ?_⟩
    rw [written, need, tails, next]
    simp

/-- The last byte makes a pending character whole. -/
theorem Pending.Follows.joined {p : Pending} {read : Bytes} (follows : p.Follows read)
    (avoids : p.Scalar) {b : UInt8} (low : p.low ≤ b) (high : b ≤ p.high) (last : p.need = 1) :
    ∃ c : Char, .ofNat (p.joined b) = CodePoint.scalar c ∧ encodeChar c = read ++ [b] := by
  have single : p.joined b / 64 ^ (p.need - 1) = p.joined b := by
    rw [last, Nat.sub_self, Nat.pow_zero, Nat.div_one]
  obtain ⟨bound, written⟩ := follows.whole b low high _ single
  have scalar := avoids.scalar b.toNat (UInt8.le_iff_toNat_le.mp low)
    (UInt8.le_iff_toNat_le.mp high) _ single
  obtain ⟨c, number⟩ := CodePoint.exists_char (by omega : Nat.isValidChar (p.joined b))
  refine ⟨c, by rw [← number, CodePoint.ofNat_char], ?_⟩
  rw [encodeChar, number, written, last]
  rfl

/-- What is read before a position of the bytes and belongs to the next character. -/
def Behind : Option Pending → Bytes → Prop
  | none, read => read = []
  | some p, read => p.Scalar ∧ p.Follows read

theorem exists_chars_of_decodeFrom {position : Nat} {pending : Option Pending} {read bytes : Bytes}
    {t : Text} (behind : Behind pending read)
    (decoded : decodeFrom true position pending bytes = .ok t) :
    ∃ cs : List Char, t = cs.map .scalar ∧ read ++ bytes = cs.flatMap encodeChar := by
  fun_induction decodeFrom true position pending bytes generalizing t read with
  | case1 =>
    cases decoded
    cases behind
    exact ⟨[], rfl, rfl⟩
  | case3 position b rest ascii ih =>
    obtain ⟨more, further, rfl⟩ := map_ok decoded
    obtain ⟨cs, rfl, written⟩ := ih rfl further
    cases behind
    have small : b.toNat < 0x80 := UInt8.lt_iff_toNat_lt.mp ascii
    obtain ⟨c, number⟩ := CodePoint.exists_char (by omega : Nat.isValidChar b.toNat)
    have first : encodeChar c = [b] := by
      rw [encodeChar, number, encodeNat, if_pos small, UInt8.ofNat_toNat]
    refine ⟨c :: cs, by rw [← number, CodePoint.ofNat_char]; rfl, ?_⟩
    rw [List.flatMap_cons, first, ← written]
    rfl
  | case5 position b rest _ p led ih =>
    cases behind
    exact ih ⟨lead?_scalar led, lead?_follows led⟩ decoded
  | case6 position p b rest allowed last ih =>
    obtain ⟨more, further, rfl⟩ := map_ok decoded
    obtain ⟨c, first, bytes⟩ := behind.2.joined behind.1 allowed.1 allowed.2 last
    obtain ⟨cs, rfl, written⟩ := ih rfl further
    refine ⟨c :: cs, by rw [first]; rfl, ?_⟩
    rw [List.flatMap_cons, bytes, ← written]
    simp
  | case7 position p b rest allowed more ih =>
    obtain ⟨cs, same, written⟩ := ih ⟨behind.1.push allowed.1 allowed.2 more,
      behind.2.push allowed.1 allowed.2 more⟩ decoded
    exact ⟨cs, same, by rw [← written]; simp⟩
  | case2 | case4 | case8 => cases decoded

theorem toUTF8_ofList (cs : List Char) :
    (String.ofList cs).toUTF8 = (cs.flatMap encodeChar).toByteArray := by
  rw [String.toUTF8_eq_toByteArray, String.toByteArray_ofList,
    funext encodeChar_eq_utf8EncodeChar]
  rfl

/-- Bytes are decoded if they are the UTF-8 of a string, and only then. -/
theorem decode_eq_ok_iff (bytes : Bytes) (t : Text) :
    decode bytes = .ok t ↔ ∃ s : String, bytes.toByteArray = s.toUTF8 ∧ t = s := by
  constructor
  · intro decoded
    have start : Behind none [] := rfl
    obtain ⟨cs, rfl, written⟩ := exists_chars_of_decodeFrom start decoded
    refine ⟨String.ofList cs, ?_, by rw [String.toList_ofList]⟩
    rw [toUTF8_ofList, ← written, List.nil_append]
  · rintro ⟨s, encoded, rfl⟩
    rw [← String.ofList_toList (s := s), toUTF8_ofList] at encoded
    have written : bytes = s.toList.flatMap encodeChar := by
      rw [← List.toList_data_toByteArray (l := bytes), encoded, List.toList_data_toByteArray]
    have plain : (s.toList.map CodePoint.scalar).any CodePoint.isSurrogate = false := by simp
    have decoded : decodeFrom true 0 none _ = _ :=
      decodeFrom_chars (fun p => encodeChar (Char.ofNat p.toNat))
        (fun c => congrArg encodeChar (Char.ofNat_toNat c)) _ plain 0
    simp only [List.flatMap_map, CodePoint.toNat, Char.ofNat_toNat, ← written] at decoded
    exact decoded

theorem isValidUTF8_iff (bytes : Bytes) :
    bytes.toByteArray.IsValidUTF8 ↔ ∃ t, decode bytes = .ok t := by
  constructor
  · intro valid
    exact ⟨_, (decode_eq_ok_iff bytes _).mpr ⟨.ofByteArray _ valid, rfl, rfl⟩⟩
  · rintro ⟨t, decoded⟩
    obtain ⟨s, encoded, -⟩ := (decode_eq_ok_iff bytes t).mp decoded
    exact encoded ▸ s.isValidUTF8

end Utf8

/-! ## Line ends -/

namespace Text

/-- Each carriage return, and a line feed directly behind it, as one line feed. -/
def replaceReturns (t : Text) : Text :=
  let parts := splitAt '\r' t
  parts.headD [] ++ parts.tail.flatMap fun part =>
    .scalar '\n' :: if part.head? = some (.scalar '\n') then part.tail else part

theorem splitAt_cons_other {mark c : CodePoint} (other : c ≠ mark) {t part : Text}
    {parts : List Text} (split : splitAt mark t = part :: parts) :
    splitAt mark (c :: t) = (c :: part) :: parts := by
  rw [splitAt, if_neg other, split]

theorem unifyBreaks_eq (t : Text) : unifyBreaks t = replaceReturns t := by
  fun_induction unifyBreaks t with
  | case1 => rfl
  | case2 t ih =>
    obtain ⟨part, parts, split⟩ := List.exists_cons_of_ne_nil (splitAt_ne_nil '\r' t)
    have behind := splitAt_cons_other (by decide : CodePoint.scalar '\n' ≠ .scalar '\r') split
    rw [ih, replaceReturns, replaceReturns, splitAt, if_pos rfl, behind, split]
    rfl
  | case3 c t alone ih =>
    obtain ⟨part, parts, split⟩ := List.exists_cons_of_ne_nil (splitAt_ne_nil '\r' t)
    rw [ih, replaceReturns, replaceReturns]
    by_cases carriage : c = '\r'
    · subst carriage
      -- The return stands alone, so the part behind it does not start with a line feed.
      have whole := join_splitAt '\r' t
      rw [split, join, intercalate_eq_flatMap] at whole
      have unfed : part.head? ≠ some (.scalar '\n') := by
        intro feed
        obtain ⟨rest, rfl⟩ := List.head?_eq_some_iff.mp feed
        exact alone _ rfl whole.symm
      rw [if_pos rfl, splitAt, if_pos rfl, split]
      simp [unfed]
    · rw [if_neg carriage, splitAt_cons_other carriage split, split]
      rfl

theorem no_return_in_replaceReturns (t : Text) : .scalar '\r' ∉ replaceReturns t := by
  obtain ⟨part, parts, split⟩ := List.exists_cons_of_ne_nil (splitAt_ne_nil '\r' t)
  have unmarked := unmarked_of_mem_splitAt '\r' t
  rw [replaceReturns, split]
  rw [split, List.forall_mem_cons] at unmarked
  intro member
  rcases List.mem_append.mp member with first | later
  · exact unmarked.1 first
  · obtain ⟨other, inside, here⟩ := List.mem_flatMap.mp later
    have free : .scalar '\r' ∉ other := unmarked.2 other inside
    rcases List.mem_cons.mp here with feed | behind
    · exact absurd feed (by decide)
    · split at behind
      · exact free (List.mem_of_mem_tail behind)
      · exact free behind

theorem replaceReturns_of_no_return {t : Text} (free : .scalar '\r' ∉ t) :
    replaceReturns t = t := by
  rw [replaceReturns, splitAt_unmarked _ t free]
  exact List.append_nil t

end Text

/-! ## Code pages -/

namespace Encoding

open Utf8 (Bytes)

/-- The bytes that Windows-1252 leaves undefined. -/
def undefinedBytes : Bytes := [0x81, 0x8D, 0x8F, 0x90, 0x9D]

theorem windowsChar?_eq_none_iff (b : UInt8) : windowsChar? b = none ↔ b ∈ undefinedBytes := by
  have each : ∀ n : Fin 256, windowsChar? (UInt8.ofNat n) = none ↔
      UInt8.ofNat n ∈ undefinedBytes := by decide +kernel
  have this := each ⟨b.toNat, b.toNat_lt⟩
  rwa [UInt8.ofNat_toNat] at this

/-- A carriage return is that of ASCII in both code pages. -/
theorem return_in_codePages (b : UInt8) : (latin1Char b = .scalar '\r' ↔ b = 0x0D) ∧
    (windowsChar? b = some (.scalar '\r') ↔ b = 0x0D) := by
  have each : ∀ n : Fin 256, (latin1Char (UInt8.ofNat n) = .scalar '\r' ↔ UInt8.ofNat n = 0x0D) ∧
      (windowsChar? (UInt8.ofNat n) = some (.scalar '\r') ↔ UInt8.ofNat n = 0x0D) := by
    decide +kernel
  have this := each ⟨b.toNat, b.toNat_lt⟩
  rwa [UInt8.ofNat_toNat] at this

theorem mapM_windowsChar?_eq_some {bytes : Bytes} {t : Text}
    (read : bytes.mapM windowsChar? = some t) : bytes.map windowsChar? = t.map some := by
  induction bytes generalizing t with
  | nil =>
    cases read
    rfl
  | cons b bytes ih =>
    rw [List.mapM_cons] at read
    obtain ⟨c, first, later⟩ := Option.bind_eq_some_iff.mp read
    obtain ⟨more, further, same⟩ := Option.bind_eq_some_iff.mp later
    cases same
    rw [List.map_cons, List.map_cons, first, ih further]

theorem mapM_windowsChar?_eq_none {bytes : Bytes} (failed : bytes.mapM windowsChar? = none) :
    ∃ b ∈ bytes, windowsChar? b = none := by
  induction bytes with
  | nil => cases failed
  | cons b bytes ih =>
    rw [List.mapM_cons] at failed
    cases first : windowsChar? b with
    | none => exact ⟨b, List.mem_cons_self, first⟩
    | some c =>
      cases later : bytes.mapM windowsChar? with
      | none =>
        obtain ⟨d, inside, undefined⟩ := ih later
        exact ⟨d, List.mem_cons_of_mem b inside, undefined⟩
      | some t =>
        rw [first, later] at failed
        cases failed

/-- The encoding that the bytes of a file are in, and their characters. -/
inductive Decodes (bytes : Bytes) : Charset → Text → Prop where
  | utf8 (s : String) (encoded : bytes.toByteArray = s.toUTF8) : Decodes bytes .utf8 s
  | windows1252 (t : Text) (invalid : ¬bytes.toByteArray.IsValidUTF8)
      (each : ∀ b ∈ bytes, b ∉ undefinedBytes) (read : bytes.map windowsChar? = t.map some) :
      Decodes bytes .windows1252 t
  | latin1 (invalid : ¬bytes.toByteArray.IsValidUTF8)
      (undefined : ∃ b ∈ bytes, b ∈ undefinedBytes) : Decodes bytes .latin1 (bytes.map latin1Char)

theorem decodes_decode (bytes : Bytes) : Decodes bytes (decode bytes).1 (decode bytes).2 := by
  unfold decode
  split
  next t decoded =>
    obtain ⟨s, encoded, rfl⟩ := (Utf8.decode_eq_ok_iff bytes t).mp decoded
    exact .utf8 s encoded
  next e failed =>
    have invalid : ¬bytes.toByteArray.IsValidUTF8 := by
      rw [Utf8.isValidUTF8_iff, failed]
      rintro ⟨t, ⟨⟩⟩
    split
    next t read =>
      have chars := mapM_windowsChar?_eq_some read
      refine .windows1252 t invalid (fun b inside undefined => ?_) chars
      have nothing := (windowsChar?_eq_none_iff b).mpr undefined
      have shown : windowsChar? b ∈ t.map some := chars ▸ List.mem_map_of_mem inside
      rw [nothing] at shown
      simp at shown
    next failed =>
      obtain ⟨b, inside, undefined⟩ := mapM_windowsChar?_eq_none failed
      exact .latin1 invalid ⟨b, inside, (windowsChar?_eq_none_iff b).mp undefined⟩

theorem Decodes.eq_of_utf8 {bytes : Bytes} {charset : Charset} {t : Text}
    (decodes : Decodes bytes charset t) {s : String} (encoded : bytes.toByteArray = s.toUTF8) :
    t = s := by
  have valid : bytes.toByteArray.IsValidUTF8 := encoded ▸ s.isValidUTF8
  cases decodes with
  | utf8 other same =>
    have bytes_eq : other.toByteArray = s.toByteArray := same.symm.trans encoded
    rw [String.toByteArray_inj.mp bytes_eq]
  | windows1252 t invalid => exact absurd valid invalid
  | latin1 invalid => exact absurd valid invalid

theorem Decodes.length_eq {bytes : Bytes} {charset : Charset} {t : Text}
    (decodes : Decodes bytes charset t) (invalid : ¬bytes.toByteArray.IsValidUTF8) :
    t.length = bytes.length := by
  cases decodes with
  | utf8 s encoded => exact absurd (encoded ▸ s.isValidUTF8) invalid
  | windows1252 t _ _ read => simpa using (congrArg List.length read).symm
  | latin1 => exact List.length_map _

theorem Decodes.no_return {bytes : Bytes} {charset : Charset} {t : Text}
    (decodes : Decodes bytes charset t) (invalid : ¬bytes.toByteArray.IsValidUTF8)
    (free : 0x0D ∉ bytes) : .scalar '\r' ∉ t := by
  intro member
  cases decodes with
  | utf8 s encoded => exact absurd (encoded ▸ s.isValidUTF8) invalid
  | windows1252 t _ _ read =>
    have shown : some (.scalar '\r') ∈ bytes.map windowsChar? := read ▸ List.mem_map_of_mem member
    obtain ⟨b, inside, same⟩ := List.mem_map.mp shown
    exact free ((return_in_codePages b).2.mp same ▸ inside)
  | latin1 =>
    obtain ⟨b, inside, same⟩ := List.mem_map.mp member
    exact free ((return_in_codePages b).1.mp same ▸ inside)

end Encoding

namespace Generate

theorem readText_of_read {w : Workspace} {path : Path} {bytes : Utf8.Bytes}
    (there : w.store.read path = .ok bytes) :
    let charset := (Encoding.decode bytes).1
    readText path w = (.ok (Text.unifyBreaks (Encoding.decode bytes).2),
      { w with events := w.events ++
        if charset = .utf8 then [] else [.fallbackEncoding charset.name path] }) := by
  intro charset
  unfold readText
  rw [Job.get_then, there, Except.mapError, Job.lift_ok]
  show (if charset ≠ .utf8 then _ else _ : Job Text) w = _
  by_cases plain : charset = .utf8
  · rw [if_neg (not_not.mpr plain), if_pos plain, List.append_nil]
    rfl
  · rw [if_pos plain, if_neg plain]
    rfl

/-- Every file that can be read gives a text. The text is that of the UTF-8 if the bytes are UTF-8;
else it is read in a code page, which is reported. -/
theorem readText_by_bytes (w : Workspace) (path : Path) (bytes : Utf8.Bytes)
    (there : w.store.read path = .ok bytes) :
    ∃ charset t warnings, Encoding.Decodes bytes charset t ∧
      readText path w =
        (.ok (Text.replaceReturns t), { w with events := w.events ++ warnings }) ∧
      (charset = .utf8 → warnings = []) ∧
      (charset = .windows1252 → warnings = [.fallbackEncoding "cp1252" path]) ∧
      (charset = .latin1 → warnings = [.fallbackEncoding "latin-1" path]) ∧
      .scalar '\r' ∉ Text.replaceReturns t ∧
      (∀ s : String, '\r' ∉ s.toList → bytes.toByteArray = s.toUTF8 →
        Text.replaceReturns t = s) ∧
      (¬bytes.toByteArray.IsValidUTF8 → 0x0D ∉ bytes →
        (Text.replaceReturns t).length = bytes.length) := by
  have decodes := Encoding.decodes_decode bytes
  have read := readText_of_read there
  dsimp only at read
  generalize (Encoding.decode bytes).1 = charset at decodes read
  generalize (Encoding.decode bytes).2 = t at decodes read
  rw [Text.unifyBreaks_eq] at read
  refine ⟨charset, t, _, decodes, read, ?_, ?_, ?_, Text.no_return_in_replaceReturns t, ?_, ?_⟩
  · rintro rfl
    rfl
  · rintro rfl
    rfl
  · rintro rfl
    rfl
  · intro s free encoded
    rw [decodes.eq_of_utf8 encoded]
    apply Text.replaceReturns_of_no_return
    simpa using free
  · intro invalid free
    rw [Text.replaceReturns_of_no_return (decodes.no_return invalid free),
      decodes.length_eq invalid]

/-- Bytes above ASCII that are defined in Windows-1252 and are no UTF-8. -/
theorem readText_by_bytes_quote :
    let bytes : Utf8.Bytes := [0xE9, 0x92, 0x0A]
    let path : Path := .ofText "a.lst"
    let w : Workspace := { store := ⟨[({ names := ["a.lst"] }, .file bytes)]⟩ }
    w.store.read path = .ok bytes ∧ ¬bytes.toByteArray.IsValidUTF8 ∧ 0x0D ∉ bytes ∧
    ∃ t : Text, (readText path w).1 = .ok t ∧ .scalar '\r' ∉ t ∧ t.length = 3 := by
  intro bytes path w
  have there : w.store.read path = .ok bytes := by decide +kernel
  have invalid : ¬bytes.toByteArray.IsValidUTF8 := by
    have failed : (Utf8.decode bytes).toOption = none := by decide
    rw [Utf8.isValidUTF8_iff]
    rintro ⟨t, decoded⟩
    rw [decoded] at failed
    cases failed
  have free : 0x0D ∉ bytes := by decide
  obtain ⟨charset, t, warnings, -, read, -, -, -, unreturned, -, long⟩ :=
    readText_by_bytes w path bytes there
  exact ⟨there, invalid, free, Text.replaceReturns t, by rw [read], unreturned, long invalid free⟩

end Generate

end LabelAtlas
