import LabelAtlas.Encoding.Utf8

/-! JSON in one of the encodings of Unicode. A byte order mark tells which one it is. A JSON text
starts with two ASCII characters, so without a mark its first bytes tell by their zeros how wide a
character is and which end of it comes first. -/
namespace LabelAtlas.Encoding

open Utf8 (Bytes)

inductive ByteOrder where
  | big
  | little
  deriving DecidableEq, Repr

inductive Form where
  | utf8
  | utf16 (order : ByteOrder)
  | utf32 (order : ByteOrder)
  deriving DecidableEq, Repr

/-- The encoding of a JSON text without a byte order mark. -/
def formByZeros : Bytes → Form
  | [0, _] => .utf16 .big
  | [_, 0] => .utf16 .little
  | a :: b :: c :: d :: _ =>
    if a = 0 then (if b = 0 then .utf32 .big else .utf16 .big)
    else if b = 0 then (if c = 0 ∧ d = 0 then .utf32 .little else .utf16 .little)
    else .utf8
  | _ => .utf8

/-- The encoding of a JSON text, and its bytes behind a byte order mark. The longest marks come
first, as one of them starts like a shorter one. -/
def detect : Bytes → Form × Bytes
  | 0x00 :: 0x00 :: 0xFE :: 0xFF :: rest => (.utf32 .big, rest)
  | 0xFF :: 0xFE :: 0x00 :: 0x00 :: rest => (.utf32 .little, rest)
  | 0xFE :: 0xFF :: rest => (.utf16 .big, rest)
  | 0xFF :: 0xFE :: rest => (.utf16 .little, rest)
  | 0xEF :: 0xBB :: 0xBF :: rest => (.utf8, rest)
  | bytes => (formByZeros bytes, bytes)

/-- A number from bytes of which the highest comes first. -/
def joinBytes (bytes : Bytes) : Nat :=
  bytes.foldl (fun n b => n * 256 + b.toNat) 0

def ByteOrder.join (order : ByteOrder) (bytes : Bytes) : Nat :=
  match order with
  | big => joinBytes bytes
  | little => joinBytes bytes.reverse

/-- The code units of two bytes each. -/
def units16? (order : ByteOrder) : Bytes → Option (List Nat)
  | [] => some []
  | a :: b :: rest => (units16? order rest).map (order.join [a, b] :: ·)
  | _ => none

/-- The code units of four bytes each. -/
def units32? (order : ByteOrder) : Bytes → Option (List Nat)
  | [] => some []
  | a :: b :: c :: d :: rest => (units32? order rest).map (order.join [a, b, c, d] :: ·)
  | _ => none

/-- A high unit and a low unit behind it are one code point. A surrogate alone stays what it
is. -/
def joinPairs : List Nat → Text
  | [] => []
  | [unit] => [.ofNat unit]
  | high :: low :: rest =>
    if CodePoint.isHighUnit high && CodePoint.isLowUnit low then .ofPair high low :: joinPairs rest
    else .ofNat high :: joinPairs (low :: rest)

def pointOf? (n : Nat) : Option CodePoint :=
  if n < 0x110000 then some (.ofNat n) else none

/-- The text of JSON bytes. In each of the encodings a surrogate may stand alone. -/
def decodeJson? (bytes : Bytes) : Option Text :=
  match detect bytes with
  | (.utf8, bytes) => (Utf8.decodePassing bytes).toOption
  | (.utf16 order, bytes) => (units16? order bytes).map joinPairs
  | (.utf32 order, bytes) => (units32? order bytes).bind (·.mapM pointOf?)

end LabelAtlas.Encoding
