/-
  UTF-8 octets and text.

  `decodeStep` reads one character or one maximal invalid part (the longest run of octets that
  starts a character but cannot be completed, at least one octet).  Strict decoding refuses every
  invalid part; lossy decoding writes U+FFFD once for each.
-/

namespace KotlinHarness

/-- Octets, in order. -/
abbrev Bytes := List UInt8

namespace Text

/-- A continuation octet, 80 to BF. -/
def isContinuation (b : UInt8) : Bool := 0x80 ≤ b && b ≤ 0xBF

/-- Whether `b` may follow the leading octet `first` of a sequence of two or more octets: the ranges
    are cut so that no overlong form, surrogate or code point beyond 10FFFF can be completed. -/
def maySecond (first b : UInt8) : Bool :=
  if first == 0xE0 then 0xA0 ≤ b && b ≤ 0xBF
  else if first == 0xED then 0x80 ≤ b && b ≤ 0x9F
  else if first == 0xF0 then 0x90 ≤ b && b ≤ 0xBF
  else if first == 0xF4 then 0x80 ≤ b && b ≤ 0x8F
  else isContinuation b

/-- The six payload bits of a continuation octet. -/
def payload (b : UInt8) : Nat := b.toNat % 64

/-- Reads from `first :: rest`: the character, or `none` for an invalid part, and the number of
    octets of `rest` that belong to it. -/
def decodeStep (first : UInt8) (rest : Bytes) : Option Char × Nat :=
  if first < 0x80 then (some (Char.ofNat first.toNat), 0)
  else if 0xC2 ≤ first && first ≤ 0xDF then
    match rest with
    | b :: _ =>
      if isContinuation b then (some (Char.ofNat (first.toNat % 32 * 64 + payload b)), 1)
      else (none, 0)
    | [] => (none, 0)
  else if 0xE0 ≤ first && first ≤ 0xEF then
    match rest with
    | b :: c :: _ =>
      if maySecond first b then
        if isContinuation c then
          (some (Char.ofNat ((first.toNat % 16 * 64 + payload b) * 64 + payload c)), 2)
        else (none, 1)
      else (none, 0)
    | [b] => if maySecond first b then (none, 1) else (none, 0)
    | [] => (none, 0)
  else if 0xF0 ≤ first && first ≤ 0xF4 then
    match rest with
    | b :: c :: d :: _ =>
      if maySecond first b then
        if isContinuation c then
          if isContinuation d then
            let high := (first.toNat % 8 * 64 + payload b) * 64 + payload c
            (some (Char.ofNat (high * 64 + payload d)), 3)
          else (none, 2)
        else (none, 1)
      else (none, 0)
    | [b, c] =>
      if maySecond first b then if isContinuation c then (none, 2) else (none, 1) else (none, 0)
    | [b] => if maySecond first b then (none, 1) else (none, 0)
    | [] => (none, 0)
  else (none, 0)

/-- Characters and invalid parts of an octet sequence, in order; `skip` octets still belong to the
    part read last. -/
def decodeFrom : Nat → Bytes → List (Option Char)
  | _, [] => []
  | skip + 1, _ :: rest => decodeFrom skip rest
  | 0, b :: rest =>
    let (part, used) := decodeStep b rest
    part :: decodeFrom used rest

/-- The text of `bytes` when all of it is UTF-8. -/
def decode? (bytes : Bytes) : Option String :=
  ((decodeFrom 0 bytes).mapM id).map String.ofList

/-- The text of `bytes` with U+FFFD for each invalid part. -/
def decodeLossy (bytes : Bytes) : String :=
  String.ofList ((decodeFrom 0 bytes).map (·.getD (Char.ofNat 0xFFFD)))

/-- The UTF-8 octets of `text`. -/
def encode (text : String) : Bytes := text.toList.flatMap String.utf8EncodeChar

end Text

end KotlinHarness
