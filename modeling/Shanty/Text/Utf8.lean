/-
# Reading bytes as characters

Sources arrive as bytes. A byte sequence that is well formed UTF-8 is read as its
characters. Any byte that does not begin a well formed sequence is read on its
own as the replacement character, and reading goes on with the very next byte, so
that every malformed byte takes up exactly one column.
-/

namespace Shanty.Text.Utf8

/-- What a malformed byte is read as. -/
def replacement : Char := Char.ofNat 0xFFFD

/-- The six payload bits of a continuation byte. -/
def continuation? (byte : UInt8) : Option Nat :=
  if 0x80 ≤ byte.toNat ∧ byte.toNat < 0xC0 then some (byte.toNat - 0x80) else none

/-- The character of a scalar value that its sequence had to be long enough to
need. Values below `least` had a shorter encoding, and surrogates and values past
the last plane are no characters. -/
def scalar? (least value : Nat) : Option Char :=
  if h : value.isValidChar then
    if least ≤ value then some (Char.ofNatAux value h) else none
  else none

/-- The character at the head of some bytes, with the number of bytes that
follow its first one. Answers nothing when the first byte begins no well formed
sequence. -/
def first? (byte : UInt8) (more : List UInt8) : Option (Char × Nat) :=
  let lead := byte.toNat
  if lead < 0x80 then (scalar? 0 lead).map (·, 0)
  else if 0xC0 ≤ lead ∧ lead < 0xE0 then
    match more with
    | b :: _ => do
      let b ← continuation? b
      (scalar? 0x80 ((lead - 0xC0) * 64 + b)).map (·, 1)
    | _ => none
  else if 0xE0 ≤ lead ∧ lead < 0xF0 then
    match more with
    | b :: c :: _ => do
      let b ← continuation? b
      let c ← continuation? c
      (scalar? 0x800 (((lead - 0xE0) * 64 + b) * 64 + c)).map (·, 2)
    | _ => none
  else if 0xF0 ≤ lead ∧ lead < 0xF8 then
    match more with
    | b :: c :: d :: _ => do
      let b ← continuation? b
      let c ← continuation? c
      let d ← continuation? d
      (scalar? 0x10000 ((((lead - 0xF0) * 64 + b) * 64 + c) * 64 + d)).map (·, 3)
    | _ => none
  else none

/-- Reads bytes as characters, after passing over the first `skip` of them as
already read. -/
def decodeFrom (skip : Nat) : List UInt8 → List Char
  | [] => []
  | byte :: more =>
    match skip with
    | skip + 1 => decodeFrom skip more
    | 0 =>
      match first? byte more with
      | some (c, used) => c :: decodeFrom used more
      | none => replacement :: decodeFrom 0 more

/-- Reads bytes as characters. -/
def decode (bytes : List UInt8) : List Char := decodeFrom 0 bytes

/-- The bytes of characters. -/
def encode (chars : List Char) : List UInt8 := chars.flatMap String.utf8EncodeChar

end Shanty.Text.Utf8
