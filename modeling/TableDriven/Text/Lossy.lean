/-!
# Lossy decoding of UTF-8

Bytes are read one at a time. Between characters nothing is owed; inside a
character the decoder knows how many bytes are still owed and the range the next
one must fall in. A byte outside that range cannot continue the character: what
was read of it becomes one replacement character, and the byte is then read from
between characters. So each longest run of bytes that begins a character without
completing it is replaced exactly once.

The decoder also remembers whether it ever had to replace anything, which tells
well-formed text from text that merely decoded.
-/

namespace TableDriven.Text

/-- The character that stands for bytes which form no character. -/
def replacement : Char := Char.ofNat 0xFFFD

/-- A character whose first bytes have been read. The next byte must lie between
`low` and `high`; `owed` counts it and the bytes after it. -/
structure Begun where
  bits : Nat
  owed : Nat
  low : UInt8
  high : UInt8
deriving DecidableEq, Repr

/-- What a first byte of several announces. Overlong forms, surrogates and
values past the last code point are ruled out by the range of the second byte. -/
def Begun.opening (byte : UInt8) : Option Begun :=
  if byte < 0xC2 then none
  else if byte ≤ 0xDF then some ⟨byte.toNat - 0xC0, 1, 0x80, 0xBF⟩
  else if byte = 0xE0 then some ⟨0, 2, 0xA0, 0xBF⟩
  else if byte = 0xED then some ⟨0xD, 2, 0x80, 0x9F⟩
  else if byte ≤ 0xEF then some ⟨byte.toNat - 0xE0, 2, 0x80, 0xBF⟩
  else if byte = 0xF0 then some ⟨0, 3, 0x90, 0xBF⟩
  else if byte ≤ 0xF3 then some ⟨byte.toNat - 0xF0, 3, 0x80, 0xBF⟩
  else if byte = 0xF4 then some ⟨4, 3, 0x80, 0x8F⟩
  else none

/-- A decoder between two bytes. Characters are kept latest first. -/
structure Decoder where
  pending : Option Begun
  reversed : List Char
  clean : Bool
deriving DecidableEq, Repr

namespace Decoder

/-- Nothing has been read. -/
def empty : Decoder := ⟨none, [], true⟩

/-- A character is complete. -/
def emit (decoder : Decoder) (character : Char) : Decoder :=
  { decoder with pending := none, reversed := character :: decoder.reversed }

/-- What was read of a character is given up. -/
def replace (decoder : Decoder) : Decoder :=
  { decoder with pending := none, reversed := replacement :: decoder.reversed, clean := false }

/-- Read a byte between characters. -/
def first (decoder : Decoder) (byte : UInt8) : Decoder :=
  if byte < 0x80 then decoder.emit (Char.ofNat byte.toNat)
  else
    match Begun.opening byte with
    | some begun => { decoder with pending := some begun }
    | none => decoder.replace

/-- Read a byte. -/
def feed (decoder : Decoder) (byte : UInt8) : Decoder :=
  match decoder.pending with
  | none => decoder.first byte
  | some begun =>
    if begun.low ≤ byte ∧ byte ≤ begun.high then
      let bits := begun.bits * 64 + (byte.toNat - 0x80)
      if begun.owed ≤ 1 then decoder.emit (Char.ofNat bits)
      else { decoder with pending := some ⟨bits, begun.owed - 1, 0x80, 0xBF⟩ }
    else decoder.replace.first byte

/-- No more bytes follow: a character that is still owed bytes is given up. -/
def finish (decoder : Decoder) : Decoder :=
  match decoder.pending with
  | none => decoder
  | some _ => decoder.replace

end Decoder

/-- The decoder after all of `bytes`. -/
def decoded (bytes : List UInt8) : Decoder :=
  (bytes.foldl Decoder.feed Decoder.empty).finish

/-- The text of `bytes`, with a replacement character for each maximal run that
begins a character without completing it. -/
def lossy (bytes : List UInt8) : String :=
  String.ofList (decoded bytes).reversed.reverse

/-- The text of `bytes` if they are well-formed throughout. -/
def strict? (bytes : List UInt8) : Option String :=
  let decoder := decoded bytes
  if decoder.clean then some (String.ofList decoder.reversed.reverse) else none

end TableDriven.Text
