/-!
# Hexadecimal text

Numbers are written with the fewest lower-case digits, bytes with exactly two.
-/

namespace TableDriven.Text

/-- The shortest hexadecimal form of a number. -/
def hexDigits (number : Nat) : List Char := Nat.toDigits 16 number

/-- The two digits of one byte, high half first. -/
def hexByte (byte : UInt8) : List Char :=
  [Nat.digitChar (byte.toNat / 16), Nat.digitChar (byte.toNat % 16)]

/-- The digits of all bytes in order. -/
def hex (bytes : List UInt8) : String := String.ofList (bytes.flatMap hexByte)

end TableDriven.Text
