import TableDriven.Text.Combining
import TableDriven.Text.Unassigned

/-!
# Characters that are not shown as they are

Quoted text shows a character itself only if it is assigned, is visible and
stands on its own.
-/

namespace TableDriven.Text

/-- Assigned characters that nothing agreed is drawn for, ascending: controls,
formatting characters, private use, the fillers for missing letters, and the
separators apart from the plain blank. -/
def invisibleRanges : CodeRanges :=
  [(0x0, 0x1F), (0x7F, 0xA0), (0xAD, 0xAD), (0x600, 0x605), (0x61C, 0x61C), (0x6DD, 0x6DD),
   (0x70F, 0x70F), (0x890, 0x891), (0x8E2, 0x8E2), (0x115F, 0x1160), (0x1680, 0x1680),
   (0x180E, 0x180E), (0x2000, 0x200F), (0x2028, 0x202F), (0x205F, 0x2064), (0x2066, 0x206F),
   (0x3000, 0x3000), (0x3164, 0x3164), (0xE000, 0xF8FF), (0xFEFF, 0xFEFF), (0xFFA0, 0xFFA0),
   (0xFFF9, 0xFFFB), (0x110BD, 0x110BD), (0x110CD, 0x110CD), (0x13430, 0x1343F), (0x1BCA0, 0x1BCA3),
   (0x1D173, 0x1D17A), (0xE0001, 0xE0001), (0xE0020, 0xE007F), (0xF0000, 0xFFFFD),
   (0x100000, 0x10FFFD)]

/-- An assigned character that nothing agreed is drawn for. -/
def isInvisible (character : Char) : Bool :=
  invisibleRanges.covers character

/-- A character that quoted text writes by its code point. Printable seven-bit
characters are told apart without consulting the ranges. -/
def isUnprintable (character : Char) : Bool :=
  if 0x20 ≤ character.toNat ∧ character.toNat < 0x7F then false
  else isInvisible character || isCombining character || isUnassigned character

end TableDriven.Text
