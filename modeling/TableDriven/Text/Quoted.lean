import TableDriven.Text.Hex
import TableDriven.Text.Unprintable

/-!
# Quoted text

A quoted text stands between marks and shows on one line what it holds. The mark
and the backslash are escaped by a backslash, four common controls have a letter
of their own, and any other character that cannot be shown is written by its
code point. A single character is quoted by the same rule between apostrophes,
so each kind of mark is escaped only inside its own kind.
-/

namespace TableDriven.Text

/-- The mark around a single character. -/
def apostrophe : Char := Char.ofNat 39

/-- How one character is written between two of `mark`. -/
def escaped (mark : Char) (character : Char) : List Char :=
  if character = mark then ['\\', mark]
  else if character = '\\' then ['\\', '\\']
  else if character = '\n' then ['\\', 'n']
  else if character = '\r' then ['\\', 'r']
  else if character = '\t' then ['\\', 't']
  else if character.toNat = 0 then ['\\', '0']
  else if isUnprintable character then
    ['\\', 'u', '\x7b'] ++ hexDigits character.toNat ++ ['\x7d']
  else [character]

/-- A text between double quotes. -/
def quoted (text : String) : String :=
  String.ofList ('"' :: (text.toList.flatMap (escaped '"') ++ ['"']))

/-- A character between apostrophes. -/
def quotedChar (character : Char) : String :=
  String.ofList (apostrophe :: (escaped apostrophe character ++ [apostrophe]))

/-- Quoted texts in brackets, separated by commas. -/
def quotedList (texts : List String) : String :=
  "[" ++ ", ".intercalate (texts.map quoted) ++ "]"

end TableDriven.Text
