import TableDriven.Grammar.Tables
import TableDriven.Text.Lossy
import TableDriven.Text.Quoted

/-!
# Character sets as text

The dump form of a character set shows its number and its members, ascending, as
the text that they spell.
-/

namespace TableDriven

/-- The dump form of a character set. -/
def CharSet.dump (set : CharSet) : String :=
  s!"CharSet \x7b id: CharSetID({set.id}), "
    ++ s!"members: {Text.quoted (Text.lossy set.bytes.members)} \x7d"

end TableDriven
