/-!
# Sources of bytes

A scanner walks ahead of a token, returns to where the token starts, and reads
the token again. So a source is a cursor over bytes that can be moved to any
offset and that knows the line it stands on. Requests that reach past the end
are refused; a source may refuse others as well, and may change by refusing.
-/

namespace TableDriven

/-- Why a source refused a request. -/
inductive SourceError where
  /-- The cursor was to be moved past the end. -/
  | seekPastEnd (offset size : Nat)
  /-- More bytes were requested than remain. -/
  | truncated (offset requested available : Nat)
deriving DecidableEq, Repr

/-- The text of a refusal. -/
def SourceError.message : SourceError → String
  | .seekPastEnd offset size => s!"seek to offset {offset} past end of source ({size} bytes)"
  | .truncated offset requested available =>
    s!"requested {requested} bytes at offset {offset}, only {available} available"

/-- A cursor over finitely many bytes. -/
class Source (σ : Type) where
  /-- The number of bytes. -/
  size : σ → Nat
  /-- The offset of the next byte. -/
  cursor : σ → Nat
  /-- The line of the cursor, counted from one. -/
  line : σ → Nat
  /-- Whether no byte is left. -/
  atEnd : σ → Bool
  /-- The next byte, which stays unread. -/
  peek : σ → Option UInt8
  /-- The next byte and the source after it. -/
  next? : σ → Option (UInt8 × σ)
  /-- Exactly so many bytes, or a refusal. -/
  take : σ → Nat → Except SourceError (List UInt8) × σ
  /-- Move the cursor to an offset; the offset of the end is allowed. -/
  seek : σ → Nat → Except SourceError Unit × σ

end TableDriven
