import TableDriven.Source.Basic

/-!
# Bytes in memory

The plain source holds all bytes and a position among them. The offsets of the
line ends are collected once, and they ascend, so the line of any position is a
binary search away and going backwards costs no more than going forwards. A
refused request changes nothing.
-/

namespace TableDriven

/-- The byte that ends a line. -/
def newline : UInt8 := 10

/-- The offsets of the line ends among bytes of which the first stands at `start`. -/
def lineEnds (start : Nat) (bytes : List UInt8) : List Nat :=
  ((bytes.zipIdx start).filter fun (byte, _) => byte = newline).map Prod.snd

/-- The index of the lines: the offsets of all line ends, in the order of the bytes. -/
def newlineOffsets (bytes : Array UInt8) : Array Nat := (lineEnds 0 bytes.toList).toArray

/-- Search `count` entries from `start` for the first that does not come first. The entry in the
middle tells which half to go on with, and no more than `steps` halves are looked at. -/
def partitionFrom (entries : Array Nat) (comesFirst : Nat → Bool) :
    (steps start count : Nat) → start + count ≤ entries.size → Nat
  | 0, start, _, _ => start
  | steps + 1, start, count, within =>
    if more : 0 < count then
      have inside : start + count / 2 < entries.size := by omega
      if comesFirst entries[start + count / 2] then
        partitionFrom entries comesFirst steps (start + count / 2 + 1) (count - count / 2 - 1)
          (by omega)
      else
        partitionFrom entries comesFirst steps start (count / 2) (by omega)
    else start

/-- The number of entries that come first, if none of them stands behind one that does not. Each
step leaves fewer entries to search, so there are no more steps than entries. -/
def partitionPoint (entries : Array Nat) (comesFirst : Nat → Bool) : Nat :=
  partitionFrom entries comesFirst entries.size 0 entries.size (by omega)

/-- Bytes and a position among them. -/
structure ByteSource where
  bytes : Array UInt8
  position : Nat
  /-- The offsets of the line ends. -/
  newlines : Array Nat
deriving DecidableEq, Repr

namespace ByteSource

/-- A source that stands before the first of `bytes`. -/
def ofBytes (bytes : Array UInt8) : ByteSource := ⟨bytes, 0, newlineOffsets bytes⟩

/-- The number of bytes. -/
def size (source : ByteSource) : Nat := source.bytes.size

/-- The line of the cursor: one more than the line ends before it. -/
def line (source : ByteSource) : Nat :=
  partitionPoint source.newlines (fun offset => offset < source.position) + 1

/-- Whether no byte is left. -/
def atEnd (source : ByteSource) : Bool := source.size ≤ source.position

/-- The next byte. -/
def peek (source : ByteSource) : Option UInt8 := source.bytes[source.position]?

/-- The next byte and the source after it. -/
def next? (source : ByteSource) : Option (UInt8 × ByteSource) :=
  source.peek.map fun byte => (byte, { source with position := source.position + 1 })

/-- The next `count` bytes, refused unless all of them remain. -/
def take (source : ByteSource) (count : Nat) :
    Except SourceError (List UInt8) × ByteSource :=
  let available := source.size - source.position
  if available < count then
    (.error (.truncated source.position count available), source)
  else
    let stop := source.position + count
    (.ok (source.bytes.extract source.position stop).toList, { source with position := stop })

/-- Move the cursor, refused past the end. -/
def seek (source : ByteSource) (offset : Nat) : Except SourceError Unit × ByteSource :=
  if source.size < offset then (.error (.seekPastEnd offset source.size), source)
  else (.ok (), { source with position := offset })

end ByteSource

/-- Bytes in memory can be scanned. -/
instance : Source ByteSource where
  size := ByteSource.size
  cursor := ByteSource.position
  line := ByteSource.line
  atEnd := ByteSource.atEnd
  peek := ByteSource.peek
  next? := ByteSource.next?
  take := ByteSource.take
  seek := ByteSource.seek

end TableDriven
