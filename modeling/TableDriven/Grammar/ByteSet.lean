/-!
# Sets of bytes

A set holds one bit for each of the 256 byte values, in four words of 64 bits. The
upper two bits of a byte name its word and the lower six its bit, so a membership
test costs the same however many bytes the set holds, and two sets with the same
members are equal. The view of a set is `contains`; `members` lists it in ascending
order.
-/

namespace TableDriven

/-- Bit `n % 64` of word `n / 64` is set exactly if byte `n` is a member. -/
structure ByteSet where
  words : Vector (BitVec 64) 4
deriving DecidableEq, Repr

namespace ByteSet

/-- Without its lower six bits a byte is divided by 64. -/
theorem toNat_shiftRight_six (byte : UInt8) : (byte >>> 6).toNat = byte.toNat / 64 := by
  simp [Nat.shiftRight_eq_div_pow]

/-- The word of a byte. -/
def slot (byte : UInt8) : Fin 4 :=
  ⟨(byte >>> 6).toNat, by
    have bounded : byte.toNat < 256 := byte.toNat_lt
    rw [toNat_shiftRight_six]
    omega⟩

/-- The bit of a byte, alone in a word. -/
def mask (byte : UInt8) : BitVec 64 := 1#64 <<< (byte &&& 63).toNat

/-- No bytes. -/
def empty : ByteSet := ⟨Vector.replicate 4 0#64⟩

/-- Whether a byte is a member. -/
def contains (set : ByteSet) (byte : UInt8) : Bool :=
  set.words[slot byte] &&& mask byte != 0#64

/-- Add one byte. -/
def insert (set : ByteSet) (byte : UInt8) : ByteSet :=
  ⟨set.words.set (slot byte) (set.words[slot byte] ||| mask byte)⟩

/-- The bytes of a list, whose order and repetitions do not matter. -/
def ofList (bytes : List UInt8) : ByteSet := bytes.foldl insert empty

/-- The bytes from `low` to `high`, both included; none if `high` comes first. -/
def ofRange (low high : UInt8) : ByteSet :=
  ofList ((List.range (high.toNat + 1 - low.toNat)).map fun offset =>
    UInt8.ofNat (low.toNat + offset))

/-- Every byte value, ascending. -/
def allBytes : List UInt8 := (List.range 256).map UInt8.ofNat

/-- The members, ascending. -/
def members (set : ByteSet) : List UInt8 := allBytes.filter set.contains

/-- The number of members: the ones of each word, added up. -/
def size (set : ByteSet) : Nat :=
  set.words.toList.foldl (fun count word => count + word.cpop.toNat) 0

/-- Whether there are no members. -/
def isEmpty (set : ByteSet) : Bool := set.words.toList.all (· == 0#64)

/-- The words take 64 bytes each, in order. -/
theorem slot_val (byte : UInt8) : (slot byte).val = byte.toNat / 64 := toNat_shiftRight_six byte

/-- The mask of a byte is one bit, counted from the start of its word. -/
theorem mask_eq_twoPow (byte : UInt8) : mask byte = BitVec.twoPow 64 (byte.toNat % 64) := by
  have lower : (byte &&& 63).toNat = byte.toNat % 64 := by
    rw [UInt8.toNat_and]
    exact Nat.and_two_pow_sub_one_eq_mod byte.toNat 6
  rw [mask, lower, BitVec.twoPow_eq]

/-- A byte is a member if its bit is set in its word. -/
theorem contains_eq_getLsbD (set : ByteSet) (byte : UInt8) :
    set.contains byte = set.words[slot byte].getLsbD (byte.toNat % 64) := by
  have below : byte.toNat % 64 < 64 := Nat.mod_lt _ (by decide)
  have nonzero : BitVec.twoPow 64 (byte.toNat % 64) ≠ 0#64 := by
    intro zero
    have bit := congrArg (fun word => word.getLsbD (byte.toNat % 64)) zero
    simp [below] at bit
  rw [contains, mask_eq_twoPow, BitVec.and_twoPow]
  cases set.words[slot byte].getLsbD (byte.toNat % 64) <;> simp [nonzero]

/-- The empty set has no members. -/
theorem contains_empty (byte : UInt8) : empty.contains byte = false := by
  simp [contains_eq_getLsbD, empty]

/-- Adding a byte adds exactly that byte. -/
theorem contains_insert (set : ByteSet) (added byte : UInt8) :
    (set.insert added).contains byte = (set.contains byte || decide (byte = added)) := by
  have below : byte.toNat % 64 < 64 := Nat.mod_lt _ (by decide)
  have addedSlot := slot_val added
  have byteSlot := slot_val byte
  by_cases together : (slot added).val = (slot byte).val
  · -- within one word the bit decides
    have same : byte.toNat % 64 = added.toNat % 64 ↔ byte = added := by
      rw [← UInt8.toNat_inj]
      omega
    have slots : slot added = slot byte := Fin.ext together
    simp [contains_eq_getLsbD, insert, mask_eq_twoPow, slots, below, same]
  · have apart : byte ≠ added := by
      rintro rfl
      exact together rfl
    simp [contains_eq_getLsbD, insert, Vector.getElem_set_ne, together, apart]

end ByteSet

end TableDriven
