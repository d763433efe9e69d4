import Mathlib.Data.Finset.Card
import TableDriven.Grammar.Tables

/-!
# Membership in sets of bytes

The 256 bits of a set and the 256 byte values correspond one to one: a byte has its bit, and every
bit of every word is that of a byte. So the members of a set decide its words, and whatever is
computed from the words is a fact about the members: no word has a bit set if there are none, and
the ones of all words are as many as the members. A set made of a list of bytes has just these as
members, in whatever order and however often they are listed.
-/

namespace TableDriven

namespace ByteSet

variable {set other : ByteSet} {bytes others : List UInt8} {low high byte : UInt8}

/-! ### Bits and bytes -/

/-- The byte whose bit stands at an offset in a word. -/
def byteAt (place : Fin 4) (offset : Nat) : UInt8 := UInt8.ofNat (64 * place.val + offset)

/-- Words hold 64 bytes each. -/
theorem toNat_byteAt (place : Fin 4) {offset : Nat} (below : offset < 64) :
    (byteAt place offset).toNat = 64 * place.val + offset := by
  have bounded : place.val < 4 := place.isLt
  rw [byteAt, UInt8.toNat_ofNat']
  omega

/-- Each bit of each word tells whether one byte is a member; no bit is left over. -/
theorem getLsbD_eq_contains (set : ByteSet) (place : Fin 4) {offset : Nat} (below : offset < 64) :
    set.words[place].getLsbD offset = set.contains (byteAt place offset) := by
  have value := toNat_byteAt place below
  have home : slot (byteAt place offset) = place := by
    apply Fin.ext
    rw [slot_val]
    omega
  have within : (byteAt place offset).toNat % 64 = offset := by omega
  simp only [contains_eq_getLsbD, home, within]

/-- A set is known by its members. -/
theorem ext_contains (same : ∀ byte, set.contains byte = other.contains byte) : set = other := by
  have alike : ∀ place : Fin 4, set.words[place] = other.words[place] := by
    intro place
    apply BitVec.eq_of_getLsbD_eq
    intro offset below
    rw [getLsbD_eq_contains set place below, same, getLsbD_eq_contains other place below]
  have words : set.words = other.words := by
    apply Vector.ext
    intro place bounded
    exact alike ⟨place, bounded⟩
  cases set
  cases other
  exact congrArg mk words

/-! ### Members -/

/-- Every byte value is listed. -/
theorem mem_allBytes (byte : UInt8) : byte ∈ allBytes :=
  List.mem_map.mpr ⟨byte.toNat, List.mem_range.mpr byte.toNat_lt, UInt8.ofNat_toNat⟩

/-- The byte values are listed in strictly ascending order. -/
theorem ascending_allBytes : allBytes.Pairwise (· < ·) := by
  refine List.pairwise_map.mpr (List.pairwise_lt_range.imp_of_mem ?_)
  intro earlier later _ listed before
  have bounded := List.mem_range.mp listed
  rw [UInt8.lt_iff_toNat_lt, UInt8.toNat_ofNat', UInt8.toNat_ofNat']
  omega

/-- The members are the bytes that are contained. -/
theorem mem_members : byte ∈ set.members ↔ set.contains byte = true := by
  simp [members, mem_allBytes]

/-- The members are listed in strictly ascending order. -/
theorem ascending_members (set : ByteSet) : set.members.Pairwise (· < ·) :=
  ascending_allBytes.filter _

/-- No member is listed twice. -/
theorem nodup_members (set : ByteSet) : set.members.Nodup :=
  (ascending_members set).imp UInt8.ne_of_lt

/-! ### Emptiness and size -/

/-- Only in the empty set every word is zero. -/
theorem isEmpty_iff_eq_empty : set.isEmpty = true ↔ set = empty := by
  obtain ⟨words⟩ := set
  rw [isEmpty, empty, mk.injEq, Vector.eq_replicate_iff, List.all_eq_true]
  simp only [Vector.mem_toList_iff, beq_iff_eq]

/-- A set is empty exactly if no byte is a member. -/
theorem isEmpty_iff : set.isEmpty = true ↔ ∀ byte, set.contains byte = false := by
  rw [isEmpty_iff_eq_empty]
  constructor
  · rintro rfl byte
    exact contains_empty byte
  · intro absent
    apply ext_contains
    intro byte
    rw [absent, contains_empty]

/-- The ones of a word are counted bit by bit from its start. -/
theorem cpopNatRec_eq_countP {width : Nat} (word : BitVec width) (count : Nat) :
    word.cpopNatRec count 0 = (List.range count).countP word.getLsbD := by
  induction count with
  | zero => rfl
  | succ count ih =>
    rw [BitVec.cpopNatRec_succ, BitVec.cpopNatRec_add, ih, List.range_succ, List.countP_append]
    cases present : word.getLsbD count <;> simp [present]

/-- Word by word and bit by bit the bytes are met in ascending order. -/
theorem allBytes_eq_flatMap :
    allBytes = (List.finRange 4).flatMap fun place => (List.range 64).map (byteAt place) := by
  decide +kernel

/-- The size is the number of members. -/
theorem size_eq_length_members (set : ByteSet) : set.size = set.members.length := by
  have ones : ∀ place : Fin 4, set.words[place].cpop.toNat =
      ((List.range 64).map (byteAt place)).countP set.contains := by
    intro place
    rw [BitVec.toNat_cpop, cpopNatRec_eq_countP, List.countP_map]
    apply List.countP_congr
    intro offset listed
    rw [getLsbD_eq_contains set place (List.mem_range.mp listed), Function.comp_apply]
  have listed : set.words.toList = (List.finRange 4).map (set.words[·]) := by
    apply List.ext_getElem <;> simp
  -- the words are added up as the bytes are listed, 64 by 64
  calc set.size
      = ((List.finRange 4).map fun place => set.words[place].cpop.toNat).sum := by
        rw [size, listed, List.foldl_map, List.sum_eq_foldl, List.foldl_map]
    _ = ((List.finRange 4).map fun place =>
          ((List.range 64).map (byteAt place)).countP set.contains).sum := by
        simp only [ones]
    _ = allBytes.countP set.contains := by
        rw [allBytes_eq_flatMap, List.countP_flatMap]
        rfl
    _ = set.members.length := List.countP_eq_length_filter

/-! ### Sets made of lists -/

/-- Adding the bytes of a list one by one adds exactly these. -/
theorem contains_foldl_insert (bytes : List UInt8) (set : ByteSet) (byte : UInt8) :
    (bytes.foldl insert set).contains byte = (set.contains byte || decide (byte ∈ bytes)) := by
  -- the set grows with each byte, so the induction is for any set to begin with
  induction bytes generalizing set with
  | nil => simp
  | cons first rest ih =>
    rw [List.foldl_cons, ih, contains_insert]
    simp [Bool.or_assoc]

/-- A set made of a list contains the bytes of the list. -/
theorem contains_ofList : (ofList bytes).contains byte = true ↔ byte ∈ bytes := by
  rw [ofList, contains_foldl_insert, contains_empty, Bool.false_or, decide_eq_true_iff]

/-- Lists with the same bytes make the same set, and no others do. -/
theorem ofList_eq_iff : ofList bytes = ofList others ↔ ∀ byte, byte ∈ bytes ↔ byte ∈ others := by
  constructor
  · intro same byte
    rw [← contains_ofList, same, contains_ofList]
  · intro same
    apply ext_contains
    intro byte
    rw [Bool.eq_iff_iff, contains_ofList, contains_ofList, same]

/-- A list makes an empty set exactly if nothing is listed. -/
theorem isEmpty_ofList : (ofList bytes).isEmpty = true ↔ bytes = [] := by
  rw [isEmpty_iff, List.eq_nil_iff_forall_not_mem]
  apply forall_congr'
  intro byte
  rw [← Bool.not_eq_true, contains_ofList]

/-- The size of a set made of a list is the number of different bytes listed. -/
theorem size_ofList (bytes : List UInt8) : (ofList bytes).size = bytes.toFinset.card := by
  have same : (ofList bytes).members.toFinset = bytes.toFinset := by
    ext byte
    rw [List.mem_toFinset, List.mem_toFinset, mem_members, contains_ofList]
  rw [size_eq_length_members, ← List.toFinset_card_of_nodup (nodup_members _), same]

/-- A range contains the bytes between its bounds, which belong to it. -/
theorem contains_ofRange : (ofRange low high).contains byte = true ↔ low ≤ byte ∧ byte ≤ high := by
  have bounded : high.toNat < 256 := high.toNat_lt
  rw [ofRange, contains_ofList, List.mem_map, UInt8.le_iff_toNat_le, UInt8.le_iff_toNat_le]
  constructor
  · rintro ⟨offset, listed, rfl⟩
    have near := List.mem_range.mp listed
    rw [UInt8.toNat_ofNat']
    omega
  · rintro ⟨above, under⟩
    refine ⟨byte.toNat - low.toNat, List.mem_range.mpr (by omega), ?_⟩
    rw [Nat.add_sub_cancel' above, UInt8.ofNat_toNat]

/-- A range is empty exactly if its bounds are in descending order. -/
theorem isEmpty_ofRange : (ofRange low high).isEmpty = true ↔ high < low := by
  rw [ofRange, isEmpty_ofList, List.map_eq_nil_iff, List.range_eq_nil, UInt8.lt_iff_toNat_lt]
  omega

end ByteSet

/-- A character set is its number and the set of the bytes it is made of: membership, the members
in strictly ascending order, their number and emptiness are those of the bytes listed, in whatever
order and however often, and two character sets are equal exactly if their numbers and the bytes
of their lists are. A range holds what lies between its bounds, and nothing if they descend. -/
theorem charSet_is_set_of_bytes (id : CharSetId) (bytes : List UInt8) :
    let set : CharSet := ⟨id, .ofList bytes⟩
    (∀ byte, set.bytes.contains byte = true ↔ byte ∈ bytes) ∧
      (set.bytes.members.Pairwise (· < ·) ∧ ∀ byte, byte ∈ set.bytes.members ↔ byte ∈ bytes) ∧
      set.bytes.size = bytes.toFinset.card ∧
      (set.bytes.isEmpty = true ↔ bytes = []) ∧
      (∀ (otherId : CharSetId) (others : List UInt8), set = ⟨otherId, .ofList others⟩ ↔
        id = otherId ∧ ∀ byte, byte ∈ bytes ↔ byte ∈ others) ∧
      ∀ low high : UInt8,
        let range : CharSet := ⟨id, .ofRange low high⟩
        (∀ byte, range.bytes.contains byte = true ↔ low ≤ byte ∧ byte ≤ high) ∧
          (range.bytes.isEmpty = true ↔ high < low) := by
  refine ⟨?membership, ⟨ByteSet.ascending_members _, ?listed⟩, ByteSet.size_ofList bytes,
    ByteSet.isEmpty_ofList, ?equality, ?range⟩
  case membership =>
    intro byte
    exact ByteSet.contains_ofList
  case listed =>
    intro byte
    rw [ByteSet.mem_members, ByteSet.contains_ofList]
  case equality =>
    intro otherId others
    rw [CharSet.mk.injEq, ByteSet.ofList_eq_iff]
  case range =>
    intro low high
    constructor
    · intro byte
      exact ByteSet.contains_ofRange
    · exact ByteSet.isEmpty_ofRange

/-- The last bit of one word, the first of the next and both ends of the whole. -/
example : (ByteSet.ofList [255, 64, 0, 63, 64]).members = [0, 63, 64, 255] ∧
    (ByteSet.ofList [255, 64, 0, 63, 64]).size = 4 := by decide

end TableDriven
