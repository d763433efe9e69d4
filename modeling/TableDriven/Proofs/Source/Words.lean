import TableDriven.Proofs.Source.Lines

/-!
# Requests in machine words

Offsets, sizes and counts are machine words. Here each request made of bytes in memory is carried
out in words of 64 bits, where a sum or a difference that leaves their range has no result. A
source that stands within its bytes never comes to that, however large the number it is given: the
distance to the end is taken from a cursor that is not past the end, and a request is added to the
cursor only after it has been compared with that distance. So the words give what the unbounded
numbers give. Only that there are less than half as many bytes as words is used, and no memory holds
more.
-/

namespace TableDriven

/-! ### Sums and differences in range -/

/-- The sum of two words, unless it is out of range: a sum that wraps is less than its parts. -/
def plus? (one other : UInt64) : Option UInt64 :=
  if one ≤ one + other then some (one + other) else none

/-- The difference of two words, unless it is out of range. -/
def minus? (one other : UInt64) : Option UInt64 :=
  if other ≤ one then some (one - other) else none

variable {one other result : UInt64}

/-- The sum of two words is the sum of their numbers, or there is none. -/
theorem plus?_eq_some_iff : plus? one other = some result ↔
    result.toNat = one.toNat + other.toNat := by
  have wrapped : (one + other).toNat = (one.toNat + other.toNat) % UInt64.size :=
    UInt64.toNat_add one other
  have left := one.toNat_lt_size
  have right := other.toNat_lt_size
  have fits := result.toNat_lt_size
  rw [plus?, Option.ite_none_right_eq_some, Option.some.injEq, UInt64.le_iff_toNat_le,
    ← UInt64.toNat_inj, wrapped]
  generalize UInt64.size = size at *
  constructor
  · rintro ⟨above, same⟩
    rcases Nat.lt_or_ge (one.toNat + other.toNat) size with below | beyond
    · rw [← same, Nat.mod_eq_of_lt below]
    · rw [Nat.mod_eq_sub_mod beyond, Nat.mod_eq_of_lt (by omega)] at above
      omega
  · intro same
    rw [Nat.mod_eq_of_lt (by omega)]
    omega

/-- The difference of two words is the difference of their numbers, or there is none. -/
theorem minus?_eq_some_iff : minus? one other = some result ↔
    result.toNat + other.toNat = one.toNat := by
  rw [minus?, Option.ite_none_right_eq_some, Option.some.injEq, ← UInt64.toNat_inj]
  constructor
  · rintro ⟨below, same⟩
    have notMore := UInt64.le_iff_toNat_le.mp below
    rw [UInt64.toNat_sub_of_le _ _ below] at same
    omega
  · intro same
    have below : other ≤ one := UInt64.le_iff_toNat_le.mpr (by omega)
    rw [UInt64.toNat_sub_of_le _ _ below]
    exact ⟨below, by omega⟩

/-- There is a sum if it is in range. -/
theorem exists_plus? (fits : one.toNat + other.toNat < UInt64.size) :
    ∃ sum, plus? one other = some sum ∧ sum.toNat = one.toNat + other.toNat := by
  have value := UInt64.toNat_ofNat_of_lt' fits
  exact ⟨_, plus?_eq_some_iff.mpr value, value⟩

/-- There is a difference from what is not less. -/
theorem exists_minus? (fits : other.toNat ≤ one.toNat) :
    ∃ difference, minus? one other = some difference ∧
      difference.toNat = one.toNat - other.toNat := by
  have value := UInt64.toNat_sub_of_le _ _ (UInt64.le_iff_toNat_le.mpr fits)
  have sum : (one - other).toNat + other.toNat = one.toNat := by omega
  exact ⟨_, minus?_eq_some_iff.mpr sum, value⟩

namespace ByteSource

/-! ### The requests -/

/-- The number of bytes. -/
def sizeWord (source : ByteSource) : UInt64 := .ofNat source.size

/-- The offset of the next byte. -/
def positionWord (source : ByteSource) : UInt64 := .ofNat source.position

/-- The source with its cursor at an offset. -/
def movedTo (source : ByteSource) (offset : UInt64) : ByteSource :=
  { source with position := offset.toNat }

/-- The line of the cursor. -/
def lineWord? (source : ByteSource) : Option UInt64 :=
  plus? (.ofNat (partitionPoint source.newlines fun offset =>
    UInt64.ofNat offset < source.positionWord)) 1

/-- The next byte and the source after it. -/
def nextWord? (source : ByteSource) : Option (Option (UInt8 × ByteSource)) :=
  match source.bytes[source.positionWord.toNat]? with
  | none => some none
  | some byte => (plus? source.positionWord 1).map fun after => some (byte, source.movedTo after)

/-- The next `count` bytes, refused unless all of them remain. -/
def takeWord? (source : ByteSource) (count : UInt64) :
    Option (Except SourceError (List UInt8) × ByteSource) :=
  (minus? source.sizeWord source.positionWord).bind fun available =>
    if available < count then
      some (.error (.truncated source.positionWord.toNat count.toNat available.toNat), source)
    else
      (plus? source.positionWord count).map fun stop =>
        (.ok (source.bytes.extract source.positionWord.toNat stop.toNat).toList,
          source.movedTo stop)

/-- Move the cursor, refused past the end. -/
def seekWord (source : ByteSource) (offset : UInt64) : Except SourceError Unit × ByteSource :=
  if source.sizeWord < offset then
    (.error (.seekPastEnd offset.toNat source.sizeWord.toNat), source)
  else (.ok (), source.movedTo offset)

/-- In words every request has a result, the one that it has in unbounded numbers. -/
structure FitsWords (source : ByteSource) : Prop where
  line : source.lineWord?.map UInt64.toNat = some source.line
  next : source.nextWord? = some source.next?
  take : ∀ count, source.takeWord? count = some (source.take count.toNat)
  seek : ∀ offset, source.seekWord offset = source.seek offset.toNat

/-! ### No request leaves the range -/

section

variable {source : ByteSource} (proper : source.Proper) (small : 2 * source.size < UInt64.size)

include small in
/-- A number that is no greater than the number of bytes is a word. -/
theorem toNat_ofNat_of_le {number : Nat} (within : number ≤ source.size) :
    (UInt64.ofNat number).toNat = number := by
  have fits : number < UInt64.size := by omega
  exact UInt64.toNat_ofNat_of_lt' fits

include small in
/-- The number of bytes is a word. -/
theorem toNat_sizeWord : source.sizeWord.toNat = source.size :=
  toNat_ofNat_of_le small (Nat.le_refl _)

include small in
/-- Moving the cursor compares words only. -/
theorem seekWord_eq (offset : UInt64) : source.seekWord offset = source.seek offset.toNat := by
  have size := toNat_sizeWord small
  rw [seekWord, seek, size]
  simp only [UInt64.lt_iff_toNat_lt, size]
  rfl

include proper small

/-- The offset of the next byte is a word. -/
theorem toNat_positionWord : source.positionWord.toNat = source.position :=
  toNat_ofNat_of_le small proper.inside

/-- The offsets in the index are words, so they compare with the cursor as the numbers do. -/
theorem partitionedAt_words :
    PartitionedAt source.newlines (fun offset => UInt64.ofNat offset < source.positionWord)
      ((source.bytes.toList.take source.position).count newline) := by
  obtain ⟨within, first⟩ := partitionedAt_newlineOffsets source.bytes source.position
  rw [← proper.made] at within first
  refine ⟨within, fun index inside => ?_⟩
  have below : ∀ offset ∈ source.newlines, offset ≤ source.size := by
    rw [proper.made]
    exact fun offset member => Nat.le_of_lt (lt_size_of_mem_newlineOffsets member)
  have value := toNat_ofNat_of_le small (below _ (Array.getElem_mem inside))
  rw [decide_eq_true_iff, UInt64.lt_iff_toNat_lt, value, toNat_positionWord proper small,
    ← first index inside, decide_eq_true_iff]

/-- The number of the line is a word: there are no more line ends than bytes. -/
theorem map_lineWord? : source.lineWord?.map UInt64.toNat = some source.line := by
  have few : (source.bytes.toList.take source.position).count newline ≤ source.size :=
    Nat.le_trans List.count_le_length (List.length_take_le' _ _)
  have value := toNat_ofNat_of_le small few
  have fits : (UInt64.ofNat ((source.bytes.toList.take source.position).count newline)).toNat +
      (1 : UInt64).toNat < UInt64.size := by
    have room : 1 < UInt64.size := by decide
    rw [value, UInt64.toNat_one]
    omega
  obtain ⟨line, added, sum⟩ := exists_plus? fits
  rw [lineWord?, partitionPoint_eq (partitionedAt_words proper small), added, Option.map_some, sum,
    value, line_eq proper.made, UInt64.toNat_one]

/-- The offset behind a byte is a word. -/
theorem nextWord?_eq : source.nextWord? = some source.next? := by
  have here := toNat_positionWord proper small
  rw [nextWord?, next?, peek, here]
  cases found : source.bytes[source.position]? with
  | none => rfl
  | some byte =>
    obtain ⟨inside, -⟩ := Array.getElem?_eq_some_iff.mp found
    have more : source.position < source.size := inside
    have fits : source.positionWord.toNat + (1 : UInt64).toNat < UInt64.size := by
      rw [here, UInt64.toNat_one]
      omega
    obtain ⟨after, added, value⟩ := exists_plus? fits
    rw [here, UInt64.toNat_one] at value
    change (plus? source.positionWord 1).map (fun after => some (byte, source.movedTo after)) = _
    rw [added, Option.map_some, movedTo, value]
    rfl

/-- The distance to the end is a word, and so is what a request that is not greater than it makes
of the cursor. -/
theorem takeWord?_eq (count : UInt64) :
    source.takeWord? count = some (source.take count.toNat) := by
  have here := toNat_positionWord proper small
  have size := toNat_sizeWord small
  have inside := proper.inside
  have notPast : source.positionWord.toNat ≤ source.sizeWord.toNat := by omega
  obtain ⟨available, left, distance⟩ := exists_minus? notPast
  rw [here, size] at distance
  rw [takeWord?, take, left, Option.bind_some, here, distance]
  by_cases short : available < count
  · have less : source.size - source.position < count.toNat := by
      rwa [← distance, ← UInt64.lt_iff_toNat_lt]
    rw [if_pos short]
    exact congrArg some (if_pos less).symm
  · have enough : ¬ source.size - source.position < count.toNat := by
      rwa [← distance, ← UInt64.lt_iff_toNat_lt]
    have fits : source.positionWord.toNat + count.toNat < UInt64.size := by omega
    obtain ⟨stop, added, value⟩ := exists_plus? fits
    rw [here] at value
    rw [if_neg short, added, Option.map_some, value, movedTo, value]
    exact congrArg some (if_neg enough).symm

/-- A source that stands within its bytes fits into words. -/
theorem Proper.fitsWords : source.FitsWords where
  line := map_lineWord? proper small
  next := nextWord?_eq proper small
  take := takeWord?_eq proper small
  seek := seekWord_eq small

end

end ByteSource

end TableDriven
