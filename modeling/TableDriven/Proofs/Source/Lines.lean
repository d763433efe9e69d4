import TableDriven.Source.Bytes

/-!
# Lines of bytes in memory

The index of the lines is collected in one pass over the bytes. Its offsets ascend, so those
before a position stand in front of the others, and the search that halves what is left of the
index finds where the others begin. That is how many line ends there are before the position:
the line of a source is one more.
-/

namespace TableDriven

/-! ### The index -/

/-- The first byte is in the index if it is a line end. The others stand one further. -/
theorem lineEnds_cons (start : Nat) (byte : UInt8) (bytes : List UInt8) :
    lineEnds start (byte :: bytes) =
      if byte = newline then start :: lineEnds (start + 1) bytes
      else lineEnds (start + 1) bytes := by
  rw [lineEnds, List.zipIdx_cons, List.filter_cons]
  by_cases ends : byte = newline
  · rw [if_pos ends, if_pos (decide_eq_true ends)]
    rfl
  · rw [if_neg ends, if_neg (ne_true_of_eq_false (decide_eq_false ends))]
    rfl

/-- The offsets in the index are offsets of bytes. -/
theorem bounds_of_mem_lineEnds {start offset : Nat} {bytes : List UInt8}
    (member : offset ∈ lineEnds start bytes) : start ≤ offset ∧ offset < start + bytes.length := by
  induction bytes generalizing start with
  | nil => cases member
  | cons byte bytes inductionHypothesis =>
    have onward : start + (byte :: bytes).length = start + 1 + bytes.length := by
      rw [List.length_cons]
      omega
    rw [lineEnds_cons] at member
    by_cases ends : byte = newline
    · rw [if_pos ends, List.mem_cons] at member
      obtain rfl | later := member
      · omega
      · have bounds := inductionHypothesis later
        omega
    · rw [if_neg ends] at member
      have bounds := inductionHypothesis member
      omega

/-- The offsets in the index of all bytes are less than their number. -/
theorem lt_size_of_mem_newlineOffsets {bytes : Array UInt8} {offset : Nat}
    (member : offset ∈ newlineOffsets bytes) : offset < bytes.size := by
  have bounds := bounds_of_mem_lineEnds (List.mem_toArray.mp member)
  rw [Nat.zero_add] at bounds
  exact bounds.2

/-- The offsets in the index ascend. -/
theorem ascending_lineEnds (start : Nat) (bytes : List UInt8) :
    (lineEnds start bytes).Pairwise (· < ·) := by
  induction bytes generalizing start with
  | nil => exact .nil
  | cons byte bytes inductionHypothesis =>
    rw [lineEnds_cons]
    by_cases ends : byte = newline
    · rw [if_pos ends]
      exact .cons (fun offset member => (bounds_of_mem_lineEnds member).1) (inductionHypothesis _)
    · rw [if_neg ends]
      exact inductionHypothesis _

/-- The offsets in the index that are less than a position are as many as the line ends before
it. The first byte is before every position but the first. -/
theorem countP_lineEnds (start count : Nat) (bytes : List UInt8) :
    (lineEnds start bytes).countP (· < start + count) = (bytes.take count).count newline := by
  induction bytes generalizing start count with
  | nil => rw [List.take_nil]; rfl
  | cons byte bytes inductionHypothesis =>
    cases count with
    | zero =>
      rw [List.take_zero, List.count_nil, List.countP_eq_zero]
      intro offset member before
      exact absurd (bounds_of_mem_lineEnds member).1 (Nat.not_le.mpr (of_decide_eq_true before))
    | succ count =>
      have onward : start + (count + 1) = start + 1 + count := by omega
      have here : start < start + 1 + count := by omega
      rw [lineEnds_cons, onward, List.take_succ_cons]
      by_cases ends : byte = newline
      · rw [if_pos ends, List.countP_cons, if_pos (decide_eq_true here), inductionHypothesis, ends,
          List.count_cons_self]
      · rw [if_neg ends, inductionHypothesis, List.count_cons_of_ne ends]

/-! ### The search -/

/-- In an ascending list the entries below a bound stand in front. -/
theorem getElem_lt_iff_lt_countP {entries : List Nat} (ascending : entries.Pairwise (· < ·))
    {bound index : Nat} (inside : index < entries.length) :
    entries[index] < bound ↔ index < entries.countP (· < bound) := by
  induction entries generalizing index with
  | nil => exact absurd inside (Nat.not_lt_zero _)
  | cons entry entries inductionHypothesis =>
    obtain ⟨least, rest⟩ := List.pairwise_cons.mp ascending
    by_cases below : entry < bound
    · rw [List.countP_cons, if_pos (decide_eq_true below)]
      cases index with
      | zero => exact iff_of_true below (Nat.succ_pos _)
      | succ index =>
        rw [List.getElem_cons_succ, inductionHypothesis rest, Nat.succ_lt_succ_iff]
    · -- None of the later entries is below the bound either.
      have above : ∀ other ∈ entry :: entries, ¬ other < bound := by
        intro other member reached
        obtain rfl | later := List.mem_cons.mp member
        · exact below reached
        · exact below (Nat.lt_trans (least other later) reached)
      have none : (entry :: entries).countP (· < bound) = 0 :=
        List.countP_eq_zero.mpr fun other member before =>
          above other member (of_decide_eq_true before)
      rw [none]
      exact iff_of_false (above _ (List.getElem_mem inside)) (Nat.not_lt_zero _)

/-- The entries that come first are those in front of `point`. -/
structure PartitionedAt (entries : Array Nat) (comesFirst : Nat → Bool) (point : Nat) : Prop where
  within : point ≤ entries.size
  first : ∀ index (inside : index < entries.size), comesFirst entries[index] = true ↔ index < point

/-- The search ends at the point, wherever that is among the entries that are still searched.
Induct on the steps: the entry in the middle is in front of the point or not. -/
theorem partitionFrom_eq {entries : Array Nat} {comesFirst : Nat → Bool} {point : Nat}
    (parted : PartitionedAt entries comesFirst point) {steps start count : Nat}
    (within : start + count ≤ entries.size) (enough : count ≤ steps) (lower : start ≤ point)
    (upper : point ≤ start + count) :
    partitionFrom entries comesFirst steps start count within = point := by
  induction steps generalizing start count with
  | zero =>
    rw [partitionFrom]
    omega
  | succ steps inductionHypothesis =>
    rw [partitionFrom]
    by_cases more : 0 < count
    · have inside : start + count / 2 < entries.size := by omega
      have middle := parted.first _ inside
      rw [dif_pos more]
      by_cases comes : comesFirst entries[start + count / 2] = true
      · have front : start + count / 2 < point := middle.mp comes
        rw [if_pos comes]
        exact inductionHypothesis _ (by omega) (by omega) (by omega)
      · have behind : point ≤ start + count / 2 := Nat.le_of_not_lt fun front =>
          comes (middle.mpr front)
        rw [if_neg comes]
        exact inductionHypothesis _ (by omega) lower behind
    · rw [dif_neg more]
      omega

/-- The search finds the point. -/
theorem partitionPoint_eq {entries : Array Nat} {comesFirst : Nat → Bool} {point : Nat}
    (parted : PartitionedAt entries comesFirst point) :
    partitionPoint entries comesFirst = point :=
  partitionFrom_eq parted _ (Nat.le_refl _) (Nat.zero_le _)
    (Nat.le_trans parted.within (Nat.le_add_left _ _))

/-- The index is parted at every position, behind the line ends before it. -/
theorem partitionedAt_newlineOffsets (bytes : Array UInt8) (position : Nat) :
    PartitionedAt (newlineOffsets bytes) (· < position)
      ((bytes.toList.take position).count newline) := by
  have counted := countP_lineEnds 0 position bytes.toList
  rw [Nat.zero_add] at counted
  rw [← counted]
  refine ⟨List.countP_le_length, fun index inside => ?_⟩
  rw [decide_eq_true_iff]
  exact getElem_lt_iff_lt_countP (ascending_lineEnds 0 bytes.toList) inside

/-- The line of a source is one more than the line ends before its position. -/
theorem ByteSource.line_eq {source : ByteSource}
    (made : source.newlines = newlineOffsets source.bytes) :
    source.line = (source.bytes.toList.take source.position).count newline + 1 := by
  rw [line, made, partitionPoint_eq (partitionedAt_newlineOffsets _ _)]

/-- A source that stands within its bytes and has the index of their lines. -/
structure ByteSource.Proper (source : ByteSource) : Prop where
  made : source.newlines = newlineOffsets source.bytes
  inside : source.position ≤ source.size

/-- A source that is made of bytes has the index of their lines. -/
theorem ByteSource.proper_ofBytes (bytes : Array UInt8) : (ofBytes bytes).Proper :=
  ⟨rfl, Nat.zero_le _⟩

/-- The first byte stands on the first line. -/
theorem ByteSource.line_ofBytes (bytes : Array UInt8) : (ofBytes bytes).line = 1 :=
  line_eq rfl

end TableDriven
