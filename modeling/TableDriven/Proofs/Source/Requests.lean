import Mathlib.Data.List.Basic
import TableDriven.Proofs.Source.Words

/-!
# Requests made of bytes in memory

Whatever has been asked of a source before, and whether or not it was refused, the source stands
somewhere among its bytes. There it knows its line, gives the bytes that follow, and refuses
exactly what reaches past the end: a refusal names what was asked for and what there is, and
leaves the source as it was. Reading several bytes at once is reading them one by one.

All this holds in machine words as well, however large the word is that a source is given: no sum
or difference leaves the range of words, and every request has the result that it has in unbounded
numbers.
-/

namespace TableDriven

/-- What a source can be asked. -/
inductive SourceRequest where
  /-- To show the next byte. -/
  | peek
  /-- To read the next byte. -/
  | next
  /-- To read exactly so many bytes. -/
  | take (count : Nat)
  /-- To move the cursor to an offset. -/
  | seek (offset : Nat)
deriving DecidableEq, Repr

/-- What a source answers. -/
inductive SourceAnswer where
  /-- The next byte, unless there is none. -/
  | byte (found : Option UInt8)
  /-- The bytes that were read, or a refusal. -/
  | bytes (result : Except SourceError (List UInt8))
  /-- The cursor was moved, or a refusal. -/
  | moved (result : Except SourceError Unit)

namespace ByteSource

/-- The answer to a request and the source after it. -/
def answer (source : ByteSource) : SourceRequest → SourceAnswer × ByteSource
  | .peek => (.byte source.peek, source)
  | .next =>
    match source.next? with
    | some (byte, after) => (.byte (some byte), after)
    | none => (.byte none, source)
  | .take count =>
    let (result, after) := source.take count
    (.bytes result, after)
  | .seek offset =>
    let (result, after) := source.seek offset
    (.moved result, after)

/-- The answers to requests that are made one after the other, and the source after the last. -/
def answers (source : ByteSource) : List SourceRequest → List SourceAnswer × ByteSource
  | [] => ([], source)
  | request :: later =>
    let (first, after) := source.answer request
    let (rest, last) := after.answers later
    (first :: rest, last)

/-- What a source that stands among `bytes` tells of them, request by request. -/
structure Faithful (bytes : Array UInt8) (source : ByteSource) : Prop where
  /-- The cursor is not past the end. -/
  within : source.position ≤ bytes.size
  /-- Lines are counted from one, and a line end belongs to the line that it ends. -/
  line : source.line = 1 + (bytes.toList.take source.position).count newline
  peek : source.peek = bytes[source.position]?
  next : ∀ byte later, source.next? = some (byte, later) ↔
    bytes[source.position]? = some byte ∧ later = { source with position := source.position + 1 }
  ended : source.next? = none ↔ source.position = bytes.size
  /-- Bytes are read exactly if so many remain. -/
  taken : ∀ count read later, source.take count = (.ok read, later) ↔
    source.position + count ≤ bytes.size ∧
      read = (bytes.toList.drop source.position).take count ∧
      later = { source with position := source.position + count }
  /-- Reading so many bytes is reading one byte so many times. -/
  oneByOne : ∀ count read later, source.take count = (.ok read, later) ↔
    source.answers (List.replicate count .next) =
      (read.map fun byte => .byte (some byte), later)
  refused : ∀ count error later, source.take count = (.error error, later) ↔
    bytes.size < source.position + count ∧
      error = .truncated source.position count (bytes.size - source.position) ∧ later = source
  /-- The cursor is moved exactly to the offsets up to the end. -/
  moved : ∀ offset later, source.seek offset = (.ok (), later) ↔
    offset ≤ bytes.size ∧ later = { source with position := offset }
  unmoved : ∀ offset error later, source.seek offset = (.error error, later) ↔
    bytes.size < offset ∧ error = .seekPastEnd offset bytes.size ∧ later = source
  /-- No request leaves the range of machine words. -/
  inWords : 2 * bytes.size < UInt64.size → source.FitsWords

/-- The source of some bytes that stands at an offset. -/
def placed (bytes : Array UInt8) (position : Nat) : ByteSource :=
  { ofBytes bytes with position }

variable {bytes : Array UInt8} {position : Nat}

/-- Within the bytes, the next byte is read and the cursor moves behind it. -/
theorem answer_next_of_lt (more : position < bytes.size) :
    (placed bytes position).answer .next =
      (.byte (some bytes[position]), placed bytes (position + 1)) := by
  have peeked : (placed bytes position).peek = some bytes[position] :=
    Array.getElem?_eq_getElem more
  rw [answer, next?, peeked]
  rfl

/-- At the end there is no byte to read, and the source stays there. -/
theorem answer_next_of_le (done : bytes.size ≤ position) :
    (placed bytes position).answer .next = (.byte none, placed bytes position) := by
  have peeked : (placed bytes position).peek = none := Array.getElem?_eq_none done
  rw [answer, next?, peeked]
  rfl

/-- What is granted if something holds, and refused otherwise, is granted exactly then. -/
theorem granted_iff {α : Type} {fits : Prop} [Decidable fits] {value given : α}
    {fault : SourceError} {after stays later : ByteSource} :
    (if fits then (.ok value, after) else (.error fault, stays) :
        Except SourceError α × ByteSource) = (.ok given, later) ↔
      fits ∧ given = value ∧ later = after := by
  by_cases fit : fits
  · rw [if_pos fit, Prod.mk.injEq, Except.ok.injEq, eq_comm, eq_comm (a := after)]
    exact (and_iff_right fit).symm
  · rw [if_neg fit]
    constructor
    · intro impossible
      cases impossible
    · rintro ⟨holds, -⟩
      exact absurd holds fit

/-- What is granted if something holds, and refused otherwise, is refused exactly otherwise. -/
theorem refused_iff {α : Type} {fits : Prop} [Decidable fits] {value : α}
    {fault error : SourceError} {after stays later : ByteSource} :
    (if fits then (.ok value, after) else (.error fault, stays) :
        Except SourceError α × ByteSource) = (.error error, later) ↔
      ¬ fits ∧ error = fault ∧ later = stays := by
  by_cases fit : fits
  · rw [if_pos fit]
    constructor
    · intro impossible
      cases impossible
    · rintro ⟨unfit, -⟩
      exact absurd fit unfit
  · rw [if_neg fit, Prod.mk.injEq, Except.error.injEq, eq_comm, eq_comm (a := stays)]
    exact (and_iff_right fit).symm

/-- Bytes are read if so many remain. -/
theorem take_placed (within : position ≤ bytes.size) (count : Nat) :
    (placed bytes position).take count =
      if position + count ≤ bytes.size then
        (.ok ((bytes.toList.drop position).take count), placed bytes (position + count))
      else (.error (.truncated position count (bytes.size - position)), placed bytes position) := by
  have read : (bytes.extract position (position + count)).toList =
      (bytes.toList.drop position).take count := by
    rw [Array.toList_extract, List.extract_eq_take_drop, Nat.add_sub_cancel_left]
  by_cases enough : position + count ≤ bytes.size
  · have available : ¬ bytes.size - position < count := by omega
    rw [if_pos enough, ← read]
    exact if_neg available
  · have short : bytes.size - position < count := by omega
    rw [if_neg enough]
    exact if_pos short

/-- The cursor is moved to any offset up to the end. -/
theorem seek_placed (offset : Nat) :
    (placed bytes position).seek offset =
      if offset ≤ bytes.size then (.ok (), placed bytes offset)
      else (.error (.seekPastEnd offset bytes.size), placed bytes position) := by
  by_cases inside : offset ≤ bytes.size
  · rw [if_pos inside]
    exact if_neg (Nat.not_lt.mpr inside)
  · rw [if_neg inside]
    exact if_pos (Nat.lt_of_not_le inside)

/-- Whatever a source is asked, it goes on standing among its bytes. -/
theorem answer_placed (within : position ≤ bytes.size) (request : SourceRequest) :
    ∃ after ≤ bytes.size, ((placed bytes position).answer request).2 = placed bytes after := by
  cases request with
  | peek => exact ⟨position, within, rfl⟩
  | next =>
    by_cases more : position < bytes.size
    · exact ⟨position + 1, more, by rw [answer_next_of_lt more]⟩
    · exact ⟨position, within, by rw [answer_next_of_le (Nat.le_of_not_lt more)]⟩
  | take count =>
    by_cases enough : position + count ≤ bytes.size
    · exact ⟨position + count, enough, by rw [answer, take_placed within, if_pos enough]⟩
    · exact ⟨position, within, by rw [answer, take_placed within, if_neg enough]⟩
  | seek offset =>
    by_cases inside : offset ≤ bytes.size
    · exact ⟨offset, inside, by rw [answer, seek_placed, if_pos inside]⟩
    · exact ⟨position, within, by rw [answer, seek_placed, if_neg inside]⟩

/-- After any requests a source stands among its bytes. Induct on the requests. -/
theorem answers_placed (within : position ≤ bytes.size) (requests : List SourceRequest) :
    ∃ after ≤ bytes.size, ((placed bytes position).answers requests).2 = placed bytes after := by
  induction requests generalizing position with
  | nil => exact ⟨position, within, rfl⟩
  | cons request later inductionHypothesis =>
    obtain ⟨middle, inside, stands⟩ := answer_placed within request
    obtain ⟨last, reached, rest⟩ := inductionHypothesis inside
    rw [← stands] at rest
    exact ⟨last, reached, rest⟩

/-- Reading one byte again and again gives the bytes that remain, and then none. -/
theorem answers_next (within : position ≤ bytes.size) (count : Nat) :
    (placed bytes position).answers (List.replicate count .next) =
      (((bytes.toList.drop position).take count).map (fun byte => .byte (some byte)) ++
          List.replicate (position + count - bytes.size) (.byte none),
        placed bytes (min (position + count) bytes.size)) := by
  induction count generalizing position with
  | zero =>
    have none : position + 0 - bytes.size = 0 := Nat.sub_eq_zero_of_le within
    have here : min (position + 0) bytes.size = position := Nat.min_eq_left within
    rw [none, here]
    rfl
  | succ count inductionHypothesis =>
    rw [List.replicate_succ, answers]
    by_cases more : position < bytes.size
    · have inside : position < bytes.toList.length := more
      have onward : position + (count + 1) = position + 1 + count := by omega
      rw [answer_next_of_lt more]
      simp only [inductionHypothesis more]
      rw [onward, List.drop_eq_getElem_cons inside, List.take_succ_cons, List.map_cons,
        List.cons_append, Array.getElem_toList]
    · obtain rfl : position = bytes.size := Nat.le_antisymm within (Nat.le_of_not_lt more)
      have nothing : bytes.toList.drop bytes.size = [] := List.drop_eq_nil_of_le (Nat.le_refl _)
      rw [answer_next_of_le (Nat.le_refl _)]
      simp only [inductionHypothesis within, nothing, List.take_nil, List.map_nil, List.nil_append,
        Nat.add_sub_cancel_left, List.replicate_succ, Nat.min_eq_right (Nat.le_add_right _ _)]

/-- Reading so many bytes at once succeeds exactly where reading one byte so many times finds a
byte each time, and it gives the same bytes and leaves the source at the same place. -/
theorem take_iff_answers_next (within : position ≤ bytes.size) (count : Nat) (read : List UInt8)
    (later : ByteSource) :
    (placed bytes position).take count = (.ok read, later) ↔
      (placed bytes position).answers (List.replicate count .next) =
        (read.map fun byte => .byte (some byte), later) := by
  have injective : Function.Injective fun byte : UInt8 => SourceAnswer.byte (some byte) := by
    intro one other same
    exact Option.some.inj (SourceAnswer.byte.inj same)
  rw [answers_next within count, take_placed within]
  by_cases enough : position + count ≤ bytes.size
  · rw [if_pos enough, Nat.sub_eq_zero_of_le enough, Nat.min_eq_left enough, List.replicate_zero,
      List.append_nil, Prod.mk.injEq, Prod.mk.injEq, Except.ok.injEq, injective.list_map.eq_iff]
  · rw [if_neg enough]
    constructor
    · intro impossible
      cases impossible
    · -- The last of the answers is that there is no byte, and this is no byte that was read.
      intro same
      have missing : SourceAnswer.byte none ∈ read.map fun byte => .byte (some byte) := by
        rw [← (Prod.mk.inj same).1]
        refine List.mem_append_right _ (List.mem_replicate.mpr ⟨?_, rfl⟩)
        omega
      obtain ⟨byte, -, impossible⟩ := List.mem_map.mp missing
      cases impossible

/-- A source that stands among its bytes tells the truth about them. -/
theorem faithful_placed (within : position ≤ bytes.size) : (placed bytes position).Faithful bytes where
  within := within
  line := by
    rw [line_eq rfl, Nat.add_comm]
    rfl
  peek := rfl
  next byte later := by
    rw [next?, Option.map_eq_some_iff]
    constructor
    · rintro ⟨found, peeked, same⟩
      obtain ⟨rfl, rfl⟩ := Prod.mk.inj same
      exact ⟨peeked, rfl⟩
    · rintro ⟨peeked, rfl⟩
      exact ⟨byte, peeked, rfl⟩
  ended := by
    rw [next?, Option.map_eq_none_iff, peek, Array.getElem?_eq_none_iff]
    exact ⟨Nat.le_antisymm within, fun done => Nat.le_of_eq done.symm⟩
  taken count read later := by
    rw [take_placed within]
    exact granted_iff
  oneByOne := take_iff_answers_next within
  refused count error later := by
    rw [take_placed within, ← Nat.not_le]
    exact refused_iff
  moved offset later := by
    rw [seek_placed, granted_iff]
    exact and_congr_right fun _ => and_iff_right rfl
  unmoved offset error later := by
    rw [seek_placed, ← Nat.not_le]
    exact refused_iff
  inWords :=
    have proper : (placed bytes position).Proper := ⟨rfl, within⟩
    proper.fitsWords

/-- After any requests, of which some may have been refused, a source of bytes in memory stands
among its bytes and tells the truth about them, forwards and backwards and for numbers of any
size, in machine words too. -/
theorem source_is_faithful_cursor (bytes : Array UInt8) (requests : List SourceRequest) :
    ((ofBytes bytes).answers requests).2.Faithful bytes := by
  have begun : ofBytes bytes = placed bytes 0 := rfl
  have stood : ∃ after ≤ bytes.size, ((placed bytes 0).answers requests).2 = placed bytes after :=
    answers_placed (Nat.zero_le bytes.size) requests
  obtain ⟨position, within, stands⟩ := stood
  rw [begun, stands]
  exact faithful_placed within

end ByteSource

end TableDriven
