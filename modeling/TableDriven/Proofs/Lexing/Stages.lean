import TableDriven.Proofs.Grammar.Sums
import TableDriven.Proofs.Lexing.Scanned
import TableDriven.Source.Bytes

/-!
# The stages of a walk

A walk is at a stage whenever it asks for the next byte. It goes on to the next stage along
the first edge whose set contains the byte, and stops if there is no such edge or no byte.
Over bytes in memory, where every byte that is read brings the end nearer, a walk passes
through all its stages and ends at the one where it stops; the bound on its steps never
comes into play.

From stage to stage a walk only moves forward, so what it has recognized lies behind it. If
the initial lexical state accepts nothing, the walk recognizes nothing before its first move.
-/

namespace TableDriven

/-- The initial lexical state accepts nothing, so no token is empty. -/
def Grammar.NoEmptyToken (grammar : Grammar) : Prop :=
  ∀ initial, grammar.dfaState grammar.tables.dfaInitial = .ok initial → initial.accept = none

/-- No token of a sum is empty. -/
theorem Sums.noEmptyToken_grammar : grammar.NoEmptyToken := by
  intro initial looked
  obtain rfl := Except.ok.inj looked
  rfl

/-- A source that has been moved forward without leaving its bytes. -/
structure ByteSource.Ahead (source later : ByteSource) : Prop where
  same : later = { source with position := later.position }
  forward : source.position ≤ later.position
  inside : later.position ≤ source.size

namespace ByteSource.Ahead

variable {source later last : ByteSource}

/-- A source within its bytes is ahead of itself. -/
theorem refl (inside : source.position ≤ source.size) : source.Ahead source :=
  ⟨rfl, Nat.le_refl _, inside⟩

/-- The bytes stay the same. -/
theorem size_eq (ahead : source.Ahead later) : later.size = source.size := by
  rw [ahead.same]
  rfl

/-- Moving forward twice is moving forward. -/
theorem trans (first : source.Ahead later) (second : later.Ahead last) : source.Ahead last where
  same := by
    have same := second.same
    rw [first.same] at same
    exact same
  forward := Nat.le_trans first.forward second.forward
  inside := first.size_eq ▸ second.inside

/-- Reading a byte moves the source to the next one. -/
theorem of_next? {byte : UInt8} (read : source.next? = some (byte, later)) :
    source.Ahead later ∧ later.position = source.position + 1 := by
  obtain ⟨found, peeked, moved⟩ := Option.map_eq_some_iff.mp read
  obtain ⟨rfl, rfl⟩ := Prod.mk.inj moved
  obtain ⟨more, -⟩ := Array.getElem?_eq_some_iff.mp peeked
  exact ⟨⟨rfl, Nat.le_succ _, more⟩, rfl⟩

end ByteSource.Ahead

/-- A byte is left exactly where a source is not at its end. -/
theorem ByteSource.next?_of_lt {source : ByteSource} (more : source.position < source.size) :
    ∃ byte, source.next? = some (byte, { source with position := source.position + 1 }) := by
  have peeked : source.peek = some source.bytes[source.position] :=
    Array.getElem?_eq_getElem more
  exact ⟨_, by rw [next?, peeked]; rfl⟩

/-- A source is at its end if it stands behind its bytes. -/
theorem ByteSource.atEnd_iff {source : ByteSource} :
    Source.atEnd source = true ↔ source.size ≤ source.position := decide_eq_true_iff

/-- A source is not at its end if a byte is left. -/
theorem ByteSource.not_atEnd_iff {source : ByteSource} :
    Source.atEnd source = false ↔ source.position < source.size :=
  decide_eq_false_iff_not.trans Nat.not_le

/-- A walk is given the byte that is left. -/
theorem Walk.nextByte_of_next? {source after : ByteSource} {byte : UInt8}
    (read : source.next? = some (byte, after)) (exhausted : Bool) :
    nextByte source exhausted = some (byte, after, exhausted) := by
  rw [nextByte, show Source.next? source = source.next? from rfl, read]

/-- Asking for a byte never moves a source back. -/
theorem Walk.nextByte_ahead {source after : ByteSource} {exhausted ended : Bool} {byte : UInt8}
    (inside : source.position ≤ source.size)
    (read : nextByte source exhausted = some (byte, after, ended)) : source.Ahead after := by
  unfold nextByte at read
  split at read
  · rename_i found later next
    obtain ⟨-, rfl, -⟩ := by simpa using read
    exact (ByteSource.Ahead.of_next? next).1
  · split at read
    · contradiction
    · obtain ⟨-, rfl, -⟩ := by simpa using read
      exact .refl inside

/-- How often a walk can still be given a byte, the one for the end included. -/
def ByteSource.remaining (source : ByteSource) (exhausted : Bool) : Nat :=
  source.size - source.position + if exhausted then 0 else 1

/-- A byte that a walk is given cannot be given to it again. -/
theorem Walk.nextByte_remaining {source after : ByteSource} {exhausted ended : Bool}
    {byte : UInt8} (read : nextByte source exhausted = some (byte, after, ended)) :
    after.remaining ended < source.remaining exhausted := by
  unfold nextByte at read
  split at read
  · rename_i found later next
    obtain ⟨-, rfl, rfl⟩ := by simpa using read
    obtain ⟨ahead, moved⟩ := ByteSource.Ahead.of_next? next
    have size := ahead.size_eq
    have inside := ahead.inside
    unfold ByteSource.remaining
    omega
  · split at read
    · contradiction
    · rename_i unread
      obtain ⟨-, rfl, rfl⟩ := by simpa using read
      simp [ByteSource.remaining, unread]

namespace Walk

/-- The stages of a walk: the state, what was recognized before it, whether the end has been
reached, the moves that led to it, latest first, and the source. -/
inductive Stage (grammar : Grammar) (source : ByteSource) :
    DfaState → Option Match → Bool → List Move → ByteSource → Prop where
  | start (initial : DfaState)
      (looked : grammar.dfaState grammar.tables.dfaInitial = .ok initial) :
      Stage grammar source initial none false [] source
  | move {state target : DfaState} {earlier : Option Match} {exhausted ended : Bool}
      {moves : List Move} {here after : ByteSource} {byte : UInt8} {edge : Edge}
      (stage : Stage grammar source state earlier exhausted moves here)
      (read : nextByte here exhausted = some (byte, after, ended))
      (first : grammar.firstEdge byte state.edges = .ok (some edge))
      (looked : grammar.dfaState edge.target = .ok target) :
      Stage grammar source target
        (recognized state (here.position - source.position) earlier) ended
        (⟨state.id, byte, edge.target⟩ :: moves) after

/-- A walk stops: no byte is left, or there is no edge for the next one. -/
inductive Stops (grammar : Grammar) (state : DfaState) (exhausted : Bool) (here : ByteSource) :
    ByteSource → Prop where
  | ended (none : nextByte here exhausted = none) : Stops grammar state exhausted here here
  | stuck {byte : UInt8} {after : ByteSource} {ended : Bool}
      (read : nextByte here exhausted = some (byte, after, ended))
      (edgeless : grammar.firstEdge byte state.edges = .ok none) :
      Stops grammar state exhausted here after

section

variable {grammar : Grammar} {source here after : ByteSource} {state : DfaState}
  {earlier : Option Match} {exhausted : Bool} {moves : List Move}

/-- A walk passes through its stages, with steps to spare. -/
theorem Stage.ofSource_eq (stage : Stage grammar source state earlier exhausted moves here) :
    ∃ steps, here.remaining exhausted < steps ∧
      ofSource grammar source =
        follow grammar source.position steps state earlier exhausted moves here := by
  induction stage with
  | start initial looked =>
    refine ⟨source.size - source.position + 2, ?_, ?_⟩
    · simp [ByteSource.remaining]
    · simp only [ofSource, looked]
      rfl
  | move stage read first looked inductionHypothesis =>
    obtain ⟨steps, spare, same⟩ := inductionHypothesis
    have fewer := nextByte_remaining read
    cases steps with
    | zero => omega
    | succ steps =>
      refine ⟨steps, by omega, ?_⟩
      rw [same, follow]
      simp only [read, first, looked]
      rfl

/-- A walk ends at the stage where it stops, with what it has recognized by then. -/
theorem Stage.ofSource_of_stops
    (stage : Stage grammar source state earlier exhausted moves here)
    (stops : Stops grammar state exhausted here after) :
    ofSource grammar source =
      ⟨after, moves, .ok (recognized state (here.position - source.position) earlier)⟩ := by
  obtain ⟨steps, spare, same⟩ := stage.ofSource_eq
  cases steps with
  | zero => omega
  | succ steps =>
    rw [same, follow]
    cases stops with
    | ended none =>
      simp only [none]
      rfl
    | stuck read edgeless =>
      simp only [read, edgeless]
      rfl

/-- The states of a walk are states of the tables. -/
theorem Stage.mem (stage : Stage grammar source state earlier exhausted moves here) :
    state ∈ grammar.tables.dfaStates := by
  have found {id : DfaStateId} {state : DfaState} (looked : grammar.dfaState id = .ok state) :
      state ∈ grammar.tables.dfaStates :=
    Array.mem_of_getElem? ((Grammar.entry_eq_ok _ _ _ _).mp looked)
  cases stage with
  | start initial looked => exact found looked
  | move stage read first looked => exact found looked

/-- Every walk stops somewhere. Induct on how many bytes are left. -/
theorem Stage.exists_stops (well : grammar.tables.WellFormed)
    (stage : Stage grammar source state earlier exhausted moves here) :
    ∃ state earlier exhausted moves here after,
      Stage grammar source state earlier exhausted moves here ∧
        Stops grammar state exhausted here after := by
  generalize left : here.remaining exhausted = bytes
  induction bytes using Nat.strongRecOn generalizing state earlier exhausted moves here with
  | ind bytes inductionHypothesis =>
    cases read : nextByte here exhausted with
    | none => exact ⟨state, earlier, exhausted, moves, here, here, stage, .ended read⟩
    | some step =>
      obtain ⟨byte, after, ended⟩ := step
      have leads := well.dfaStates state stage.mem
      obtain ⟨found, first, among⟩ := Grammar.firstEdge_eq_ok byte
        fun edge member => (leads.edges edge member).1
      cases found with
      | none => exact ⟨state, earlier, exhausted, moves, here, after, stage, .stuck read first⟩
      | some edge =>
        obtain ⟨target, looked, -⟩ :=
          Grammar.dfaState_of_lt (leads.edges edge (among edge rfl)).2
        have fewer := nextByte_remaining read
        exact inductionHypothesis _ (left ▸ fewer) (.move stage read first looked) rfl

/-- What is recognized where a walk stands lies behind it if what was recognized before
does. -/
theorem recognized_within (state : DfaState) {start position : Nat} {earlier : Option Match}
    (forward : start ≤ position) (behind : ∀ found ∈ earlier, start + found.length ≤ position) :
    ∀ found ∈ recognized state (position - start) earlier, start + found.length ≤ position := by
  unfold recognized
  cases state.accept with
  | none => exact behind
  | some symbol =>
    intro found same
    obtain rfl := Option.some.inj same
    dsimp only
    omega

/-- A walk only moves forward, and what it has recognized lies behind it. -/
theorem Stage.ahead (inside : source.position ≤ source.size)
    (stage : Stage grammar source state earlier exhausted moves here) :
    source.Ahead here ∧
      ∀ found ∈ recognized state (here.position - source.position) earlier,
        source.position + found.length ≤ here.position := by
  induction stage with
  | start initial => exact ⟨.refl inside, recognized_within initial (Nat.le_refl _) (by simp)⟩
  | @move state target earlier exhausted ended moves here after byte edge stage read _ _
      inductionHypothesis =>
    obtain ⟨ahead, behind⟩ := inductionHypothesis
    have onward := nextByte_ahead (ahead.size_eq ▸ ahead.inside) read
    have further := ahead.trans onward
    refine ⟨further, recognized_within target further.forward ?_⟩
    intro found member
    exact Nat.le_trans (behind found member) onward.forward

/-- The next byte that a walk is given lies behind the first if one is left. -/
theorem passes {byte : UInt8} {ended : Bool} (more : source.position < source.size)
    (ahead : source.Ahead here) (begun : source.position < here.position ∨ here = source)
    (read : nextByte here exhausted = some (byte, after, ended)) :
    source.position < after.position := by
  have onward := nextByte_ahead (ahead.size_eq ▸ ahead.inside) read
  rcases begun with later | rfl
  · exact Nat.lt_of_lt_of_le later onward.forward
  · obtain ⟨first, found⟩ := ByteSource.next?_of_lt more
    rw [nextByte_of_next? found exhausted] at read
    obtain ⟨-, rfl, -⟩ := by simpa using read
    exact Nat.lt_succ_self _

/-- A walk from where a byte is left has not moved yet or has gone over that byte. -/
theorem Stage.begun (more : source.position < source.size)
    (stage : Stage grammar source state earlier exhausted moves here) :
    source.position < here.position ∨
      here = source ∧ exhausted = false ∧ earlier = none ∧
        grammar.dfaState grammar.tables.dfaInitial = .ok state := by
  induction stage with
  | start initial looked => exact .inr ⟨rfl, rfl, rfl, looked⟩
  | move stage read _ _ inductionHypothesis =>
    obtain ⟨ahead, -⟩ := stage.ahead (Nat.le_of_lt more)
    exact .inl (passes more ahead (inductionHypothesis.imp id And.left) read)

/-- A walk that stops has gone over the first byte if one is left. -/
theorem Stage.stops_behind (more : source.position < source.size)
    (stage : Stage grammar source state earlier exhausted moves here)
    (stops : Stops grammar state exhausted here after) :
    source.position < after.position ∧ here.Ahead after := by
  obtain ⟨ahead, -⟩ := stage.ahead (Nat.le_of_lt more)
  have inside : here.position ≤ here.size := ahead.size_eq ▸ ahead.inside
  have begun := stage.begun more
  cases stops with
  | ended none =>
    refine ⟨?_, .refl inside⟩
    rcases begun with later | ⟨rfl, rfl, -⟩
    · exact later
    · obtain ⟨byte, found⟩ := ByteSource.next?_of_lt more
      rw [nextByte_of_next? found] at none
      contradiction
  | stuck read edgeless =>
    exact ⟨passes more ahead (begun.imp id And.left) read, nextByte_ahead inside read⟩

/-- If the initial lexical state accepts nothing, what a walk recognizes covers a byte. -/
theorem Stage.recognized_pos (proper : grammar.NoEmptyToken)
    (more : source.position < source.size)
    (stage : Stage grammar source state earlier exhausted moves here) :
    ∀ found ∈ recognized state (here.position - source.position) earlier, 1 ≤ found.length := by
  induction stage with
  | start initial looked =>
    rw [recognized, proper initial looked]
    simp
  | @move state target earlier exhausted ended moves here after byte edge stage read first looked
      inductionHypothesis =>
    obtain ⟨ahead, -⟩ := stage.ahead (Nat.le_of_lt more)
    have behind := passes more ahead ((stage.begun more).imp id And.left) read
    rw [recognized]
    cases target.accept with
    | none => exact inductionHypothesis
    | some symbol =>
      intro found same
      obtain rfl := Option.some.inj same
      dsimp only
      omega

/-- A walk from where a byte is left goes over that byte and ends within the bytes. What it
recognizes lies between, and covers a byte unless the initial lexical state accepts. -/
theorem ofSource_within (well : grammar.tables.WellFormed)
    (more : source.position < source.size) :
    ∃ last, (ofSource grammar source).outcome = .ok last ∧
      source.Ahead (ofSource grammar source).source ∧
      source.position < (ofSource grammar source).source.position ∧
      ∀ found ∈ last,
        source.position + found.length ≤ (ofSource grammar source).source.position ∧
          (grammar.NoEmptyToken → 1 ≤ found.length) := by
  obtain ⟨initial, looked, -⟩ := Grammar.dfaState_of_lt well.dfaInitial
  obtain ⟨state, earlier, exhausted, moves, here, after, stage, stops⟩ :=
    Stage.exists_stops well (.start initial looked : Stage grammar source _ _ _ _ _)
  obtain ⟨ahead, behind⟩ := stage.ahead (Nat.le_of_lt more)
  obtain ⟨begun, onward⟩ := stage.stops_behind more stops
  rw [stage.ofSource_of_stops stops]
  refine ⟨_, rfl, ahead.trans onward, begun, ?_⟩
  intro found member
  refine ⟨Nat.le_trans (behind found member) onward.forward, ?_⟩
  intro proper
  exact stage.recognized_pos proper more found member

end

end Walk

end TableDriven
