import TableDriven.Grammar.Basic
import TableDriven.Source.Basic

/-!
# Walks of the lexical automaton

A walk starts in the initial state and follows, for each byte, the first edge
whose set contains it. It does not stop at accepting states but remembers the
last one it came through, so what it recognizes is the longest accepted run of
bytes. Where the source ends the walk is offered one zero byte, which lets a
token ask to be followed by the end; the walk stops when no edge applies or
after that byte.
-/

namespace TableDriven

/-- A transition that was taken. -/
structure Move where
  origin : DfaStateId
  byte : UInt8
  target : DfaStateId
deriving DecidableEq, Repr

/-- A symbol that was recognized and the number of bytes it covers. -/
structure Match where
  symbol : SymbolId
  length : Nat
deriving DecidableEq, Repr

/-- Where a walk stopped, the moves it made, latest first, and what it
recognized last. -/
structure Walk (σ : Type) where
  source : σ
  moves : List Move
  outcome : Except Defect (Option Match)

/-- The first of some edges whose set contains a byte. -/
def Grammar.firstEdge (grammar : Grammar) (byte : UInt8) :
    List Edge → Except Defect (Option Edge)
  | [] => .ok none
  | edge :: rest =>
    match grammar.charSet edge.charSet with
    | .error defect => .error defect
    | .ok set => if set.bytes.contains byte then .ok (some edge) else grammar.firstEdge byte rest

namespace Walk

variable {σ : Type} [Source σ]

/-- The next byte to walk on, the source after it, and whether the end has now
been reached. The end yields a zero byte once. -/
def nextByte (source : σ) (exhausted : Bool) : Option (UInt8 × σ × Bool) :=
  match Source.next? source with
  | some (byte, after) => some (byte, after, exhausted)
  | none => if exhausted then none else some (0, source, true)

/-- What has been recognized in a state that is reached `length` bytes after the
walk began. -/
def recognized (state : DfaState) (length : Nat) (earlier : Option Match) : Option Match :=
  match state.accept with
  | some symbol => some ⟨symbol, length⟩
  | none => earlier

/-- Walk on from a state. Each step uses up a byte, so as many steps as there
are bytes, and two more for the end, leave no walk unfinished. -/
def follow (grammar : Grammar) (start : Nat) :
    Nat → DfaState → Option Match → Bool → List Move → σ → Walk σ
  | 0, state, earlier, _, moves, source =>
    ⟨source, moves, .ok (recognized state (Source.cursor source - start) earlier)⟩
  | steps + 1, state, earlier, exhausted, moves, source =>
    let found := recognized state (Source.cursor source - start) earlier
    match nextByte source exhausted with
    | none => ⟨source, moves, .ok found⟩
    | some (byte, after, exhausted) =>
      match grammar.firstEdge byte state.edges with
      | .error defect => ⟨after, moves, .error defect⟩
      | .ok none => ⟨after, moves, .ok found⟩
      | .ok (some edge) =>
        let moves := ⟨state.id, byte, edge.target⟩ :: moves
        match grammar.dfaState edge.target with
        | .error defect => ⟨after, moves, .error defect⟩
        | .ok target => follow grammar start steps target found exhausted moves after

/-- The walk from the cursor of a source. -/
def ofSource (grammar : Grammar) (source : σ) : Walk σ :=
  match grammar.dfaState grammar.tables.dfaInitial with
  | .error defect => ⟨source, [], .error defect⟩
  | .ok initial =>
    let start := Source.cursor source
    follow grammar start (Source.size source - start + 2) initial none false [] source

end Walk

end TableDriven
