import TableDriven.Source.Basic

/-!
# Sources that fail on purpose

A faulty source counts the requests made of another one and refuses a chosen
one of each kind, as if it reached past the end. All other requests are passed
on. It shows what a scanner and a parser do when their source lets them down.
-/

namespace TableDriven

/-- A source, the numbers of the requests to refuse, counted from one, and the
numbers of requests made so far. No request has number zero. -/
structure FaultySource (σ : Type) where
  inner : σ
  refusedSeek : Nat
  refusedRead : Nat
  seeks : Nat
  reads : Nat
deriving DecidableEq, Repr

namespace FaultySource

variable {σ : Type} [Source σ]

/-- Refuse the given seek and the given read of a fresh source. -/
def wrap (inner : σ) (refusedSeek refusedRead : Nat) : FaultySource σ :=
  ⟨inner, refusedSeek, refusedRead, 0, 0⟩

/-- The next byte; reading a single byte is not a request that can be refused. -/
def next? (source : FaultySource σ) : Option (UInt8 × FaultySource σ) :=
  (Source.next? source.inner).map fun (byte, inner) => (byte, { source with inner })

/-- Pass a read on unless its number is the refused one. -/
def take (source : FaultySource σ) (count : Nat) :
    Except SourceError (List UInt8) × FaultySource σ :=
  let counted := { source with reads := source.reads + 1 }
  if counted.reads = source.refusedRead then
    let offset := Source.cursor source.inner
    (.error (.truncated offset count (Source.size source.inner - offset)), counted)
  else
    let (result, inner) := Source.take source.inner count
    (result, { counted with inner })

/-- Pass a move of the cursor on unless its number is the refused one. -/
def seek (source : FaultySource σ) (offset : Nat) :
    Except SourceError Unit × FaultySource σ :=
  let counted := { source with seeks := source.seeks + 1 }
  if counted.seeks = source.refusedSeek then
    (.error (.seekPastEnd offset (Source.size source.inner)), counted)
  else
    let (result, inner) := Source.seek source.inner offset
    (result, { counted with inner })

end FaultySource

/-- A faulty source can be scanned like the source inside it. -/
instance {σ : Type} [Source σ] : Source (FaultySource σ) where
  size source := Source.size source.inner
  cursor source := Source.cursor source.inner
  line source := Source.line source.inner
  atEnd source := Source.atEnd source.inner
  peek source := Source.peek source.inner
  next? := FaultySource.next?
  take := FaultySource.take
  seek := FaultySource.seek

end TableDriven
