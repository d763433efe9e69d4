import TableDriven.Parsing.Automaton

/-!
# Runs

A run takes tokens off a source and offers those that matter to the automaton.
Blanks are dropped, a line comment drops what is left of its line, and between
the opening and the closing of a block comment everything is dropped. Block
comments do not nest: one closing ends them all.

A run is a sequence of small steps: either a token is fetched, or the token at
hand is dealt with. Nothing bounds their number for every grammar, so carrying
out a run takes a limit.
-/

namespace TableDriven

/-- A run between two steps: the machine, the source and what has been scanned,
the number of tokens fetched, the token at hand, and how many comment openings
are unclosed. -/
structure Run (σ : Type) where
  machine : Machine
  source : σ
  scanned : ScanTally
  fetched : Nat
  pending : Option Token
  commentDepth : Nat

/-- A run after a step, and its result if it has ended. -/
inductive Progress (σ : Type) where
  | running (run : Run σ)
  | ended (result : Except Halt Node) (run : Run σ)

namespace Run

variable {σ : Type} [Source σ]

/-- Drop the token at hand. -/
def drop (run : Run σ) : Run σ := { run with pending := none }

/-- Read on to the next line. One step for each byte is enough. -/
def nextLineFrom : Nat → σ → σ
  | 0, source => source
  | steps + 1, source =>
    match Source.next? source with
    | none => source
    | some (byte, after) => if byte = 10 then after else nextLineFrom steps after

/-- A source at the start of the next line, or at the end. -/
def nextLine (source : σ) : σ :=
  nextLineFrom (Source.size source - Source.cursor source) source

/-- Take a token off the source. -/
def fetch (automaton : Automaton) (run : Run σ) : Progress σ :=
  let scan := Scan.next automaton.grammar automaton.errorSymbol run.scanned run.source
  let run := { run with source := scan.source, scanned := scan.tally }
  match scan.result with
  | .error halt => .ended (.error halt) run
  | .ok token => .running { run with pending := some token, fetched := run.fetched + 1 }

/-- Deal with a token inside a block comment. -/
def insideComment (run : Run σ) (token : Token) : Progress σ :=
  match token.symbol.kind with
  | .commentEnd => .running { run.drop with commentDepth := 0 }
  | .commentStart => .running { run.drop with commentDepth := run.commentDepth + 1 }
  | .endOfInput => .ended (.error (.error (.unterminatedComment token.line))) run
  | _ => .running run.drop

/-- Offer a token to the automaton. -/
def offer (automaton : Automaton) (run : Run σ) (token : Token) : Progress σ :=
  let advance := automaton.step run.machine token
  let run := { run with machine := advance.machine }
  match advance.result with
  | .error halt => .ended (.error halt) run
  | .ok .shift => .running run.drop
  | .ok .goto => .running run.drop
  | .ok .reduce => .running { run with pending := some advance.token }
  | .ok .accept => .ended (run.machine.root.mapError Halt.defect) run
  | .ok .reject => .ended (.error (automaton.rejection run.machine.state token)) run

/-- Deal with a token outside comments. -/
def outsideComment (automaton : Automaton) (run : Run σ) (token : Token) : Progress σ :=
  match token.symbol.kind with
  | .whitespace => .running run.drop
  | .commentStart => .running { run.drop with commentDepth := run.commentDepth + 1 }
  | .commentLine => .running { run.drop with source := nextLine run.source }
  | .error => .ended (.error (.error (.lexical token.line token.text))) run
  | .endOfInput => run.offer automaton token
  | .terminal => run.offer automaton token
  | .nonterminal => run.offer automaton token
  | .commentEnd => run.offer automaton token

/-- Take one step. -/
def step (automaton : Automaton) (run : Run σ) : Progress σ :=
  match run.pending with
  | none => run.fetch automaton
  | some token =>
    if run.commentDepth = 0 then run.outsideComment automaton token
    else run.insideComment token

/-- Take steps until the run ends; none if that takes more than the limit. -/
def finish (automaton : Automaton) : Nat → Run σ → Option (Except Halt Node × Run σ)
  | 0, _ => none
  | limit + 1, run =>
    match run.step automaton with
    | .running next => finish automaton limit next
    | .ended result last => some (result, last)

end Run

end TableDriven
