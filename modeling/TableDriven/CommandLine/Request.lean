import TableDriven.Calculator.Calculation

/-!
# What a command line asks for

Arguments are read from the left. A flag that asks for help or for the version
is answered as soon as it is met, and so is a fault; what stands to the right of
either does not matter. The input option is needed exactly once and takes its
value from its own argument or from the next one. A value of its own argument
may begin with a dash; one in the next argument may not, unless it is the dash
alone.
-/

namespace TableDriven.CommandLine

/-- What the program can be told to do. -/
inductive Command where
  | parse
  | eval
deriving DecidableEq, Repr

/-- What help can be asked for. -/
inductive Topic where
  | program
  | command (command : Command)
  | help
deriving DecidableEq, Repr

/-- What has been said about a job so far. -/
structure Given where
  input : Option String
  trim : Bool
  recover : Bool
deriving DecidableEq, Repr

/-- What a command line asks for. -/
inductive Request where
  | help (topic : Topic)
  | version
  | job (command : Command) (path : String) (options : Calculator.Options)
  | misuse
deriving DecidableEq, Repr

/-- How an argument is written. -/
inductive Argument where
  /-- Two dashes alone. -/
  | separator
  /-- Two dashes, a name, and perhaps a value behind an equals sign. -/
  | long (name : String) (value : Option String)
  /-- A dash and at least one character. -/
  | short (flag : Char) (rest : List Char)
  /-- Anything else. -/
  | plain (text : String)
deriving DecidableEq, Repr

/-- Split at the first equals sign, if there is one. -/
def splitValue (characters : List Char) : String × Option String :=
  let name := String.ofList (characters.takeWhile (· ≠ '='))
  match characters.dropWhile (· ≠ '=') with
  | [] => (name, none)
  | _ :: value => (name, some (String.ofList value))

/-- How an argument is written. -/
def Argument.ofString (text : String) : Argument :=
  match text.toList with
  | ['-', '-'] => .separator
  | '-' :: '-' :: characters =>
    let (name, value) := splitValue characters
    .long name value
  | '-' :: flag :: rest => .short flag rest
  | _ => .plain text

/-- The value behind a short option in the same argument; an equals sign may
stand between them. -/
def attachedValue : List Char → String
  | '=' :: value => String.ofList value
  | value => String.ofList value

namespace Given

/-- Nothing has been said. -/
def nothing : Given := ⟨none, false, false⟩

/-- Name the input, which must be neither empty nor named before. -/
def withInput? (given : Given) (path : String) : Option Given :=
  if path = "" then none
  else
    match given.input with
    | some _ => none
    | none => some { given with input := some path }

/-- Ask for trimming, which only parsing knows and which is asked for once. -/
def withTrim? (given : Given) (command : Command) : Option Given :=
  if command = .parse ∧ ¬given.trim then some { given with trim := true } else none

/-- Ask for recovery, once. -/
def withRecover? (given : Given) : Option Given :=
  if given.recover then none else some { given with recover := true }

/-- The job once all has been said. Evaluation always trims. -/
def toRequest (given : Given) (command : Command) : Request :=
  match given.input with
  | none => .misuse
  | some path => .job command path ⟨given.trim || command = .eval, given.recover⟩

end Given

/-- Read the arguments behind a command. -/
def readJob (command : Command) (given : Given) : List String → Request
  | [] => given.toRequest command
  | argument :: rest =>
    match Argument.ofString argument with
    | .separator => if rest = [] then given.toRequest command else .misuse
    | .plain _ => .misuse
    | .long "help" none => .help (.command command)
    | .long "trim" none =>
      match given.withTrim? command with
      | some given => readJob command given rest
      | none => .misuse
    | .long "recover" none =>
      match given.withRecover? with
      | some given => readJob command given rest
      | none => .misuse
    | .long "input" (some path) =>
      match given.withInput? path with
      | some given => readJob command given rest
      | none => .misuse
    | .long "input" none => readValue command given rest
    | .long _ _ => .misuse
    | .short 'h' _ => .help (.command command)
    | .short 'i' [] => readValue command given rest
    | .short 'i' value =>
      match given.withInput? (attachedValue value) with
      | some given => readJob command given rest
      | none => .misuse
    | .short _ _ => .misuse
where
  /-- Read the value of the input option and what follows it. -/
  readValue (command : Command) (given : Given) : List String → Request
    | [] => .misuse
    | value :: rest =>
      match Argument.ofString value with
      | .plain path =>
        match given.withInput? path with
        | some given => readJob command given rest
        | none => .misuse
      | _ => .misuse

/-- Read what follows the request for help on something. -/
def readTopic : List String → Request
  | [] => .help .program
  | ["parse"] => .help (.command .parse)
  | ["eval"] => .help (.command .eval)
  | ["help"] => .help .help
  | _ => .misuse

/-- Read all arguments. -/
def readArguments : List String → Request
  | [] => .misuse
  | argument :: rest =>
    match Argument.ofString argument with
    | .plain "parse" => readJob .parse .nothing rest
    | .plain "eval" => readJob .eval .nothing rest
    | .plain "help" => readTopic rest
    | .long "help" none => .help .program
    | .long "version" none => .version
    | .short 'h' _ => .help .program
    | .short 'V' _ => .version
    | _ => .misuse

/-- The path of the file that a request needs. -/
def Request.path? : Request → Option String
  | .job _ path _ => some path
  | .help _ => none
  | .version => none
  | .misuse => none

end TableDriven.CommandLine
