import TableDriven.CommandLine.Request

/-!
# Help

The texts that explain the program, its commands and its options.
-/

namespace TableDriven.CommandLine

/-- The name of the program and its version. -/
def versionText : String := "lalrex-calc 0.1.0\n"

/-- Help on the program. -/
def programHelp : String :=
  "Calculator example built on the lalrex table-driven parser engine\n\n"
    ++ "Usage: lalrex-calc <COMMAND>\n\n"
    ++ "Commands:\n"
    ++ "  parse  Parses an expression and prints its syntax tree\n"
    ++ "  eval   Evaluates an expression and prints its value\n"
    ++ "  help   Print this message or the help of the given subcommand(s)\n\n"
    ++ "Options:\n"
    ++ "  -h, --help     Print help\n"
    ++ "  -V, --version  Print version\n"

/-- What a command does. -/
def Command.summary : Command → String
  | .parse => "Parses an expression and prints its syntax tree"
  | .eval => "Evaluates an expression and prints its value"

/-- The word for a command. -/
def Command.title : Command → String
  | .parse => "parse"
  | .eval => "eval"

/-- Help on an option that only some commands have. -/
def Command.trimHelp : Command → String
  | .parse => "      --trim           Collapse unit reductions in the tree\n"
  | .eval => ""

/-- The character that sets words of the help texts apart. -/
def backquote : String := String.singleton (Char.ofNat 0x60)

/-- Help on a command. -/
def commandHelp (command : Command) : String :=
  command.summary ++ "\n\n"
    ++ "Usage: lalrex-calc " ++ command.title ++ " [OPTIONS] --input <INPUT>\n\n"
    ++ "Options:\n"
    ++ "  -i, --input <INPUT>  Input file with a calculator expression\n"
    ++ command.trimHelp
    ++ "      --recover        Recover from syntax errors through the "
    ++ backquote ++ "error" ++ backquote ++ " terminal\n"
    ++ "  -h, --help           Print help\n"

/-- Help on the help command. -/
def helpHelp : String :=
  "Print this message or the help of the given subcommand(s)\n\n"
    ++ "Usage: lalrex-calc help [COMMAND]...\n\n"
    ++ "Arguments:\n"
    ++ "  [COMMAND]...  Print help for the subcommand(s)\n"

/-- The text on a topic. -/
def Topic.text : Topic → String
  | .program => programHelp
  | .command asked => commandHelp asked
  | .help => helpHelp

end TableDriven.CommandLine
