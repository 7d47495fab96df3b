import QualityGate.Report.Human

/-!
The command line: what it asks for, and what can be wrong with it.
-/
namespace QualityGate

inductive OutputFormat
  | human | json | sarif
  deriving DecidableEq, Repr

inductive Command
  | run (projectDir : String) (json : Bool) (format : OutputFormat) (severity : SeverityFilter)
  | rules (projectDir : String)
  deriving DecidableEq, Repr

structure Invocation where
  verbose : Bool
  command : Command
  deriving DecidableEq, Repr

/-- The parts of the program that have a help text of their own. -/
inductive Topic
  | program | run | rules | help
  deriving DecidableEq, Repr

inductive UsageError
  | missingArgument (name : String)
  | missingCommand
  /-- Nothing was asked for. -/
  | nothing
  | invalidValue (value option : String)
  | emptyValue (option : String)
  | unknownArgument (argument : String)
  | repeated (option : String)
  | surplusValue (value option : String)
  | unknownCommand (name : String)
  | help (topic : Topic)
  | version
  deriving DecidableEq, Repr

/-- The first line that tells a user what is wrong, where something is. -/
def UsageError.message? : UsageError → Option String
  | missingArgument _ => some "the following required arguments were not provided:"
  | missingCommand => some "'brudi-gate' requires a subcommand but one was not provided"
  | nothing => none
  | invalidValue value option => some ("invalid value '" ++ value ++ "' for '" ++ option ++ "'")
  | emptyValue option => some ("a value is required for '" ++ option ++ "' but none was supplied")
  | unknownArgument argument => some ("unexpected argument '" ++ argument ++ "' found")
  | repeated option => some ("the argument '" ++ option ++ "' cannot be used multiple times")
  | surplusValue value option =>
    some ("unexpected value '" ++ value ++ "' for '" ++ option ++ "' found; no more were expected")
  | unknownCommand name => some ("unrecognized subcommand '" ++ name ++ "'")
  | help _ => none
  | version => none

end QualityGate
