import QualityGate.Command

/-!
Reading command lines. The value of an option or a positional argument is looked at when the next
option or argument comes, or at the end, so what is wrong with it is told after an unknown option
that follows it.
-/
namespace QualityGate.Command

/-- Options that take a value. -/
inductive Setting
  | format | severity
  deriving DecidableEq, Repr

def Setting.label : Setting → String
  | format => "--format <FORMAT>"
  | severity => "--severity <SEVERITY>"

inductive Switch
  | json | verbose | help | version
  deriving DecidableEq, Repr

def Switch.label : Switch → String
  | json => "--json"
  | verbose => "--verbose"
  | help => "--help"
  | version => "--version"

/-- An argument whose value has not been looked at. -/
inductive Pending
  | setting (s : Setting) (value : Option String)
  | projectDir (value : String)
  deriving DecidableEq, Repr

/-- What has been read so far. -/
structure Progress where
  verbose : Bool
  json : Bool
  format : Option OutputFormat
  severity : Option SeverityFilter
  projectDir : Option String
  pending : Option Pending
  /-- Only positional arguments follow. -/
  trailing : Bool

namespace Progress

def start : Progress := ⟨false, false, none, none, none, none, false⟩

def ofFormat? : String → Option OutputFormat
  | "human" => some .human
  | "json" => some .json
  | "sarif" => some .sarif
  | _ => none

def ofSeverity? : String → Option SeverityFilter
  | "error" => some .error
  | "warning" => some .warning
  | "all" => some .all
  | _ => none

/-- Takes the value of an option. -/
def assign (p : Progress) (s : Setting) (value : String) : Except UsageError Progress :=
  match s with
  | .format =>
    if p.format.isSome then .error (.repeated s.label)
    else match ofFormat? value with
      | some f => .ok { p with format := some f }
      | none => .error (if value.isEmpty then .emptyValue s.label else .invalidValue value s.label)
  | .severity =>
    if p.severity.isSome then .error (.repeated s.label)
    else match ofSeverity? value with
      | some f => .ok { p with severity := some f }
      | none => .error (if value.isEmpty then .emptyValue s.label else .invalidValue value s.label)

def settle (p : Progress) : Except UsageError Progress :=
  match p.pending with
  | none => .ok p
  | some (.setting s none) => .error (.emptyValue s.label)
  | some (.setting s (some value)) => { p with pending := none }.assign s value
  | some (.projectDir dir) =>
    if dir.isEmpty then .error (.emptyValue "<PROJECT_DIR>")
    else .ok { p with pending := none, projectDir := some dir }

/-- Whether the next argument is the value of an option. -/
def awaits? (p : Progress) : Option Setting :=
  match p.pending with
  | some (.setting s none) => some s
  | _ => none

def throwSwitch (topic : Topic) (s : Switch) (p : Progress) : Except UsageError Progress := do
  let p ← p.settle
  match s with
  | .json => if p.json then throw (.repeated s.label) else return { p with json := true }
  | .verbose => if p.verbose then throw (.repeated s.label) else return { p with verbose := true }
  | .help => throw (.help topic)
  | .version => throw .version

/-- Takes letters behind a single hyphen. -/
def letters (topic : Topic) : List Char → Progress → Except UsageError Progress
  | [], p => .ok p
  | c :: cs, p => do
    match c, topic with
    | 'v', _ => letters topic cs (← throwSwitch topic .verbose p)
    | 'h', _ => letters topic cs (← throwSwitch topic .help p)
    | 'V', .program => letters topic cs (← throwSwitch topic .version p)
    | _, _ => throw (.unknownArgument ("-" ++ String.ofList [c]))

def named? (topic : Topic) (name : String) : Option (Switch ⊕ Setting) :=
  match name, topic with
  | "verbose", _ => some (.inl .verbose)
  | "help", _ => some (.inl .help)
  | "version", .program => some (.inl .version)
  | "json", .run => some (.inl .json)
  | "format", .run => some (.inr .format)
  | "severity", .run => some (.inr .severity)
  | _, _ => none

/-- Takes an argument of two hyphens and a name, and maybe a value behind `=`. -/
def long (topic : Topic) (text : List Char) (p : Progress) : Except UsageError Progress :=
  let name := String.ofList (text.takeWhile (· != '='))
  let value := (text.dropWhile (· != '=')).tail?.map String.ofList
  match named? topic name, value with
  | none, _ => .error (.unknownArgument ("--" ++ name))
  | some (.inl s), some value => .error (.surplusValue value s.label)
  | some (.inl s), none => throwSwitch topic s p
  | some (.inr s), some value => do (← p.settle).assign s value
  | some (.inr s), none => do return { (← p.settle) with pending := some (.setting s none) }

/-- Takes one argument of a command; `positional` takes those that are no options. -/
def take (topic : Topic) (positional : String → Progress → Except UsageError Progress)
    (p : Progress) (arg : String) : Except UsageError Progress :=
  if p.trailing then positional arg p
  else match arg.toList with
    | ['-', '-'] => .ok { p with trailing := true }
    | '-' :: '-' :: text => long topic text p
    | '-' :: c :: cs => letters topic (c :: cs) p
    | _ =>
      match p.awaits? with
      | some s => .ok { p with pending := some (.setting s (some arg)) }
      | none => positional arg p

def takeProjectDir (arg : String) (p : Progress) : Except UsageError Progress :=
  let taken := match p.pending with
    | some (.projectDir _) => true
    | _ => p.projectDir.isSome
  if taken then .error (.unknownArgument arg)
  else do return { (← p.settle) with pending := some (.projectDir arg) }

end Progress

def parseRun (verbose : Bool) (args : List String) : Except UsageError Invocation := do
  let p ← args.foldlM (Progress.take .run Progress.takeProjectDir) .start
  let p ← p.settle
  match p.projectDir with
  | none => throw (.missingArgument "<PROJECT_DIR>")
  | some dir =>
    return ⟨verbose || p.verbose, .run dir p.json (p.format.getD .human) (p.severity.getD .all)⟩

def parseRules (verbose : Bool) (args : List String) : Except UsageError Invocation := do
  let p ← args.foldlM (Progress.take .rules Progress.takeProjectDir) .start
  let p ← p.settle
  return ⟨verbose || p.verbose, .rules (p.projectDir.getD ".")⟩

/-- What a request for help is about. -/
def helpTopic : List String → UsageError
  | [] => .help .program
  | ["run"] => .help .run
  | ["rules"] => .help .rules
  | ["help"] => .help .help
  | "run" :: other :: _ => .unknownCommand other
  | "rules" :: other :: _ => .unknownCommand other
  | "help" :: other :: _ => .unknownCommand other
  | other :: _ => .unknownCommand other

/-- Reads the arguments up to the command, and those of the command. -/
def parseFrom (p : Progress) : List String → Except UsageError Invocation
  | [] => if p.verbose then .error .missingCommand else .error .nothing
  | arg :: args =>
    match p.trailing, arg with
    | false, "run" => parseRun p.verbose args
    | false, "rules" => parseRules p.verbose args
    | false, "help" => .error (helpTopic args)
    | trailing, _ => do
      let p ← Progress.take .program (fun arg _ =>
        .error (if trailing && ["run", "rules", "help"].contains arg then .unknownArgument arg
          else .unknownCommand arg)) p arg
      parseFrom p args

/-- What the arguments behind the name of the program ask for. -/
def parse (args : List String) : Except UsageError Invocation := parseFrom .start args

end QualityGate.Command
