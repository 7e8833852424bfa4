import Foregone.Command.Options
import Foregone.Condition
import Foregone.Report

/-! # The command line

Two commands: `check` looks at files and directories, `eval` at a single expression.
Asking for more words comes before the command. The arguments are read first, and
only then is anything looked at. -/

namespace Foregone

/-- What is asked for. -/
inductive Request where
  /-- nothing: the help is shown instead -/
  | help
  | check (verbosity : Nat) (format : ReportFormat) (paths : List String)
  | eval (verbosity : Nat) (expression : String)
  deriving DecidableEq, Repr

/-- What a run leaves behind. -/
structure Outcome where
  exit : Nat
  output : String := ""
  log : List LogLine := []
  usageError : Option UsageError := none

namespace Request

def helpOption : OptionSpec := ⟨"--help", none, false⟩

def verboseOption : OptionSpec := ⟨"--verbose", some 'v', false⟩

def formatOption : OptionSpec := ⟨"--format", none, true⟩

/-- The options in front of the command; like those of each command, in the order of
their names, in which a wrong name is compared with them. -/
def mainOptions : OptionSet := ⟨[helpOption, verboseOption], false⟩

def checkOptions : OptionSet := ⟨[formatOption, helpOption], true⟩

def evalOptions : OptionSet := ⟨[helpOption], true⟩

def asksForHelp (parsed : ParsedArguments) : Bool :=
  parsed.options.any fun o => o.1 == helpOption.long

/-- The format that was asked for last, or plain text. -/
def format? (parsed : ParsedArguments) : Except UsageError ReportFormat :=
  match (parsed.options.filter fun o => o.1 == formatOption.long).getLast? with
  | none => .ok .text
  | some (_, value) =>
    match ReportFormat.all.find? fun f => f.name == value with
    | some f => .ok f
    | none =>
      let allowed := ", ".intercalate (ReportFormat.all.map fun f => Text.quoted f.name)
      .error (.invalidValue "'--format'" (Text.quoted value ++ " is not one of " ++ allowed ++ "."))

/-- The arguments of `check`. -/
def ofCheck (verbosity : Nat) (args : List String) : Except UsageError Request := do
  let parsed ← checkOptions.read args
  if asksForHelp parsed then return .help
  let format ← format? parsed
  if parsed.arguments = [] then throw (.missingArgument "PATHS...")
  return .check verbosity format parsed.arguments

/-- The arguments of `eval`. -/
def ofEval (verbosity : Nat) (args : List String) : Except UsageError Request := do
  let parsed ← evalOptions.read args
  if asksForHelp parsed then return .help
  match parsed.arguments with
  | [] => throw (.missingArgument "EXPRESSION")
  | [e] => return .eval verbosity e
  | _ :: extra => throw (.extraArguments extra)

/-- The command and its arguments. An unknown command that is written like an option is
first taken for one. -/
def ofCommand (verbosity : Nat) : List String → Except UsageError Request
  | [] => .error .missingCommand
  | "check" :: args => ofCheck verbosity args
  | "eval" :: args => ofEval verbosity args
  | name :: args => do
    if asksForHelp (← mainOptions.read (name :: args)) then return .help
    throw (.noSuchCommand name)

/-- What the arguments of a run ask for. -/
def ofArgs (args : List String) : Except UsageError Request := do
  let parsed ← mainOptions.read args
  if asksForHelp parsed then return .help
  let verbosity := (parsed.options.filter fun o => o.1 == verboseOption.long).length
  ofCommand verbosity parsed.arguments

end Request

namespace Outcome

def ofUsageError (e : UsageError) : Outcome := { exit := 2, usageError := some e }

/-- The lines that are shown. -/
def shownLog (least : Severity) (lines : List LogLine) : List LogLine :=
  lines.filter fun l => least.shown l.severity

/-- Each path with what stands there. A path has to exist, and reading it has to be
allowed. -/
def lookUp (find : String → Option FileTree) (mayRead : String → Bool) :
    List String → Except UsageError (List (String × FileTree))
  | [] => .ok []
  | path :: rest =>
    let refused (why : String) : UsageError :=
      .invalidValue "'PATHS...'" ("Path " ++ Text.quoted path ++ why)
    match find path with
    | none => .error (refused " does not exist.")
    | some tree =>
      if mayRead path then (lookUp find mayRead rest).map ((path, tree) :: ·)
      else .error (refused " is not readable.")

/-- Check the files that paths stand for. -/
def ofCheck (least : Severity) (format : ReportFormat) (files : List SourceFile) (host : Host) :
    Outcome :=
  let findings := Report.findings files host
  { exit := if findings.isEmpty then 0 else 1
    output := format.render findings
    log := shownLog least (Report.log least files host) }

/-- The value and the verdict of an expression. -/
def ofValue (least : Severity) (e : Expr) (v : Value) : Outcome :=
  let verdict := match v.toBool? with
    | some true => "true"
    | some false => "false"
    | none => "unknown"
  { exit := 0
    output := "value:   " ++ v.text ++ "\nverdict: " ++ verdict ++ "\n"
    log := if least.shown .trace then traceLines e else [] }

/-- Evaluate an expression given as text. A failure of the evaluation itself ends the run
without an answer. -/
def ofEval (least : Severity) (text : String) (host : Host) : Outcome :=
  match Expr.ofText text host with
  | .error e => ofUsageError (.invalidValue "EXPRESSION" e.message)
  | .ok e =>
    match e.evaluateBounded host with
    | .ok v => ofValue least e v
    | .error _ => { exit := 1 }

/-- Run the program on its arguments, where `find` tells what stands at a path and `mayRead`
whether reading it is allowed. -/
def run (find : String → Option FileTree) (args : List String)
    (mayRead : String → Bool := fun _ => true) (host : Host := .usual) : Outcome :=
  if args = [] then { exit := 2 }
  else match Request.ofArgs args with
    | .error e => ofUsageError e
    | .ok .help => { exit := 0 }
    | .ok (.eval verbosity text) => ofEval (.threshold verbosity) text host
    | .ok (.check verbosity format paths) =>
      match lookUp find mayRead paths with
      | .error e => ofUsageError e
      | .ok trees => ofCheck (.threshold verbosity) format (SourceFile.ofPaths trees) host

end Outcome
end Foregone
