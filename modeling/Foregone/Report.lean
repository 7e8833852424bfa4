import Foregone.Diagnostic
import Foregone.Expr.Trace
import Foregone.FileTree
import Foregone.Log
import Foregone.Text.Json

/-! # Checking files

All sources are checked one after the other. What is found is printed at the end,
one line or one record for each report; what cannot be read is skipped with a
warning. -/

namespace Foregone

/-- A report and the file it is about. -/
structure Finding where
  path : String
  diagnostic : Diagnostic
  deriving DecidableEq

namespace Finding

def line (f : Finding) : String := f.path ++ ":" ++ f.diagnostic.text ++ "\n"

/-- The fields of a record in order, with their values. -/
def fields (f : Finding) : List (String × String) :=
  let d := f.diagnostic
  [("path", Text.jsonString f.path), ("line", toString d.location.line),
    ("column", toString d.location.column), ("end_line", toString d.location.endLine),
    ("end_column", toString d.location.endColumn),
    ("verdict", if d.verdict then "true" else "false"),
    ("message", Text.jsonString d.message)]

def record (f : Finding) : String :=
  let field := fun (e : String × String) => "    " ++ Text.jsonString e.1 ++ ": " ++ e.2
  "  \x7b\n" ++ ",\n".intercalate (f.fields.map field) ++ "\n  \x7d"

end Finding

/-- How findings are printed. -/
inductive ReportFormat where
  | text
  | json
  deriving DecidableEq, Repr

namespace ReportFormat

def name : ReportFormat → String
  | .text => "text"
  | .json => "json"

def all : List ReportFormat := [.text, .json]

def render (format : ReportFormat) (findings : List Finding) : String :=
  match format, findings with
  | .text, _ => "".intercalate (findings.map Finding.line)
  | .json, [] => "[]\n"
  | .json, _ => "[\n" ++ ",\n".intercalate (findings.map Finding.record) ++ "\n]\n"

end ReportFormat

/-- Guards are skipped with this warning when they nest too deeply. -/
def tooDeepWarning (l : Location) : LogLine :=
  ⟨.warning, "guard at " ++ l.text ++ " is nested too deeply, skipping it"⟩

/-- A step of an evaluation. -/
def traceLines (e : Expr) : List LogLine := e.steps.map fun s => ⟨.trace, s⟩

namespace Guard

/-- What is told about a guard; the steps of its evaluation only if they are shown. -/
def log (least : Severity) (g : Guard) (host : Host) : List LogLine :=
  if host.cannotEvaluate g.expr then [tooDeepWarning g.location]
  else
    let verdict := match g.verdict? host with
      | some b => truthText b
      | none => "None"
    (if least.shown .trace then traceLines g.expr else []) ++
      [⟨.debug, "guard " ++ Text.quoted g.text ++ " at " ++ g.location.text ++ ": " ++ verdict⟩]

end Guard

namespace Report

/-- The warnings for the conditions of a tree that nest too deeply to be converted. -/
def depthWarnings (source : List UInt8) (tree : Node) (host : Host) : List LogLine :=
  (IfStatement.nodesOf tree).flatMap fun n =>
    ((IfStatement.conditions? n).getD []).filterMap fun condition =>
      if host.cannotConvert condition then some (tooDeepWarning (.ofNode source condition))
      else none

/-- What is told while a source is checked. -/
def sourceLog (least : Severity) (source : List UInt8) (host : Host) : List LogLine :=
  depthWarnings source (host.parse source) host ++
    (IfStatement.ofSource source host).flatMap fun s =>
      s.guards.flatMap (Guard.log least · host)

/-- The findings in a source file that can be read. -/
def findingsIn (path : String) (source : List UInt8) (host : Host) : List Finding :=
  (Id.run (checkSource (fun _ => pure ()) source host)).map fun d => ⟨path, d⟩

def findingsOf (f : SourceFile) (host : Host) : List Finding :=
  match f.content with
  | .ok source => findingsIn f.path source host
  | .error _ => []

/-- What is told about one source file. -/
def fileLog (least : Severity) (f : SourceFile) (host : Host) : List LogLine :=
  ⟨.info, "Checking " ++ f.path⟩ ::
    match f.content with
    | .ok source => sourceLog least source host
    | .error reason =>
      [⟨.warning, "Could not read " ++ f.path ++ ": " ++ reason ++ ": " ++ Text.quoted f.path⟩]

def isReadable (f : SourceFile) : Bool :=
  match f.content with
  | .ok _ => true
  | .error _ => false

def findings (files : List SourceFile) (host : Host) : List Finding :=
  files.flatMap (findingsOf · host)

/-- The last line of a run: how many files were read and how much was found. -/
def summary (files : List SourceFile) (host : Host) : LogLine :=
  let read := files.filter isReadable
  ⟨.success, "Checked " ++ toString read.length ++ " file(s), found "
    ++ toString (findings files host).length ++ " constant condition(s)"⟩

def log (least : Severity) (files : List SourceFile) (host : Host) : List LogLine :=
  files.flatMap (fileLog least · host) ++ [summary files host]

end Report
end Foregone
