import Foregone.Guard

/-! # Reports about guards

A guard is reported when its truth is the same on every run. Each guard is judged on
its own: an `elif` knows nothing about the guards before it. Every report is also
handed to a sink as soon as it is found. -/

namespace Foregone

structure Diagnostic where
  location : Location
  message : String
  verdict : Bool
  deriving DecidableEq

namespace Diagnostic

def messageOf (verdict : Bool) : String :=
  "The condition is always " ++ if verdict then "true" else "false"

def ofVerdict (location : Location) (verdict : Bool) : Diagnostic :=
  ⟨location, messageOf verdict, verdict⟩

def text (d : Diagnostic) : String := d.location.text ++ ": " ++ d.message

end Diagnostic

namespace Guard

/-- The truth of the guard where it is the same on every run; a guard that nests too
deeply has none. -/
def verdict? (g : Guard) (host : Host) : Option Bool :=
  match g.expr.evaluateBounded host with
  | .ok v => v.toBool?
  | .error _ => none

def diagnostic? (g : Guard) (host : Host := .usual) : Option Diagnostic :=
  (g.verdict? host).map (Diagnostic.ofVerdict g.location)

/-- Judge the guard and hand a report to the sink. -/
def check {m : Type → Type} [Monad m] (sink : Diagnostic → m Unit) (g : Guard) (host : Host) :
    m (Option Diagnostic) := do
  match g.diagnostic? host with
  | some d =>
    sink d
    return some d
  | none => return none

end Guard

namespace IfStatement

/-- Judge the guards of a statement one by one. -/
def check {m : Type → Type} [Monad m] (sink : Diagnostic → m Unit) (s : IfStatement)
    (host : Host := .usual) : m (List Diagnostic) := do
  let found ← s.guards.mapM (Guard.check sink · host)
  return found.filterMap id

/-- Judge statement by statement. -/
def checkAll {m : Type → Type} [Monad m] (sink : Diagnostic → m Unit)
    (statements : List IfStatement) (host : Host) : m (List Diagnostic) := do
  let found ← statements.mapM (check sink · host)
  return found.flatten

end IfStatement

/-- Judge all guards of a source. -/
def checkSource {m : Type → Type} [Monad m] (sink : Diagnostic → m Unit)
    (source : List UInt8) (host : Host := .usual) : m (List Diagnostic) :=
  IfStatement.checkAll sink (IfStatement.ofSource source host) host

end Foregone
