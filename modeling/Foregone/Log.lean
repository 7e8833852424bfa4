/-! # Log lines

What the program tells about its work, by severity. How often the user asks for more
sets the least severity that is shown. -/

namespace Foregone

inductive Severity where
  | trace
  | debug
  | info
  | success
  | warning
  deriving DecidableEq, Repr

namespace Severity

def rank : Severity → Nat
  | .trace => 0
  | .debug => 1
  | .info => 2
  | .success => 3
  | .warning => 4

def name : Severity → String
  | .trace => "TRACE"
  | .debug => "DEBUG"
  | .info => "INFO"
  | .success => "SUCCESS"
  | .warning => "WARNING"

/-- The least severity shown after asking for more `verbosity` times. -/
def threshold : Nat → Severity
  | 0 => .success
  | 1 => .info
  | 2 => .debug
  | _ => .trace

/-- A line of this severity is shown under a threshold. -/
def shown (least s : Severity) : Bool := least.rank ≤ s.rank

end Severity

structure LogLine where
  severity : Severity
  message : String
  deriving DecidableEq, Repr

/-- The severities are as wide as this on the screen. -/
def LogLine.nameWidth : Nat := 8

/-- A line as it is shown. -/
def LogLine.text (l : LogLine) : String :=
  let name := l.severity.name
  name ++ "".pushn ' ' (nameWidth - name.length) ++ ": " ++ l.message

end Foregone
