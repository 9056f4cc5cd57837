import Oberon.Span

/-!
# Oberon.Diagnostic

Diagnostics and the log that collects them in order. A strict log takes warnings down as errors.
-/

namespace Oberon

/-- From least to most severe. -/
inductive Severity where
  | debug
  | info
  | warning
  | error
deriving DecidableEq, Inhabited

namespace Severity

def all : List Severity := [debug, info, warning, error]

def rank : Severity → Nat
  | debug => 0
  | info => 1
  | warning => 2
  | error => 3

def text : Severity → String
  | debug => "debug"
  | info => "info"
  | warning => "warning"
  | error => "error"

def promoted : Severity → Severity
  | warning => error
  | severity => severity

end Severity

structure Diagnostic (μ : Type) where
  severity : Severity
  message : μ
  span : Span

structure Log (μ : Type) where
  entries : Array (Diagnostic μ) := #[]
  strict : Bool := false

namespace Log

variable {μ : Type}

instance : Inhabited (Log μ) := ⟨{}⟩

def record (log : Log μ) (severity : Severity) (span : Span) (message : μ) : Log μ :=
  { log with entries := log.entries.push ⟨severity, message, span⟩ }

def warning (log : Log μ) (span : Span) (message : μ) : Log μ :=
  log.record (if log.strict then .error else .warning) span message

def promoted (log : Log μ) : Log μ :=
  { log with entries := log.entries.map fun d => { d with severity := d.severity.promoted } }

def since (log : Log μ) (n : Nat) : Log μ :=
  { log with entries := log.entries.extract n log.entries.size }

def count (log : Log μ) (severity : Severity) : Nat :=
  log.entries.countP fun d => d.severity == severity

def errorCount (log : Log μ) : Nat := log.count .error

def hasErrors (log : Log μ) : Bool := log.errorCount > 0

def atLeast (log : Log μ) (severity : Severity) : Array (Diagnostic μ) :=
  log.entries.filter fun d => severity.rank ≤ d.severity.rank

def select (log : Log μ) (severity : Severity) : Array (Diagnostic μ) :=
  log.entries.filter fun d => d.severity == severity

end Log
end Oberon
