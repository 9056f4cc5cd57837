import Oberon.Grammar.Module

/-!
# Oberon.Outcome

What comes out of reading a source: the resolved module, unless not even its name could be read,
the state the analysis was left in, and the tokens that were skipped.
-/

namespace Oberon

structure Outcome where
  module : Option Module
  analysis : Analysis
  skipped : List (Recovery × Token)

namespace Outcome

def ofReading (parser : (n : Nat) → Parser n (Option Module)) (features : Features)
    (library : Library) (source : String) : Outcome :=
  let r := parser _ (Cursor.ofSource source (.start features library)) (Nat.lt_succ_self _)
  ⟨r.value, r.cursor.analysis, r.cursor.skipped⟩

/-- Read and analyse a source. Whatever is wrong with it is in the log. -/
def ofSource (features : Features) (library : Library) (source : String) : Outcome :=
  ofReading (fun _ => Grammar.module) features library source

def store (o : Outcome) : Store := o.analysis.store

/-- The messages; a strict reader takes warnings for errors. -/
def log (o : Outcome) (strict : Bool) : Log Message :=
  if strict then o.analysis.log.promoted else o.analysis.log

end Outcome
end Oberon
