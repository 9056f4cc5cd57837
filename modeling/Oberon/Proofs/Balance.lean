import Oberon.Outcome
import Oberon.Proofs.Uniform

/-!
# Oberon.Proofs.Balance

What is open when a source has been read, and which EXIT statements are reported. Whatever is wrong
with a source, everything that has been begun in it is ended: reading a module leaves the analysis
in the scope of the module, in no procedure, no loop and no CASE statement, with no pointer waiting
for its base. So the loops that are counted as open at an EXIT are those around it: a reader that is
told how many these are makes the same of every source (`statementsAt`). So does a strict reader, but
that warnings are errors.
-/

set_option synthInstance.maxSize 2000

namespace Oberon

open Analysis Analysis.Context Grammar

/-! ## What is open in the end -/

namespace Analysis

variable {a b c : Analysis}

/-- Nothing is open but the scope of the module. -/
structure Balanced (a : Analysis) : Prop where
  outer : a.scopes.outer = []
  procedures : a.procedures = []
  loops : a.loops = 0
  cases : a.cases = []
  forwards : a.forwards = []

lemma Balanced.settles (h : a.Balanced) (hs : a.Settles Eq b) : b.Balanced where
  outer := (congrArg Context.outer hs.context).symm.trans h.outer
  procedures := (congrArg Context.procedures hs.context).symm.trans h.procedures
  loops := (congrArg Context.loops hs.context).symm.trans h.loops
  cases := (congrArg Context.cases hs.context).symm.trans h.cases
  forwards := (hs.forwards (by simp [h.forwards])).trans h.forwards

/-- As many loops are open, and nothing is if nothing was. -/
structure Balances (a b : Analysis) : Prop where
  loops : a.loops = b.loops
  balanced : a.Balanced → b.Balanced

lemma Settles.balances (h : a.Settles Eq b) : a.Balances b :=
  ⟨congrArg Context.loops h.context, fun ha => ha.settles h⟩

instance : Coarse Balances where
  of_steady h := h.settles.balances
  trans h1 h2 := ⟨h1.loops.trans h2.loops, fun ha => h2.balanced (h1.balanced ha)⟩
  of_settles h := h.balances

instance : Leads Balances r r := .of_loops Balances.loops

end Analysis

instance (ident : Ident) : Analyze.Keeps Balances (Analyze.beginModule ident) :=
  ⟨fun _ => ⟨rfl, fun h => ⟨rfl, rfl, h.loops, h.cases, rfl⟩⟩, fun _ => rfl⟩

namespace Grammar

/-! ## The loops around a statement -/

/-- An EXIT within a number of loops. -/
def exitAt (depth : Nat) (span : Span) : Analyze Statement := do
  Analyze.reportIf (depth == 0) span (.statement .exitOutsideLoop)
  return .exit span

/-- A statement within a number of loops of its body, behind its first token. -/
def statementAt (statements : Nat → Parser n (List Statement)) (depth : Nat) (t : Token) :
    Parser n (Option Statement) :=
  match t.lexis with
  | .keyword .LOOP => do return some (← loopStatement (statements (depth + 1)) t.span)
  | .keyword .WHILE => whileStatement (statements (depth + 1)) t.span
  | .keyword .REPEAT => repeatStatement (statements (depth + 1)) t.span
  | .keyword .FOR => forStatement (statements (depth + 1)) t.span
  | .keyword .EXIT => do return some (← exitAt depth t.span)
  | _ => statement (statements depth) t

/-- Statements within a number of loops. -/
def statementsAt : (n depth : Nat) → Parser n (List Statement)
  | 0, _ => fun _ h => absurd h (Nat.not_lt_zero _)
  | n + 1, depth => statementSequence (statementAt (statementsAt n) depth)

open Oberon.Parser

instance (span : Span) :
    Uniform ⟨strict, some d⟩ Steady (liftM (Analyze.exit span) : Parser n Statement)
     (liftM (exitAt d span) : Parser m Statement) := by
  have hexit (r) : Uniform r Steady (liftM (Analyze.exit span) : Parser n Statement)
    (liftM (Analyze.exit span) : Parser m Statement) := inferInstance
  refine ⟨fun c hn hm hc => ?_, (hexit {}).consumes, (hexit {}).keeps⟩
  obtain rfl := hc d rfl
  exact (hexit ⟨strict, some _⟩).same c hn hm hc

instance (statements : Parser n (List Statement)) (statements' : Nat → Parser m (List Statement))
    [∀ d, Uniform ⟨strict, some d⟩ Steady statements (statements' d)] (t : Token) :
    Uniform ⟨strict, some d⟩ Steady (statement statements t) (statementAt statements' d t) := by
  unfold statementAt
  split
  case h_6 hloop hwhile hrepeat hfor hexit =>
    unfold statement
    split
    case h_4 ht => exact absurd ht hloop
    case h_5 ht => exact absurd ht hwhile
    case h_6 ht => exact absurd ht hrepeat
    case h_7 ht => exact absurd ht hfor
    case h_8 ht => exact absurd ht hexit
    all_goals infer_instance
  all_goals
    rename_i ht
    simp only [statement, ht]
    infer_instance

instance (n m d : Nat) : Uniform ⟨strict, some d⟩ Steady (statements n) (statementsAt m d) := by
  induction n generalizing m d with
  | zero => infer_instance
  | succ n ih =>
    cases m with
    | zero =>
      have h : Uniform {} Steady (statements (n + 1)) (statements (n + 1)) := inferInstance
      exact .zero h
    | succ m =>
      exact inferInstanceAs (Uniform ⟨strict, some d⟩ Steady
        (statementSequence (statement (statements n)))
        (statementSequence (statementAt (statementsAt m) d)))

end Grammar

namespace Outcome

/-- Whatever the source, a module that could be read leaves open nothing but its own scope; and an
EXIT is reported just where no loop of the same body is around it. -/
theorem balanced_and_exits_reported (features : Features) (library : Library) (source : String) :
    ((ofSource features library source).module.isSome = true →
     (ofSource features library source).analysis.Balanced ∧
     (ofSource features library source).analysis.scopes.level = Scopes.moduleLevel) ∧
    ofSource features library source =
    ofReading (fun _ => moduleOver fun n => statementsAt n 0) features library source := by
  have hmodule (n : Nat) : Parser.Uniform ⟨false, some 0⟩ Balances (@moduleOver n statements)
      (@moduleOver n fun n => statementsAt n 0) := inferInstance
  constructor
  · intro _
    have hb : (ofSource features library source).analysis.Balanced :=
      ((hmodule _).keeps (Cursor.ofSource source (.start features library))
        (Nat.lt_succ_self _)).balanced ⟨rfl, rfl, rfl, rfl, rfl⟩
    have hlevel : (ofSource features library source).analysis.scopes.level = Scopes.moduleLevel := by
      simp [Scopes.level, hb.outer]
    exact ⟨hb, hlevel⟩
  · have hsame := (hmodule _).same (Cursor.ofSource source (.start features library))
      (Nat.lt_succ_self _) (Nat.lt_succ_self _) fun _ hk => by cases hk; rfl
    exact congrArg (fun r : Reached _ (Option Module) =>
      Outcome.mk r.value r.cursor.analysis r.cursor.skipped) hsame

/-- A source that breaks off in a loop, behind an EXIT outside of it. -/
def brokenOff : String := "MODULE M; PROCEDURE P; BEGIN EXIT; LOOP IF TRUE THEN EXIT"

theorem brokenOff_balanced : (ofSource {} {} brokenOff).module.isSome = true ∧
    (ofSource {} {} brokenOff).analysis.Balanced :=
  have h : (ofSource {} {} brokenOff).module.isSome = true := by decide +kernel
  ⟨h, ((balanced_and_exits_reported {} {} brokenOff).1 h).1⟩

/-! ## Strict readers -/

/-- A strict reader makes the same of a source as a lenient one, and reports the same at the same
places: just the warnings among it are errors. -/
theorem strict_relabels (features : Features) (library : Library) (source : String) :
    let lenient := ofSource { features with strict := false } library source
    let strict := ofSource { features with strict := true } library source
    strict.module = lenient.module ∧ strict.store = lenient.store ∧ strict.skipped = lenient.skipped ∧
      strict.analysis.log.entries = lenient.analysis.log.entries.map fun d =>
        { d with severity := d.severity.promoted } := by
  intro lenient strict
  have hmodule (n : Nat) : Parser.Uniform ⟨true, none⟩ Logs (@Grammar.module n) (@Grammar.module n) :=
    inferInstance
  let start (strict : Bool) : Analysis := .start { features with strict } library
  have hstart : start true = (start false).strictly := by
    simp [start, Analysis.start, Analysis.strictly, Log.strictly, Log.promoted]
  have hsame := (hmodule _).same (Cursor.ofSource source (start false)) (Nat.lt_succ_self _)
    (Nat.lt_succ_self _) fun _ hk => by cases hk
  let outcome {c : Cursor} (r : Reached c (Option Module)) : Outcome :=
    ⟨r.value, r.cursor.analysis, r.cursor.skipped⟩
  have hstrict : strict = { lenient with analysis := lenient.analysis.strictly } :=
    (congrArg (fun a => outcome (Grammar.module (Cursor.ofSource source a) (Nat.lt_succ_self _)))
      hstart).trans (congrArg outcome hsame)
  rw [hstrict]
  exact ⟨rfl, rfl, rfl, rfl⟩

end Outcome
end Oberon
