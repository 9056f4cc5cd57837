import Oberon.Analysis.Cases
import Oberon.Analysis.Statements
import Oberon.Grammar.Expressions

/-!
# Oberon.Grammar.Statements

Statement sequences. Every statement starts with a token of its own, and the sequences inside it
stand behind that token.
-/

namespace Oberon
namespace Grammar

open Oberon.Parser

variable {n : Nat}

/-- Tokens that close a statement sequence; the end of the source does too. -/
def sequenceEnd : Lexis → Bool := Lexis.among [.END, .ELSIF, .ELSE, .UNTIL] [.bar]

def startsStatement : Lexis → Bool
  | .ident _ => true
  | l => Lexis.among [.IF, .CASE, .LOOP, .WHILE, .REPEAT, .FOR, .EXIT, .RETURN] [] l

def assignment (target : Span) (ident : QualIdent) (selectors : List Selector) :
    Parser n (Option Statement) := do
  let target ← Analyze.designator target ident selectors
  let value ← expression n
  Analyze.assignment (← spanFrom target.span) target value

def assignmentOrCall (first : Ident) : Parser n (Option Statement) := do
  let (ident, selectors) ← designator (expression n) first
  let span ← spanFrom first.span
  let t ← peek
  match t.lexis with
  | .symbol .eq =>
    let _ ← next
    report t.span .equalsForBecomes
    assignment span ident selectors
  | .symbol .becomes =>
    let _ ← next
    assignment span ident selectors
  | _ => Analyze.callStatement span ident selectors

/-- `{ELSIF expression separator statements}` -/
def elsifs (statements : Parser n (List Statement)) (separator : Keyword) :
    Parser n (List Branch) :=
  loopWhile (n := n) (Lexis.isKeyword .ELSIF)
    (fun t branches => do
      let test ← expression n
      let _ ← keyword separator
      let body ← statements
      let branch ← Analyze.branch (← spanFrom t.span) test body
      return .again (branches ++ branch.toList)) []

/-- `[ELSE statements]` -/
def otherwise (statements : Parser n (List Statement)) : Parser n (Option (List Statement)) := do
  if ← acceptKeyword .ELSE then return some (← statements) else return none

def ifStatement (statements : Parser n (List Statement)) (start : Span) :
    Parser n (Option Statement) := do
  let test ← expression n
  let _ ← keyword .THEN
  let body ← statements
  let branches ← elsifs statements .THEN
  let rest ← otherwise statements
  let _ ← keyword .END
  Analyze.conditional (← spanFrom start) test body branches rest

/-! ## CASE -/

def caseArm (statements : Parser n (List Statement)) : Parser n Arm := do
  let start := (← peek).span
  let labels ← rangeExpressionList (expression n)
  let span ← spanFrom start
  let _ ← symbol .colon
  let labels ← Analyze.caseLabels span labels
  let body ← statements
  Analyze.caseArm labels body

/-- One or more arms with bars between them. A bar before the first one is superfluous. -/
def caseArms (statements : Parser n (List Statement)) : Parser n (List Arm) := do
  let t ← peek
  if t.lexis.isSymbol .bar then
    let _ ← next
    warn t.span .redundantPipe
  let first ← caseArm statements
  loopWhile (Lexis.isSymbol .bar)
    (fun _ arms => do return .again (arms ++ [← caseArm statements])) [first]

def caseBody (statements : Parser n (List Statement)) (start : Span) :
    Parser n (List Arm × Option (List Statement)) := do
  if !(← keyword .OF) then return ([], none)
  else
    let arms ← if ← check (Lexis.among [.ELSE, .END] []) then do
        report start .emptyCase
        pure []
      else caseArms statements
    let rest ← otherwise statements
    let _ ← keyword .END
    return (arms, rest)

def caseStatement (statements : Parser n (List Statement)) (start : Span) :
    Parser n (Option Statement) := do
  match ← expression n with
  | some subject =>
    Analyze.beginCase subject
    let (arms, rest) ← caseBody statements start
    return some (← Analyze.endCase (← spanFrom start) subject arms rest)
  | none =>
    let _ ← caseBody statements start
    return none

/-! ## Loops -/

def loopStatement (statements : Parser n (List Statement)) (start : Span) :
    Parser n Statement := do
  Analyze.beginLoop
  let body ← statements
  let _ ← keyword .END
  Analyze.loop (← spanFrom start) body

def whileStatement (statements : Parser n (List Statement)) (start : Span) :
    Parser n (Option Statement) := do
  Analyze.beginLoop
  let test ← expression n
  let _ ← keyword .DO
  let body ← statements
  let branches ← elsifs statements .DO
  let _ ← keyword .END
  Analyze.whileLoop (← spanFrom start) test body branches

def repeatStatement (statements : Parser n (List Statement)) (start : Span) :
    Parser n (Option Statement) := do
  Analyze.beginLoop
  let body ← statements
  let test ← if ← keyword .UNTIL then expression n else pure none
  Analyze.repeatLoop (← spanFrom start) test body

def forStatement (statements : Parser n (List Statement)) (start : Span) :
    Parser n (Option Statement) := do
  Analyze.beginLoop
  let counter ← qualident
  let low ← if ← symbol .becomes then expression n else pure none
  let high ← if ← keyword .TO then expression n else pure none
  let step ← if ← acceptKeyword .BY then expression n else pure none
  let _ ← keyword .DO
  let body ← statements
  let _ ← keyword .END
  let span ← spanFrom start
  match counter with
  | none =>
    Analyze.endLoop
    return none
  | some counter => Analyze.forLoop span counter low high step body

/-! ## Sequences -/

def returnStatement (start : Span) : Parser n Statement := do
  let isBare ← check (Lexis.among [.END, .ELSIF, .ELSE, .UNTIL] [.semicolon, .bar])
  let value ← if isBare then pure none else expression n
  Analyze.returnFrom (← spanFrom start) value

def statement (statements : Parser n (List Statement)) (t : Token) :
    Parser n (Option Statement) :=
  match t.lexis with
  | .ident name => assignmentOrCall ⟨name, t.span⟩
  | .keyword .IF => ifStatement statements t.span
  | .keyword .CASE => caseStatement statements t.span
  | .keyword .LOOP => do return some (← loopStatement statements t.span)
  | .keyword .WHILE => whileStatement statements t.span
  | .keyword .REPEAT => repeatStatement statements t.span
  | .keyword .FOR => forStatement statements t.span
  | .keyword .EXIT => do return some (← Analyze.exit t.span)
  | .keyword .RETURN => do return some (← returnStatement t.span)
  | _ => do
    report t.span .unknownStatement
    return none

def sequenceGoesOn : Parser n Bool := do
  let t ← peek
  if t.lexis.isSymbol .semicolon then
    let _ ← next
    return true
  else if startsStatement t.lexis then
    let stop := (← previous).stop
    report ⟨stop, stop⟩ .semicolonMissing
    return true
  else if t.lexis.isEof then
    report t.span .prematureEnd
    return false
  else if sequenceEnd t.lexis then return false
  else
    reportUnexpected t
    resync .statement
    return true

def statementSequence (statement : Token → Parser n (Option Statement)) :
    Parser (n + 1) (List Statement) := do
  let sequence ← loopWhile (fun l => !sequenceEnd l)
    (fun t sequence => do
      if t.lexis.isSymbol .semicolon then return .again sequence
      else
        let s ← statement t
        let sequence := sequence ++ s.toList
        if ← sequenceGoesOn then return .again sequence else return .done sequence)
    []
  Analyze.sequence sequence
  return sequence

def statementsBody (n : Nat) (statements : Parser n (List Statement)) :
    Parser (n + 1) (List Statement) :=
  statementSequence (statement statements)

def statements : (n : Nat) → Parser n (List Statement) := fix statementsBody

end Grammar
end Oberon
