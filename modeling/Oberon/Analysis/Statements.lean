import Oberon.Analysis.Designators
import Oberon.Statement

/-!
# Oberon.Analysis.Statements

Statements other than CASE. A statement of which an essential part is missing is reported and left
out.
-/

namespace Oberon
namespace Analyze

def sequence (statements : List Statement) : Analyze Unit :=
  match terminatorIndex? statements with
  | none => pure ()
  | some i =>
    match statements[i + 1]? with
    | none => pure ()
    | some next => report next.span (.statement .unreachable)

def assignTo (target : Expr) (value : Expr) : Analyze Expr := do
  if target.type == .undefined || value.type == .undefined then return value
  else if !(← checkCompatible value.span target.type value.type) then return value
  else if target.type == value.type then return value
  else
    reportIf (!value.isLiteral && (← getStore).isArray target.type && value.type.isChar)
      target.span (.statement .charToStringVariable)
    convertValue value target.type

def assignment (span : Span) (target : Expr) (value : Option Expr) :
    Analyze (Option Statement) := do
  match (← getStore).unwritable? target with
  | some what => report target.span (.statement (.cannotAssign what))
  | none => pure ()
  match value with
  | none =>
    report span (.statement .undefinedValue)
    return none
  | some value => return some (.assign target (← assignTo target value) span)

/-! ## Conditions -/

def condition (span : Span) (statement : String) : Option Expr → Analyze (Option Expr)
  | none => do
    report span (.statement (.undefinedCondition statement))
    return none
  | some test => do
    reportIf (test.type != .undefined && !test.type.isBoolean) test.span
      (.statement .booleanExpected)
    return some test

def conditional (span : Span) (test : Option Expr) (body : List Statement)
    (elsifs : List Branch) (otherwise : Option (List Statement)) :
    Analyze (Option Statement) := do
  let test ← condition span "if-statement" test
  return test.map fun test => .cond test body elsifs otherwise span

def branch (span : Span) (test : Option Expr) (body : List Statement) :
    Analyze (Option Branch) := do
  let test ← condition span "elsif-statement" test
  return test.map fun test => .mk test body span

/-! ## Loops -/

def beginLoop : Analyze Unit := modify fun a => { a with loops := a.loops + 1 }

def endLoop : Analyze Unit := modify fun a => { a with loops := a.loops - 1 }

def loop (span : Span) (body : List Statement) : Analyze Statement := do
  if !hasExit body then warn span (.statement .loopWithoutExit)
  endLoop
  return .loop body span

def whileLoop (span : Span) (test : Option Expr) (body : List Statement)
    (elsifs : List Branch) : Analyze (Option Statement) := do
  endLoop
  let test ← condition span "while-loop" test
  return test.map fun test => .while test body elsifs span

def repeatLoop (span : Span) (test : Option Expr) (body : List Statement) :
    Analyze (Option Statement) := do
  endLoop
  let test ← condition span "repeat-loop" test
  return test.map fun test => .repeat body test span

def counterType (ident : QualIdent) (counter : Expr) : Analyze (Option Ty) := do
  let store ← getStore
  match counter.root? with
  | none => return none
  | some id =>
    let d := store.decl id
    reportIf (!d.isVariable) ident.span (.statement .variableExpected)
    if d.type == .undefined then return none
    else if d.type.isInteger then return some d.type
    else
      report ident.span (.statement (.integerTypeExpected (store.typeText d.type)))
      return none

def forBound (type : Option Ty) (bound : Expr) : Analyze Expr := do
  match type with
  | none => return bound
  | some type =>
    if bound.type == .undefined then return bound
    else if ← checkCompatible bound.span type bound.type then
      return (← getStore).convert bound type
    else return bound

/-- The step of a loop is a constant other than zero, one if it is left out. -/
def forStep (span : Span) (type : Option Ty) : Option Expr → Analyze Expr
  | none => return .literal (.integer 1) { type := .integer, span }
  | some step => do
    match step.literal?, type with
    | none, _ =>
      report step.span (.statement .constantStepExpected)
      return step
    | some (.integer 0), _ =>
      report step.span (.statement .zeroStep)
      return step
    | some _, none => return step
    | some _, some type =>
      if ← checkCompatible step.span type step.type then
        return (← getStore).convert step type
      else return step

def forLoop (span : Span) (ident : QualIdent) (low high step : Option Expr)
    (body : List Statement) : Analyze (Option Statement) := do
  endLoop
  let counter ← designator ident.span ident []
  reportIf ident.isQualified ident.span (.statement (.notACounter ident.text))
  let type ← counterType ident counter
  match low, high with
  | none, _ =>
    report span (.statement .undefinedLow)
    return none
  | some _, none =>
    report span (.statement .undefinedHigh)
    return none
  | some low, some high =>
    let low ← forBound type low
    let high ← forBound type high
    let step ← forStep span type step
    return some (.for counter low high step body span)

/-! ## Leaving -/

def exit (span : Span) : Analyze Statement := do
  reportIf ((← get).loops == 0) span (.statement .exitOutsideLoop)
  return .exit span

def returnValue (span : Span) (result : Option Ty) (value : Option Expr) :
    Analyze (Option Expr) := do
  match value, result with
  | some value, none =>
    report value.span (.statement .procedureResult)
    return some value
  | some value, some type =>
    if value.type == .undefined then return some value
    else if ← checkCompatible value.span type value.type then
      return some (← convertValue value type)
    else return some value
  | none, some _ =>
    report span (.statement .missingResult)
    return none
  | none, none => return none

def returnFrom (span : Span) (value : Option Expr) : Analyze Statement := do
  let a ← get
  match a.procedures with
  | [] =>
    match value with
    | some value => report value.span (.statement .moduleResult)
    | none => pure ()
    return .return value span
  | id :: _ =>
    let result := (a.store.signature? (a.store.typeOf id)).bind Signature.result
    return .return (← returnValue span result value) span

/-! ## Calls -/

def lastField? : List Selector → Option DeclId
  | [] => none
  | .field _ decl _ :: rest => (lastField? rest).or decl
  | _ :: rest => lastField? rest

def bareCall (span : Span) (ident : QualIdent) (id : DeclId) (selectors : List Selector)
    (type : Ty) (signature : Signature) : Analyze Statement := do
  reportIf signature.result.isSome ident.span (.statement .missingArguments)
  let context := (lastField? selectors).getD id
  let callSpan : Span := ⟨ident.span.stop, ident.span.stop⟩
  let (result, _) ← call context type callSpan []
  let type := result.getD .undefined
  let selectors := selectors ++ [.call [] { span := callSpan, type }]
  return .call (.designator ident (some id) selectors { type, span }) span

def callStatement (span : Span) (ident : QualIdent) (selectors : List Selector) :
    Analyze (Option Statement) := do
  let a ← get
  match a.scopes.lookup ident with
  | none =>
    report ident.span (.expression (.undefinedIdentifier ident.text))
    return none
  | some id =>
    let (selectors, type) ← resolve id (a.store.typeOf id) selectors
    match (← getStore).signature? type with
    | some signature => return some (← bareCall span ident id selectors type signature)
    | none =>
      if endsInCall selectors then
        if type != .undefined then warn ident.span (.statement .discardedValue)
        return some (.call (.designator ident (some id) selectors { type, span }) span)
      else
        report ident.span (.statement .callExpected)
        return none

end Analyze
end Oberon
