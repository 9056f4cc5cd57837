import Oberon.Analysis.Selectors

/-!
# Oberon.Analysis.Designators

Names in expressions: variables, parameters, types, procedures, and constants, which are replaced
by their value.
-/

namespace Oberon
namespace Analyze

def endsInCall (selectors : List Selector) : Bool :=
  match selectors.getLast? with
  | some s => s.isCall
  | none => false

def designator (span : Span) (ident : QualIdent) (selectors : List Selector) : Analyze Expr := do
  let a ← get
  match a.scopes.lookup ident with
  | none =>
    report ident.span (.expression (.undefinedIdentifier ident.text))
    return .designator ident none selectors { type := .undefined, span }
  | some id =>
    let d := a.store.decl id
    match d.role with
    | .variable _ | .parameter _ _ =>
      let (selectors, type) ← resolve id d.type selectors
      return .designator ident (some id) selectors { type, span }
    | .type =>
      match selectors.head? with
      | some s => report s.span (.expression .unexpectedSelector)
      | none => pure ()
      return .designator ident (some id) selectors { type := .typeName, span }
    | .procedure _ =>
      let (selectors, type) ← resolve id d.type selectors
      if (← getStore).isProcedure type then
        reportIf d.builtin?.isSome span (.expression .predefinedReference)
        return .designator ident (some id) selectors { type, span }
      else if endsInCall selectors then
        return .designator ident (some id) selectors { type, span }
      else
        report span (.expression .valueExpected)
        return .designator ident (some id) selectors { type := .undefined, span }
    | .constant _ | .field _ =>
      report ident.span (.expression .valueExpected)
      return .designator ident (some id) selectors { type := .undefined, span }

def constant (span : Span) (ident : QualIdent) (selectors : List Selector) :
    Analyze (Option Expr) := do
  match (← get).lookup ident with
  | none =>
    report ident.span (.expression (.undefinedIdentifier ident.text))
    return none
  | some d =>
    match d.isConstant, selectors.head? with
    | true, some s => warn s.span (.expression .ignoredSelector)
    | _, _ => pure ()
    match d.constantValue? with
    | some value => return some (.literal value { type := d.type, span })
    | none =>
      report ident.span (.expression .constantExpected)
      return none

end Analyze
end Oberon
