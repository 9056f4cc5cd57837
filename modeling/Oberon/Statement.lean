import Oberon.Expr

/-!
# Oberon.Statement

Resolved statements and what can be read off them about control flow: whether a sequence always
returns, whether an EXIT in it leaves the enclosing loop, and where control cannot go on.
-/

namespace Oberon

/-- Labels of one arm of a CASE statement. Numeric labels are spread into `values`, each with the
span of its label; a type label is kept in `guard`. -/
structure CaseLabels where
  labels : List Expr
  values : List (Int × Span)
  guard : Option Ty
  span : Span

mutual

inductive Statement where
  | assign (target value : Expr) (span : Span)
  | call (call : Expr) (span : Span)
  | cond (test : Expr) (body : List Statement) (elsifs : List Branch)
      (otherwise : Option (List Statement)) (span : Span)
  | select (subject : Expr) (arms : List Arm) (otherwise : Option (List Statement)) (span : Span)
  | loop (body : List Statement) (span : Span)
  | while (test : Expr) (body : List Statement) (elsifs : List Branch) (span : Span)
  | repeat (body : List Statement) (test : Expr) (span : Span)
  | for (counter low high step : Expr) (body : List Statement) (span : Span)
  | exit (span : Span)
  | return (value : Option Expr) (span : Span)

inductive Branch where
  | mk (test : Expr) (body : List Statement) (span : Span)

inductive Arm where
  | mk (labels : CaseLabels) (body : List Statement)

end

namespace Branch

def test : Branch → Expr
  | mk t _ _ => t

def body : Branch → List Statement
  | mk _ b _ => b

def span : Branch → Span
  | mk _ _ s => s

end Branch

namespace Arm

def labels : Arm → CaseLabels
  | mk l _ => l

def body : Arm → List Statement
  | mk _ b => b

end Arm

namespace Statement

def span : Statement → Span
  | assign _ _ s | call _ s | cond _ _ _ _ s | select _ _ _ s | loop _ s | .while _ _ _ s
  | .repeat _ _ s | .for _ _ _ _ _ s | exit s | .return _ s => s

end Statement

/-! ## Control flow -/

mutual

/-- Does every way through the statement end in a RETURN? -/
def Statement.isReturn : Statement → Bool
  | .return _ _ => true
  | .cond _ body elsifs (some otherwise) _ =>
    returns body && Branch.allReturn elsifs && returns otherwise
  | .select _ arms (some otherwise) _ => Arm.allReturn arms && returns otherwise
  | .loop body _ => returns body
  | .repeat body _ _ => returns body
  | _ => false

def returns : List Statement → Bool
  | [] => false
  | s :: rest => s.isReturn || returns rest

def Branch.allReturn : List Branch → Bool
  | [] => true
  | .mk _ body _ :: rest => returns body && Branch.allReturn rest

def Arm.allReturn : List Arm → Bool
  | [] => true
  | .mk _ body :: rest => returns body && Arm.allReturn rest

end

mutual

def Statement.isExit : Statement → Bool
  | .exit _ => true
  | .cond _ body elsifs otherwise _ =>
    hasExit body || Branch.anyExit elsifs || otherwiseExit otherwise
  | .select _ arms otherwise _ => Arm.anyExit arms || otherwiseExit otherwise
  | _ => false

def hasExit : List Statement → Bool
  | [] => false
  | s :: rest => s.isExit || hasExit rest

def otherwiseExit : Option (List Statement) → Bool
  | none => false
  | some body => hasExit body

def Branch.anyExit : List Branch → Bool
  | [] => false
  | .mk _ body _ :: rest => hasExit body || Branch.anyExit rest

def Arm.anyExit : List Arm → Bool
  | [] => false
  | .mk _ body :: rest => hasExit body || Arm.anyExit rest

end

mutual

/-- Does control never reach what follows the statement? -/
def Statement.isTerminator : Statement → Bool
  | .return _ _ => true
  | .exit _ => true
  | .cond _ body elsifs (some otherwise) _ =>
    terminates body && Branch.allTerminate elsifs && terminates otherwise
  | .select _ arms (some otherwise) _ => Arm.allTerminate arms && terminates otherwise
  | _ => false

def terminates : List Statement → Bool
  | [] => false
  | s :: rest => s.isTerminator || terminates rest

def Branch.allTerminate : List Branch → Bool
  | [] => true
  | .mk _ body _ :: rest => terminates body && Branch.allTerminate rest

def Arm.allTerminate : List Arm → Bool
  | [] => true
  | .mk _ body :: rest => terminates body && Arm.allTerminate rest

end

/-- Position of the first statement behind which control cannot go on. -/
def terminatorIndex? (statements : List Statement) : Option Nat :=
  statements.findIdx? Statement.isTerminator

end Oberon
