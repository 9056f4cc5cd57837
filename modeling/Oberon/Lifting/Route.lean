import Oberon.Module
import Oberon.Store.Relations

/-!
# Oberon.Lifting.Route

Reaching the variables of enclosing procedures. A procedure with nested ones keeps its parameters
and variables in an environment record, which nested procedures get as a hidden parameter. The
record of a nested procedure holds that parameter too, so environments form a chain, and every
variable further out is a field somewhere along it.
-/

namespace Oberon

/-- A reference that cannot be resolved along the chain of environments. -/
inductive LiftFault where
  | unresolvedField (name : String)
  | unresolvedEnvironment (type : String)
  | notARecord (type : String)
deriving DecidableEq

namespace LiftFault

def text : LiftFault → String
  | unresolvedField name => "unable to resolve environment field: " ++ name ++ "."
  | unresolvedEnvironment type => "unable to resolve environment: " ++ type ++ "."
  | notARecord type => "environment is not a record: " ++ type ++ "."

end LiftFault

structure Environment where
  decl : DeclId
  record : Ty

structure Lifting where
  store : Store
  module : String
  fields : List (DeclId × DeclId) := []
  hidden : List (DeclId × DeclId) := []
  types : List DeclId := []

namespace Lifting

def thisName : String := "_this"

/-- Parameter that holds the environment of the enclosing procedure. -/
def superName : String := "_super"

def fieldSelector (store : Store) (id : DeclId) : Selector :=
  let d := store.decl id
  .field d.name (some id) { span := .none, type := d.type }

def recordFields (store : Store) (t : Ty) : Except LiftFault (List DeclId) :=
  match store.record? t with
  | some r => .ok r.fields
  | none => .error (.notARecord (store.typeText t))

def superField? (store : Store) (fields : List DeclId) : Option DeclId :=
  fields.find? fun id => (store.decl id).name == superName

/-- Selectors from a record to a field of it or of an environment further out, at most `fuel` links
away. -/
def fieldPathWithin (store : Store) (target : DeclId) :
    (fuel : Nat) → Ty → Except LiftFault (List Selector)
  | 0, _ => .error (.unresolvedField (store.decl target).name)
  | fuel + 1, record => do
    let fields ← recordFields store record
    if fields.contains target then return [fieldSelector store target]
    else
      match superField? store fields with
      | none => .error (.unresolvedField (store.decl target).name)
      | some link =>
        let path ← fieldPathWithin store target fuel (store.typeOf link)
        return fieldSelector store link :: path

def linksWithin (store : Store) (target : Ty) :
    (fuel : Nat) → Ty → Except LiftFault (List Selector)
  | 0, _ => .error (.unresolvedEnvironment (store.typeText target))
  | fuel + 1, record =>
    if record == target then .ok []
    else do
      let fields ← recordFields store record
      match superField? store fields with
      | none => .error (.unresolvedEnvironment (store.typeText target))
      | some link =>
        let path ← linksWithin store target fuel (store.typeOf link)
        return fieldSelector store link :: path

/-- Every link leads to a record made earlier. -/
def depth (store : Store) : Nat := store.types.size + 1

def environment (store : Store) (env : Environment) (target : Ty) (span : Span) :
    Except LiftFault Expr := do
  let path ← linksWithin store target (depth store) env.record
  return .designator (.simple (store.decl env.decl).name span) (some env.decl) path
    { type := target, span }

/-! ## References -/

/-- Pass an environment as the last argument of the first call of a chain. -/
def passTo (store : Store) (env : Environment) (target : Ty) :
    List Selector → Except LiftFault (List Selector)
  | [] => .ok []
  | .call args mark :: rest => do
    let argument ← environment store env target mark.span
    return .call (args ++ [argument]) mark :: rest
  | s :: rest => do
    let rest ← passTo store env target rest
    return s :: rest

def routeDesignator (l : Lifting) (env : Environment) (ident : QualIdent) (decl : Option DeclId)
    (selectors : List Selector) (note : Note) : Except LiftFault Expr := do
  match decl with
  | none => return .designator ident none selectors note
  | some id =>
    match l.hidden.lookup id with
    | some param =>
      let selectors ← passTo l.store env (l.store.typeOf param) selectors
      return .designator ident decl selectors note
    | none =>
      match l.fields.lookup id with
      | some field =>
        let path ← fieldPathWithin l.store field (depth l.store) env.record
        return .designator (.simple (l.store.decl env.decl).name ident.span) (some env.decl)
          (path ++ selectors) note
      | none => return .designator ident decl selectors note

mutual

def routeExpr (l : Lifting) (env : Environment) : Expr → Except LiftFault Expr
  | .literal v note => .ok (.literal v note)
  | .designator ident decl selectors note => do
    let selectors ← routeSelectors l env selectors
    routeDesignator l env ident decl selectors note
  | .unary op x note => do return .unary op (← routeExpr l env x) note
  | .binary op x y note => do
    let x ← routeExpr l env x
    let y ← routeExpr l env y
    return .binary op x y note
  | .range x y note => do
    let x ← routeExpr l env x
    let y ← routeExpr l env y
    return .range x y note
  | .set xs note => do return .set (← routeExprs l env xs) note

def routeExprs (l : Lifting) (env : Environment) : List Expr → Except LiftFault (List Expr)
  | [] => .ok []
  | x :: xs => do
    let x ← routeExpr l env x
    let xs ← routeExprs l env xs
    return x :: xs

def routeSelector (l : Lifting) (env : Environment) : Selector → Except LiftFault Selector
  | .index xs mark => do return .index (← routeExprs l env xs) mark
  | .call xs mark => do return .call (← routeExprs l env xs) mark
  | .field name decl mark => .ok (.field name decl mark)
  | .deref implicit mark => .ok (.deref implicit mark)
  | .guard ident type mark => .ok (.guard ident type mark)

def routeSelectors (l : Lifting) (env : Environment) :
    List Selector → Except LiftFault (List Selector)
  | [] => .ok []
  | s :: rest => do
    let s ← routeSelector l env s
    let rest ← routeSelectors l env rest
    return s :: rest

end

/-! ## Statements -/

mutual

def routeStatement (l : Lifting) (env : Environment) : Statement → Except LiftFault Statement
  | .assign target value span => do
    let target ← routeExpr l env target
    let value ← routeExpr l env value
    return .assign target value span
  | .call e span => do return .call (← routeExpr l env e) span
  | .cond test body elsifs otherwise span => do
    let test ← routeExpr l env test
    let body ← routeStatements l env body
    let elsifs ← routeBranches l env elsifs
    let otherwise ← routeOtherwise l env otherwise
    return .cond test body elsifs otherwise span
  | .select subject arms otherwise span => do
    let subject ← routeExpr l env subject
    let arms ← routeArms l env arms
    let otherwise ← routeOtherwise l env otherwise
    return .select subject arms otherwise span
  | .loop body span => do return .loop (← routeStatements l env body) span
  | .while test body elsifs span => do
    let test ← routeExpr l env test
    let body ← routeStatements l env body
    let elsifs ← routeBranches l env elsifs
    return .while test body elsifs span
  | .repeat body test span => do
    let body ← routeStatements l env body
    let test ← routeExpr l env test
    return .repeat body test span
  | .for counter low high step body span => do
    let counter ← routeExpr l env counter
    let low ← routeExpr l env low
    let high ← routeExpr l env high
    let step ← routeExpr l env step
    let body ← routeStatements l env body
    return .for counter low high step body span
  | .exit span => .ok (.exit span)
  | .return (some value) span => do return .return (some (← routeExpr l env value)) span
  | .return none span => .ok (.return none span)

def routeStatements (l : Lifting) (env : Environment) :
    List Statement → Except LiftFault (List Statement)
  | [] => .ok []
  | s :: rest => do
    let s ← routeStatement l env s
    let rest ← routeStatements l env rest
    return s :: rest

def routeOtherwise (l : Lifting) (env : Environment) :
    Option (List Statement) → Except LiftFault (Option (List Statement))
  | none => .ok none
  | some body => do return some (← routeStatements l env body)

def routeBranches (l : Lifting) (env : Environment) :
    List Branch → Except LiftFault (List Branch)
  | [] => .ok []
  | .mk test body span :: rest => do
    let test ← routeExpr l env test
    let body ← routeStatements l env body
    let rest ← routeBranches l env rest
    return .mk test body span :: rest

def routeArms (l : Lifting) (env : Environment) : List Arm → Except LiftFault (List Arm)
  | [] => .ok []
  | .mk labels body :: rest => do
    let body ← routeStatements l env body
    let rest ← routeArms l env rest
    return .mk labels body :: rest

end

end Lifting
end Oberon
