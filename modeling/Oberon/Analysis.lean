import Oberon.Compatibility
import Oberon.Constant
import Oberon.Diagnostic
import Oberon.Interface
import Oberon.Universe

/-!
# Oberon.Analysis

The state of the analysis of one module. Every phrase of the grammar has an action on it that
checks the phrase, reports what is wrong and yields the resolved phrase. Nothing stops the
analysis: what is wrong gets the undefined type, about which no more is reported.
-/

namespace Oberon

structure Features where
  variadics : Bool := false
  externals : Bool := false
  strict : Bool := false

/-- A pointer type whose base was named before it was declared, at the level of its block. -/
structure Forward where
  pointer : Ty
  ident : QualIdent
  level : Nat

/-- An open CASE statement: the type of its subject, and for a type case the subject's variable
with the type it was declared with. -/
structure CaseFrame where
  type : Ty
  decl : Option DeclId
  declared : Ty

structure Analysis where
  store : Store
  scopes : Scopes
  signatures : List (Builtin × List Ty)
  features : Features
  library : Library
  log : Log Message := {}
  module : String := ""
  /-- The enclosing procedures, innermost first. -/
  procedures : List DeclId := []
  /-- Pointers that wait for their base, latest first. -/
  forwards : List Forward := []
  loops : Nat := 0
  cases : List CaseFrame := []
  /-- An operand was an array of no dimension at all, which operators cannot classify. The
  analysis has no result then. -/
  abandoned : Bool := false

abbrev Analyze := StateM Analysis

namespace Analysis

def start (features : Features) (library : Library) : Analysis :=
  let u := Universe.standard
  { store := u.store, scopes := u.scopes, signatures := u.signatures, features, library,
    log := { strict := features.strict } }

def lookup (a : Analysis) (ident : QualIdent) : Option Declaration :=
  (a.scopes.lookup ident).map a.store.decl

def isDefined (a : Analysis) (name : String) : Bool := (a.scopes.lookupLocal name).isSome

def isDeclared (a : Analysis) (ident : QualIdent) : Bool := (a.scopes.lookup ident).isSome

def isConstant (a : Analysis) (ident : QualIdent) : Bool :=
  match a.lookup ident with
  | some d => d.isConstant
  | none => false

end Analysis

namespace Analyze

/-! ## Reporting -/

def record (severity : Severity) (span : Span) (message : Message) : Analyze Unit :=
  modify fun a => { a with log := a.log.record severity span message }

def report (span : Span) (message : Message) : Analyze Unit := record .error span message

def warn (span : Span) (message : Message) : Analyze Unit :=
  modify fun a => { a with log := a.log.warning span message }

def reportIf (condition : Bool) (span : Span) (message : Message) : Analyze Unit :=
  if condition then report span message else pure ()

def evaluate {α : Type} : Constant.Result α → Analyze (Option α)
  | .ok value => pure (some value)
  | .error .notConstant => pure none
  | .error (.fault note span) => do
    report span (.constant note)
    return none

def checkBounds (span : Span) (value lower upper : Int) : Analyze Int :=
  if lower ≤ value && value ≤ upper then pure value
  else do
    report span (.constant (.outOfBounds value lower upper))
    return max lower (min value upper)

/-! ## Types -/

def getStore : Analyze Store := do return (← get).store

def modifyStore (f : Store → Store) : Analyze Unit :=
  modify fun a => { a with store := f a.store }

def addType (form : Form) : Analyze Ty := fun a =>
  let (type, store) := a.store.addType form
  (type, { a with store })

/-- Is a value of type `actual` accepted where `expected` is required? If not, why not is
reported. -/
def checkCompatible (span : Span) (expected actual : Ty) : Analyze Bool := do
  match (← getStore).mismatch? expected actual with
  | none => return true
  | some m =>
    report span (.mismatch m)
    return false

def commonType (span : Span) (lhs rhs : Ty) : Analyze Ty := do
  let store ← getStore
  match store.commonType? lhs rhs with
  | some type => return type
  | none =>
    report span (.expression (.operandTypes (store.typeText lhs) (store.typeText rhs)))
    return .undefined

def convertLiteral (e : Expr) (expected : Ty) : Analyze Expr := do
  let (converted, warning) := (← getStore).convertLiteral e expected
  match warning with
  | none => return converted
  | some note =>
    warn e.span (.expression note)
    return converted

/-- Adapt a compatible value to the type it is assigned or passed to. -/
def convertValue (e : Expr) (expected : Ty) : Analyze Expr := do
  if e.isLiteral then convertLiteral e expected
  else return (← getStore).convert e expected

end Analyze
end Oberon
