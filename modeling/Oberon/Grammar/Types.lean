import Oberon.Analysis.Declarations
import Oberon.Analysis.Types
import Oberon.Grammar.Expressions

/-!
# Oberon.Grammar.Types

Type expressions and formal parameters.
-/

namespace Oberon
namespace Grammar

open Oberon.Parser

variable {n : Nat}

/-! ## Formal parameters -/

structure Formals where
  params : List DeclId := []
  variadic : Bool := false

def resultType : Parser n (Option Ty) := do
  match ← qualident with
  | some ident => return some (← Analyze.typeReference ident 0)
  | none => return none

def openDimensions : Parser n Nat :=
  loopWhile (n := n) (Lexis.isKeyword .ARRAY)
    (fun _ dimensions => do
      let _ ← keyword .OF
      return .again (dimensions + 1)) 0

def formalType : Parser n (Option Ty) := do
  let dimensions ← openDimensions
  let t ← peek
  match t.lexis with
  | .ident _ =>
    match ← qualident with
    | some ident => return some (← Analyze.typeReference ident dimensions)
    | none => return none
  | .keyword .POINTER | .keyword .RECORD =>
    report t.span .anonymousFormalType
    resync .formalType
    return none
  | _ =>
    reportExpected "identifier" t
    resync .formalType
    return none

def reportBehindName (t : Token) : Parser n Unit :=
  report t.span (.unexpectedInParameters t.lexis.text)

def formalNames (names : List Ident) : Parser n (List Ident) :=
  loop (n := n) name?
    (fun name t names => do
      let names := names ++ [⟨name, t.span⟩]
      if ← listGoesOn reportBehindName then return .again names else return .done names)
    (fun t names => do
      reportExpected "identifier" t
      return names)
    names

def moreFormalNames (first : Ident) : Parser n (List Ident) := do
  if ← listGoesOn reportBehindName then formalNames [first] else return [first]

/-- Declare one name after the other; each is given its place behind the ones before it. -/
def declareEach (declare : α → Nat → Analyze DeclId) : List α → List DeclId → Analyze (List DeclId)
  | [], decls => pure decls
  | ident :: rest, decls => do
    let id ← declare ident decls.length
    declareEach declare rest (decls ++ [id])

def declareParameters (byReference : Bool) (type : Option Ty) :=
  declareEach (Analyze.declareParameter · byReference type)

def formalSection (byReference : Bool) (names : List Ident) (formals : Formals) :
    Parser n Formals := do
  let _ ← symbol .colon
  let type ← formalType
  let params ← declareParameters byReference type names formals.params
  return { formals with params }

inductive FormalStart where
  | variadic
  | reference
  | value (name : String)

def formalStart? : Lexis → Option FormalStart
  | .symbol .ellipsis => some .variadic
  | .keyword .VAR => some .reference
  | .ident name => some (.value name)
  | _ => none

/-- `[VAR] ident {"," ident} ":" formal_type | "..."`, behind the first token. -/
def formals (start : FormalStart) (t : Token) (formals : Formals) : Parser n Formals := do
  match start with
  | .variadic =>
    if !(← getAnalysis).features.variadics then report t.span .variadicDisabled
    return { formals with variadic := true }
  | .reference =>
    let names ← formalNames []
    formalSection true names formals
  | .value name =>
    let names ← moreFormalNames ⟨name, t.span⟩
    formalSection false names formals

def behindFormals (formals : Formals) : Parser n (Flow Formals) := do
  let t ← peek
  match t.lexis with
  | .symbol .rightParen => return .done formals
  | .symbol .semicolon =>
    let _ ← next
    if formals.variadic then report t.span .variadicNotLast
    return .again formals
  | _ =>
    let _ ← next
    reportExpected "; or )" t
    return .again formals

def parameterList : Parser n Formals :=
  loop (n := n) formalStart?
    (fun start t list => do behindFormals (← formals start t list))
    (fun _ list => pure list) {}

def formalParameters : Parser n (Formals × Option Ty) := do
  let t ← peek
  match t.lexis with
  | .symbol .leftParen =>
    let _ ← next
    let list ← parameterList
    let _ ← symbol .rightParen
    let result ← if ← acceptSymbol .colon then resultType else pure none
    return (list, result)
  | .symbol .colon =>
    let _ ← next
    warn t.span .missingParameterList
    return ({}, ← resultType)
  | _ => return ({}, none)

/-- The type of a procedure from its keyword on, its parameters being in the current scope. -/
def signature (start : Span) : Parser n Ty := do
  let (list, result) ← formalParameters
  Analyze.procedureType (← spanFrom start) list.params list.variadic result

/-- The type of a procedure whose parameters are only there to be named. -/
def closedSignature (start : Span) : Parser n Ty := do
  Analyze.openScope
  let (list, result) ← formalParameters
  Analyze.closeScope
  Analyze.procedureType (← spanFrom start) list.params list.variadic result

/-! ## Types -/

def arrayType (type : Parser n (Option Ty)) (start : Span) : Parser n (Option Ty) := do
  let dimensions ← if ← check (Lexis.isKeyword .OF) then pure []
    else commaSeparated (expression n)
  if ← keyword .OF then
    let member ← type
    return some (← Analyze.arrayType (← spanFrom start) dimensions member)
  else
    resync .type
    return none

def declareFields (type : Option Ty) := declareEach (Analyze.declareField · type)

def fieldList (type : Parser n (Option Ty)) (fields : List DeclId) : Parser n (List DeclId) := do
  let t ← peek
  let fields ← match t.lexis with
    | .ident name => do
      let _ ← next
      let names ← identDefs ⟨name, t.span⟩
      if ← symbol .colon then
        let type ← type
        declareFields type names fields
      else pure fields
    | .keyword .END => pure fields
    | _ => do
      report t.span .identifierExpected
      pure fields
  resync .fields
  return fields

def fieldLists (type : Parser n (Option Ty)) : Parser n (List DeclId) := do
  if ← check Lexis.isIdent then
    let fields ← fieldList type []
    loopWhile (Lexis.isSymbol .semicolon)
      (fun _ fields => do return .again (← fieldList type fields)) fields
  else return []

def recordType (type : Parser n (Option Ty)) : Parser n Ty := do
  let base ← if ← acceptSymbol .leftParen then do
      let base ← qualident
      let _ ← symbol .rightParen
      pure base
    else pure none
  let fields ← fieldLists type
  let _ ← keyword .END
  Analyze.recordType base fields

/-- The base of a pointer behind its keyword. A name that is not declared yet is left for the end
of the declarations. -/
def pointerBase (type : Parser n (Option Ty)) (start : Span) (pointer : Ty) : Parser n Unit := do
  if !(← keyword .TO) then resync .type
  else if ← check Lexis.isIdent then
    match ← qualident with
    | none => pure ()
    | some ident =>
      if (← getAnalysis).isDeclared ident then
        let base ← Analyze.typeReference ident 0
        Analyze.endPointer (← spanFrom start) pointer (some base)
      else Analyze.forwardPointer pointer ident
  else
    let base ← type
    Analyze.endPointer (← spanFrom start) pointer base

def typeBehind? (type : Parser n (Option Ty)) (t : Token) : Option (Parser n (Option Ty)) :=
  match t.lexis with
  | .ident name => some do
    let ident ← qualify ⟨name, t.span⟩
    return some (← Analyze.typeReference ident 0)
  | .keyword .ARRAY => some (arrayType type t.span)
  | .keyword .RECORD => some do return some (← recordType type)
  | .keyword .POINTER => some do
    let pointer ← Analyze.beginPointer
    pointerBase type t.span pointer
    return some pointer
  | .keyword .PROCEDURE => some do return some (← closedSignature t.span)
  | _ => none

def typeBody (n : Nat) (type : Parser n (Option Ty)) : Parser (n + 1) (Option Ty) :=
  onToken (typeBehind? type) fun t => do
    reportUnexpected t
    resync .type
    return none

def type : (n : Nat) → Parser n (Option Ty) := fix typeBody

end Grammar
end Oberon
