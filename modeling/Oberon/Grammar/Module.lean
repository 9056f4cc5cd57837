import Oberon.Grammar.Statements
import Oberon.Grammar.Types

/-!
# Oberon.Grammar.Module

Declarations, procedures and modules. The sections of a block come in a fixed order, its
procedures last. How the statements of a body are read is left open up to `module`.
-/

namespace Oberon
namespace Grammar

open Oberon.Parser

variable {n : Nat}

/-! ## Imports -/

/-- `ident [":=" ident]` behind the first identifier, which is the alias of the second. -/
def importEntry (first : Ident) (imports : List Import) : Parser n (List Import) := do
  if ← acceptSymbol .becomes then
    match ← ident with
    | none => return imports
    | some name =>
      let entry ← Analyze.importModule (first.span.merge name.span) (some first) name imports
      return imports ++ entry.toList
  else
    let entry ← Analyze.importModule first.span none first imports
    return imports ++ entry.toList

def importsGoOn : Parser n Bool := do
  let t ← peek
  match t.lexis with
  | .symbol .comma =>
    let _ ← next
    return true
  | .ident _ =>
    report t.span .commaMissing
    return true
  | .symbol .semicolon =>
    let _ ← next
    return false
  | _ =>
    reportUnexpected t
    resync .imports
    return false

inductive ImportStart where
  | entry (name : String)
  | comma

def importStart? : Lexis → Option ImportStart
  | .ident name => some (.entry name)
  | .symbol .comma => some .comma
  | _ => none

/-- An import list behind its keyword. An entry may be missing between two commas. -/
def importList : Parser n (List Import) :=
  loop (n := n) importStart?
    (fun start t imports => do
      match start with
      | .entry name =>
        let imports ← importEntry ⟨name, t.span⟩ imports
        if ← importsGoOn then return .again imports else return .done imports
      | .comma =>
        reportExpected "identifier" t
        return .again imports)
    (fun t imports => do
      reportExpected "identifier" t
      let _ ← importsGoOn
      return imports)
    []

/-! ## Sections -/

def declarationSection (word : Keyword) (entry : Ident → List DeclId → Parser n (List DeclId)) :
    Parser (n + 1) (List DeclId) :=
  onToken
    (fun t =>
      if t.lexis.isKeyword word then some do
        let decls ← loop (n := n) name?
          (fun name t decls => do return .again (← entry ⟨name, t.span⟩ decls))
          (fun _ decls => pure decls) []
        if decls.isEmpty then report t.span (.emptySection word.text)
        return decls
      else none)
    (fun _ => pure [])

/-- `identdef "=" expression ";"` -/
def constantDeclaration (first : Ident) (decls : List DeclId) : Parser n (List DeclId) := do
  let ident ← defining first
  if ← symbol .eq then
    let value ← expression n
    let id ← Analyze.declareConstant ident value
    let _ ← symbol .semicolon
    return decls ++ [id]
  else return decls

/-- The type of a declaration. A pointer is declared before its base is read, so that the base may
refer back to it. -/
def declaredType (ident : IdentDef) : Parser (n + 1) DeclId :=
  onToken
    (fun t =>
      if t.lexis.isKeyword .POINTER then some do
        let pointer ← Analyze.beginPointer
        let id ← Analyze.declareType ident (some pointer)
        pointerBase (type n) t.span pointer
        return id
      else none)
    (fun _ => do
      let type ← type (n + 1)
      Analyze.declareType ident type)

/-- `identdef "=" type ";"` -/
def typeDeclaration (first : Ident) (decls : List DeclId) : Parser n (List DeclId) := do
  let ident ← defining first
  if ← symbol .eq then
    let id ← declaredType (n := n) ident
    let _ ← symbol .semicolon
    return decls ++ [id]
  else return decls

def declareVariables (type : Option Ty) := declareEach (Analyze.declareVariable · type)

/-- `identdef {"," identdef} ":" type ";"` -/
def variableDeclaration (first : Ident) (decls : List DeclId) : Parser n (List DeclId) := do
  let names ← identDefs first
  if ← symbol .colon then
    let type ← type n
    let decls ← declareVariables type names decls
    let _ ← symbol .semicolon
    return decls
  else return decls

/-! ## Procedures -/

def textOf? : Lexis → Option String
  | .string value => some value
  | .charCode code =>
    some (if code == 0 then "" else String.singleton (Literal.charOfCode code))
  | _ => none

def stringLiteral : Parser n (Option (String × Span)) := do
  let t ← peek
  match textOf? t.lexis with
  | some value =>
    let _ ← next
    return some (value, t.span)
  | none =>
    report t.span .stringExpected
    return none

/-- `string "]" identdef [formal_parameters] ";" EXTERNAL "[" string "]"` -/
def externalProcedure (start : Span) : Parser n (Option Procedure) := do
  let convention ← stringLiteral
  let _ ← symbol .rightBracket
  match ← identdef with
  | none =>
    resync .procedureHeading
    return none
  | some ident =>
    let type ← closedSignature start
    let _ ← symbol .semicolon
    let _ ← keyword .EXTERNAL
    let _ ← symbol .leftBracket
    let name ← stringLiteral
    let _ ← symbol .rightBracket
    return some (← Analyze.declareExternal ident convention type (name.map Prod.fst))

/-- `[BEGIN statements]`, the declarations having been read. -/
def blockBody (statements : Parser n (List Statement)) (block : Block) : Parser n Block := do
  if ← acceptKeyword .BEGIN then return block.withBody (← statements) else return block

/-- The name behind the END of a procedure. Where it is missing, that of the procedure stands in. -/
def closingName (ident : IdentDef) : Parser n Ident := do
  match ← Grammar.ident with
  | some name => return name
  | none => return ⟨ident.name, ← previous⟩

/-- `identdef [formal_parameters] ";" declarations [BEGIN statements] END ident` -/
def definedProcedure (statements : Parser n (List Statement)) (declarations : Parser n Block)
    (start : Span) : Parser n (Option Procedure) := do
  match ← identdef with
  | none =>
    resync .procedureHeading
    return none
  | some ident =>
    let id ← Analyze.beginProcedure ident
    let type ← signature start
    Analyze.setSignature id type
    let _ ← symbol .semicolon
    let block ← blockBody statements (← declarations)
    if !(← keyword .END) then
      resync .procedureBody
      let _ ← acceptKeyword .END
    let name ← closingName ident
    return some (← Analyze.endProcedure id block name)

def procedure (statements : Parser n (List Statement)) (declarations : Parser n Block)
    (start : Span) : Parser n (Option Procedure) := do
  let procedure ← if ← acceptSymbol .leftBracket then do
      if !(← getAnalysis).features.externals then report start .externalDisabled
      externalProcedure start
    else definedProcedure statements declarations start
  let _ ← symbol .semicolon
  return procedure

/-! ## Blocks -/

section

variable (statements : (n : Nat) → Parser n (List Statement))

def declarationsBody (n : Nat) (declarations : Parser n Block) : Parser (n + 1) Block := do
  let constants ← declarationSection .CONST constantDeclaration
  expectBehind .constSection
  let types ← declarationSection .TYPE typeDeclaration
  expectBehind .typeSection
  let vars ← declarationSection .VAR variableDeclaration
  expectBehind .varSection
  Analyze.settleForwards
  let procedures ← loopWhile (Lexis.isKeyword .PROCEDURE)
    (fun t procedures => do
      let p ← procedure (statements n) declarations t.span
      return .again (procedures ++ p.toList)) []
  expectBehind .procedures
  return .mk constants types vars procedures []

def declarations : (n : Nat) → Parser n Block := fix (declarationsBody statements)

/-! ## Modules -/

def moduleHeader : Parser n (Option Ident) := do
  if ← keyword .MODULE then ident else return none

def moduleEnd (name : Ident) : Parser n Unit := do
  match ← ident with
  | none => pure ()
  | some last =>
    let _ ← symbol .dot
    Analyze.endModule name.name last

def moduleBody (start : Span) (name : Ident) : Parser n Module := do
  checkIdentifier name
  Analyze.beginModule name
  if !(← symbol .semicolon) then
    resync .moduleHeading
  let imports ← if ← acceptKeyword .IMPORT then importList else pure []
  let block ← blockBody (statements n) (← declarations statements n)
  if !(← keyword .END) then
    resync .module
    return { name := name.name, span := name.span, imports, block }
  else
    moduleEnd name
    return { name := name.name, span := ← spanFrom start, imports, block }

/-- The rest of a module, `none` if not even its name could be read. -/
def moduleBehind (start : Span) : Option Ident → Parser n (Option Module)
  | some name => do return some (← moduleBody statements start name)
  | none => do
    resync .module
    return none

def moduleOver : Parser n (Option Module) := do
  let start := (← peek).span
  moduleBehind statements start (← moduleHeader)

end

def module : Parser n (Option Module) := moduleOver statements

end Grammar
end Oberon
