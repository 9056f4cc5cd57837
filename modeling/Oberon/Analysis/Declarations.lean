import Oberon.Analysis
import Oberon.Interface.Import
import Oberon.Module

/-!
# Oberon.Analysis.Declarations

Modules, imports and what blocks declare. A declaration is entered into the innermost scope even
if the name is taken; from then on the name means the later one.
-/

namespace Oberon
namespace Analyze

/-! ## Modules and scopes -/

def beginModule (ident : Ident) : Analyze Unit :=
  modify fun a =>
    { a with
      scopes := a.scopes.enterModule ident.name
      module := ident.name
      procedures := []
      forwards := [] }

def endModule (name : String) (ident : Ident) : Analyze Unit :=
  reportIf (name != ident.name) ident.span
    (.declaration (.moduleNameMismatch name ident.name))

def makeKnown (name : String) : Analyze Bool := do
  let a ← get
  if a.scopes.hasModule name then return true
  else
    match a.library.find? name with
    | none => return false
    | some interface =>
      let (store, scopes) := interface.importInto a.store a.scopes
      set { a with store, scopes }
      return true

def importModule (span : Span) (rename : Option Ident) (ident : Ident) (earlier : List Import) :
    Analyze (Option Import) := do
  let name := ident.name
  if earlier.any fun i => i.module == name then
    report span (.declaration (.duplicateImport name))
    return none
  else if name == (← get).module then
    report span (.declaration (.selfImport name))
    return none
  else if ← makeKnown name then
    let localName := match rename with
      | some a => a.name
      | none => name
    modify fun a => { a with scopes := a.scopes.addAlias localName name }
    return some { localName, module := name, span }
  else
    report span (.declaration (.importFailed name))
    return none

def openScope : Analyze Unit := modify fun a => { a with scopes := a.scopes.openScope }

def closeScope : Analyze Unit := modify fun a => { a with scopes := a.scopes.closeScope }

/-! ## Declarations -/

/-- A new declaration of the current block, not yet entered into a scope. -/
def addDecl (ident : IdentDef) (role : Role) (type : Ty) : Analyze DeclId := fun a =>
  let (id, store) := a.store.addDecl
    { name := ident.name, role, type, span := ident.span, exported := ident.exported,
      level := a.scopes.level, module := some a.module }
  (id, { a with store })

def enter (name : String) (span : Span) (id : DeclId) : Analyze Unit := do
  let scopes := (← get).scopes
  if scopes.isDuplicate name then report span (.declaration (.duplicateDefinition name))
  else reportIf (scopes.isPredefined name) span (.declaration (.predefinedIdentifier name))
  modify fun a => { a with scopes := a.scopes.insert name id }

def reportAll (message : Message) : List Span → Analyze Unit
  | [] => pure ()
  | span :: rest => do
    report span message
    reportAll message rest

/-- Only what a module declares itself can be exported, and no field of a record type that is not
exported. -/
def checkExport (id : DeclId) : Analyze Unit := do
  let store ← getStore
  let d := store.decl id
  if d.exported then
    reportIf (d.level != Scopes.moduleLevel) d.span (.declaration .exportNotTopLevel)
  else if d.isType then
    match store.record? d.type with
    | none => pure ()
    | some r =>
      let exported := (r.fields.map store.decl).filter Declaration.exported
      reportAll (.declaration .exportedFieldOfHidden) (exported.map Declaration.span)
  else pure ()

def declare (ident : IdentDef) (role : Role) (type : Ty) : Analyze DeclId := do
  let id ← addDecl ident role type
  enter ident.name ident.span id
  return id

def constantValue (ident : IdentDef) : Option Expr → Analyze (Option Literal × Ty)
  | none => do
    report ident.span (.declaration .undefinedConstant)
    return (none, .undefined)
  | some e =>
    match e.literal? with
    | some value => return (some value, e.type)
    | none => do
      report e.span
        (.declaration (if e.isConstant then .undefinedConstant else .valueNotConstant))
      return (none, .undefined)

def declareConstant (ident : IdentDef) (value : Option Expr) : Analyze DeclId := do
  let (literal, type) ← constantValue ident value
  let id ← declare ident (.constant literal) type
  checkExport id
  return id

/-- The first declaration of a composite type gives it its name; a later one is an alias. -/
def declareType (ident : IdentDef) (type : Option Ty) : Analyze DeclId := do
  let type := type.getD .undefined
  let id ← declare ident .type type
  modifyStore fun s => if (s.naming? type).isNone then s.setNaming type id else s
  checkExport id
  return id

def required (span : Span) (missing : DeclarationNote) : Option Ty → Analyze Ty
  | some type => pure type
  | none => do
    report span (.declaration missing)
    return .undefined

def declareVariable (ident : IdentDef) (type : Option Ty) (index : Nat) : Analyze DeclId := do
  let type ← required ident.span .undefinedVariableType type
  let id ← declare ident (.variable index) type
  checkExport id
  return id

/-- Fields are not entered into any scope. -/
def declareField (ident : IdentDef) (type : Option Ty) (index : Nat) : Analyze DeclId := do
  let type ← required ident.span .undefinedFieldType type
  addDecl ident (.field index) type

def declareParameter (ident : Ident) (byReference : Bool) (type : Option Ty) (index : Nat) :
    Analyze DeclId := do
  let type ← required ident.span .undefinedParameterType type
  declare ⟨ident.name, false, ident.span⟩ (.parameter byReference index) type

/-! ## Procedures -/

def beginProcedure (ident : IdentDef) : Analyze DeclId := do
  let id ← declare ident (.procedure .defined) .undefined
  checkExport id
  modify fun a => { a with procedures := id :: a.procedures }
  openScope
  return id

def setSignature (id : DeclId) (type : Ty) : Analyze Unit :=
  modifyStore fun s => s.setType id type

/-- Leave a procedure: a result has to be returned on every way through its body. -/
def endProcedure (id : DeclId) (block : Block) (ident : Ident) : Analyze Procedure := do
  closeScope
  modify fun a => { a with procedures := a.procedures.tail }
  let store ← getStore
  let d := store.decl id
  let hasResult := match store.signature? d.type with
    | some s => s.result.isSome
    | none => false
  reportIf (hasResult && !returns block.body) d.span (.declaration .missingReturn)
  reportIf (d.name != ident.name) ident.span
    (.declaration (.procedureNameMismatch d.name ident.name))
  return .mk id block

def callingConvention (ident : IdentDef) : Option (String × Span) → Analyze CallingConvention
  | none => do
    warn ident.span (.declaration .defaultConvention)
    return .c
  | some (name, span) =>
    if name == "" then do
      warn span (.declaration .defaultConvention)
      return .c
    else if name == "C" then return .c
    else if name == "OLANG" then return .oberon
    else do
      report span (.declaration (.unsupportedConvention name))
      return .c

/-- The name an external procedure is linked by, its own if none is given. -/
def externalName (ident : IdentDef) (name : Option String) : Analyze String :=
  match name with
  | none | some "" => do
    warn ident.span (.declaration (.defaultExternalName ident.name))
    return ident.name
  | some name => return name

def declareExternal (ident : IdentDef) (convention : Option (String × Span)) (type : Ty)
    (name : Option String) : Analyze Procedure := do
  let convention ← callingConvention ident convention
  let name ← externalName ident name
  reportIf ident.exported ident.span (.declaration .exportedExternal)
  reportIf ((← get).scopes.level != Scopes.moduleLevel) ident.span
    (.declaration .externalNotTopLevel)
  let id ← declare { ident with exported := false } (.procedure (.external convention name)) type
  return .mk id .empty

end Analyze
end Oberon
