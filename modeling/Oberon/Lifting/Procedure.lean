import Oberon.Lifting.Route
import Oberon.Lifting.WriteBack
import Oberon.Scopes

/-!
# Oberon.Lifting.Procedure

Moving nested procedures to module level. A procedure with nested ones gets an environment record
of its parameters and variables, into which its parameters are copied at its start and from which
its variable parameters are copied back wherever it is left. Nested procedures get the record as a
hidden parameter, take the name of their parent in front of their own, and follow the module's
procedures in the order in which they were declared.
-/

namespace Oberon

/-- An action of lifting that may meet a reference that cannot be resolved. -/
abbrev Lift := StateT Lifting (Except LiftFault)

namespace Lifting

def addDecl (name : String) (role : Role) (type : Ty) (level : Nat) : Lift DeclId := fun l =>
  let (id, store) := l.store.addDecl
    { name, role, type, span := .none, level, module := some l.module }
  .ok (id, { l with store })

def addType (form : Form) : Lift Ty := fun l =>
  let (type, store) := l.store.addType form
  .ok (type, { l with store })

def modifyStore (f : Store → Store) : Lift Unit := modify fun l => { l with store := f l.store }

def params (store : Store) (id : DeclId) : List DeclId :=
  match store.signature? (store.typeOf id) with
  | some s => s.params
  | none => []

/-! ## Environments -/

def addFields (index : Nat) : List DeclId → Lift (List DeclId)
  | [] => pure []
  | id :: rest => do
    let d := (← get).store.decl id
    let field ← addDecl d.name (.field index) d.type (Scopes.moduleLevel + 1)
    modify fun l => { l with fields := (id, field) :: l.fields }
    let fields ← addFields (index + 1) rest
    return field :: fields

def addRecord (name : String) (origins : List DeclId) : Lift Ty := do
  let fields ← addFields 0 origins
  let record ← addType (.record ⟨fields, none, 0⟩)
  let decl ← addDecl ("_T" ++ name) .type record Scopes.moduleLevel
  modifyStore fun s => s.setNaming record decl
  modify fun l => { l with types := l.types ++ [decl] }
  return record

def appendParam (store : Store) (procedure param : DeclId) : Store :=
  let type := store.typeOf procedure
  match store.signature? type with
  | some s => store.setForm type (.procedure { s with params := s.params ++ [param] })
  | none => store

def addHidden (record : Ty) : List DeclId → Lift Unit
  | [] => pure ()
  | child :: rest => do
    let store := (← get).store
    let param ← addDecl superName (.parameter true (params store child).length) record
      ((store.decl child).level + 1)
    modify fun l =>
      { l with store := appendParam l.store child param, hidden := (child, param) :: l.hidden }
    addHidden record rest

def shiftIndex (d : Declaration) : Declaration :=
  match d.role with
  | .variable i => { d with role := .variable (i + 1) }
  | _ => d

def addThis (vars : List DeclId) (record : Ty) (level : Nat) : Lift Environment := do
  modifyStore fun s => vars.foldl (fun s id => s.modifyDecl id shiftIndex) s
  let decl ← addDecl thisName (.variable 0) record level
  return ⟨decl, record⟩

/-! ## Bodies -/

def reference (store : Store) (id : DeclId) : Expr :=
  let d := store.decl id
  .designator (.simple d.name .none) (some id) [] { type := d.type, span := .none }

def fieldReference (l : Lifting) (env : Environment) (origin : DeclId) : Expr :=
  match l.fields.lookup origin with
  | none => reference l.store env.decl
  | some field =>
    .designator (.simple (l.store.decl env.decl).name .none) (some env.decl)
      [fieldSelector l.store field] { type := l.store.typeOf field, span := .none }

def copyIn (l : Lifting) (env : Environment) (params : List DeclId) : List Statement :=
  params.map fun p => .assign (fieldReference l env p) (reference l.store p) .none

def copyOut (l : Lifting) (env : Environment) (params : List DeclId) : List Statement :=
  (params.filter fun p => (l.store.decl p).isVarParameter).map fun p =>
    .assign (reference l.store p) (fieldReference l env p) .none

def frame (copies writeBack body : List Statement) : List Statement :=
  let body := if writeBack.isEmpty then body else insertBeforeReturns writeBack body
  copies ++ body ++ if returns body then [] else writeBack

/-- Variables and body of a procedure that has nested ones. Without parameters and variables there
is nothing to share. -/
def liftParent (id : DeclId) (vars children : List DeclId) (body : List Statement) :
    Lift (List DeclId × List Statement) := do
  let d := (← get).store.decl id
  let params := params (← get).store id
  if params.isEmpty && vars.isEmpty then return (vars, body)
  else
    let record ← addRecord d.name (params ++ vars)
    addHidden record children
    let env ← addThis vars record (d.level + 1)
    let l ← get
    let body ← routeStatements l env body
    return (env.decl :: vars, frame (copyIn l env params) (copyOut l env params) body)

def liftBody (id : DeclId) (vars children : List DeclId) (body : List Statement) :
    Lift (List DeclId × List Statement) := do
  if !children.isEmpty then liftParent id vars children body
  else
    let l ← get
    match l.hidden.lookup id with
    | none => return (vars, body)
    | some param =>
      let body ← routeStatements l ⟨param, l.store.typeOf param⟩ body
      return (vars, body)

/-! ## Procedures -/

def setLevel (level : Nat) (s : Store) (id : DeclId) : Store :=
  s.modifyDecl id fun d => { d with level }

/-- A procedure that was nested is declared at module level now. -/
def resetLevels (id : DeclId) (locals : List DeclId) : Lift Unit :=
  modifyStore fun s =>
    if Scopes.moduleLevel < (s.decl id).level then
      (params s id ++ locals).foldl (setLevel (Scopes.moduleLevel + 1))
        (setLevel Scopes.moduleLevel s id)
    else s

def liftedName (parent child : String) : String :=
  if parent.toList.head? == some '_' then parent ++ "_" ++ child else "_" ++ parent ++ "_" ++ child

def rename (parent child : DeclId) : Lift Unit :=
  modifyStore fun s =>
    let name := liftedName (s.decl parent).name (s.decl child).name
    s.modifyDecl child fun d => { d with name }

def isExternal (d : Declaration) : Bool :=
  match d.role with
  | .procedure (.external _ _) => true
  | _ => false

mutual

/-- A procedure without nested ones, and the procedures that were nested in it, parents first. -/
def liftProcedure : Procedure → Lift (Procedure × List Procedure)
  | .mk id (.mk constants types vars procedures body) => do
    if isExternal ((← get).store.decl id) then
      return (.mk id (.mk constants types vars procedures body), [])
    else
      let (vars, body) ←
        liftBody id vars (procedures.map Procedure.decl) body
      resetLevels id (constants ++ types ++ vars)
      let nested ← liftNested id procedures
      return (.mk id (.mk constants types vars [] body), nested)

def liftNested (parent : DeclId) : List Procedure → Lift (List Procedure)
  | [] => pure []
  | child :: rest => do
    rename parent child.decl
    let (child, nested) ← liftProcedure child
    let rest ← liftNested parent rest
    return child :: nested ++ rest

end

def liftAll : List Procedure → Lift (List Procedure × List Procedure)
  | [] => pure ([], [])
  | p :: rest => do
    let (p, nested) ← liftProcedure p
    let (rest, others) ← liftAll rest
    return (p :: rest, nested ++ others)

def liftModule (store : Store) (m : Module) : Except LiftFault (Module × Store) := do
  let .mk constants types vars procedures body := m.block
  let ((procedures, nested), l) ← (liftAll procedures).run { store, module := m.name }
  let block := Block.mk constants (types ++ l.types) vars (procedures ++ nested) body
  return ({ m with block }, l.store)

end Lifting
end Oberon
