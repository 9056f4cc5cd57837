import Oberon.Interface
import Oberon.Scopes
import Oberon.Store

/-!
# Oberon.Interface.Import

Rebuilding an interface in a store. Pointers and records get their place in the store before
their parts are built, which is where recursive types come back to; arrays and procedure types
are made once their parts are there.
-/

namespace Oberon
namespace Interface

/-- The store being extended, and which of the interface's types are in it already. -/
structure Rebuilding where
  store : Store
  types : Array (Option Ty)

abbrev Rebuild := StateM Rebuilding

namespace Rebuild

def setPlace (index : Nat) (type : Ty) : Rebuild Unit :=
  modify fun r => { r with types := r.types.setIfInBounds index (some type) }

def addDecl (d : Declaration) : Rebuild DeclId := fun r =>
  let (id, store) := r.store.addDecl d
  (id, { r with store })

def addType (form : Form) : Rebuild Ty := fun r =>
  let (type, store) := r.store.addType form
  (type, { r with store })

def addArray (lengths : List Nat) (member : Ty) : Rebuild Ty := fun r =>
  let (type, store) := r.store.addArray lengths member
  (type, { r with store })

def setForm (type : Ty) (form : Form) : Rebuild Unit :=
  modify fun r => { r with store := r.store.setForm type form }

end Rebuild

def importedDecl (module name : String) (role : Role) (type : Ty) (exported : Bool) :
    Declaration :=
  { name, role, type, span := .none, exported, level := Scopes.moduleLevel,
    module := some module, imported := true }

def rebuildOption (build : Ty → Rebuild Ty) : Option Ty → Rebuild (Option Ty)
  | none => pure none
  | some t => do return some (← build t)

def rebuildFields (module : String) (build : Ty → Rebuild Ty) (index : Nat) :
    List Field → Rebuild (List DeclId)
  | [] => pure []
  | f :: rest => do
    let type ← build f.type
    let id ← Rebuild.addDecl (importedDecl module f.name (.field index) type f.exported)
    let ids ← rebuildFields module build (index + 1) rest
    return id :: ids

def rebuildParams (module : String) (build : Ty → Rebuild Ty) (index : Nat) :
    List Param → Rebuild (List DeclId)
  | [] => pure []
  | p :: rest => do
    let type ← build p.type
    let id ← Rebuild.addDecl
      (importedDecl module p.name (.parameter p.byReference index) type true)
    let ids ← rebuildParams module build (index + 1) rest
    return id :: ids

def recordLevel (store : Store) (base : Option Ty) : Nat :=
  match base.bind store.record? with
  | some r => r.level + 1
  | none => 0

def rebuildShape (module : String) (build : Ty → Rebuild Ty) (index : Nat) : Shape → Rebuild Ty
  | .array lengths member => do
    let member ← build member
    Rebuild.addArray lengths member
  | .pointer base => do
    let type ← Rebuild.addType (.pointer none)
    Rebuild.setPlace index type
    let base ← rebuildOption build base
    Rebuild.setForm type (.pointer base)
    return type
  | .record base fields => do
    let type ← Rebuild.addType (.record ⟨[], none, 0⟩)
    Rebuild.setPlace index type
    let base ← rebuildOption build base
    let level := recordLevel (← get).store base
    let fields ← rebuildFields module build 0 fields
    Rebuild.setForm type (.record ⟨fields, base, level⟩)
    return type
  | .procedure params result variadic => do
    let params ← rebuildParams module build 0 params
    let result ← rebuildOption build result
    Rebuild.addType (.procedure ⟨params, result, variadic⟩)

/-- A named type gets a declaration of its own, in the module that declared it. -/
def rebuildName (type : Ty) : Option TypeName → Rebuild Unit
  | none => pure ()
  | some n => do
    let id ← Rebuild.addDecl (importedDecl n.module n.name .type type false)
    modify fun r => { r with store := r.store.setNaming type id }

/-- The type of the store for a type of the interface, which is built if it is not there yet.
At most `fuel` types are being built at a time. -/
def rebuild (i : Interface) : (fuel : Nat) → Ty → Rebuild Ty
  | _, .basic b => pure (.basic b)
  | _, .pseudo p => pure (.pseudo p)
  | 0, .composite _ => pure .undefined
  | fuel + 1, .composite index => do
    match (← get).types[index]?.join, i.types[index]? with
    | some type, _ => return type
    | none, none => return .undefined
    | none, some item =>
      let type ← rebuildShape i.name (rebuild i fuel) index item.shape
      Rebuild.setPlace index type
      rebuildName type item.name
      return type

/-- Only pointers and records may be met again while they are being built, and between two of
them each other type is met at most once. -/
def depth (i : Interface) : Nat := (i.types.size + 1) * (i.types.size + 1)

/-- The declaration for an export. The declaration that names a type is used for it as well. -/
def rebuildExport (i : Interface) (e : Export) : Rebuild DeclId := do
  let type ← i.rebuild i.depth e.type
  let store := (← get).store
  let add (role : Role) : Rebuild DeclId :=
    Rebuild.addDecl (importedDecl i.name e.name role type true)
  match e.kind with
  | .type =>
    match store.naming? type with
    | some id => if (store.decl id).name == e.name then return id else add .type
    | none => add .type
  | .constant value => add (.constant (some value))
  | .variable => add (.variable 0)
  | .procedure => add (.procedure (.external .oberon (i.name ++ "_" ++ e.name)))

def rebuildExports (i : Interface) : List Export → Scopes → Rebuild Scopes
  | [], scopes => pure scopes
  | e :: rest, scopes => do
    let id ← i.rebuildExport e
    i.rebuildExports rest (scopes.addExport i.name e.name id)

def importInto (i : Interface) (store : Store) (scopes : Scopes) : Store × Scopes :=
  let (scopes, r) := (i.rebuildExports i.exports (scopes.addModule i.name)).run
    { store, types := Array.replicate i.types.size none }
  (r.store, scopes)

end Interface
end Oberon
