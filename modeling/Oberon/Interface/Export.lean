import Oberon.Interface
import Oberon.Module
import Oberon.Store

/-!
# Oberon.Interface.Export

Taking the interface of a module. The types reachable from the exported declarations are copied
into a table; a type gets its place before its parts are visited, so that recursive types refer
back to it.
-/

namespace Oberon
namespace Interface

structure Table where
  items : Array Item := #[]
  places : List (Nat × Nat) := []

def typeName? (store : Store) (entry : TypeEntry) : Option TypeName :=
  match entry.naming with
  | none => none
  | some id => (store.decl id).module.map fun module => ⟨module, (store.decl id).name⟩

namespace Table

/-- A new place whose shape is still to be found out. -/
def reserve (t : Table) (id : Nat) (name : Option TypeName) : Table :=
  { items := t.items.push { name, shape := .pointer none },
    places := (id, t.items.size) :: t.places }

def setShape (t : Table) (place : Nat) (shape : Shape) : Table :=
  { t with items := t.items.modify place fun item => { item with shape } }

end Table

def visitOption (visit : Ty → StateM Table Ty) : Option Ty → StateM Table (Option Ty)
  | none => pure none
  | some t => do return some (← visit t)

/-- The fields of a record, or the parameters of a procedure: `member` makes one of its type. -/
def visitMembers (store : Store) (visit : Ty → StateM Table Ty) (member : Declaration → Ty → α) :
    List DeclId → StateM Table (List α)
  | [] => pure []
  | id :: rest => do
    let d := store.decl id
    let type ← visit d.type
    let members ← visitMembers store visit member rest
    return member d type :: members

def Field.of (d : Declaration) (type : Ty) : Field := ⟨d.name, d.exported, type⟩

def Param.of (d : Declaration) (type : Ty) : Param := ⟨d.name, d.isVarParameter, type⟩

def visitForm (store : Store) (visit : Ty → StateM Table Ty) : Form → StateM Table Shape
  | .array a => do return .array a.lengths (← visit a.member)
  | .record r => do
    let base ← visitOption visit r.base
    let fields ← visitMembers store visit .of r.fields
    return .record base fields
  | .pointer base => do return .pointer (← visitOption visit base)
  | .procedure s => do
    let params ← visitMembers store visit .of s.params
    let result ← visitOption visit s.result
    return .procedure params result s.variadic

/-- Enter a type and what it refers to into the table, at most `fuel` types deep. -/
def visit (store : Store) : (fuel : Nat) → Ty → StateM Table Ty
  | _, .basic b => pure (.basic b)
  | _, .pseudo p => pure (.pseudo p)
  | 0, .composite _ => pure .undefined
  | fuel + 1, .composite id => do
    let table ← get
    match table.places.lookup id, store.types[id]? with
    | some place, _ => return .composite place
    | none, none => return .undefined
    | none, some entry =>
      let place := table.items.size
      set (table.reserve id (typeName? store entry))
      let shape ← visitForm store (visit store fuel) entry.form
      modify fun t => t.setShape place shape
      return .composite place

/-- What is exported of a declaration. A constant without a value is left out. -/
def kind? (d : Declaration) : Option Kind :=
  match d.role with
  | .constant (some value) => some (.constant value)
  | .type => some .type
  | .variable _ => some .variable
  | .procedure _ => some .procedure
  | _ => none

def visitExports (store : Store) : List DeclId → StateM Table (List Export)
  | [] => pure []
  | id :: rest =>
    match kind? (store.decl id) with
    | none => visitExports store rest
    | some kind => do
      let type ← visit store (store.types.size + 1) (store.typeOf id)
      let exports ← visitExports store rest
      return ⟨(store.decl id).name, kind, type⟩ :: exports

def exportedIds (store : Store) (block : Block) : List DeclId :=
  let all := block.constants ++ block.types ++ block.vars ++
    block.procedures.map Procedure.decl
  (all.filter fun id => (store.decl id).exported).mergeSort fun a b => a.index ≤ b.index

def ofModule (store : Store) (module : Module) : Interface :=
  let (exports, table) := (visitExports store (exportedIds store module.block)).run {}
  { name := module.name, exports, types := table.items }

end Interface
end Oberon
