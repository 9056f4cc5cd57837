import Oberon.Declaration

/-!
# Oberon.Store

The composite types and the declarations of one compilation. Both are only ever added; their
places stay valid. Looking up a place that does not exist yields a harmless default.
-/

namespace Oberon

structure Store where
  types : Array TypeEntry := #[]
  decls : Array Declaration := #[]

namespace Store

instance : Inhabited Store := ⟨{}⟩

def decl (s : Store) (id : DeclId) : Declaration := s.decls[id.index]?.getD default

def typeOf (s : Store) (id : DeclId) : Ty := (s.decl id).type

def entry? (s : Store) : Ty → Option TypeEntry
  | .composite id => s.types[id]?
  | _ => none

def form? (s : Store) (t : Ty) : Option Form := (s.entry? t).map TypeEntry.form

def naming? (s : Store) (t : Ty) : Option DeclId := (s.entry? t).bind TypeEntry.naming

def array? (s : Store) (t : Ty) : Option ArrayForm :=
  match s.form? t with
  | some (.array a) => some a
  | _ => none

def record? (s : Store) (t : Ty) : Option RecordForm :=
  match s.form? t with
  | some (.record r) => some r
  | _ => none

def pointer? (s : Store) (t : Ty) : Option (Option Ty) :=
  match s.form? t with
  | some (.pointer base) => some base
  | _ => none

def signature? (s : Store) (t : Ty) : Option Signature :=
  match s.form? t with
  | some (.procedure p) => some p
  | _ => none

def isArray (s : Store) (t : Ty) : Bool := (s.array? t).isSome
def isRecord (s : Store) (t : Ty) : Bool := (s.record? t).isSome
def isPointer (s : Store) (t : Ty) : Bool := (s.pointer? t).isSome
def isProcedure (s : Store) (t : Ty) : Bool := (s.signature? t).isSome

def isStructured (s : Store) (t : Ty) : Bool := s.isArray t || s.isRecord t

/-! ## Growing the store -/

def addDecl (s : Store) (d : Declaration) : DeclId × Store :=
  (⟨s.decls.size⟩, { s with decls := s.decls.push d })

def addType (s : Store) (form : Form) : Ty × Store :=
  (.composite s.types.size, { s with types := s.types.push { form } })

def modifyDecl (s : Store) (id : DeclId) (f : Declaration → Declaration) : Store :=
  { s with decls := s.decls.modify id.index f }

def modifyType (s : Store) (t : Ty) (f : TypeEntry → TypeEntry) : Store :=
  match t with
  | .composite id => { s with types := s.types.modify id f }
  | _ => s

def setType (s : Store) (id : DeclId) (type : Ty) : Store :=
  s.modifyDecl id fun d => { d with type }

def setForm (s : Store) (t : Ty) (form : Form) : Store :=
  s.modifyType t fun e => { e with form }

def setNaming (s : Store) (t : Ty) (id : DeclId) : Store :=
  s.modifyType t fun e => { e with naming := some id }

/-- Sub-array types for the dimensions behind the first, the innermost made first. The result
lists what is left after one, two, … indices. -/
def addRows (s : Store) (member : Ty) : List Nat → List Ty × Store
  | [] => ([member], s)
  | lengths@(_ :: rest) =>
    let (types, s) := s.addRows member rest
    let (row, s) := s.addType (.array ⟨lengths, types⟩)
    (row :: types, s)

/-- An array type with the given lengths; every proper suffix of them gets a type of its own. -/
def addArray (s : Store) (lengths : List Nat) (member : Ty) : Ty × Store :=
  let (types, s) := s.addRows member lengths.tail
  s.addType (.array ⟨lengths, types⟩)

/-- An open array with `dimensions` unknown lengths, at least one. -/
def addOpenArray (s : Store) (dimensions : Nat) (member : Ty) : Ty × Store :=
  s.addArray (List.replicate (max dimensions 1) 0) member

end Store
end Oberon
