import Oberon.Builtin
import Oberon.Literal
import Oberon.Span
import Oberon.Ty

/-!
# Oberon.Declaration

Declarations and the forms of composite types. Types refer to the declarations of their fields
and parameters, and declarations to their types, through places in a store.
-/

namespace Oberon

/-! ## Types -/

/-- An array with the length of each dimension, `0` for an open one. `types` lists what is left
after one, two, … indices, so the last entry is the member type. -/
structure ArrayForm where
  lengths : List Nat
  types : List Ty

namespace ArrayForm

def dimensions (a : ArrayForm) : Nat := a.lengths.length

def isOpen (a : ArrayForm) : Bool :=
  match a.lengths with
  | [] => true
  | n :: _ => n == 0

def member (a : ArrayForm) : Ty := a.types.getLast?.getD .undefined

end ArrayForm

/-- A record with its own fields. `level` is the number of records it extends, directly or not. -/
structure RecordForm where
  fields : List DeclId
  base : Option Ty
  level : Nat

structure Signature where
  params : List DeclId
  result : Option Ty
  variadic : Bool

inductive Form where
  | array (form : ArrayForm)
  | record (form : RecordForm)
  /-- The base is unset while its name is not declared yet. -/
  | pointer (base : Option Ty)
  | procedure (signature : Signature)

structure TypeEntry where
  form : Form
  naming : Option DeclId := none

instance : Inhabited TypeEntry := ⟨{ form := .pointer none }⟩

/-! ## Declarations -/

inductive CallingConvention where
  /-- An Oberon procedure compiled separately. -/
  | oberon
  | c
deriving DecidableEq

inductive Origin where
  | defined
  | external (convention : CallingConvention) (name : String)
  | predefined (builtin : Builtin)

/-- What a declared name stands for. Constants without a value had a faulty initialiser. -/
inductive Role where
  | constant (value : Option Literal)
  | type
  | variable (index : Nat)
  | field (index : Nat)
  | parameter (byReference : Bool) (index : Nat)
  | procedure (origin : Origin)

structure Declaration where
  name : String
  role : Role
  type : Ty
  span : Span
  exported : Bool := false
  /-- Depth of the scope: 0 for predefined names, 1 for those of a module, more for locals. -/
  level : Nat := 0
  /-- The declaring module; predefined names have none. -/
  module : Option String := none
  /-- Set for what was read from the interface of another module. -/
  imported : Bool := false

instance : Inhabited Declaration :=
  ⟨{ name := "", role := .type, type := .undefined, span := .none }⟩

namespace Declaration

def isConstant (d : Declaration) : Bool :=
  match d.role with
  | .constant _ => true
  | _ => false

def isType (d : Declaration) : Bool :=
  match d.role with
  | .type => true
  | _ => false

def isVariable (d : Declaration) : Bool :=
  match d.role with
  | .variable _ => true
  | _ => false

def isParameter (d : Declaration) : Bool :=
  match d.role with
  | .parameter _ _ => true
  | _ => false

def isVarParameter (d : Declaration) : Bool :=
  match d.role with
  | .parameter true _ => true
  | _ => false

def isProcedure (d : Declaration) : Bool :=
  match d.role with
  | .procedure _ => true
  | _ => false

def constantValue? (d : Declaration) : Option Literal :=
  match d.role with
  | .constant value => value
  | _ => none

def builtin? (d : Declaration) : Option Builtin :=
  match d.role with
  | .procedure (.predefined b) => some b
  | _ => none

end Declaration

/-! ## Names in the source -/

structure Ident where
  name : String
  span : Span

structure IdentDef where
  name : String
  exported : Bool
  span : Span

structure QualIdent where
  qualifier : Option String
  name : String
  span : Span

namespace QualIdent

def simple (name : String) (span : Span) : QualIdent := ⟨none, name, span⟩

def isQualified (q : QualIdent) : Bool := q.qualifier.isSome

def text (q : QualIdent) : String :=
  match q.qualifier with
  | some m => m ++ "." ++ q.name
  | none => q.name

end QualIdent
end Oberon
