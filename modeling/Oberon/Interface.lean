import Oberon.Declaration

/-!
# Oberon.Interface

What a module exports: its exported declarations and the structure of the types they refer to,
independent of the store they were declared in. Inside an interface a composite type is a place
in the interface's own table.
-/

namespace Oberon
namespace Interface

structure Field where
  name : String
  exported : Bool
  type : Ty

structure Param where
  name : String
  byReference : Bool
  type : Ty

inductive Shape where
  | array (lengths : List Nat) (member : Ty)
  | record (base : Option Ty) (fields : List Field)
  | pointer (base : Option Ty)
  | procedure (params : List Param) (result : Option Ty) (variadic : Bool)

structure TypeName where
  module : String
  name : String
deriving DecidableEq

structure Item where
  name : Option TypeName
  shape : Shape

inductive Kind where
  | constant (value : Literal)
  | type
  | variable
  | procedure

structure Export where
  name : String
  kind : Kind
  type : Ty

end Interface

structure Interface where
  name : String
  exports : List Interface.Export
  types : Array Interface.Item

namespace Interface

def find? (i : Interface) (name : String) : Option Export :=
  i.exports.find? fun e => e.name == name

end Interface

/-- Interfaces of the modules compiled so far, at most one for each name. -/
structure Library where
  interfaces : List Interface := []

namespace Library

def find? (l : Library) (name : String) : Option Interface :=
  l.interfaces.find? fun i => i.name == name

def contains (l : Library) (name : String) : Bool := (l.find? name).isSome

/-- An interface replaces an earlier one of the same module. -/
def insert (l : Library) (i : Interface) : Library :=
  { interfaces := i :: l.interfaces.filter fun j => j.name != i.name }

def size (l : Library) : Nat := l.interfaces.length

end Library
end Oberon
