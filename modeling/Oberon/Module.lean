import Oberon.Statement

/-!
# Oberon.Module

Blocks, procedures and modules. A block lists the declarations of its sections and holds its
nested procedures as a tree.
-/

namespace Oberon

mutual

inductive Block where
  | mk (constants types vars : List DeclId) (procedures : List Procedure)
      (body : List Statement)

inductive Procedure where
  | mk (decl : DeclId) (block : Block)

end

namespace Block

def empty : Block := mk [] [] [] [] []

instance : Inhabited Block := ⟨empty⟩

def constants : Block → List DeclId
  | mk c _ _ _ _ => c

def types : Block → List DeclId
  | mk _ t _ _ _ => t

def vars : Block → List DeclId
  | mk _ _ v _ _ => v

def procedures : Block → List Procedure
  | mk _ _ _ p _ => p

def body : Block → List Statement
  | mk _ _ _ _ b => b

def withBody (body : List Statement) : Block → Block
  | mk c t v p _ => mk c t v p body

end Block

namespace Procedure

def decl : Procedure → DeclId
  | mk d _ => d

def block : Procedure → Block
  | mk _ b => b

end Procedure

/-- An entry of an import list. Without an alias the module goes by its own name. -/
structure Import where
  localName : String
  module : String
  span : Span

structure Module where
  name : String
  span : Span
  imports : List Import := []
  block : Block := Block.empty

end Oberon
