import Oberon.Declaration

/-!
# Oberon.Expr

Resolved expressions. Every expression carries its type, the implicit conversion its value
undergoes, and its span; every selector carries the type it leads to.
-/

namespace Oberon

inductive UnaryOp where
  | plus
  | neg
  | not
deriving DecidableEq

def UnaryOp.text : UnaryOp → String
  | plus => "+"
  | neg => "-"
  | not => "~"

inductive BinaryOp where
  | eq | neq | lt | leq | gt | geq | member | typeTest
  | add | sub | or | mul | divide | div | mod | and
deriving DecidableEq

namespace BinaryOp

def text : BinaryOp → String
  | eq => "="
  | neq => "#"
  | lt => "<"
  | leq => "<="
  | gt => ">"
  | geq => ">="
  | member => "IN"
  | typeTest => "IS"
  | add => "+"
  | sub => "-"
  | or => "OR"
  | mul => "*"
  | divide => "/"
  | div => "DIV"
  | mod => "MOD"
  | and => "&"

def isRelation : BinaryOp → Bool
  | eq | neq | lt | leq | gt | geq | member | typeTest => true
  | _ => false

end BinaryOp

structure Note where
  type : Ty
  span : Span
  cast : Option Ty := none

structure Mark where
  span : Span
  type : Ty := .undefined

mutual

inductive Expr where
  | literal (value : Literal) (note : Note)
  | designator (ident : QualIdent) (decl : Option DeclId) (selectors : List Selector) (note : Note)
  | unary (op : UnaryOp) (operand : Expr) (note : Note)
  | binary (op : BinaryOp) (lhs rhs : Expr) (note : Note)
  | range (lower upper : Expr) (note : Note)
  | set (elements : List Expr) (note : Note)

inductive Selector where
  | index (indices : List Expr) (mark : Mark)
  | field (name : String) (decl : Option DeclId) (mark : Mark)
  /-- Implicit dereferences stand where an index or a field is applied to a pointer. -/
  | deref (implicit : Bool) (mark : Mark)
  | guard (ident : QualIdent) (type : Ty) (mark : Mark)
  | call (args : List Expr) (mark : Mark)

end

instance : Inhabited Expr := ⟨.literal .nil { type := .undefined, span := .none }⟩

namespace Selector

def mark : Selector → Mark
  | index _ m | field _ _ m | deref _ m | guard _ _ m | call _ m => m

def span (s : Selector) : Span := s.mark.span

def isCall : Selector → Bool
  | call _ _ => true
  | _ => false

end Selector

namespace Expr

def note : Expr → Note
  | literal _ n | designator _ _ _ n | unary _ _ n | binary _ _ _ n | range _ _ n | set _ n => n

def type (e : Expr) : Ty := e.note.type

def span (e : Expr) : Span := e.note.span

def withNote (note : Note) : Expr → Expr
  | literal v _ => literal v note
  | designator i d s _ => designator i d s note
  | unary op x _ => unary op x note
  | binary op l r _ => binary op l r note
  | range l u _ => range l u note
  | set xs _ => set xs note

def withType (e : Expr) (type : Ty) : Expr := e.withNote { e.note with type }

def withCast (e : Expr) (cast : Ty) : Expr := e.withNote { e.note with cast := some cast }

def effectiveType (e : Expr) : Ty := e.note.cast.getD e.type

def literal? : Expr → Option Literal
  | literal v _ => some v
  | _ => none

def isLiteral (e : Expr) : Bool := e.literal?.isSome

def integer? (e : Expr) : Option Int :=
  match e.literal? with
  | some (.integer v) => some v
  | _ => none

def root? : Expr → Option DeclId
  | designator _ d _ _ => d
  | _ => none

mutual

def isConstant : Expr → Bool
  | literal _ _ => true
  | designator _ _ _ _ => false
  | unary _ x _ => x.isConstant
  | binary _ l r _ => l.isConstant && r.isConstant
  | range l u _ => l.isConstant && u.isConstant
  | set xs _ => allConstant xs

def allConstant : List Expr → Bool
  | [] => true
  | x :: xs => x.isConstant && allConstant xs

end

end Expr
end Oberon
