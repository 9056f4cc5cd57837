import Oberon.Store

/-!
# Oberon.Store.Relations

Relations between the types of a store and measures of them: extension, fields, sizes, names.
Chains of bases and members never visit more types than the store has, which bounds every walk.
-/

namespace Oberon
namespace Store

/-- Extension within `fuel` links. Every type extends itself, a record also what its base
extends, and a pointer extends another if its base extends the other's. -/
def extendsWithin (s : Store) : (fuel : Nat) → (actual base : Ty) → Bool
  | 0, actual, base => actual == base
  | fuel + 1, actual, base =>
    actual == base ||
      match s.form? actual, s.form? base with
      | some (.record r), some (.record _) =>
        match r.base with
        | some parent => s.extendsWithin fuel parent base
        | none => false
      | some (.pointer (some a)), some (.pointer (some b)) => s.extendsWithin fuel a b
      | _, _ => false

def isExtension (s : Store) (actual base : Ty) : Bool := s.extendsWithin s.types.size actual base

def findFieldWithin (s : Store) (name : String) : (fuel : Nat) → Ty → Option DeclId
  | 0, _ => none
  | fuel + 1, t =>
    match s.record? t with
    | none => none
    | some r =>
      match r.fields.find? fun f => (s.decl f).name == name with
      | some f => some f
      | none => r.base.bind fun base => s.findFieldWithin name fuel base

/-- The field of a name in a record or in what it extends, nearest first. -/
def findField? (s : Store) (record : Ty) (name : String) : Option DeclId :=
  s.findFieldWithin name s.types.size record

/-! ## Sizes

Sizes are 32-bit numbers. The number of elements of an array and the sum of the fields of a record
are reduced modulo `2 ^ 32`; the bytes of an array stop at the largest number. -/

def wrap32 (n : Nat) : Nat := n % 0x100000000

def saturate32 (n : Nat) : Nat := min n 0xffffffff

def sizeWithin (s : Store) : (fuel : Nat) → Ty → Nat
  | _, .basic b => b.size
  | _, .pseudo _ => 0
  | 0, .composite _ => 0
  | fuel + 1, .composite id =>
    match s.form? (.composite id) with
    | none => 0
    | some (.array a) =>
      if a.isOpen then 0
      else saturate32 (wrap32 (a.lengths.foldl (· * ·) 1) * s.sizeWithin fuel a.member)
    | some (.record r) =>
      let own := r.fields.foldl (fun n f => n + s.sizeWithin fuel (s.typeOf f)) 0
      let inherited := match r.base with
        | some base => s.sizeWithin fuel base
        | none => 0
      wrap32 (own + inherited)
    | some (.pointer _) => 8
    | some (.procedure _) => 8

/-- Size in bytes. Open arrays and pseudo types have none. -/
def size (s : Store) (t : Ty) : Nat := s.sizeWithin s.types.size t

/-- Size of a type that is neither an array nor a record nor a pseudo type. -/
def scalarSize? (s : Store) (t : Ty) : Option Nat :=
  match t with
  | .basic b => some b.size
  | .pseudo _ => none
  | .composite _ => if s.isPointer t || s.isProcedure t then some 8 else none

/-! ## Names -/

/-- Both types are declared, under one name of one module. Of the basic types only `STRING` is not
declared anywhere. -/
def sameName (s : Store) (a b : Ty) : Bool :=
  match a, b with
  | .basic a, .basic b => a == b && a != .string
  | _, _ =>
    match s.naming? a, s.naming? b with
    | some a, some b =>
      (s.decl a).name == (s.decl b).name && (s.decl a).module == (s.decl b).module
    | _, _ => false

def sameType (s : Store) (a b : Ty) : Bool := a == b || s.sameName a b

def typeTextWithin (s : Store) : (fuel : Nat) → Ty → String
  | _, .basic b => b.name
  | _, .pseudo p => p.name
  | 0, .composite _ => ""
  | fuel + 1, .composite id =>
    match s.entry? (.composite id) with
    | none => ""
    | some entry =>
      match entry.naming, entry.form with
      | some d, _ => (s.decl d).name
      | none, .array a =>
        if a.isOpen then
          String.join (List.replicate a.dimensions "ARRAY OF ") ++ s.typeTextWithin fuel a.member
        else
          "ARRAY " ++ ", ".intercalate (a.lengths.map toString) ++ " OF " ++
            s.typeTextWithin fuel a.member
      | none, .record _ => "RECORD"
      | none, .pointer (some base) => "POINTER TO " ++ s.typeTextWithin fuel base
      | none, .pointer none => "POINTER"
      | none, .procedure _ => "PROCEDURE"

def typeText (s : Store) (t : Ty) : String := s.typeTextWithin s.types.size t

def pointerText (s : Store) (t : Ty) : String := "POINTER TO " ++ s.typeText t

end Store
end Oberon
