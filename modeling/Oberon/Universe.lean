import Oberon.Scopes
import Oberon.Store

/-!
# Oberon.Universe

The predefined types and procedures. A procedure may have several signatures, the first being
its primary one.
-/

namespace Oberon

inductive Formal where
  | value (type : Ty)
  | reference (type : Ty)

structure Overload where
  formals : List Formal
  result : Option Ty := none
  variadic : Bool := false

structure Universe where
  store : Store := {}
  scopes : Scopes := {}
  /-- Signature types of the predefined procedures, the primary one first. -/
  signatures : List (Builtin × List Ty) := []

namespace Universe

instance : Inhabited Universe := ⟨{}⟩

structure Anonymous where
  anyPointer : Ty
  anyArray : Ty
  charArray : Ty

open Formal in
/-- Shifts keep the type of their first argument if there is a signature for it. -/
def shifts : List Overload :=
  [{ formals := [value (.pseudo .entire), value (.pseudo .entire)], result := some .longint },
    { formals := [value .shortint, value (.pseudo .entire)], result := some .shortint },
    { formals := [value .integer, value (.pseudo .entire)], result := some .integer },
    { formals := [value .longint, value (.pseudo .entire)], result := some .longint }]

def unary (formal result : Ty) : Overload := { formals := [.value formal], result := some result }

open Formal in
def overloads (a : Anonymous) : Builtin → List Overload
  | .new => [{ formals := [reference a.anyPointer] }]
  | .free => [{ formals := [reference a.anyPointer] }]
  | .inc => [{ formals := [reference (.pseudo .entire)], variadic := true }]
  | .dec => [{ formals := [reference (.pseudo .entire)], variadic := true }]
  | .incl => [{ formals := [reference .set, value (.pseudo .entire)] }]
  | .excl => [{ formals := [reference .set, value (.pseudo .entire)] }]
  | .abs =>
    [unary (.pseudo .numeric) (.pseudo .numeric), unary .shortint .shortint,
      unary .integer .integer, unary .longint .longint, unary .real .real,
      unary .longreal .longreal]
  | .odd => [unary (.pseudo .entire) .boolean]
  | .lsl => shifts
  | .asr => shifts
  | .ror => shifts
  | .floor => [unary (.pseudo .floating) .longint]
  | .flt => [unary (.pseudo .entire) .real, unary .longint .longreal]
  | .ord => [unary .char .integer, unary .boolean .integer, unary .set .integer]
  | .chr => [unary (.pseudo .entire) .char]
  | .cap => [unary .char .char]
  | .len => [unary a.anyArray .longint]
  | .halt => [{ formals := [value (.pseudo .entire)] }]
  | .assert => [{ formals := [value .boolean] }]
  | .size => [unary .typeName .longint]
  | .max => [unary .typeName .typeName]
  | .min => [unary .typeName .typeName]
  | .long => [unary .shortint .integer, unary .integer .longint, unary .real .longreal]
  | .short => [unary .longint .integer, unary .integer .shortint, unary .longreal .real]
  | .copy => [{ formals := [value a.charArray, reference a.charArray] }]
  | .pack => [{ formals := [reference (.pseudo .floating), value (.pseudo .entire)] }]
  | .unpk => [{ formals := [reference (.pseudo .floating), reference (.pseudo .entire)] }]

/-- Parameters are called `a`, `b`, … -/
def addFormals (store : Store) (index : Nat) : List Formal → List DeclId × Store
  | [] => ([], store)
  | formal :: rest =>
    let (byReference, type) := match formal with
      | .value t => (false, t)
      | .reference t => (true, t)
    let name := String.singleton (Char.ofNat ('a'.toNat + index))
    let (id, store) :=
      store.addDecl { name, role := .parameter byReference index, type, span := .none }
    let (ids, store) := addFormals store (index + 1) rest
    (id :: ids, store)

def addOverload (store : Store) (o : Overload) : Ty × Store :=
  let (params, store) := addFormals store 0 o.formals
  store.addType (.procedure ⟨params, o.result, o.variadic⟩)

def addOverloads (store : Store) : List Overload → List Ty × Store
  | [] => ([], store)
  | o :: rest =>
    let (type, store) := addOverload store o
    let (types, store) := addOverloads store rest
    (type :: types, store)

def addName (u : Universe) (name : String) (role : Role) (type : Ty) : Universe :=
  let (id, store) := u.store.addDecl { name, role, type, span := .none }
  { u with store, scopes := u.scopes.addPredefined name id }

/-- Strings are the only basic type without a name. -/
def addBasic (u : Universe) (b : Basic) : Universe :=
  if b == .string then u else u.addName b.name .type (.basic b)

def addBuiltin (a : Anonymous) (u : Universe) (b : Builtin) : Universe :=
  let (types, store) := addOverloads u.store (overloads a b)
  let u := { u with store, signatures := (b, types) :: u.signatures }
  u.addName b.name (.procedure (.predefined b)) (types.headD .undefined)

def standard : Universe :=
  let u := Basic.all.foldl addBasic {}
  let (anyPointer, store) := u.store.addType (.pointer (some .any))
  let (anyArray, store) := store.addOpenArray 1 .any
  let (charArray, store) := store.addOpenArray 1 .char
  Builtin.all.foldl (addBuiltin ⟨anyPointer, anyArray, charArray⟩) { u with store }

end Universe
end Oberon
