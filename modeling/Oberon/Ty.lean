/-!
# Oberon.Ty

References to types. The basic types and the pseudo types are known everywhere; a composite type
is a place in a store of type forms. Pseudo types stand for families of types in predefined
signatures, for `NIL`, for type names used as arguments, and for the type of what is wrong.
-/

namespace Oberon

inductive Basic where
  | boolean
  | byte
  | char
  | shortint
  | integer
  | longint
  | real
  | longreal
  | set
  | string
deriving DecidableEq

namespace Basic

def all : List Basic :=
  [boolean, byte, char, shortint, integer, longint, real, longreal, set, string]

def name : Basic → String
  | boolean => "BOOLEAN"
  | byte => "BYTE"
  | char => "CHAR"
  | shortint => "SHORTINT"
  | integer => "INTEGER"
  | longint => "LONGINT"
  | real => "REAL"
  | longreal => "LONGREAL"
  | set => "SET"
  | string => "STRING"

/-- Size in bytes; a string takes the room of a pointer. -/
def size : Basic → Nat
  | boolean | byte | char => 1
  | shortint => 2
  | integer | real | set => 4
  | longint | longreal | string => 8

end Basic

inductive Pseudo where
  | any
  | undefined
  | nil
  | entire
  | floating
  | numeric
  | typeName
deriving DecidableEq

namespace Pseudo

def all : List Pseudo := [any, undefined, nil, entire, floating, numeric, typeName]

def name : Pseudo → String
  | any => "ANY"
  | undefined => "undefined type"
  | nil => "NIL"
  | entire => "ENTIRE"
  | floating => "FLOATING"
  | numeric => "NUMERIC"
  | typeName => "TYPE"

end Pseudo

inductive Ty where
  | basic (type : Basic)
  | pseudo (type : Pseudo)
  | composite (id : Nat)
deriving DecidableEq

/-- Place of a declaration in a store. Later declarations have larger numbers. -/
structure DeclId where
  index : Nat
deriving DecidableEq, Inhabited

namespace Ty

instance : Inhabited Ty := ⟨.pseudo .undefined⟩

abbrev boolean : Ty := .basic .boolean
abbrev char : Ty := .basic .char
abbrev shortint : Ty := .basic .shortint
abbrev integer : Ty := .basic .integer
abbrev longint : Ty := .basic .longint
abbrev real : Ty := .basic .real
abbrev longreal : Ty := .basic .longreal
abbrev set : Ty := .basic .set
abbrev string : Ty := .basic .string

abbrev undefined : Ty := .pseudo .undefined
abbrev any : Ty := .pseudo .any
abbrev nil : Ty := .pseudo .nil
abbrev typeName : Ty := .pseudo .typeName

def isBoolean (t : Ty) : Bool := t == boolean
def isByte (t : Ty) : Bool := t == .basic .byte
def isChar (t : Ty) : Bool := t == char
def isString (t : Ty) : Bool := t == string
def isSet (t : Ty) : Bool := t == set

def isInteger (t : Ty) : Bool := t == shortint || t == integer || t == longint

def isReal (t : Ty) : Bool := t == real || t == longreal

def isEntire (t : Ty) : Bool := t.isInteger || t.isByte

def isNumeric (t : Ty) : Bool := t.isEntire || t.isReal

def isPseudo : Ty → Bool
  | pseudo _ => true
  | _ => false

def isNumericFamily : Ty → Bool
  | pseudo .entire => true
  | pseudo .floating => true
  | pseudo .numeric => true
  | _ => false

def ofInteger (value : Int) : Ty :=
  if -0x8000 ≤ value && value < 0x8000 then shortint
  else if -0x80000000 ≤ value && value < 0x80000000 then integer
  else longint

end Ty
end Oberon
