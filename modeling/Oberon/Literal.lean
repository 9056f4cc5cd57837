import Oberon.Number.Text

/-!
# Oberon.Literal

Values of constants. Integers are 64-bit signed, characters are bytes, and a set is a mask
whose bit `i` tells whether `i` is a member.
-/

namespace Oberon

inductive Literal where
  | boolean (value : Bool)
  | integer (value : Int)
  | real (value : Float)
  | char (code : UInt8)
  | string (value : String)
  | set (mask : BitVec 32)
  | nil

namespace Literal

def kindName : Literal → String
  | boolean _ => "boolean"
  | integer _ => "integer"
  | real _ => "real"
  | char _ => "character"
  | string _ => "string"
  | set _ => "set"
  | nil => "NIL"

def members (mask : BitVec 32) : List Nat := (List.range 32).filter fun i => mask.getLsbD i

def text : Literal → String
  | boolean true => "TRUE"
  | boolean false => "FALSE"
  | integer value => toString value
  | real value => Number.realText .value value
  | char code =>
    if 0x21 ≤ code && code ≤ 0x7e then "'" ++ String.singleton (Char.ofNat code.toNat) ++ "'"
    else Number.hexText code.toNat ++ "X"
  | string value => "\"" ++ value ++ "\""
  | set mask => "\x7b" ++ ", ".intercalate ((members mask).map toString) ++ "\x7d"
  | nil => "NIL"

def charOfCode (code : UInt8) : Char := Char.ofNat code.toNat

end Literal

/-! ## 64-bit integers -/

def fits64 (value : Int) : Bool := -0x8000000000000000 ≤ value && value < 0x8000000000000000

end Oberon
