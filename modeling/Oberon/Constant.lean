import Oberon.Expr
import Oberon.Message

/-!
# Oberon.Constant

Evaluation of operators over literals. Integer arithmetic is 64-bit and reports overflow, DIV and
MOD are floored and want a positive divisor, sets are 32-bit masks. `fold` evaluates a whole tree;
`reduce` is one operator over two operands and also knows the identity and absorbing elements.
-/

namespace Oberon
namespace Constant

/-- Why there is no value: something is not constant, or the computation is at fault. -/
inductive Failure where
  | notConstant
  | fault (note : ConstantNote) (span : Span)

abbrev Result (α : Type) := Except Failure α

def setMax : Int := 31

def boundCheck (span : Span) (value : Int) : Result Unit :=
  if 0 ≤ value && value ≤ setMax then .ok ()
  else .error (.fault (.outOfBounds value 0 setMax) span)

/-- A value in the signed 64-bit range, with the narrowest type that holds it. -/
def checked (span : Span) (value : Int) : Result (Literal × Ty) :=
  if fits64 value then .ok (.integer value, .ofInteger value) else .error (.fault .overflow span)

def toReal (value : Int) : Float := (Int64.ofInt value).toFloat

/-! ## Operators -/

def unary (span : Span) (op : UnaryOp) (value : Literal) (type : Ty) : Result (Literal × Ty) :=
  match op, value with
  | .not, .boolean b => .ok (.boolean !b, .boolean)
  | .plus, .integer v => .ok (.integer v, type)
  | .neg, .integer v => checked span (-v)
  | .plus, .real v => .ok (.real v, type)
  | .neg, .real v => .ok (.real (-v), type)
  | .neg, .set mask => .ok (.set (~~~mask), .set)
  | _, _ => .error .notConstant

def truth (value : Bool) : Result (Literal × Ty) := .ok (.boolean value, .boolean)

def relation (op : BinaryOp) (eq lt le gt ge : Bool) : Result (Literal × Ty) :=
  match op with
  | .eq => truth eq
  | .neq => truth !eq
  | .lt => truth lt
  | .leq => truth le
  | .gt => truth gt
  | .geq => truth ge
  | _ => .error .notConstant

def booleans (op : BinaryOp) (l r : Bool) : Result (Literal × Ty) :=
  match op with
  | .and => truth (l && r)
  | .or => truth (l || r)
  | .eq => truth (l == r)
  | .neq => truth (l != r)
  | _ => .error .notConstant

def integers (span : Span) (op : BinaryOp) (l r : Int) (common : Ty) : Result (Literal × Ty) :=
  match op with
  | .add => checked span (l + r)
  | .sub => checked span (l - r)
  | .mul => checked span (l * r)
  | .div =>
    if r = 0 then .error (.fault .divisionByZero span)
    else if r < 0 then .error (.fault .negativeDivisor span)
    else .ok (.integer (Int.fdiv l r), common)
  | .mod =>
    if r = 0 then .error (.fault .divisionByZero span)
    else if r < 0 then .error (.fault .negativeDivisor span)
    else .ok (.integer (Int.fmod l r), common)
  | .divide =>
    if r = 0 then .error (.fault .divisionByZero span)
    else .ok (.real (toReal l / toReal r), if common.isReal then common else .real)
  | _ => relation op (l == r) (l < r) (l ≤ r) (l > r) (l ≥ r)

def reals (op : BinaryOp) (l r : Float) (common : Ty) : Result (Literal × Ty) :=
  match op with
  | .add => .ok (.real (l + r), common)
  | .sub => .ok (.real (l - r), common)
  | .mul => .ok (.real (l * r), common)
  | .divide => .ok (.real (l / r), common)
  | _ => relation op (l == r) (l < r) (l ≤ r) (l > r) (l ≥ r)

def strings (op : BinaryOp) (l r : String) : Result (Literal × Ty) :=
  match op with
  | .add => .ok (.string (l ++ r), .string)
  | .eq => truth (l == r)
  | .neq => truth (l != r)
  | _ => .error .notConstant

def sets (op : BinaryOp) (l r : BitVec 32) : Result (Literal × Ty) :=
  match op with
  | .add => .ok (.set (l ||| r), .set)
  | .sub => .ok (.set (l &&& ~~~r), .set)
  | .mul => .ok (.set (l &&& r), .set)
  | .divide => .ok (.set (l ^^^ r), .set)
  | .eq => truth (l == r)
  | .neq => truth (l != r)
  | .leq => truth (l &&& ~~~r == 0#32)
  | .geq => truth (r &&& ~~~l == 0#32)
  | _ => .error .notConstant

def charText (code : UInt8) : String := String.singleton (Literal.charOfCode code)

/-- A binary operator over two literals. `common` is the type the operands were unified to, or
`BOOLEAN` for a relation. -/
def binary (span : Span) (op : BinaryOp) (lhs rhs : Literal) (common : Ty) :
    Result (Literal × Ty) :=
  match lhs, rhs with
  | .boolean l, .boolean r => booleans op l r
  | .integer l, .integer r => integers span op l r common
  | .integer l, .real r => reals op (toReal l) r common
  | .real l, .integer r => reals op l (toReal r) common
  | .real l, .real r => reals op l r common
  | .char l, .char r => relation op (l == r) (l < r) (l ≤ r) (l > r) (l ≥ r)
  | .char l, .string r => strings op (charText l) r
  | .string l, .char r => strings op l (charText r)
  | .string l, .string r => strings op l r
  | .nil, .nil =>
    match op with
    | .eq => truth true
    | .neq => truth false
    | _ => .error .notConstant
  | .set l, .set r => sets op l r
  | .integer element, .set mask =>
    match op with
    | .member =>
      match boundCheck span element with
      | .error e => .error e
      | .ok () => truth (mask.getLsbD element.toNat)
    | _ => .error .notConstant
  | _, _ => .error .notConstant

/-! ## Trees -/

def rangeMask (lower upper : Int) : BitVec 32 :=
  (List.range 32).foldl
    (fun mask (i : Nat) =>
      if lower ≤ (i : Int) && (i : Int) ≤ upper then mask ||| BitVec.twoPow 32 i else mask) 0#32

/-- Mask of one element or range of a set, given the values of its bounds. -/
def elementMask (span : Span) (lower upper : Literal) : Result (BitVec 32) :=
  match lower, upper with
  | .integer low, .integer high =>
    match boundCheck span low, boundCheck span high with
    | .error e, _ => .error e
    | _, .error e => .error e
    | .ok (), .ok () =>
      if high < low then .error (.fault .emptyRange span) else .ok (rangeMask low high)
  | _, _ => .error .notConstant

def join (mask others : Result (BitVec 32)) : Result (BitVec 32) :=
  match mask with
  | .error e => .error e
  | .ok mask =>
    match others with
    | .error e => .error e
    | .ok others => .ok (mask ||| others)

mutual

def foldTyped : Expr → Result (Literal × Ty)
  | .literal v note => .ok (v, note.type)
  | .unary op x note =>
    match foldTyped x with
    | .error e => .error e
    | .ok (v, type) => unary note.span op v type
  | .binary op l r note =>
    match foldTyped l with
    | .error e => .error e
    | .ok (l, _) =>
      match foldTyped r with
      | .error e => .error e
      | .ok (r, _) => binary note.span op l r note.type
  | .set elements _ =>
    match foldElements elements with
    | .error e => .error e
    | .ok mask => .ok (.set mask, .set)
  | .designator .. => .error .notConstant
  | .range .. => .error .notConstant

def foldElements : List Expr → Result (BitVec 32)
  | [] => .ok 0#32
  | .range lower upper note :: rest =>
    match foldTyped lower with
    | .error e => .error e
    | .ok (low, _) =>
      match foldTyped upper with
      | .error e => .error e
      | .ok (high, _) => join (elementMask note.span low high) (foldElements rest)
  | x :: rest =>
    match foldTyped x with
    | .error e => .error e
    | .ok (v, _) => join (elementMask x.span v v) (foldElements rest)

end

def fold (e : Expr) : Result Literal := (foldTyped e).map Prod.fst

/-! ## One operator -/

def reduceUnary (op : UnaryOp) (operand : Expr) : Result (Literal × Ty) :=
  match operand.literal? with
  | some v => unary operand.span op v operand.type
  | none => .error .notConstant

inductive Reduction where
  | literal (value : Literal) (type : Ty)
  | lhs
  | rhs
  /-- `0 - x` is `-x`. -/
  | negatedRhs

def isInteger (value : Option Literal) (expected : Int) : Bool :=
  match value with
  | some (.integer v) => v == expected
  | _ => false

def isBoolean (value : Option Literal) (expected : Bool) : Bool :=
  match value with
  | some (.boolean v) => v == expected
  | _ => false

/-- Divisors are checked whatever the dividend is; dividing by one changes nothing. -/
def divisor (op : BinaryOp) (left right : Option Literal) (span : Span) :
    Result (Option Reduction) :=
  match op, right with
  | .div, some (.integer d) =>
    if d = 0 then .error (.fault .divisionByZero span)
    else if d < 0 then .error (.fault .negativeDivisor span)
    else if d = 1 && left.isNone then .ok (some .lhs)
    else .ok none
  | .mod, some (.integer d) =>
    if d = 0 then .error (.fault .divisionByZero span)
    else if d < 0 then .error (.fault .negativeDivisor span)
    else .ok none
  | .divide, some (.integer d) =>
    if d = 0 then .error (.fault .divisionByZero span)
    else if d = 1 && left.isNone then .ok (some .lhs)
    else .ok none
  | .divide, some (.real d) =>
    if d == 0.0 then .error (.fault .divisionByZero span) else .ok none
  | _, _ => .ok none

/-- Identity and absorbing elements, for operands of which at most one is a literal. -/
def identity (op : BinaryOp) (left right : Option Literal) : Result Reduction :=
  match op with
  | .add =>
    if isInteger left 0 then .ok .rhs
    else if isInteger right 0 then .ok .lhs
    else .error .notConstant
  | .sub =>
    if isInteger right 0 then .ok .lhs
    else if isInteger left 0 then .ok .negatedRhs
    else .error .notConstant
  | .mul =>
    if isInteger left 0 || isInteger right 0 then .ok (.literal (.integer 0) .shortint)
    else if isInteger left 1 then .ok .rhs
    else if isInteger right 1 then .ok .lhs
    else .error .notConstant
  | .and =>
    if isBoolean left true then .ok .rhs
    else if isBoolean right true then .ok .lhs
    else .error .notConstant
  | .or =>
    if isBoolean left false then .ok .rhs
    else if isBoolean right false then .ok .lhs
    else .error .notConstant
  | _ => .error .notConstant

def reduce (span : Span) (op : BinaryOp) (lhs rhs : Expr) (common : Ty) : Result Reduction :=
  match divisor op lhs.literal? rhs.literal? rhs.span with
  | .error e => .error e
  | .ok (some r) => .ok r
  | .ok none =>
    match lhs.literal?, rhs.literal? with
    | some l, some r =>
      match binary span op l r common with
      | .error e => .error e
      | .ok (value, type) => .ok (.literal value type)
    | left, right => identity op left right

end Constant
end Oberon
