import Oberon.Expr
import Oberon.Message
import Oberon.Store.Relations

/-!
# Oberon.Compatibility

Which types go together: assignment compatibility, the common type of two operands, implicit
conversions of values and literals, and which expressions can be written to.
-/

namespace Oberon
namespace Store

/-! ## Compatibility -/

def parametersAgree (s : Store) (expected actual : DeclId) : Bool :=
  let e := s.decl expected
  let a := s.decl actual
  e.isVarParameter == a.isVarParameter &&
    match s.array? e.type, s.array? a.type with
    | some x, some y =>
      x.isOpen && y.isOpen && x.dimensions == y.dimensions && s.sameType x.member y.member
    | _, _ => s.sameType e.type a.type

def resultsAgree (s : Store) : Option Ty → Option Ty → Bool
  | none, none => true
  | some e, some a => s.sameType e a
  | _, _ => false

def allParametersAgree (s : Store) : List DeclId → List DeclId → Bool
  | e :: es, a :: as => s.parametersAgree e a && s.allParametersAgree es as
  | _, _ => true

/-- Procedure types are compared by structure. -/
def procedureMismatch? (s : Store) (expected actual : Signature) : Option Mismatch :=
  if expected.variadic || actual.variadic then some .variadicProcedure
  else if !s.resultsAgree expected.result actual.result then some .procedureResults
  else if expected.params.length != actual.params.length then some .parameterCounts
  else if !s.allParametersAgree expected.params actual.params then some .parameters
  else none

/-- The first dimension in which the actual array is longer. -/
def lengthMismatch? : (expected actual : List Nat) → Option Mismatch
  | e :: es, a :: as => if e < a then some (.arrayLengths a e) else lengthMismatch? es as
  | _, _ => none

/-- Numeric types are compatible when nothing can be lost; `BYTE` goes with every integer. -/
def numericMismatch? (s : Store) (expected actual : Ty) (otherwise : Mismatch) : Option Mismatch :=
  if (expected.isInteger && actual.isInteger) || (expected.isReal && actual.isReal) then
    if s.size actual ≤ s.size expected then none
    else some (.mayLoseData (s.typeText actual) (s.typeText expected))
  else if expected.isReal && actual.isEntire then none
  else if (expected.isByte && actual.isInteger) || (expected.isInteger && actual.isByte) then none
  else some otherwise

def familyAccepts : (family actual : Ty) → Bool
  | .pseudo .entire, actual => actual.isEntire
  | .pseudo .floating, actual => actual.isReal
  | _, actual => actual.isNumeric

/-- The reason why a value of type `actual` cannot be used where `expected` is required, within
`fuel` steps into member and base types. `behind` tells that pointers to them are compared. -/
def mismatchWithin (s : Store) : (fuel : Nat) → (expected actual : Ty) → (behind : Bool) →
    Option Mismatch
  | 0, expected, actual, _ => some (.types (s.typeText expected) (s.typeText actual))
  | fuel + 1, expected, actual, behind =>
    if expected == actual || expected == .any || s.sameName expected actual then none
    else
      let general : Mismatch :=
        if behind then .types (s.pointerText expected) (s.pointerText actual)
        else .types (s.typeText expected) (s.typeText actual)
      if expected.isNumericFamily then
        if familyAccepts expected actual then none else some general
      else if expected.isNumeric && actual.isNumeric then
        s.numericMismatch? expected actual general
      else
        match s.form? expected with
        | none => some general
        | some (.array e) =>
          match s.array? actual with
          | some a =>
            if e.member == .any then none
            else if e.isOpen then
              s.mismatchWithin fuel (e.types.headD .undefined) (a.types.headD .undefined) false
            else if e.dimensions != a.dimensions then
              some (.arrayDimensions e.dimensions a.dimensions)
            else
              match lengthMismatch? e.lengths a.lengths with
              | some m => some m
              | none => s.mismatchWithin fuel e.member a.member false
          | none =>
            if (actual.isString || actual.isChar) && (e.member == .char || e.member == .any) then
              if e.dimensions == 1 then none else some .stringToMatrix
            else some general
        | some (.record _) =>
          if s.isRecord actual && s.isExtension actual expected then none else some general
        | some (.pointer base) =>
          if actual == .nil || s.isExtension actual expected then none
          else
            match base, s.pointer? actual with
            | some e, some (some a) => s.mismatchWithin fuel e a true
            | _, _ => some general
        | some (.procedure e) =>
          if actual == .nil then none
          else
            match s.signature? actual with
            | some a => s.procedureMismatch? e a
            | none => some general

/-- The reason why `actual` is not compatible with `expected`, `none` if it is. -/
def mismatch? (s : Store) (expected actual : Ty) : Option Mismatch :=
  s.mismatchWithin (s.types.size + 1) expected actual false

/-! ## Operands -/

/-- The type both operands of a binary operator are converted to. -/
def commonType? (s : Store) (lhs rhs : Ty) : Option Ty :=
  if s.sameType lhs rhs then some lhs
  else if lhs.isNumeric && rhs.isNumeric then
    if lhs.isReal != rhs.isReal then some (if lhs.isReal then lhs else rhs)
    else some (if s.size lhs < s.size rhs then rhs else lhs)
  else if (lhs.isChar && rhs.isString) || (lhs.isString && rhs.isChar) then some .string
  else if lhs == .nil then some rhs
  else if rhs == .nil then some lhs
  else if (s.isPointer lhs && s.isPointer rhs) || (s.isRecord lhs && s.isRecord rhs) then
    if s.isExtension rhs lhs then some lhs
    else if s.isExtension lhs rhs then some rhs
    else none
  else none

/-! ## Conversions -/

/-- Pseudo types and structures built on them, which are never the target of a conversion. -/
def isGeneric (s : Store) (t : Ty) : Bool :=
  t.isPseudo ||
    match s.form? t with
    | some (.pointer (some base)) => base.isPseudo
    | some (.array a) => a.member.isPseudo
    | _ => false

def convert (s : Store) (e : Expr) (expected : Ty) : Expr :=
  if s.isGeneric expected || s.sameType e.type expected then e else e.withCast expected

def literalFits (s : Store) (value : Literal) (t : Ty) : Bool :=
  match value with
  | .integer _ => t.isEntire
  | .real _ => t.isReal
  | .nil => s.isPointer t || s.isProcedure t
  | .boolean _ => t.isBoolean
  | .char _ => t.isChar || t.isString
  | .string _ => t.isString
  | .set _ => t.isSet

/-- A literal that is put into a character array. Characters become strings, and a string is cut
so that it leaves room for its terminator. -/
def literalToArray (value : Literal) (note : Note) (length : Nat) : Expr × Option ExpressionNote :=
  match value with
  | .char code =>
    (.literal (.string (String.singleton (Literal.charOfCode code))) { note with type := .string },
      none)
  | .string text =>
    if 0 < length && length ≤ text.utf8ByteSize then
      (.literal (.string (String.ofList (text.toList.take (length - 1)))) note, some .truncated)
    else (.literal value note, none)
  | _ => (.literal value note, none)

/-- Adapt a literal to the type it is assigned or passed to, with a warning if need be. -/
def convertLiteral (s : Store) (e : Expr) (expected : Ty) : Expr × Option ExpressionNote :=
  match e with
  | .literal value note =>
    if s.isGeneric expected || note.type == expected then (e, none)
    else
      match s.array? expected with
      | some a => literalToArray value note (a.lengths.headD 0)
      | none =>
        match value, expected.isReal with
        | .integer v, true =>
          (.literal (.real (Int64.ofInt v).toFloat) { note with type := expected }, none)
        | _, _ =>
          (s.convert e expected,
            if s.literalFits value expected then none
            else some (.uncastable value.kindName (s.typeText expected)))
  | _ => (e, none)

/-! ## Locations -/

/-- The reason why an expression does not denote a location that can be written. -/
def unwritable? (s : Store) (e : Expr) : Option Unwritable :=
  match e with
  | .literal _ _ => some .constantValue
  | .designator _ none _ _ => none
  | .designator _ (some id) selectors _ =>
    let d := s.decl id
    match d.role with
    | .parameter byReference _ =>
      if !byReference && s.isStructured d.type then some .structuredParameter else none
    | .constant _ => some .constant
    | .variable _ => if d.imported then some .importedVariable else none
    | _ => if selectors.isEmpty then some .expression else none
  | _ => some .expression

end Store
end Oberon
