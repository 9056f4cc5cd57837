import Oberon.Store.Relations
import Oberon.Universe

/-!
# Oberon.Universe.Dispatch

Which signature of a predefined procedure a call uses. Every parameter that matches scores, an
exact match more than a match with a family; the signature with the best score is taken, the
primary one if the best score is not unique. A signature from a type name to a value of that
type is taken at once.
-/

namespace Oberon
namespace Dispatch

structure Choice where
  signature : Ty
  result : Option Ty

def matchesFamily (store : Store) (formal actual : Ty) : Bool :=
  match formal with
  | .pseudo .any => true
  | .pseudo .entire => actual.isEntire
  | .pseudo .floating => actual.isReal
  | .pseudo .numeric => actual.isNumeric
  | _ =>
    match store.form? formal with
    | some (.pointer base) =>
      base == some .any && (store.isPointer actual || actual == .nil)
    | some (.array a) =>
      if a.member == .any then store.isArray actual || actual.isString
      else
        a.member == .char && (actual.isChar || actual.isString ||
          (store.array? actual).any fun b => b.member == .char)
    | _ => false

def matchScore? (store : Store) (formal actual : Ty) : Option Nat :=
  if formal == actual then some 2
  else if matchesFamily store formal actual then some 1
  else none

def totalScore? (store : Store) : List DeclId → List Ty → Option Nat
  | param :: params, actual :: actuals =>
    match matchScore? store (store.typeOf param) actual, totalScore? store params actuals with
    | some n, some total => some (n + total)
    | _, _ => none
  | _, _ => some 0

def score? (store : Store) (s : Signature) (actuals : List Ty) : Option Nat :=
  if actuals.length < s.params.length then none
  else if !s.variadic && s.params.length < actuals.length then none
  else totalScore? store s.params actuals

/-- Takes a type name and yields a value of that type. -/
def isCastStyle (store : Store) (s : Signature) : Bool :=
  s.result == some .typeName &&
    match s.params with
    | [param] => store.typeOf param == .typeName
    | _ => false

/-- The best signature so far, and whether another one has the same score. -/
structure Best where
  score : Nat
  signature : Ty
  tie : Bool

def Best.update (best : Option Best) (score : Nat) (signature : Ty) : Option Best :=
  match best with
  | some b =>
    if score < b.score then some b
    else if score == b.score then some { b with tie := true }
    else some ⟨score, signature, false⟩
  | none => some ⟨score, signature, false⟩

/-- Outcome of going through the signatures: a cast-style one, or the best of the others. -/
inductive Search where
  | cast (signature : Ty)
  | best (best : Option Best)

def search (store : Store) (actuals : List Ty) (best : Option Best) : List Ty → Search
  | [] => .best best
  | t :: rest =>
    match store.signature? t with
    | none => search store actuals best rest
    | some s =>
      if isCastStyle store s then .cast t
      else
        match score? store s actuals with
        | none => search store actuals best rest
        | some n => search store actuals (Best.update best n t) rest

/-- Select among `signatures` for the given actual types. `typeArg` is the type named by the
first argument if that is a type name. -/
def choose (store : Store) (signatures : List Ty) (actuals : List Ty) (typeArg : Option Ty) :
    Option Choice :=
  match signatures with
  | [] => none
  | primary :: _ =>
    match search store actuals none signatures with
    | .cast t => some ⟨t, some (typeArg.getD .undefined)⟩
    | .best best =>
      let signature := match best with
        | some ⟨_, t, false⟩ => t
        | _ => primary
      let result := (store.signature? signature).bind Signature.result
      match result with
      | some (.pseudo .numeric) => some ⟨signature, actuals.head?.or result⟩
      | _ => some ⟨signature, result⟩

end Dispatch
end Oberon
