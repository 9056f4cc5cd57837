import Oberon.Statement

/-!
# Oberon.Lifting.WriteBack

Inserting statements in front of every RETURN of a sequence, however deeply it is nested.
-/

namespace Oberon
namespace Lifting

mutual

def insertWithin (extra : List Statement) : Statement → Statement
  | .cond test body elsifs otherwise span =>
    .cond test (insertBeforeReturns extra body) (insertInBranches extra elsifs)
      (insertInOtherwise extra otherwise) span
  | .select subject arms otherwise span =>
    .select subject (insertInArms extra arms) (insertInOtherwise extra otherwise) span
  | .loop body span => .loop (insertBeforeReturns extra body) span
  | .while test body elsifs span =>
    .while test (insertBeforeReturns extra body) (insertInBranches extra elsifs) span
  | .repeat body test span => .repeat (insertBeforeReturns extra body) test span
  | .for counter low high step body span =>
    .for counter low high step (insertBeforeReturns extra body) span
  | .assign target value span => .assign target value span
  | .call e span => .call e span
  | .exit span => .exit span
  | .return value span => .return value span

def insertBeforeReturns (extra : List Statement) : List Statement → List Statement
  | [] => []
  | .return value span :: rest =>
    extra ++ .return value span :: insertBeforeReturns extra rest
  | s :: rest => insertWithin extra s :: insertBeforeReturns extra rest

def insertInOtherwise (extra : List Statement) :
    Option (List Statement) → Option (List Statement)
  | none => none
  | some body => some (insertBeforeReturns extra body)

def insertInBranches (extra : List Statement) : List Branch → List Branch
  | [] => []
  | .mk test body span :: rest =>
    .mk test (insertBeforeReturns extra body) span :: insertInBranches extra rest

def insertInArms (extra : List Statement) : List Arm → List Arm
  | [] => []
  | .mk labels body :: rest =>
    .mk labels (insertBeforeReturns extra body) :: insertInArms extra rest

end

end Lifting
end Oberon
