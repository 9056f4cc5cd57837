import Oberon.Analysis
import Oberon.Statement

/-!
# Oberon.Analysis.Cases

CASE statements. Labels of a numeric case are spread into values, which have to be disjoint over
all arms. An arm of a type case has one type, and within the arm the subject has that type.
-/

namespace Oberon
namespace Analyze

/-- Integers and characters select by value. -/
def isDiscrete (type : Ty) : Bool := type.isEntire || type.isChar

def beginCase (subject : Expr) : Analyze Unit := do
  let store ← getStore
  let type := subject.type
  let decl ←
    if store.isPointer type || store.isRecord type then
      match subject with
      | .designator _ decl [] _ => do
        let byReference := match decl with
          | some id => (store.decl id).isVarParameter
          | none => false
        reportIf (store.isRecord type && !byReference) subject.span (.cases .notAVarParameter)
        pure decl
      | _ => do
        report subject.span (.cases .notAVariable)
        pure none
    else pure none
  let declared := match decl with
    | some id => store.typeOf id
    | none => type
  modify fun a => { a with cases := ⟨type, decl, declared⟩ :: a.cases }

/-! ## Labels -/

def labelValue? (e : Expr) : Option Int :=
  match e.literal? with
  | some (.integer v) => some v
  | some (.char c) => some c.toNat
  | _ => none

def interval (low high : Int) : List Int :=
  (List.range (high + 1 - low).toNat).map fun (i : Nat) => low + i

def labelValues (label : Expr) : Analyze (Option (List Int)) := do
  match label with
  | .range lower upper note =>
    match labelValue? lower, labelValue? upper with
    | some low, some high =>
      if low < high then return some (interval low high)
      else
        report upper.span (.constant .emptyRange)
        return none
    | _, _ =>
      report note.span (.cases .constantExpected)
      return none
  | _ =>
    match labelValue? label with
    | some value => return some [value]
    | none =>
      report label.span (.cases .constantExpected)
      return none

structure LabelScan where
  values : List (Int × Span) := []
  guard : Option Ty := none
  chars : Option Bool := none

def discreteLabel (scan : LabelScan) (label : Expr) : Analyze LabelScan := do
  let isChar := label.type.isChar
  if scan.chars == some !isChar then
    report label.span (.cases .mixedLabels)
    return scan
  else
    let scan := { scan with chars := some isChar }
    match ← labelValues label with
    | none => return scan
    | some values =>
      reportIf (values.any fun v => scan.values.any fun seen => seen.1 == v) label.span
        (.cases .duplicateLabels)
      return { scan with values := scan.values ++ values.map fun v => (v, label.span) }

/-- A label that names a type, which the subject has from here to the end of the arm. -/
def typeLabel (frame : CaseFrame) (scan : LabelScan) (label : Expr) : Analyze LabelScan := do
  let store ← getStore
  match label.root? with
  | none => return scan
  | some id =>
    let type := store.typeOf id
    if (store.isPointer type && store.isPointer frame.type) ||
        (store.isRecord type && store.isRecord frame.type) then
      if store.isExtension type frame.type then
        match frame.decl with
        | some subject => modifyStore fun s => s.setType subject type
        | none => pure ()
        return { scan with guard := some type }
      else
        report label.span
          (.expression (.notAnExtension (store.typeText type) (store.typeText frame.type)))
        return scan
    else
      report label.span
        (.cases (.labelTypeMismatch (store.typeText type) (store.typeText frame.type)))
      return scan

/-- Go through labels; `second` is the second label of the arm. -/
def scanLabels (frame : CaseFrame) (second : Option Expr) (scan : LabelScan) :
    List Expr → Analyze LabelScan
  | [] => pure scan
  | label :: rest => do
    if isDiscrete label.type then
      let scan ← discreteLabel scan label
      scanLabels frame second scan rest
    else if label.type == .typeName then
      match second with
      | some e =>
        report e.span (.cases .severalTypes)
        return scan
      | none =>
        let scan ← typeLabel frame scan label
        scanLabels frame second scan rest
    else
      reportIf (label.type != .undefined) label.span (.cases .labelExpected)
      scanLabels frame second scan rest

def caseFrame : Analyze CaseFrame := do
  match (← get).cases with
  | frame :: _ => return frame
  | [] => return ⟨.undefined, none, .undefined⟩

def caseLabels (span : Span) (labels : List Expr) : Analyze CaseLabels := do
  let scan ← scanLabels (← caseFrame) labels[1]? {} labels
  return ⟨labels, scan.values, scan.guard, span⟩

/-! ## Arms -/

def checkDomain (frame : CaseFrame) (labels : CaseLabels) : Analyze Unit := do
  let store ← getStore
  match (labels.labels.map Expr.type).find? isDiscrete with
  | none => pure ()
  | some type =>
    if (frame.type.isEntire && !type.isEntire) || (frame.type.isChar && !type.isChar) then
      report labels.span (.cases .labelDomain)
    else
      reportIf (store.isPointer frame.type || store.isRecord frame.type) labels.span
        (.cases .labelNotAType)

/-- The end of an arm gives the subject its declared type back. -/
def caseArm (labels : CaseLabels) (body : List Statement) : Analyze Arm := do
  match (← get).cases with
  | [] => pure ()
  | frame :: _ =>
    checkDomain frame labels
    match frame.decl with
    | some id => modifyStore fun s => s.setType id frame.declared
    | none => pure ()
  return .mk labels body

def checkDisjoint (seen : List Int) : List Arm → Analyze Unit
  | [] => pure ()
  | arm :: rest => do
    let values := arm.labels.values
    match values.find? fun v => seen.contains v.1 with
    | some (_, span) => report span (.cases .duplicateLabels)
    | none => pure ()
    checkDisjoint (seen ++ values.map Prod.fst) rest

def checkGuards (earlier : List Ty) : List Arm → Analyze Unit
  | [] => pure ()
  | arm :: rest => do
    match arm.labels.guard with
    | none => checkGuards earlier rest
    | some guard =>
      let store ← getStore
      if earlier.contains guard then report arm.labels.span (.cases .duplicateLabels)
      else if earlier.any fun e => store.isExtension guard e then
        warn arm.labels.span (.cases .unreachableArm)
      checkGuards (earlier ++ [guard]) rest

def endCase (span : Span) (subject : Expr) (arms : List Arm)
    (otherwise : Option (List Statement)) : Analyze Statement := do
  modify fun a => { a with cases := a.cases.tail }
  let store ← getStore
  let type := subject.type
  if isDiscrete type then checkDisjoint [] arms
  else if store.isPointer type || store.isRecord type then checkGuards [] arms
  else reportIf (type != .undefined) subject.span (.cases .subjectType)
  return .select subject arms otherwise span

end Analyze
end Oberon
