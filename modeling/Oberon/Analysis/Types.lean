import Oberon.Analysis

/-!
# Oberon.Analysis.Types

Type expressions. A pointer may name a base that is declared later in the same block; such
pointers are settled at the end of the block's declarations, before its procedures.
-/

namespace Oberon
namespace Analyze

/-! ## Arrays -/

/-- The length an expression denotes, a positive 32-bit number. -/
def arrayLength (e : Expr) : Analyze (Option Nat) := do
  if !e.isConstant then
    report e.span (.declaration .constantExpected)
    return none
  else
    match ← evaluate (Constant.fold e) with
    | some (.integer value) =>
      if 0 < value && value < 0x100000000 then return some value.toNat
      else
        report e.span (.declaration .dimensionNotPositive)
        return none
    | some _ =>
      report e.span (.declaration .integerExpected)
      return none
    | none =>
      report e.span (.declaration .constantIntegerExpected)
      return none

def arrayLengths : List (Option Expr) → Analyze (Option (List Nat))
  | [] => pure (some [])
  | dimension :: rest => do
    let length ← match dimension with
      | some e => arrayLength e
      | none => pure none
    let lengths ← arrayLengths rest
    return match length, lengths with
      | some n, some ns => some (n :: ns)
      | _, _ => none

def addArray (lengths : List Nat) (member : Ty) : Analyze Ty := fun a =>
  let (type, store) := a.store.addArray lengths member
  (type, { a with store })

/-- An array of an anonymous array of known length is one array of more dimensions. -/
def arrayType (span : Span) (dimensions : List (Option Expr)) (member : Option Ty) :
    Analyze Ty := do
  let lengths ← arrayLengths dimensions
  match member, lengths with
  | none, _ =>
    report span (.declaration .undefinedMemberType)
    return .undefined
  | some _, none => return .undefined
  | some member, some lengths =>
    let store ← getStore
    match store.array? member, store.naming? member with
    | some nested, none =>
      if nested.isOpen then addArray lengths member
      else
        warn span (.declaration .nestedArray)
        addArray (lengths ++ nested.lengths) nested.member
    | _, _ => addArray lengths member

/-! ## Records -/

def baseRecord (ident : QualIdent) : Analyze (Option Ty) := do
  let a ← get
  match a.lookup ident with
  | some d =>
    if !d.isType then
      report ident.span (.declaration (.undefinedType ident.text))
      return none
    else if a.store.isRecord d.type then return some d.type
    else
      report ident.span (.declaration .baseNotRecord)
      return none
  | none =>
    report ident.span (.declaration (.undefinedType ident.text))
    return none

def checkFields (base : Option Ty) (names : List String) : List DeclId → Analyze Unit
  | [] => pure ()
  | id :: rest => do
    let store ← getStore
    let d := store.decl id
    if (base.bind fun t => store.findField? t d.name).isSome then
      report d.span (.declaration (.fieldRedefined d.name))
      checkFields base names rest
    else if names.contains d.name then
      report d.span (.declaration (.duplicateField d.name))
      checkFields base names rest
    else checkFields base (d.name :: names) rest

def recordType (base : Option QualIdent) (fields : List DeclId) : Analyze Ty := do
  let base ← match base with
    | some ident => baseRecord ident
    | none => pure none
  checkFields base [] fields
  let store ← getStore
  let level := match base.bind store.record? with
    | some r => r.level + 1
    | none => 0
  addType (.record ⟨fields, base, level⟩)

/-! ## Pointers -/

def beginPointer : Analyze Ty := addType (.pointer none)

def setBase (span : Span) (pointer base : Ty) : Analyze Unit := do
  let store ← getStore
  reportIf (!store.isRecord base) span (.declaration .pointerBaseNotRecord)
  modifyStore fun s => s.setForm pointer (.pointer (some base))

def endPointer (span : Span) (pointer : Ty) (base : Option Ty) : Analyze Unit :=
  match base with
  | none => pure ()
  | some base => if base == .undefined then pure () else setBase span pointer base

def forwardPointer (pointer : Ty) (ident : QualIdent) : Analyze Unit := do
  record .debug ident.span (.declaration (.forwardReference ident.text))
  modify fun a =>
    { a with forwards := ⟨pointer, ident, a.scopes.level⟩ :: a.forwards }

/-- Give a pointer the base its name denotes by now. -/
def settle (f : Forward) : Analyze Unit := do
  match (← get).lookup f.ident with
  | some d =>
    if d.isType then setBase f.ident.span f.pointer d.type
    else report f.ident.span (.declaration .undefinedForward)
  | none => report f.ident.span (.declaration .undefinedForward)

def settleAll : List Forward → Analyze Unit
  | [] => pure ()
  | f :: rest => do
    settle f
    settleAll rest

/-- Settle the pointers of the current block that wait for their base, the latest first. -/
def settleForwards : Analyze Unit := do
  let a ← get
  let isLocal (f : Forward) : Bool := a.scopes.level ≤ f.level
  set { a with forwards := a.forwards.dropWhile isLocal }
  settleAll (a.forwards.takeWhile isLocal)

/-! ## Procedure types and names -/

/-- A result can be neither an array nor a record. -/
def procedureType (span : Span) (params : List DeclId) (variadic : Bool) (result : Option Ty) :
    Analyze Ty := do
  match result with
  | none => addType (.procedure ⟨params, none, variadic⟩)
  | some type =>
    if (← getStore).isStructured type then
      report span (.declaration .structuredResult)
      addType (.procedure ⟨params, none, variadic⟩)
    else addType (.procedure ⟨params, some type, variadic⟩)

def addOpenArray (dimensions : Nat) (member : Ty) : Analyze Ty := fun a =>
  let (type, store) := a.store.addOpenArray dimensions member
  (type, { a with store })

/-- The type a name denotes, or an open array of it in the given number of dimensions. -/
def typeReference (ident : QualIdent) (dimensions : Nat) : Analyze Ty := do
  match (← get).lookup ident with
  | none =>
    report ident.span (.declaration (.undefinedType ident.text))
    return .undefined
  | some d =>
    if !d.isType then
      report ident.span (.declaration (.notAType ident.text))
      return .undefined
    else if dimensions == 0 || d.type == .undefined then return d.type
    else addOpenArray dimensions d.type

end Analyze
end Oberon
