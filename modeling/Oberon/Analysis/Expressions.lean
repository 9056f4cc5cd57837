import Oberon.Analysis.Selectors

/-!
# Oberon.Analysis.Expressions

Operators, ranges and sets. Operands are checked and converted to a common type; what is constant
is folded on the way.
-/

namespace Oberon
namespace Analyze

/-! ## Unary operators -/

def unaryOperand (op : UnaryOp) (type : Ty) : Bool × String :=
  match op with
  | .not => (type.isBoolean, "a boolean")
  | .plus => (type.isNumeric, "a numeric")
  | .neg => (type.isNumeric || type.isSet, "a numeric or set")

def unary (span : Span) (op : UnaryOp) : Option Expr → Analyze (Option Expr)
  | none => do
    report span (.expression .undefinedOperand)
    return none
  | some operand => do
    let (valid, wanted) := unaryOperand op operand.type
    if !valid && operand.type != .undefined then
      report operand.span (.expression (.operandExpected op.text wanted))
      return some (.unary op operand { type := .undefined, span })
    else
      match ← evaluate (Constant.reduceUnary op operand) with
      | some (value, type) => return some (.literal value { type, span })
      | none => return some (.unary op operand { type := operand.type, span })

/-! ## Relations -/

def isTextual (e : Expr) : Bool := e.isLiteral && (e.type.isString || e.type.isChar)

/-- The length of a character array of one dimension, 0 if it is open. -/
def charArray? (store : Store) (e : Expr) : Option Nat :=
  match store.array? e.type with
  | some ⟨[length], types⟩ =>
    if ArrayForm.member ⟨[length], types⟩ == .char then some length else none
  | _ => none

/-- The types an operator leads to: that of its result, and the one its operands are converted
to. -/
structure Typing where
  result : Ty
  common : Option Ty := none

def converted (span : Span) (lhs rhs : Expr) : Analyze (Option Typing) := do
  let common ← commonType span lhs.type rhs.type
  return some ⟨.boolean, some common⟩

/-- A character array is compared with a literal, which should fit. -/
def compareLiteral (length : Nat) (literal : Expr) : Analyze (Option Typing) := do
  match literal.literal? with
  | some (.string text) =>
    if 0 < length && length < text.utf8ByteSize + 1 then
      warn literal.span (.expression .longStringLiteral)
  | _ => pure ()
  return some ⟨.boolean, none⟩

def compareScalars (span : Span) (op : BinaryOp) (lhs rhs : Expr) : Analyze (Option Typing) := do
  let store ← getStore
  let (l, r) := (lhs.type, rhs.type)
  let equality := op == .eq || op == .neq
  let strict := op == .lt || op == .gt
  let isReference (t : Ty) : Bool := store.isPointer t || t == .nil
  let isProcedural (t : Ty) : Bool := store.isProcedure t || t == .nil
  if equality && isReference l && isReference r then converted span lhs rhs
  else if equality && ((isProcedural l && isProcedural r) || (l.isBoolean && r.isBoolean)) then
    return some ⟨.boolean, none⟩
  else if (l.isNumeric && r.isNumeric) || (l.isChar && r.isChar) ||
      (!strict && l.isSet && r.isSet) then
    converted span lhs rhs
  else
    report lhs.span (.expression .incomparable)
    return none

def relation (span : Span) (op : BinaryOp) (lhs rhs : Expr) : Analyze (Option Typing) := do
  let store ← getStore
  match charArray? store lhs, charArray? store rhs with
  | some _, some _ => return some ⟨.boolean, none⟩
  | some length, none =>
    if isTextual rhs then compareLiteral length rhs
    else
      report lhs.span (.expression .characterArrays)
      return none
  | none, some length =>
    if isTextual lhs then compareLiteral length lhs
    else
      report lhs.span (.expression .characterArrays)
      return none
  | none, none =>
    if isTextual lhs && isTextual rhs then converted span lhs rhs
    else if store.isArray lhs.type || store.isArray rhs.type then
      report lhs.span (.expression .characterArrays)
      return none
    else compareScalars span op lhs rhs

def typeTest (span : Span) (lhs rhs : Expr) : Analyze Unit := do
  let store ← getStore
  match lhs, rhs with
  | .designator _ root _ _, .designator _ target _ _ =>
    if rhs.type != .typeName then report rhs.span (.expression .typeExpected)
    else
      match target with
      | none => pure ()
      | some id =>
        let target := store.typeOf id
        if !hasDynamicType store root lhs.type then
          report span (.expression .testedVariable)
        else if !store.isPointer target && !store.isRecord target then
          report rhs.span (.expression .recordOrPointerExpected)
        else if store.isExtension lhs.type target then
          warn span (.expression .checkAlwaysTrue)
        else
          reportIf (!store.isExtension target lhs.type) rhs.span
            (.expression (.notAnExtension (store.typeText target) (store.typeText lhs.type)))
  | _, _ => report span (.expression .typeTestOperands)

/-! ## Binary operators -/

def arithmetic (common : Ty) : Option Typing := some ⟨common, some common⟩

def operator (span : Span) (op : BinaryOp) (lhs rhs : Expr) : Analyze (Option Typing) := do
  let (l, r) := (lhs.type, rhs.type)
  match op with
  | .eq | .neq | .lt | .leq | .gt | .geq => relation span op lhs rhs
  | .typeTest => return some ⟨.boolean, none⟩
  | .member =>
    reportIf (!l.isEntire) lhs.span (.expression .integerExpected)
    reportIf (!r.isSet) rhs.span (.expression .setExpected)
    return some ⟨.boolean, none⟩
  | .add | .sub | .mul | .divide =>
    if op == .add && (l.isString || r.isString) then
      if lhs.isLiteral && rhs.isLiteral then return arithmetic (← commonType span l r)
      else
        report lhs.span (.expression .concatenation)
        return none
    else if (l.isNumeric && r.isNumeric) || (l.isSet && r.isSet) then
      let common ← commonType span l r
      return arithmetic (if op == .divide && common.isEntire then .real else common)
    else
      report lhs.span (.expression .arithmetic)
      return none
  | .div | .mod =>
    if l.isEntire && r.isEntire then return arithmetic (← commonType span l r)
    else
      report span (.expression .integerDivision)
      return none
  | .or | .and =>
    if l.isBoolean && r.isBoolean then return arithmetic .boolean
    else
      report span (.expression (.booleanExpected op.text))
      return none

/-- A relation that does not depend on anything is suspicious. -/
def warnConstant (span : Span) (op : BinaryOp) (value : Literal) : Analyze Unit :=
  match op.isRelation, value with
  | true, .boolean true => warn span (.expression .alwaysTrue)
  | true, .boolean false => warn span (.expression .alwaysFalse)
  | _, _ => pure ()

/-- A folded operator; an integer becomes a real where a real is asked for. -/
def foldedLiteral (span : Span) (value : Literal) (type result : Ty) : Expr :=
  match value, result.isReal with
  | .integer v, true => .literal (.real (Constant.toReal v)) { type := result, span }
  | value, _ => .literal value { type, span }

def convertTo (store : Store) (common : Option Ty) (e : Expr) : Expr :=
  match common with
  | some type => store.convert e type
  | none => e

/-- Fold an operator whose operands have been checked, or convert its operands. -/
def reduce (span : Span) (op : BinaryOp) (lhs rhs : Expr) (typing : Typing) : Analyze Expr := do
  let store ← getStore
  match ← evaluate (Constant.reduce span op lhs rhs typing.result) with
  | some (.literal value type) =>
    warnConstant span op value
    return foldedLiteral span value type typing.result
  | some .lhs => return convertTo store typing.common lhs
  | some .rhs => return convertTo store typing.common rhs
  | some .negatedRhs =>
    return .unary .neg (convertTo store typing.common rhs) { type := typing.result, span }
  | none =>
    return .binary op (convertTo store typing.common lhs) (convertTo store typing.common rhs)
      { type := typing.result, span }

def isDimensionless (store : Store) (e : Expr) : Bool :=
  match store.array? e.type with
  | some a => a.lengths.isEmpty
  | none => false

def binary (span : Span) (op : BinaryOp) : Option Expr → Option Expr → Analyze (Option Expr)
  | none, _ => do
    report span (.expression .undefinedLeft)
    return none
  | some _, none => do
    report span (.expression .undefinedRight)
    return none
  | some lhs, some rhs => do
    if lhs.type == .undefined || rhs.type == .undefined then
      return some (.binary op lhs rhs { type := .undefined, span })
    else if op == .typeTest then
      typeTest span lhs rhs
      return some (.binary op lhs rhs { type := .boolean, span })
    else
      let store ← getStore
      if isDimensionless store lhs || isDimensionless store rhs then
        modify fun a => { a with abandoned := true }
      match ← operator span op lhs rhs with
      | none => return some (.binary op lhs rhs { type := .undefined, span })
      | some typing =>
        if typing.result == .undefined then
          return some (.binary op lhs rhs { type := .undefined, span })
        else return some (← reduce span op lhs rhs typing)

/-! ## Ranges and sets -/

/-- Bounds of a range are both integers or both characters; the narrower one is converted. -/
def range (span : Span) : Option Expr → Option Expr → Analyze (Option Expr)
  | none, _ => do
    report span (.expression .undefinedLower)
    return none
  | some _, none => do
    report span (.expression .undefinedUpper)
    return none
  | some lower, some upper => do
    let store ← getStore
    let (l, u) := (lower.type, upper.type)
    reportIf (!l.isEntire && !l.isChar) lower.span (.expression .rangeBound)
    reportIf (!u.isEntire && !u.isChar) upper.span (.expression .rangeBound)
    reportIf ((l.isEntire && u.isChar) || (l.isChar && u.isEntire)) span
      (.expression .rangeMismatch)
    if store.size u < store.size l then
      return some (.range lower (store.convert upper l) { type := l, span })
    else if store.size l < store.size u then
      return some (.range (store.convert lower u) upper { type := u, span })
    else return some (.range lower upper { type := l, span })

/-- What is known while going through the elements of a set: the largest value so far, and
whether there was no fault. -/
structure SetScan where
  last : Int := -1
  valid : Bool := true

def setBound (scan : SetScan) (e : Expr) : Analyze (Option Int × SetScan) := do
  match e.integer? with
  | none => return (none, scan)
  | some value =>
    let clamped ← checkBounds e.span value 0 Constant.setMax
    return (some clamped, { scan with valid := scan.valid && clamped == value })

/-- Literal elements have to ascend. -/
def setAscending (scan : SetScan) (span : Span) : Option Int → Analyze SetScan
  | none => pure scan
  | some value => do
    if value ≤ scan.last then
      report span (.expression .notAscending)
      return ⟨value, false⟩
    else return { scan with last := value }

def setElement (scan : SetScan) (element : Expr) : Analyze SetScan := do
  match element with
  | .range lower upper note =>
    if !lower.type.isEntire || !upper.type.isEntire then
      report note.span (.expression .integerExpected)
      return { scan with valid := false }
    else
      let (low, scan) ← setBound scan lower
      let scan ← setAscending scan lower.span low
      let (high, scan) ← setBound scan upper
      let scan := { scan with last := high.getD scan.last }
      match low, high with
      | some l, some h =>
        if h ≤ l then
          report upper.span (.constant .emptyRange)
          return { scan with valid := false }
        else return scan
      | _, _ => return scan
  | _ =>
    if !element.type.isEntire then
      report element.span (.expression .integerExpected)
      return { scan with valid := false }
    else
      let (value, scan) ← setBound scan element
      setAscending scan element.span value

def setElements (scan : SetScan) : List Expr → Analyze SetScan
  | [] => pure scan
  | element :: rest => do
    let scan ← setElement scan element
    setElements scan rest

def setOf (span : Span) (elements : List Expr) : Analyze Expr := do
  let scan ← setElements {} elements
  let e := Expr.set elements { type := .set, span }
  if scan.valid && e.isConstant then
    match ← evaluate (Constant.fold e) with
    | some value => return .literal value { type := .set, span }
    | none => return e
  else return e

end Analyze
end Oberon
