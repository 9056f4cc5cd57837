import Oberon.Analysis
import Oberon.Universe.Dispatch

/-!
# Oberon.Analysis.Selectors

Selectors are resolved from left to right against the type reached so far. Adjacent indices of
one array are merged, dereferences that the source leaves out are inserted, and `v(T)`, which
reads like a call, becomes a type guard where `v` is not a procedure. Behind a selector that leads
to no type the rest of the chain stays as it is.
-/

namespace Oberon

namespace Selector

/-- Indices and fields look through a pointer. -/
def looksThrough : Selector → Bool
  | index _ _ => true
  | field _ _ _ => true
  | _ => false

def implicitDeref? (store : Store) (base : Ty) (s : Selector) : Option Selector :=
  match store.pointer? base with
  | some target =>
    if s.looksThrough then some (.deref true ⟨s.span, target.getD .undefined⟩) else none
  | none => none

def guardIdent? : List Expr → Option QualIdent
  | [.designator ident _ [] note] => if note.type == .typeName then some ident else none
  | _ => none

/-- A call of something that is no procedure is a type guard, `none` if it cannot be one. -/
def asGuard? (store : Store) (base : Ty) : Selector → Option Selector
  | call args mark =>
    if store.isProcedure base then some (call args mark)
    else (guardIdent? args).map fun ident => guard ident .undefined mark
  | s => some s

/-- Take over the indices that follow, up to the number of dimensions. Also yields what follows
these. -/
def mergeIndices (dimensions : Nat) (indices : List Expr) (span : Span) :
    List Selector → List Expr × Span × List Selector
  | index more mark :: rest =>
    if indices.length < dimensions then
      mergeIndices dimensions (indices ++ more) (span.merge mark.span) rest
    else (indices, span, index more mark :: rest)
  | rest => (indices, span, rest)

theorem length_mergeIndices (dimensions : Nat) (rest : List Selector) :
    ∀ (indices : List Expr) (span : Span),
      (mergeIndices dimensions indices span rest).2.2.length ≤ rest.length := by
  induction rest with
  | nil => intro indices span; simp [mergeIndices]
  | cons s rest ih =>
    intro indices span
    cases s with
    | index more mark =>
      simp only [mergeIndices]
      split
      · exact Nat.le_succ_of_le (ih _ _)
      · exact Nat.le_refl _
    | _ => exact Nat.le_refl _

/-- A selector together with the following ones that are merged into it, and the rest. -/
def gather (store : Store) (base : Ty) (s : Selector) (rest : List Selector) :
    Selector × List Selector :=
  match s with
  | index indices mark =>
    let dimensions := match store.array? base with
      | some a => a.dimensions
      | none => 0
    let (indices, span, rest) := mergeIndices dimensions indices mark.span rest
    (index indices { mark with span }, rest)
  | s => (s, rest)

theorem length_gather (store : Store) (base : Ty) (s : Selector) (rest : List Selector) :
    (gather store base s rest).2.length ≤ rest.length := by
  cases s with
  | index indices mark => exact length_mergeIndices _ _ _ _
  | _ => exact Nat.le_refl _

end Selector

namespace Analyze

/-! ## Calls -/

/-- The signature a call uses and its result. Predefined procedures choose theirs by the types of
the arguments. -/
def callSignature (a : Analysis) (context : DeclId) (formal : Signature) (args : List Expr) :
    Signature × Option Ty :=
  match (a.store.decl context).builtin? with
  | none => (formal, formal.result)
  | some builtin =>
    let actuals := args.map Expr.effectiveType
    if actuals.contains .undefined then (formal, formal.result.map fun _ => .undefined)
    else
      let typeArg := match args with
        | e :: _ => if e.type == .typeName then e.root?.map a.store.typeOf else none
        | [] => none
      match Dispatch.choose a.store ((a.signatures.lookup builtin).getD []) actuals typeArg with
      | none => (formal, formal.result)
      | some choice => ((a.store.signature? choice.signature).getD formal, choice.result)

/-- An argument passed by reference has to be a location, and a number of exactly the type. -/
def checkReference (arg : Expr) (formal : Ty) : Analyze Unit := do
  let store ← getStore
  match store.unwritable? arg with
  | some what => report arg.span (.selector (.byReference what))
  | none =>
    let actual := arg.effectiveType
    reportIf (formal.isNumeric && actual.isNumeric && formal != actual) arg.span
      (.selector (.numericByReference (store.typeText actual) (store.typeText formal)))

def passArgument (param : DeclId) (arg : Expr) : Analyze Expr := do
  let store ← getStore
  let formal := store.typeOf param
  if arg.effectiveType == .undefined then return arg
  else if !(← checkCompatible arg.span formal arg.effectiveType) then return arg
  else if (store.decl param).isVarParameter then
    checkReference arg formal
    return arg
  else if formal == arg.type then return arg
  else
    reportIf (!arg.isLiteral && store.isArray formal && arg.type.isChar) arg.span
      (.selector .charToStringParameter)
    convertValue arg formal

def passArguments (span : Span) (variadic : Bool) : List DeclId → List Expr → Analyze (List Expr)
  | _, [] => pure []
  | [], args => do
    reportIf (!variadic) span (.selector .moreArguments)
    return args
  | param :: params, arg :: args => do
    let arg ← passArgument param arg
    let args ← passArguments span variadic params args
    return arg :: args

/-- Check a call of what has type `base`. The result is `none` for a proper procedure. -/
def call (context : DeclId) (base : Ty) (span : Span) (args : List Expr) :
    Analyze (Option Ty × List Expr) := do
  let a ← get
  match a.store.signature? base with
  | none =>
    report span (.selector (.notAProcedure (a.store.typeText base)))
    return (some .undefined, args)
  | some formal =>
    let (signature, result) := callSignature a context formal args
    reportIf (args.length < signature.params.length) span (.selector .fewerArguments)
    let args ← passArguments span signature.variadic signature.params args
    return (result, args)

/-! ## Other selectors -/

/-- Indices are integers; a literal one has to be within a known length. -/
def checkIndices : List Expr → List Nat → Analyze Unit
  | index :: indices, length :: lengths => do
    if !index.type.isEntire then report index.span (.expression .integerExpected)
    else
      match index.integer? with
      | none => pure ()
      | some value =>
        if length == 0 then
          reportIf (value < 0) index.span (.selector (.negativeIndex value))
        else do
          let _ ← checkBounds index.span value 0 (length - 1 : Int)
    checkIndices indices lengths
  | _, _ => pure ()

/-- The type behind indices. Surplus ones are reported and left out of account. -/
def index (base : Ty) (span : Span) (indices : List Expr) : Analyze Ty := do
  let store ← getStore
  match store.array? base with
  | none =>
    report span (.selector (.notAnArray (store.typeText base)))
    return .undefined
  | some a =>
    reportIf (a.dimensions < indices.length) span
      (.selector (.tooManyIndices indices.length a.dimensions))
    checkIndices indices a.lengths
    match min indices.length a.dimensions with
    | 0 => return base
    | count + 1 => return a.types[count]?.getD .undefined

def dereference (base : Ty) (span : Span) : Analyze Ty := do
  let store ← getStore
  match store.pointer? base with
  | some target => return target.getD .undefined
  | none =>
    report span (.selector (.notAPointer (store.typeText base)))
    return .undefined

def field (base : Ty) (name : String) (span : Span) : Analyze (Option DeclId) := do
  let store ← getStore
  if !store.isRecord base then
    report span (.selector (.notARecord (store.typeText base)))
    return none
  else
    match store.findField? base name with
    | some id => return some id
    | none =>
      report span (.selector (.undefinedField (store.typeText base) name))
      return none

/-- Only what has a dynamic type can be guarded or tested: pointers, and records passed by
reference. -/
def hasDynamicType (store : Store) (root : Option DeclId) (type : Ty) : Bool :=
  store.isPointer type ||
    (store.isRecord type &&
      match root with
      | some id => (store.decl id).isVarParameter
      | none => false)

/-- `v(T)`, where `T` should extend the type of `v`. -/
def typeGuard (context : DeclId) (base : Ty) (ident : QualIdent) : Analyze Ty := do
  let a ← get
  let store := a.store
  match a.lookup ident with
  | none =>
    report ident.span (.expression (.undefinedIdentifier ident.text))
    return .undefined
  | some d =>
    if !hasDynamicType store (some context) base then
      report ident.span (.selector .guardedVariable)
      return .undefined
    else if !d.isType then
      report ident.span (.expression .unexpectedSelector)
      return .undefined
    else
      if store.isPointer d.type || store.isRecord d.type then
        if !store.isExtension d.type base then
          report ident.span
            (.expression (.notAnExtension (store.typeText d.type) (store.typeText base)))
        else if store.isExtension base d.type then
          warn ident.span (.expression .checkAlwaysTrue)
      else report ident.span (.expression .recordOrPointerExpected)
      return d.type

/-! ## Chains -/

/-- A resolved selector, the type it leads to, and what the next one is applied to. -/
structure Step where
  selector : Selector
  type : Ty
  context : DeclId

/-- Apply one selector. `next` is the selector behind it. -/
def applySelector (context : DeclId) (base : Ty) (next : Option Selector) :
    Selector → Analyze Step
  | .call args mark => do
    let (result, args) ← call context base mark.span args
    match result, next with
    | none, some s => report s.span (.expression .unexpectedSelector)
    | _, _ => pure ()
    let type := result.getD .undefined
    return ⟨.call args { mark with type }, type, context⟩
  | .index indices mark => do
    let type ← index base mark.span indices
    return ⟨.index indices { mark with type }, type, context⟩
  | .deref implicit mark => do
    let type ← dereference base mark.span
    return ⟨.deref implicit { mark with type }, type, context⟩
  | .field name decl mark => do
    match ← field base name mark.span with
    | some id =>
      let type := (← getStore).typeOf id
      return ⟨.field name (some id) { mark with type }, type, id⟩
    | none => return ⟨.field name decl { mark with type := .undefined }, .undefined, context⟩
  | .guard ident _ mark => do
    let type ← typeGuard context base ident
    return ⟨.guard ident type { mark with type }, type, context⟩

/-- Resolve a chain of selectors applied to `context` of type `base`. The type is undefined after
an error and after a call of a proper procedure. -/
def resolve (context : DeclId) (base : Ty) : List Selector → Analyze (List Selector × Ty)
  | [] => return ([], base)
  | selector :: rest => do
    let store ← getStore
    let deref := selector.implicitDeref? store base
    let reached := match deref with
      | some d => d.mark.type
      | none => base
    if deref.isSome && reached == .undefined then
      return (deref.toList ++ selector :: rest, .undefined)
    else
      match selector.asGuard? store reached with
      | none =>
        report selector.span (.selector .illegalGuard)
        return (deref.toList ++ selector :: rest, .undefined)
      | some guarded =>
        let gathered := guarded.gather store reached rest
        if gathered.2.length < rest.length then warn selector.span (.selector .splitIndex)
        let step ← applySelector context reached gathered.2.head? gathered.1
        if step.type == .undefined then
          return (deref.toList ++ step.selector :: gathered.2, .undefined)
        else
          let (chain, type) ← resolve step.context step.type gathered.2
          return (deref.toList ++ step.selector :: chain, type)
termination_by selectors => selectors.length
decreasing_by
  exact Nat.lt_succ_of_le (Selector.length_gather _ _ _ _)

end Analyze
end Oberon
