import Mathlib.Tactic.Lemma
import Oberon.Analysis.Cases
import Oberon.Analysis.Declarations
import Oberon.Analysis.Expressions
import Oberon.Analysis.Statements
import Oberon.Analysis.Types

/-!
# Oberon.Proofs.Quiet

What an action of the analysis leaves alone. Every action only adds to the log (`Analysis.Logs`),
and most actions do nothing else (`Analysis.Silent`): expressions, conditions and checks look at
the store and at the scopes and change neither. The analysis of a faulty phrase reports something
(`Analysis.Failed`), and what has been reported stays reported.

* `Quiet x`: the action `x` is silent from every state. It is a class, so that it is found for a
  sequence of quiet actions; a branch is split by hand.
-/

namespace Oberon

open List

/-! ## The log -/

namespace Log

section

variable {log log' : Log μ} (h : log.entries.toList <+: log'.entries.toList)
include h

lemma errorCount_mono : log.errorCount ≤ log'.errorCount := by
  obtain ⟨more, hm⟩ := h
  simp only [errorCount, count, ← Array.countP_toList, ← hm, countP_append]
  omega

lemma hasErrors_mono (he : log.hasErrors) : log'.hasErrors := by
  have hc := errorCount_mono h
  simp only [hasErrors, decide_eq_true_eq] at he ⊢
  omega

end

lemma hasErrors_record (log : Log μ) (span message) : (log.record .error span message).hasErrors := by
  simp [hasErrors, errorCount, count, record]

lemma prefix_record (log : Log μ) (severity span message) :
    log.entries.toList <+: (log.record severity span message).entries.toList := by
  simp [record]

/-- The log of a strict reader. -/
def strictly (log : Log μ) : Log μ := { log.promoted with strict := true }

lemma strictly_record (log : Log μ) (h : severity.promoted = severity) (span message) :
    (log.record severity span message).strictly = log.strictly.record severity span message := by
  simp [strictly, promoted, record, h]

lemma strictly_warning (log : Log μ) (span message) :
    (log.warning span message).strictly = log.strictly.warning span message := by
  simp only [strictly, promoted, warning, record, Array.map_push]
  split <;> rfl

end Log

namespace Analysis

variable {a b : Analysis}

/-- Something was wrong with what has been read so far. -/
def Failed (a : Analysis) : Prop := a.log.hasErrors = true

/-- The state of a strict reader. -/
def strictly (a : Analysis) : Analysis :=
  { a with features := { a.features with strict := true }, log := a.log.strictly }

/-- Messages have only been added. -/
def Logs (a b : Analysis) : Prop := a.log.entries.toList <+: b.log.entries.toList

lemma Logs.refl (a : Analysis) : a.Logs a := prefix_refl _

lemma Logs.trans (h1 : a.Logs b) (h2 : b.Logs c) : a.Logs c := List.IsPrefix.trans h1 h2

lemma Logs.failed (h : a.Logs b) (hf : a.Failed) : b.Failed := Log.hasErrors_mono h hf

/-- Nothing has happened but that messages were added. -/
structure Silent (a b : Analysis) : Prop where
  logs : a.Logs b
  rest : b = { a with log := b.log, abandoned := b.abandoned }

namespace Silent

lemma refl (a : Analysis) : a.Silent a := ⟨.refl a, rfl⟩

lemma trans (h1 : a.Silent b) (h2 : b.Silent c) : a.Silent c := by
  refine ⟨h1.logs.trans h2.logs, ?_⟩
  rw [h2.rest, h1.rest]

section

variable (h : a.Silent b)
include h

lemma store : b.store = a.store := by rw [h.rest]
lemma scopes : b.scopes = a.scopes := by rw [h.rest]
lemma signatures : b.signatures = a.signatures := by rw [h.rest]
lemma forwards : b.forwards = a.forwards := by rw [h.rest]
lemma cases : b.cases = a.cases := by rw [h.rest]
lemma module : b.module = a.module := by rw [h.rest]
lemma library : b.library = a.library := by rw [h.rest]

end

end Silent
end Analysis

namespace Analyze

open Analysis

/-! ## Running an action -/

@[simp] lemma pure_run (v : α) (a) : (pure v : Analyze α) a = (v, a) := rfl

@[simp] lemma bind_run (x : Analyze α) (f : α → Analyze β) (a) :
    (x >>= f) a = f (x a).1 (x a).2 := rfl

@[simp] lemma ite_run (p : Prop) [Decidable p] (x y : Analyze α) (a) :
    (if p then x else y : Analyze α) a = if p then x a else y a := by
  split <;> rfl

lemma get_bind_run (f : Analysis → Analyze α) (a) : (get >>= f) a = f a a := rfl

lemma getStore_bind_run (f : Store → Analyze α) (a) :
    (getStore >>= f) a = f a.store a := rfl

@[simp] lemma set_run (b a) : (set b : Analyze PUnit) a = (⟨⟩, b) := rfl

@[simp] lemma modify_run (f a) :
    (modify f : Analyze PUnit) a = (⟨⟩, f a) := rfl

@[simp] lemma modifyStore_run (f a) :
    modifyStore f a = ((), { a with store := f a.store }) := rfl

@[simp] lemma addType_run (form a) :
    addType form a = ((a.store.addType form).1, { a with store := (a.store.addType form).2 }) := rfl

/-! ## Quiet actions -/

/-- An action that does the same for a strict reader. -/
def Relabels (x : Analyze α) : Prop := ∀ a : Analysis, x a.strictly = ((x a).1, (x a).2.strictly)

lemma Relabels.bind {x : Analyze α} {f : α → Analyze β} (hx : Relabels x)
    (hf : ∀ v, Relabels (f v)) : Relabels (x >>= f) := by
  intro a
  rw [bind_run, hx]
  exact hf _ _

/-- What is done with a state that was read does not depend on who reads. -/
lemma Relabels.get {f : Analysis → Analyze α} (hs : ∀ a : Analysis, f a.strictly = f a)
    (hf : ∀ a, Relabels (f a)) : Relabels (get >>= f) := by
  intro a
  rw [get_bind_run, hs]
  exact hf a a

/-- An action that is silent from every state. -/
class Quiet (x : Analyze α) : Prop where
  silent : ∀ a : Analysis, a.Silent (x a).2
  strict : Relabels x

lemma silent (x : Analyze α) [h : Quiet x] (a : Analysis) : a.Silent (x a).2 := h.silent a

instance (v : α) : Quiet (pure v) := ⟨fun a => .refl a, fun _ => rfl⟩

instance Quiet.bind {x : Analyze α} {f : α → Analyze β} [hx : Quiet x] [hf : ∀ v, Quiet (f v)] :
    Quiet (x >>= f) :=
  ⟨fun a => (hx.silent a).trans ((hf _).silent _), .bind hx.strict fun _ => (hf _).strict⟩

lemma Quiet.andThen {x : Analyze α} {f : α → Analyze β} [Quiet x] (hf : ∀ v, Quiet (f v)) :
    Quiet (x >>= f) :=
  inferInstance

instance {p : Prop} [Decidable p] {x y : Analyze α} [hx : Quiet x] [hy : Quiet y] :
    Quiet (if p then x else y) := by
  split <;> assumption

lemma Quiet.getThen {f : Analysis → Analyze α} (hs : ∀ a : Analysis, f a.strictly = f a)
    (hf : ∀ a, Quiet (f a)) : Quiet (get >>= f) :=
  ⟨fun a => (hf a).silent a, .get hs fun a => (hf a).strict⟩

instance : Quiet getStore := .getThen (fun _ => rfl) fun _ => inferInstance

lemma Quiet.record (h : severity.promoted = severity) (span message) :
    Quiet (record severity span message) :=
  ⟨fun a => ⟨a.log.prefix_record severity span message, rfl⟩,
    fun a => by simp [Analyze.record, strictly, Log.strictly_record _ h]⟩

instance (span : Span) (message : Message) : Quiet (record .debug span message) :=
  .record rfl span message

instance (span : Span) (message : Message) : Quiet (report span message) := .record rfl span message

instance (span : Span) (message : Message) : Quiet (warn span message) :=
  ⟨fun a => ⟨a.log.prefix_record _ span message, rfl⟩,
    fun a => by simp [warn, strictly, Log.strictly_warning]⟩

instance (condition : Bool) (span : Span) (message : Message) :
    Quiet (reportIf condition span message) := by
  unfold reportIf; split <;> infer_instance

lemma failed_report (span message a) :
    (report span message a).2.Failed := Log.hasErrors_record _ _ _

variable (span : Span) (expected base : Ty) (e arg lhs rhs target label : Expr)
  (args indices elements : List Expr) (context id : DeclId) (name : String) (ident : QualIdent)
  (selectors : List Selector) (op : BinaryOp) (scan : SetScan) (value test : Option Expr)
  (body : List Statement) (type : Option Ty) (arms : List Arm)

/-! ## Constants and types -/

instance {α : Type} (r : Constant.Result α) : Quiet (evaluate r) := by
  unfold evaluate; split <;> infer_instance

instance (value lower upper : Int) : Quiet (checkBounds span value lower upper) := by
  unfold checkBounds; split <;> infer_instance

instance (actual : Ty) : Quiet (checkCompatible span expected actual) := by
  unfold checkCompatible
  refine .andThen fun store => ?_
  split <;> infer_instance

instance (lhs rhs : Ty) : Quiet (commonType span lhs rhs) := by
  unfold commonType
  refine .andThen fun store => ?_
  split <;> infer_instance

instance : Quiet (convertLiteral e expected) := by
  unfold convertLiteral
  refine .andThen fun store => ?_
  dsimp only
  split <;> infer_instance

instance : Quiet (convertValue e expected) := by
  unfold convertValue; split <;> infer_instance

/-! ## Selectors and designators -/

instance (formal : Ty) : Quiet (checkReference arg formal) := by
  unfold checkReference
  refine .andThen fun store => ?_
  split <;> infer_instance

instance (param : DeclId) : Quiet (passArgument param arg) := by
  unfold passArgument
  refine .andThen fun store => ?_
  dsimp only
  split
  · infer_instance
  · refine .andThen fun compatible => ?_
    repeat' split
    all_goals infer_instance

instance (variadic : Bool) (params : List DeclId) :
    Quiet (passArguments span variadic params args) := by
  fun_induction passArguments span variadic params args <;> infer_instance

instance : Quiet (call context base span args) := by
  unfold call
  refine .getThen (fun _ => rfl) fun a => ?_
  split <;> infer_instance

instance (lengths : List Nat) : Quiet (checkIndices indices lengths) := by
  induction indices generalizing lengths with
  | nil => unfold checkIndices; infer_instance
  | cons index indices ih =>
    cases lengths with
    | nil => unfold checkIndices; infer_instance
    | cons length lengths =>
      unfold checkIndices
      dsimp only
      repeat' split
      all_goals infer_instance

instance : Quiet (index base span indices) := by
  unfold index
  refine .andThen fun store => ?_
  split
  · infer_instance
  · refine .andThen fun _ => .andThen fun _ => ?_
    split <;> infer_instance

instance : Quiet (dereference base span) := by
  unfold dereference
  refine .andThen fun store => ?_
  split <;> infer_instance

instance : Quiet (field base name span) := by
  unfold field
  refine .andThen fun store => ?_
  repeat' split
  all_goals infer_instance

instance : Quiet (typeGuard context base ident) := by
  unfold typeGuard
  refine .getThen (fun _ => rfl) fun a => ?_
  dsimp only
  repeat' split
  all_goals infer_instance

instance (next : Option Selector) (s : Selector) : Quiet (applySelector context base next s) := by
  unfold applySelector
  split
  · refine .andThen fun r => ?_
    dsimp only
    split <;> infer_instance
  · infer_instance
  · infer_instance
  · refine .andThen fun found => ?_
    split <;> infer_instance
  · infer_instance

/-- The type a selector is applied to, behind the dereference that is inserted before it. -/
def reached (store : Store) (base : Ty) (s : Selector) : Ty :=
  match s.implicitDeref? store base with
  | some d => d.mark.type
  | none => base

lemma resolve_cons (context base selector rest) :
    resolve context base (selector :: rest) = do
      let store ← getStore
      let deref := selector.implicitDeref? store base
      if deref.isSome && reached store base selector == .undefined then
        return (deref.toList ++ selector :: rest, .undefined)
      else
        match selector.asGuard? store (reached store base selector) with
        | none =>
          report selector.span (.selector .illegalGuard)
          return (deref.toList ++ selector :: rest, .undefined)
        | some guarded =>
          let gathered := guarded.gather store (reached store base selector) rest
          if gathered.2.length < rest.length then warn selector.span (.selector .splitIndex)
          let step ← applySelector context (reached store base selector) gathered.2.head? gathered.1
          if step.type == .undefined then
            return (deref.toList ++ step.selector :: gathered.2, .undefined)
          else
            let (chain, type) ← resolve step.context step.type gathered.2
            return (deref.toList ++ step.selector :: chain, type) := by
  rw [resolve]
  rfl

/-- Selectors are resolved one by one, each time behind those that were merged. -/
lemma resolve_induction {motive : DeclId → Ty → List Selector → Prop}
    (nil : ∀ context base, motive context base [])
    (cons : ∀ context base selector rest, (∀ context' base' rest', rest'.length ≤ rest.length →
     motive context' base' rest') → motive context base (selector :: rest))
    (context base selectors) : motive context base selectors := by
  suffices h : ∀ k context base selectors, selectors.length ≤ k → motive context base selectors from
    h _ _ _ _ (Nat.le_refl _)
  intro k
  induction k with
  | zero =>
    intro context base selectors hk
    rw [length_eq_zero_iff.mp (Nat.le_zero.mp hk)]
    exact nil _ _
  | succ k ih =>
    intro context base selectors hk
    cases selectors with
    | nil => exact nil _ _
    | cons selector rest =>
      exact cons _ _ _ _ fun context' base' rest' h =>
        ih context' base' rest' (Nat.le_trans h (Nat.le_of_succ_le_succ hk))

instance : Quiet (resolve context base selectors) := by
  induction context, base, selectors using resolve_induction with
  | nil => unfold resolve; infer_instance
  | cons context base selector rest ih =>
    rw [resolve_cons]
    refine .andThen fun store => ?_
    dsimp only
    split
    · infer_instance
    · split
      · infer_instance
      · rename_i guarded _
        have := fun context' base' => ih context' base' _ (Selector.length_gather store
          (reached store base selector) guarded rest)
        infer_instance

instance : Quiet (designator span ident selectors) := by
  unfold designator
  refine .getThen (fun _ => rfl) fun a => ?_
  dsimp only
  repeat' split
  all_goals infer_instance

instance : Quiet (constant span ident selectors) := by
  unfold constant
  refine .getThen (fun _ => rfl) fun a => ?_
  dsimp only
  repeat' split
  all_goals infer_instance

/-! ## Expressions -/

instance (op : UnaryOp) (operand : Option Expr) : Quiet (unary span op operand) := by
  unfold unary
  split
  · infer_instance
  · dsimp only
    split
    · infer_instance
    · refine .andThen fun r => ?_
      split <;> infer_instance

instance : Quiet (converted span lhs rhs) := by unfold converted; infer_instance

instance (length : Nat) (literal : Expr) : Quiet (compareLiteral length literal) := by
  unfold compareLiteral
  dsimp only
  split <;> infer_instance

instance : Quiet (compareScalars span op lhs rhs) := by unfold compareScalars; infer_instance

instance : Quiet (relation span op lhs rhs) := by
  unfold relation
  refine .andThen fun store => ?_
  split <;> infer_instance

instance : Quiet (typeTest span lhs rhs) := by
  unfold typeTest
  refine .andThen fun store => ?_
  repeat' split
  all_goals infer_instance

instance : Quiet (operator span op lhs rhs) := by
  unfold operator
  dsimp only
  split <;> infer_instance

instance (value : Literal) : Quiet (warnConstant span op value) := by
  unfold warnConstant
  split <;> infer_instance

instance (typing : Typing) : Quiet (reduce span op lhs rhs typing) := by
  unfold reduce
  refine .andThen fun store => .andThen fun r => ?_
  split <;> infer_instance

instance : Quiet (modify fun a : Analysis => { a with abandoned := true }) :=
  ⟨fun a => ⟨.refl a, rfl⟩, fun _ => rfl⟩

instance (lhs rhs : Option Expr) : Quiet (binary span op lhs rhs) := by
  unfold binary
  split
  · infer_instance
  · infer_instance
  · split
    · infer_instance
    · split
      · infer_instance
      · refine .andThen fun store => ?_
        dsimp only
        split
        all_goals
          repeat refine .andThen fun _ => ?_
          split <;> infer_instance

instance (lower upper : Option Expr) : Quiet (range span lower upper) := by
  unfold range
  split <;> infer_instance

instance : Quiet (setBound scan e) := by
  unfold setBound
  split <;> infer_instance

instance (value : Option Int) : Quiet (setAscending scan span value) := by
  unfold setAscending
  split <;> infer_instance

instance (element : Expr) : Quiet (setElement scan element) := by
  unfold setElement
  split
  · split
    · infer_instance
    · repeat refine .andThen fun _ => ?_
      dsimp only
      split <;> infer_instance
  · infer_instance

instance : Quiet (setElements scan elements) := by
  induction elements generalizing scan with
  | nil | cons element rest ih => unfold setElements; infer_instance

instance : Quiet (setOf span elements) := by
  unfold setOf
  refine .andThen fun scan => ?_
  dsimp only
  split
  · refine .andThen fun r => ?_
    split <;> infer_instance
  · infer_instance

/-! ## Statements -/

instance (statements : List Statement) : Quiet (sequence statements) := by
  unfold sequence
  repeat' split
  all_goals infer_instance

instance (value : Expr) : Quiet (assignTo target value) := by unfold assignTo; infer_instance

instance : Quiet (assignment span target value) := by
  unfold assignment
  refine .andThen fun store => ?_
  dsimp only
  repeat' split
  all_goals infer_instance

instance (statement : String) : Quiet (condition span statement test) := by
  unfold condition
  split <;> infer_instance

instance (elsifs : List Branch) (otherwise : Option (List Statement)) :
    Quiet (conditional span test body elsifs otherwise) := by
  unfold conditional; infer_instance

instance : Quiet (branch span test body) := by unfold branch; infer_instance

instance (counter : Expr) : Quiet (counterType ident counter) := by
  unfold counterType
  refine .andThen fun store => ?_
  split <;> infer_instance

instance (bound : Expr) : Quiet (forBound type bound) := by
  unfold forBound
  split <;> infer_instance

instance (step : Option Expr) : Quiet (forStep span type step) := by
  unfold forStep
  split
  · infer_instance
  · split <;> infer_instance

instance : Quiet (exit span) := .getThen (fun _ => rfl) fun _ => inferInstance

instance (result : Option Ty) : Quiet (returnValue span result value) := by
  unfold returnValue
  split <;> infer_instance

instance : Quiet (returnFrom span value) := by
  unfold returnFrom
  refine .getThen (fun _ => rfl) fun a => ?_
  repeat' split
  all_goals infer_instance

instance (type : Ty) (signature : Signature) :
    Quiet (bareCall span ident id selectors type signature) := by
  unfold bareCall; infer_instance

instance : Quiet (callStatement span ident selectors) := by
  unfold callStatement
  refine .getThen (fun _ => rfl) fun a => ?_
  split
  · infer_instance
  · repeat refine .andThen fun _ => ?_
    split <;> infer_instance

instance : Quiet (labelValues label) := by
  unfold labelValues
  repeat' split
  all_goals infer_instance

instance (scan : LabelScan) : Quiet (discreteLabel scan label) := by
  unfold discreteLabel
  dsimp only
  split
  · infer_instance
  · refine .andThen fun r => ?_
    split <;> infer_instance

instance : Quiet caseFrame := by
  unfold caseFrame
  refine .getThen (fun _ => rfl) fun a => ?_
  split <;> infer_instance

instance (frame : CaseFrame) (labels : CaseLabels) : Quiet (checkDomain frame labels) := by
  unfold checkDomain
  refine .andThen fun store => ?_
  split <;> infer_instance

instance (seen : List Int) : Quiet (checkDisjoint seen arms) := by
  induction arms generalizing seen with
  | nil => unfold checkDisjoint; infer_instance
  | cons arm rest ih =>
    unfold checkDisjoint
    dsimp only
    split <;> infer_instance

instance (earlier : List Ty) : Quiet (checkGuards earlier arms) := by
  induction arms generalizing earlier with
  | nil => unfold checkGuards; infer_instance
  | cons arm rest ih =>
    unfold checkGuards
    split <;> infer_instance

/-! ## Types and declarations -/

instance : Quiet (arrayLength e) := by
  unfold arrayLength
  split
  · infer_instance
  · refine .andThen fun r => ?_
    split <;> infer_instance

instance (dimensions : List (Option Expr)) : Quiet (arrayLengths dimensions) := by
  induction dimensions with
  | nil => unfold arrayLengths; infer_instance
  | cons dimension rest ih =>
    unfold arrayLengths
    dsimp only
    split <;> infer_instance

instance : Quiet (baseRecord ident) := by
  unfold baseRecord
  refine .getThen (fun _ => rfl) fun a => ?_
  split <;> infer_instance

instance (base : Option Ty) (names : List String) (fields : List DeclId) :
    Quiet (checkFields base names fields) := by
  induction fields generalizing names with
  | nil | cons id rest ih => unfold checkFields; infer_instance

instance (ident : Ident) : Quiet (endModule name ident) := by unfold endModule; infer_instance

instance (message : Message) (spans : List Span) : Quiet (reportAll message spans) := by
  induction spans with
  | nil | cons span rest ih => unfold reportAll; infer_instance

instance : Quiet (checkExport id) := by
  unfold checkExport
  refine .andThen fun store => ?_
  dsimp only
  repeat' split
  all_goals infer_instance

instance (ident : IdentDef) : Quiet (constantValue ident value) := by
  unfold constantValue
  repeat' split
  all_goals infer_instance

instance (missing : DeclarationNote) : Quiet (required span missing type) := by
  unfold required
  split <;> infer_instance

instance (ident : IdentDef) (convention : Option (String × Span)) :
    Quiet (callingConvention ident convention) := by
  unfold callingConvention
  split <;> infer_instance

instance (ident : IdentDef) (name : Option String) : Quiet (externalName ident name) := by
  unfold externalName
  split <;> infer_instance

end Analyze
end Oberon
