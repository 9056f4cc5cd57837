import Oberon.Proofs.Deciding

/-!
# Oberon.Proofs.Arithmetic

Constant expressions over integers. `Arith` is the grammar of expressions of decimal numbers with
parentheses, signs and arithmetic operators, each with its value in the integers. Reading one yields a
literal of that value exactly if every result on the way fits into 64 bits and every divisor is positive,
and reports an error otherwise.
-/

namespace Oberon

open Constant Ty

variable {t : Ty} {e : Expr}

/-! ## Expressions and their values -/

inductive Sign where
  | plus
  | minus
deriving DecidableEq

inductive MulOp where
  | times
  | div
  | mod
deriving DecidableEq

inductive AddOp where
  | plus
  | minus
deriving DecidableEq

namespace Sign

def lexis : Sign → Lexis
  | plus => .symbol .plus
  | minus => .symbol .minus

def apply : Sign → Int → Int
  | plus, x => x
  | minus, x => -x

end Sign

namespace MulOp

def lexis : MulOp → Lexis
  | times => .symbol .times
  | div => .keyword .DIV
  | mod => .keyword .MOD

/-- Division is floored. -/
def apply : MulOp → Int → Int → Int
  | times, x, y => x * y
  | div, x, y => Int.fdiv x y
  | mod, x, y => Int.fmod x y

/-- Divisors are positive. -/
def Applies : MulOp → Int → Prop
  | times, _ => True
  | div, y => 0 < y
  | mod, y => 0 < y

instance (op : MulOp) (x : Int) : Decidable (op.Applies x) := by
  cases op <;> unfold Applies <;> infer_instance

end MulOp

namespace AddOp

def lexis : AddOp → Lexis
  | plus => .symbol .plus
  | minus => .symbol .minus

def apply : AddOp → Int → Int → Int
  | plus, x, y => x + y
  | minus, x, y => x - y

end AddOp

namespace Arith

/-- The productions. Factors and terms are told by whether they start with a sign. -/
inductive Level where
  | primary
  | factor (signed : Bool)
  | term (signed : Bool)
  | sum

end Arith

/-- An arithmetic expression. Operators group from the left, and a leading sign applies to the whole
first term: an expression without one starts with a term that has no sign of its own. -/
inductive Arith : Arith.Level → Type
  | literal (n : Nat) (h : n < 0x8000000000000000) : Arith .primary
  | paren (e : Arith .sum) : Arith .primary
  | plain (p : Arith .primary) : Arith (.factor false)
  | signed (s : Sign) (p : Arith .primary) : Arith (.factor true)
  | factor (f : Arith (.factor b)) : Arith (.term b)
  | multiply (t : Arith (.term b)) (op : MulOp) (f : Arith (.factor b')) : Arith (.term b)
  | term (t : Arith (.term false)) : Arith .sum
  | leading (s : Sign) (t : Arith (.term b)) : Arith .sum
  | add (e : Arith .sum) (op : AddOp) (t : Arith (.term b)) : Arith .sum

namespace Arith

def value {l : Level} : Arith l → Int
  | literal n _ => n
  | paren e => e.value
  | plain p => p.value
  | signed s p => s.apply p.value
  | factor f => f.value
  | multiply t op f => op.apply t.value f.value
  | term t => t.value
  | leading s t => s.apply t.value
  | add e op t => op.apply e.value t.value

/-- Every result on the way fits into 64 bits, and every divisor is positive. -/
def Exact {l : Level} : Arith l → Prop
  | literal n _ => fits64 n = true
  | paren e => e.Exact
  | plain p => p.Exact
  | signed s p => p.Exact ∧ fits64 (s.apply p.value) = true
  | factor f => f.Exact
  | multiply t op f => t.Exact ∧ f.Exact ∧ op.Applies f.value ∧ fits64 (op.apply t.value f.value) = true
  | term t => t.Exact
  | leading s t => t.Exact ∧ fits64 (s.apply t.value) = true
  | add e op t => e.Exact ∧ t.Exact ∧ fits64 (op.apply e.value t.value) = true

instance decidableExact {l : Level} : (e : Arith l) → Decidable e.Exact
  | literal n _ => inferInstanceAs (Decidable (fits64 n = true))
  | paren e => decidableExact e
  | plain p => decidableExact p
  | signed _ p => @instDecidableAnd _ _ (decidableExact p) _
  | factor f => decidableExact f
  | multiply t _ f =>
    @instDecidableAnd _ _ (decidableExact t) (@instDecidableAnd _ _ (decidableExact f) inferInstance)
  | term t => decidableExact t
  | leading _ t => @instDecidableAnd _ _ (decidableExact t) _
  | add e _ t => @instDecidableAnd _ _ (decidableExact e) (@instDecidableAnd _ _ (decidableExact t) _)

/-- The tokens of an expression. -/
def lexes {l : Level} : Arith l → List Lexis
  | literal n _ => [.integer n]
  | paren e => .symbol .leftParen :: (e.lexes ++ [.symbol .rightParen])
  | plain p => p.lexes
  | signed s p => s.lexis :: p.lexes
  | factor f => f.lexes
  | multiply t op f => t.lexes ++ op.lexis :: f.lexes
  | term t => t.lexes
  | leading s t => s.lexis :: t.lexes
  | add e op t => e.lexes ++ op.lexis :: t.lexes

/-- The expression stands at the front of `xs`, and `rest` is behind it. -/
def Stands {l : Level} : Arith l → List Lexeme → List Lexeme → Prop
  | literal n _, xs, rest => ∃ t, xs = .token t :: rest ∧ t.lexis = .integer n
  | paren e, xs, rest => ∃ t ys t', xs = .token t :: ys ∧ t.lexis = .symbol .leftParen ∧
      e.Stands ys (.token t' :: rest) ∧ t'.lexis = .symbol .rightParen
  | plain p, xs, rest => p.Stands xs rest
  | signed s p, xs, rest => ∃ t ys, xs = .token t :: ys ∧ t.lexis = s.lexis ∧ p.Stands ys rest
  | factor f, xs, rest => f.Stands xs rest
  | multiply t op f, xs, rest => ∃ tok ys, t.Stands xs (.token tok :: ys) ∧ tok.lexis = op.lexis ∧
      f.Stands ys rest
  | term t, xs, rest => t.Stands xs rest
  | leading s t, xs, rest => ∃ tok ys, xs = .token tok :: ys ∧ tok.lexis = s.lexis ∧ t.Stands ys rest
  | add e op t, xs, rest => ∃ tok ys, e.Stands xs (.token tok :: ys) ∧ tok.lexis = op.lexis ∧
      t.Stands ys rest

/-- Where the tokens of an expression are, there it stands. -/
lemma stands_of_lexes (e : Arith l) : ∀ (ts : List Token) rest, ts.map Token.lexis = e.lexes →
    e.Stands (ts.map .token ++ rest) rest := by
  induction e with
  | literal n _ =>
    intro ts rest h
    obtain ⟨t, rfl⟩ := List.length_eq_one_iff.1 (by simpa [lexes] using congrArg List.length h)
    exact ⟨t, rfl, by simpa [lexes] using h⟩
  | plain p ih | factor f ih | term t ih => exact ih
  | paren e ih =>
    intro ts rest h
    obtain ⟨t, ts, rfl, ht, h⟩ := List.map_eq_cons_iff.1 h
    obtain ⟨us, vs, rfl, hus, hvs⟩ := List.map_eq_append_iff.1 h
    obtain ⟨t', vs, rfl, ht', hvs⟩ := List.map_eq_cons_iff.1 hvs
    cases List.map_eq_nil_iff.1 hvs
    refine ⟨t, _, t', rfl, ht, ?_, ht'⟩
    simpa using ih us (.token t' :: rest) hus
  | signed s p ih =>
    intro ts rest h
    obtain ⟨t, ts, rfl, ht, h⟩ := List.map_eq_cons_iff.1 h
    exact ⟨t, _, rfl, ht, ih ts rest h⟩
  | leading s t ih =>
    intro ts rest h
    obtain ⟨tok, ts, rfl, ht, h⟩ := List.map_eq_cons_iff.1 h
    exact ⟨tok, _, rfl, ht, ih ts rest h⟩
  | multiply t op f iht ihf =>
    intro ts rest h
    obtain ⟨us, vs, rfl, hus, hvs⟩ := List.map_eq_append_iff.1 h
    obtain ⟨tok, vs, rfl, ht, hvs⟩ := List.map_eq_cons_iff.1 hvs
    exact ⟨tok, vs.map .token ++ rest, by simpa using iht us _ hus, ht, ihf vs rest hvs⟩
  | add e op t ihe iht =>
    intro ts rest h
    obtain ⟨us, vs, rfl, hus, hvs⟩ := List.map_eq_append_iff.1 h
    obtain ⟨tok, vs, rfl, ht, hvs⟩ := List.map_eq_cons_iff.1 hvs
    exact ⟨tok, vs.map .token ++ rest, by simpa using ihe us _ hus, ht, iht vs rest hvs⟩

/-- The value of an exact expression fits into 64 bits. -/
lemma Exact.fits {e : Arith l} (h : e.Exact) : fits64 e.value := by
  induction e with
  | literal n _ => exact h
  | paren e ih | plain p ih => exact ih h
  | signed s p ih => exact h.2
  | factor f ih => exact ih h
  | multiply t op f _ _ => exact h.2.2.2
  | term t ih => exact ih h
  | leading s t _ => exact h.2
  | add e op t _ _ => exact h.2.2

end Arith

/-! ## Operators over integers -/

lemma Ty.isInteger_cases (h : t.isInteger) : t = .shortint ∨ t = .integer ∨ t = .longint := by
  simpa [Ty.isInteger, or_assoc] using h

lemma Ty.isInteger_ofInteger (v) : (ofInteger v).isInteger := by
  unfold ofInteger
  split
  · rfl
  · split <;> rfl

/-- Two integer types have one of them in common. -/
lemma Store.commonType?_integers (s : Store) {u : Ty} (ht : t.isInteger) (hu : u.isInteger) :
    ∃ common, s.commonType? t u = some common ∧ common.isInteger := by
  have hnumeric : (t.isNumeric && u.isNumeric) := by
    simp [isNumeric, isEntire, ht, hu]
  have hreal : (t.isReal != u.isReal) = false := by
    rcases isInteger_cases ht with rfl | rfl | rfl <;>
      rcases isInteger_cases hu with rfl | rfl | rfl <;> rfl
  unfold commonType?
  rw [hnumeric, hreal]
  by_cases hsame : s.sameType t u
  · exact ⟨t, by rw [if_pos hsame], ht⟩
  · rw [if_neg hsame]
    by_cases hsize : s.size t < s.size u
    · exact ⟨u, by simp [hsize], hu⟩
    · exact ⟨t, by simp [hsize], ht⟩

/-- A literal of an integer type. -/
def Expr.IsValue (v : Int) (e : Expr) : Prop :=
  ∃ note : Note, e = .literal (.integer v) note ∧ note.type.isInteger = true

lemma Expr.IsValue.isInteger (h : e.IsValue v) : e.type.isInteger := by
  obtain ⟨note, rfl, hint⟩ := h
  exact hint

lemma Expr.IsValue.literal? (h : e.IsValue v) : e.literal? = some (.integer v) := by
  obtain ⟨note, rfl, _⟩ := h
  rfl

def Sign.op : Sign → UnaryOp
  | plus => .plus
  | minus => .neg

def MulOp.op : MulOp → BinaryOp
  | times => .mul
  | div => .div
  | mod => .mod

def AddOp.op : AddOp → BinaryOp
  | plus => .add
  | minus => .sub

namespace Analyze

open Analysis

/-- An action that yields the value `v` and changes nothing if `good` holds, and else reports an
error. -/
structure Computes (x : Analyze (Option Expr)) (a : Analysis) (good : Prop) (v : Int) : Prop where
  yields : good → ∃ e : Expr, x a = (some e, a) ∧ e.IsValue v
  fails : ¬ good → (x a).2.Failed

lemma bind_of_run {α β : Type} {x : Analyze α} {r : α} (h : x a = (r, b)) (f : α → Analyze β) :
    (x >>= f) a = f r b := by
  rw [bind_run, h]

lemma unary_of_ok (hvalid : (unaryOperand op x.type).1)
    (hr : reduceUnary op x = .ok (value, type)) (span a) : unary span op (some x) a =
    (some (.literal value { type, span }), a) := by
  simp [unary, hvalid, hr, evaluate]

lemma unary_of_fault (hvalid : (unaryOperand op x.type).1)
    (hr : reduceUnary op x = .error (.fault note spot)) (span a) :
    (unary span op (some x) a).2.Failed := by
  simp only [unary, hvalid, hr, evaluate, Bool.not_true, Bool.false_and, Bool.false_eq_true, if_false]
  exact failed_report _ _ _

lemma computes_unary (s : Sign) (hx : x.IsValue v) (hv : fits64 v) (span a) :
    (unary span s.op (some x)).Computes a (fits64 (s.apply v)) (s.apply v) := by
  obtain ⟨note, rfl, hint⟩ := hx
  have hvalid : (unaryOperand s.op note.type).1 := by
    cases s <;> simp [unaryOperand, Sign.op, isNumeric, isEntire, hint]
  cases s with
  | plus =>
    exact ⟨fun _ => ⟨_, unary_of_ok hvalid rfl span a, _, rfl, hint⟩, fun h => absurd hv h⟩
  | minus =>
    have hfold : reduceUnary .neg (.literal (.integer v) note) =
      checked note.span (-v) := rfl
    refine ⟨fun h => ⟨_, unary_of_ok hvalid (hfold.trans (if_pos h)) span a, _, rfl, ?_⟩, fun h => ?_⟩
    · exact isInteger_ofInteger _
    · exact unary_of_fault hvalid (hfold.trans (if_neg h)) span a

lemma operator_integers (hop : op = .add ∨ op = .sub ∨ op = .mul ∨ op = .div ∨ op = .mod)
    (hx : x.type.isInteger) (hy : y.type.isInteger) (span a) : ∃ common : Ty, common.isInteger ∧
    operator span op x y a = (some ⟨common, some common⟩, a) := by
  obtain ⟨common, hcommon, hint⟩ := a.store.commonType?_integers hx hy
  have hrun : commonType span x.type y.type a = (common, a) := by
    rw [commonType, getStore_bind_run, hcommon]
    rfl
  have hentire : (x.type.isEntire && y.type.isEntire) := by simp [isEntire, hx, hy]
  have hnumeric : (x.type.isNumeric && y.type.isNumeric) := by
    simp [isNumeric, isEntire, hx, hy]
  have htext : (x.type.isString || y.type.isString) = false := by
    rcases isInteger_cases hx with h | h | h <;> rcases isInteger_cases hy with h' | h' | h' <;>
      rw [h, h'] <;> rfl
  refine ⟨common, hint, ?_⟩
  rcases hop with rfl | rfl | rfl | rfl | rfl
  all_goals simp only [operator, htext, hnumeric, hentire, Bool.and_false, Bool.false_eq_true, if_false,
    if_true, Bool.true_or]
  all_goals exact (bind_of_run hrun _).trans rfl

lemma isDimensionless_of_isInteger (h : e.type.isInteger) (s) : isDimensionless s e = false := by
  unfold isDimensionless
  rcases isInteger_cases h with h | h | h <;> rw [h] <;> rfl

lemma beq_undefined_of_isInteger (h : t.isInteger) : (t == .undefined) = false := by
  rcases isInteger_cases h with rfl | rfl | rfl <;> rfl

/-- Operators on integers come down to folding them. -/
lemma binary_integers (hop : op = .add ∨ op = .sub ∨ op = .mul ∨ op = .div ∨ op = .mod)
    (hx : x.type.isInteger) (hy : y.type.isInteger) (span a) : ∃ common : Ty, common.isInteger ∧
    binary span op (some x) (some y) a =
    (reduce span op x y ⟨common, some common⟩ >>= fun e => pure (some e)) a := by
  obtain ⟨common, hcommon, hrun⟩ := operator_integers hop hx hy span a
  have hop' : (op == .typeTest) = false := by rcases hop with rfl | rfl | rfl | rfl | rfl <;> rfl
  refine ⟨common, hcommon, ?_⟩
  simp only [binary, beq_undefined_of_isInteger hx, beq_undefined_of_isInteger hy, hop', Bool.or_self,
    Bool.false_eq_true, if_false, getStore_bind_run, isDimensionless_of_isInteger hx,
    isDimensionless_of_isInteger hy]
  rw [bind_of_run hrun]
  simp only [beq_undefined_of_isInteger hcommon, Bool.false_eq_true, if_false]

lemma reduce_of_ok {op : BinaryOp} (hop : op.isRelation = false) {common type : Ty}
    (hcommon : common.isInteger)
    (hr : Constant.reduce span op x y common = .ok (.literal (.integer z) type)) (a) :
    reduce span op x y ⟨common, some common⟩ a = (.literal (.integer z) { type, span }, a) := by
  have hreal : common.isReal = false := by
    rcases Ty.isInteger_cases hcommon with rfl | rfl | rfl <;> rfl
  rw [reduce, getStore_bind_run]
  simp [hr, evaluate, warnConstant, hop, foldedLiteral, hreal]

lemma reduce_of_fault (hr : Constant.reduce span op x y common = .error (.fault note spot)) (a) :
    (reduce span op x y ⟨common, some common⟩ a).2.Failed := by
  rw [reduce, getStore_bind_run, hr]
  exact failed_report spot _ a

/-- What folding makes of two integers decides what becomes of an operator. -/
lemma computes_binary (hop : op = .add ∨ op = .sub ∨ op = .mul ∨ op = .div ∨ op = .mod)
    (hx : x.type.isInteger) (hy : y.type.isInteger) {good : Prop}
    (hgood : good → ∀ common : Ty, common.isInteger → ∃ type : Ty, type.isInteger ∧
     Constant.reduce span op x y common = .ok (.literal (.integer z) type))
    (hbad : ¬ good → ∀ common, ∃ note spot, Constant.reduce span op x y common =
     .error (.fault note spot)) (a) : (binary span op (some x) (some y)).Computes a good z := by
  obtain ⟨common, hcommon, hrun⟩ := binary_integers hop hx hy span a
  refine ⟨fun h => ?_, fun h => ?_⟩
  · obtain ⟨type, htype, hr⟩ := hgood h common hcommon
    have hrelation : op.isRelation = false := by rcases hop with rfl | rfl | rfl | rfl | rfl <;> rfl
    refine ⟨.literal (.integer z) { type, span }, ?_, _, rfl, htype⟩
    rw [hrun, bind_of_run (reduce_of_ok hrelation hcommon hr a), pure_run]
  · obtain ⟨note, spot, hr⟩ := hbad h common
    rw [hrun]
    exact reduce_of_fault hr a

/-- Sums and products have to fit. -/
lemma computes_checked (hx : x.IsValue v) (hy : y.IsValue w)
    (hop : op = .add ∧ z = v + w ∨ op = .sub ∧ z = v - w ∨ op = .mul ∧ z = v * w) (span a) :
    (binary span op (some x) (some y)).Computes a (fits64 z) z := by
  have hfold (common) : Constant.binary span op (.integer v) (.integer w) common =
      Constant.checked span z := by
    rcases hop with ⟨rfl, rfl⟩ | ⟨rfl, rfl⟩ | ⟨rfl, rfl⟩ <;> rfl
  have hdivisor : Constant.divisor op (some (.integer v)) (some (.integer w)) y.span = .ok none := by
    rcases hop with ⟨rfl, _⟩ | ⟨rfl, _⟩ | ⟨rfl, _⟩ <;> rfl
  refine computes_binary (by rcases hop with h | h | h <;> simp [h.1]) hx.isInteger hy.isInteger
    (fun h common _ => ?_) (fun h common => ?_) a
  · refine ⟨_, Ty.isInteger_ofInteger z, ?_⟩
    simp only [Constant.reduce, hx.literal?, hy.literal?, hdivisor, hfold, Constant.checked, if_pos h]
  · refine ⟨.overflow, span, ?_⟩
    simp only [Constant.reduce, hx.literal?, hy.literal?, hdivisor, hfold, Constant.checked, if_neg h]

/-- Divisors have to be positive. -/
lemma computes_divided (hx : x.IsValue v) (hy : y.IsValue w)
    (hop : op = .div ∧ z = Int.fdiv v w ∨ op = .mod ∧ z = Int.fmod v w) (span a) :
    (binary span op (some x) (some y)).Computes a (0 < w) z := by
  refine computes_binary (by rcases hop with h | h <;> simp [h.1]) hx.isInteger hy.isInteger
    (fun h common hc => ⟨common, hc, ?_⟩) (fun h common => ?_) a
  · have hpos : w ≠ 0 ∧ ¬ w < 0 := by omega
    rcases hop with ⟨rfl, rfl⟩ | ⟨rfl, rfl⟩ <;>
      simp [Constant.reduce, hx.literal?, hy.literal?, Constant.divisor, Constant.binary,
        Constant.integers, hpos]
  · by_cases hz : w = 0
    · refine ⟨.divisionByZero, y.span, ?_⟩
      rcases hop with ⟨rfl, _⟩ | ⟨rfl, _⟩ <;>
        simp [Constant.reduce, hy.literal?, Constant.divisor, hz]
    · have hneg : w < 0 := by omega
      refine ⟨.negativeDivisor, y.span, ?_⟩
      rcases hop with ⟨rfl, _⟩ | ⟨rfl, _⟩ <;>
        simp [Constant.reduce, hy.literal?, Constant.divisor, hz, hneg]

lemma computes_add (op : AddOp) (hx : x.IsValue v) (hy : y.IsValue w) (span a) :
    (binary span op.op (some x) (some y)).Computes a (fits64 (op.apply v w)) (op.apply v w) :=
  computes_checked hx hy (by cases op <;> simp [AddOp.op, AddOp.apply]) span a

lemma fits64_iff : fits64 v ↔ -0x8000000000000000 ≤ v ∧ v < 0x8000000000000000 := by
  simp [fits64]

/-- Dividing by a positive number makes nothing larger. -/
lemma fits64_fdiv (hv : fits64 v) (hw : 0 < w) : fits64 (Int.fdiv v w) := by
  rw [fits64_iff] at hv ⊢
  rw [Int.fdiv_eq_ediv_of_nonneg v (Int.le_of_lt hw), Int.le_ediv_iff_mul_le hw,
    Int.ediv_lt_iff_lt_mul hw]
  omega

lemma fits64_fmod (hw : 0 < w) (hfits : fits64 w) : fits64 (Int.fmod v w) := by
  rw [fits64_iff] at hfits ⊢
  have h := Int.fmod_nonneg_of_pos v hw
  have h' := Int.fmod_lt_of_pos v hw
  omega

lemma computes_mul (op : MulOp) (hx : x.IsValue v) (hy : y.IsValue w) (hv : fits64 v)
    (hw : fits64 w) (span a) :
    (binary span op.op (some x) (some y)).Computes a (op.Applies w ∧
     fits64 (op.apply v w)) (op.apply v w) := by
  cases op with
  | times =>
    have h := computes_checked hx hy (.inr (.inr ⟨rfl, rfl⟩)) span a
    exact ⟨fun hg => h.yields hg.2, fun hg => h.fails fun hf => hg ⟨trivial, hf⟩⟩
  | div =>
    have h := computes_divided hx hy (.inl ⟨rfl, rfl⟩) span a
    exact ⟨fun hg => h.yields hg.1, fun hg => h.fails fun hp => hg ⟨hp, fits64_fdiv hv hp⟩⟩
  | mod =>
    have h := computes_divided hx hy (.inr ⟨rfl, rfl⟩) span a
    exact ⟨fun hg => h.yields hg.1, fun hg => h.fails fun hp => hg ⟨hp, fits64_fmod hp hw⟩⟩

end Analyze

end Oberon
