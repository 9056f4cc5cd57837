import Oberon.Constant
import Oberon.Proofs.Parts

/-!
# Oberon.Proofs.Folding

Two ways to evaluate operators over literals. `fold` goes down a whole tree; `reduceTree` reduces one
operator after the other, from the leaves on, and puts a literal in its place. Reductions look at
divisors first, so they refuse to divide a real number by zero, which a fold does.
-/

namespace Oberon

open Literal

/-- Built from literals with unary and binary operators. -/
def Expr.isOperation : Expr → Bool
  | .literal _ _ => true
  | .unary _ x _ => x.isOperation
  | .binary _ l r _ => l.isOperation && r.isOperation
  | _ => false

def Literal.isZero : Literal → Bool
  | .integer v => v == 0
  | .real v => v == 0.0
  | _ => false

namespace Constant

/-- Reduce the operators of a tree from its leaves on, each to a literal that is an operand of the next. -/
def reduceTree : Expr → Result (Literal × Ty)
  | .literal v note => .ok (v, note.type)
  | .unary op x _ =>
    match reduceTree x with
    | .error e => .error e
    | .ok (v, type) => reduceUnary op (.literal v { type, span := x.span })
  | .binary op x y note =>
    match reduceTree x with
    | .error e => .error e
    | .ok (l, lt) =>
      match reduceTree y with
      | .error e => .error e
      | .ok (r, rt) =>
        match reduce note.span op (.literal l { type := lt, span := x.span }) (.literal r { type := rt, span := y.span })
            note.type with
        | .error e => .error e
        | .ok (.literal v type) => .ok (v, type)
        | .ok _ => .error .notConstant
  | _ => .error .notConstant

/-- Somewhere in the tree `/` has a divisor that is zero. -/
def DividesByZero (e : Expr) : Prop :=
  ∃ l r note, .binary .divide l r note ∈ e.parts ∧ ∃ d, fold r = .ok d ∧ d.isZero = true

/-! ## One operator -/

/-- A divisor is refused if it is the zero of a division by `/`, or if there is no value anyway. -/
lemma divisor_literals (op l r s) : divisor op (some l) (some r) s = .ok none ∧
    ¬ (op = .divide ∧ r.isZero) ∨ (∃ f, divisor op (some l) (some r) s = .error f) ∧
    (op = .divide ∧ r.isZero ∨ ∀ span t p, binary span op l r t ≠ .ok p) := by
  unfold divisor
  split
  · next d hr =>
    cases hr
    repeat' split
    iterate 2
      · refine .inr ⟨⟨_, rfl⟩, .inr fun span t p => ?_⟩
        cases l <;> simp_all [binary, integers, reals, relation]
    · simp_all
    · exact .inl ⟨rfl, by simp⟩
  · next d hr =>
    cases hr
    repeat' split
    iterate 2
      · refine .inr ⟨⟨_, rfl⟩, .inr fun span t p => ?_⟩
        cases l <;> simp_all [binary, integers, reals, relation]
    · exact .inl ⟨rfl, by simp⟩
  · next d hr =>
    cases hr
    repeat' split
    · exact .inr ⟨⟨_, rfl⟩, .inl ⟨rfl, by simpa [isZero]⟩⟩
    · simp_all
    · exact .inl ⟨rfl, by simpa [isZero]⟩
  · next d hr =>
    cases hr
    split
    · exact .inr ⟨⟨_, rfl⟩, .inl ⟨rfl, by simpa [isZero]⟩⟩
    · exact .inl ⟨rfl, by simp_all [isZero]⟩
  · next hdivide hreal =>
    refine .inl ⟨rfl, ?_⟩
    rintro ⟨rfl, hz⟩
    cases r with
    | integer v => exact hdivide v rfl rfl
    | real v => exact hreal v rfl rfl
    | _ => cases hz

/-- Over literals a reduction yields the value of the operator, unless it refuses the divisor. -/
lemma reduce_eq_ok_iff : reduce s op (.literal l m) (.literal r n) t = .ok (.literal v u) ↔
    binary s op l r t = .ok (v, u) ∧ ¬ (op = .divide ∧ r.isZero) := by
  simp only [reduce, Expr.literal?]
  rcases divisor_literals op l r (Expr.literal r n).span with ⟨hd, hz⟩ | ⟨⟨f, hd⟩, hz⟩
  · rw [hd]
    cases hb : binary s op l r t with
    | error => simp
    | ok p => simp [hz, Prod.ext_iff]
  · rw [hd]
    rcases hz with hz | hnone
    · simp [hz]
    · simp [hnone]

/-! ## Trees -/

lemma not_dividesByZero_literal : ¬ DividesByZero (.literal v n) := by
  simp [DividesByZero, Expr.parts]

lemma dividesByZero_unary {op : UnaryOp} : DividesByZero (.unary op x n) ↔ DividesByZero x := by
  simp [DividesByZero, Expr.parts]

lemma dividesByZero_binary : DividesByZero (.binary op x y n) ↔
    (op = .divide ∧ ∃ d, fold y = .ok d ∧ d.isZero) ∨ DividesByZero x ∨ DividesByZero y := by
  constructor
  · rintro ⟨l, r, k, hmem, hd⟩
    rw [Expr.parts, List.mem_cons, List.mem_append] at hmem
    rcases hmem with heq | hmem | hmem
    · cases heq
      exact .inl ⟨rfl, hd⟩
    · exact .inr (.inl ⟨l, r, k, hmem, hd⟩)
    · exact .inr (.inr ⟨l, r, k, hmem, hd⟩)
  · rintro (⟨rfl, hd⟩ | ⟨l, r, k, hmem, hd⟩ | ⟨l, r, k, hmem, hd⟩)
    · exact ⟨x, y, n, by simp [Expr.parts], hd⟩
    iterate 2
      · exact ⟨l, r, k, by simp [Expr.parts, hmem], hd⟩

lemma fold_eq_ok_iff : fold e = .ok v ↔ ∃ t, foldTyped e = .ok (v, t) := by
  unfold fold
  cases foldTyped e <;> simp [Except.map, Prod.ext_iff]

/-- Whether there is a value does not depend on where the operator stands. -/
lemma unary_eq_ok_iff (s s') {op : UnaryOp} : unary s op v t = .ok p ↔ unary s' op v t =
    .ok p := by
  unfold unary checked
  repeat' split
  all_goals simp_all

section

lemma reduceTree_unary {op : UnaryOp} : reduceTree (.unary op x n) = .ok p ↔ ∃ a, reduceTree x =
    .ok a ∧ unary n.span op a.1 a.2 = .ok p := by
  rw [reduceTree]
  cases reduceTree x with
  | error => simp
  | ok a =>
    have hunary : reduceUnary op (.literal a.1 { type := a.2, span := x.span }) = unary x.span op a.1 a.2 := rfl
    simp [hunary, unary_eq_ok_iff n.span x.span]

lemma foldTyped_unary {op : UnaryOp} : foldTyped (.unary op x n) = .ok p ↔ ∃ a, foldTyped x =
    .ok a ∧ unary n.span op a.1 a.2 = .ok p := by
  rw [foldTyped]
  cases foldTyped x <;> simp

lemma reduceTree_binary : reduceTree (.binary op x y n) = .ok p ↔ ∃ a b, reduceTree x = .ok a ∧
    reduceTree y = .ok b ∧ binary n.span op a.1 b.1 n.type = .ok p ∧
    ¬ (op = .divide ∧ b.1.isZero) := by
  obtain ⟨v, u⟩ := p
  rw [reduceTree]
  cases reduceTree x with
  | error => simp
  | ok a =>
    cases reduceTree y with
    | error => simp
    | ok b =>
      have hiff : reduce n.span op (.literal a.1 { type := a.2, span := x.span }) (.literal b.1 { type := b.2, span := y.span })
          n.type = .ok (.literal v u) ↔ _ := reduce_eq_ok_iff
      simp only [Except.ok.injEq, exists_eq_left', exists_and_left]
      rw [← hiff]
      split
      · next hr => simp [hr]
      · next hr => simp [hr]
      · next hne hr => simpa [hr] using hne v u

lemma foldTyped_binary : foldTyped (.binary op x y n) = .ok p ↔ ∃ a b, foldTyped x = .ok a ∧
    foldTyped y = .ok b ∧ binary n.span op a.1 b.1 n.type = .ok p := by
  rw [foldTyped]
  cases foldTyped x <;> cases foldTyped y <;> simp

end

/-- A tree is reduced to the value and the type that it is folded to, unless it divides by zero. -/
lemma reduceTree_eq_ok_iff {e : Expr} (h : e.isOperation) : ∀ p, reduceTree e = .ok p ↔
    foldTyped e = .ok p ∧ ¬ DividesByZero e := by
  induction e using Expr.isOperation.induct with
  | case1 w n => simp [reduceTree, foldTyped, not_dividesByZero_literal]
  | case2 op x n ih =>
    intro p
    simp only [reduceTree_unary, foldTyped_unary, dividesByZero_unary, ih h]
    constructor
    · rintro ⟨a, ⟨hx, hz⟩, hp⟩
      exact ⟨⟨a, hx, hp⟩, hz⟩
    · rintro ⟨⟨a, hx, hp⟩, hz⟩
      exact ⟨a, ⟨hx, hz⟩, hp⟩
  | case3 op x y n ihx ihy =>
    intro p
    obtain ⟨hx, hy⟩ := Bool.and_eq_true_iff.1 h
    simp only [reduceTree_binary, foldTyped_binary, dividesByZero_binary, fold_eq_ok_iff, ihx hx, ihy hy]
    constructor
    · rintro ⟨a, b, ⟨ha, haz⟩, ⟨hb, hbz⟩, hp, hz⟩
      refine ⟨⟨a, b, ha, hb, hp⟩, ?_⟩
      rintro (⟨rfl, d, ⟨u, hd⟩, hzero⟩ | hzero | hzero)
      · cases hb.symm.trans hd
        exact hz ⟨rfl, hzero⟩
      · exact haz hzero
      · exact hbz hzero
    · rintro ⟨⟨a, b, ha, hb, hp⟩, hz⟩
      rw [not_or, not_or] at hz
      exact ⟨a, b, ⟨ha, hz.2.1⟩, ⟨hb, hz.2.2⟩, hp, fun h => hz.1 ⟨h.1, b.1, ⟨b.2, hb⟩, h.2⟩⟩
  | case4 e hl hu hb =>
    cases e with
    | literal v n => exact absurd rfl (hl v n)
    | unary op x n => exact absurd rfl (hu op x n)
    | binary op x y n => exact absurd rfl (hb op x y n)
    | _ => cases h

/-- Reducing a tree operator by operator yields a value exactly if folding it does and it nowhere
divides by zero, and then it is the same value. -/
theorem reduceTree_iff_fold (e : Expr) (h : e.isOperation = true) (v : Literal) :
    (∃ t, reduceTree e = .ok (v, t)) ↔ fold e = .ok v ∧ ¬ DividesByZero e := by
  simp only [fold_eq_ok_iff, reduceTree_eq_ok_iff h, exists_and_right]

/-- The tree of `x / 0` for a real number. -/
def quotient (x : Float) : Expr :=
  .binary .divide (.literal (.real x) { type := .real, span := ⟨0, 3⟩ })
    (.literal (.integer 0) { type := .shortint, span := ⟨6, 7⟩ }) { type := .real, span := ⟨0, 7⟩ }

theorem reduceTree_iff_fold_negated :
    let e : Expr := .unary .neg (.literal (.integer 3) { type := .shortint, span := ⟨1, 2⟩ }) { type := .shortint, span := ⟨0, 2⟩ }
    e.isOperation = true ∧ ¬ DividesByZero e ∧ ∃ t, reduceTree e = .ok (.integer (-3), t) := by
  refine ⟨rfl, ?_, ?_⟩
  · simp [dividesByZero_unary, not_dividesByZero_literal]
  · exact (reduceTree_iff_fold _ rfl _).2 ⟨rfl, by simp [dividesByZero_unary, not_dividesByZero_literal]⟩

/-- A real number over zero can be folded, but not reduced. -/
theorem quotient_folded : (quotient 1.0).isOperation = true ∧ fold (quotient 1.0) =
    .ok (.real (1.0 / toReal 0)) ∧ ∀ v t, reduceTree (quotient 1.0) ≠ .ok (v, t) := by
  refine ⟨rfl, rfl, fun v t h => ?_⟩
  cases h

end Constant
end Oberon
