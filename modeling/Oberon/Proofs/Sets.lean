import Mathlib
import Oberon.Proofs.Folding
import Oberon.Proofs.Quiet

/-!
# Oberon.Proofs.Sets

Constant sets. A set constructor over literals is accepted if its values ascend within the limits
of a set, and its mask has the bits of the values and ranges that are listed. The operators on masks
are those on the sets they stand for.
-/

namespace Oberon

open List

structure IntegerLiteral where
  value : Int
  note : Note
  entire : (Expr.literal (.integer value) note).type.isEntire = true

def IntegerLiteral.expr (l : IntegerLiteral) : Expr := .literal (.integer l.value) l.note

/-- What is listed between the braces of a constant set. -/
inductive Element where
  | value (v : IntegerLiteral)
  | range (low high : IntegerLiteral) (note : Note)

namespace Element

def expr : Element → Expr
  | value v => v.expr
  | range low high note => .range low.expr high.expr note

def low : Element → Int
  | value v => v.value
  | range low _ _ => low.value

def high : Element → Int
  | value v => v.value
  | range _ high _ => high.value

/-- The values in the order in which they are written. -/
def values : Element → List Int
  | value v => [v.value]
  | range low high _ => [low.value, high.value]

def Contains : Element → Int → Prop
  | value v, i => i = v.value
  | range low high _, i => low.value ≤ i ∧ i ≤ high.value

/-- The values are in the limits of a set and ascend from above `least`. -/
def Ascending (least : Int) (values : List Int) : Prop :=
  (∀ v ∈ values, 0 ≤ v ∧ v ≤ 31) ∧ (least :: values).IsChain (· < ·)

variable {least : Int} {element : Element}

lemma ascending_append : Ascending least (element.values ++ vs) ↔
    Ascending least element.values ∧ Ascending element.high vs := by
  cases element <;> simp [Ascending, values, high, and_assoc, and_left_comm]

lemma Ascending.limits (h : Ascending least element.values) :
    0 ≤ element.low ∧ element.low ≤ element.high ∧ element.high ≤ 31 := by
  cases element <;> simp [Ascending, values] at h <;> simp only [low, high] <;> omega

lemma contains_iff_le : element.Contains i ↔ element.low ≤ i ∧ i ≤ element.high := by
  cases element <;> simp only [Contains, low, high] <;> omega

lemma ascending_iff : Ascending (-1) vs ↔ (∀ v ∈ vs, 0 ≤ v ∧ v ≤ 31) ∧ vs.Pairwise (· < ·) := by
  refine and_congr_right fun h => ?_
  rw [← isChain_iff_pairwise]
  cases vs with
  | nil => simp
  | cons v vs => simp [Int.lt_of_lt_of_le (by decide : (-1 : Int) < 0) (h v mem_cons_self).1]

end Element

namespace Analyze

variable {a : Analysis}

/-! ## Checking the elements -/

lemma lt_errorCount_report (span message) (a : Analysis) :
    a.log.errorCount < (report span message a).2.log.errorCount := by
  simp [report, record, Log.record, Log.errorCount, Log.count]

/-- Under the condition `p` the action yields `v` and does nothing else; otherwise it reports an
error. -/
def Vets (x : Analyze α) (a : Analysis) (p : Prop) (v : α) : Prop :=
  p ∧ x a = (v, a) ∨ ¬ p ∧ a.log.errorCount < (x a).2.log.errorCount

namespace Vets

lemma pure (v : α) : Vets (pure v) a True v := .inl ⟨trivial, rfl⟩

lemma bind (hf : ∀ u, Quiet (f u)) (hx : Vets x a p v) (h : p → Vets (f v) a q w) :
    Vets (x >>= f) a (p ∧ q) w := by
  rcases hx with ⟨hp, hx⟩ | ⟨hp, hx⟩
  · simpa [Vets, hx, hp] using h hp
  · exact .inr ⟨fun h => hp h.1, Nat.lt_of_lt_of_le hx (Log.errorCount_mono ((hf _).silent _).logs)⟩

lemma ite [Decidable q] (hx : a.log.errorCount < (x a).2.log.errorCount) (hy : Vets y a p v) :
    Vets (if q then x else y) a (¬ q ∧ p) v := by
  split
  · next hq => exact .inr ⟨fun h => h.1 hq, hx⟩
  · next hq => simpa [Vets, hq] using hy

lemma congr (h : Vets x a p v) (hpq : p ↔ q) : Vets x a q v := propext hpq ▸ h

end Vets

open Element

lemma setBound_vets (scan) (l : IntegerLiteral) : Vets (setBound scan l.expr) a
    (0 ≤ l.value ∧ l.value ≤ 31) (some l.value, scan) := by
  simp only [setBound, IntegerLiteral.expr, Expr.integer?, Expr.literal?]
  by_cases hb : 0 ≤ l.value ∧ l.value ≤ 31
  · exact .inl ⟨hb, by simp [checkBounds, Constant.setMax, hb]⟩
  · refine .inr ⟨hb, ?_⟩
    have hb : ¬ (0 ≤ l.value ∧ l.value ≤ Constant.setMax) := hb
    rw [checkBounds, if_neg (by simpa only [Bool.and_eq_true, decide_eq_true_eq] using hb)]
    exact lt_errorCount_report ..

lemma setAscending_vets (scan span v) : Vets (setAscending scan span (some v)) a (scan.last < v)
    { scan with last := v } :=
  .congr (.ite (lt_errorCount_report ..) (.pure _)) (by simp)

/-- An element passes if its values ascend from the last value on, and is reported if not. -/
lemma setElement_vets (scan) (element : Element) : Vets (setElement scan element.expr) a
    (Ascending scan.last element.values) { scan with last := element.high } := by
  cases element with
  | value v =>
    simp only [setElement, expr, IntegerLiteral.expr, v.entire, Bool.not_true, Bool.false_eq_true,
      if_false]
    refine .congr (.bind (fun _ => inferInstance) (setBound_vets scan v) fun _ =>
      setAscending_vets ..) ?_
    simp [Ascending, values]
  | range low high note =>
    simp only [setElement, expr, IntegerLiteral.expr, low.entire, high.entire, Bool.not_true,
      Bool.or_self, Bool.false_eq_true, if_false]
    refine .congr (.bind (fun _ => ?_) (setBound_vets scan low) fun _ => .bind (fun _ => ?_)
      (setAscending_vets ..) fun _ => .bind (fun _ => ?_) (setBound_vets _ high) fun _ =>
      .ite (lt_errorCount_report ..) (.pure _)) ?_
    · repeat refine .andThen fun _ => ?_
      split <;> infer_instance
    · refine .andThen fun _ => ?_
      dsimp only
      split <;> infer_instance
    · dsimp only
      split <;> infer_instance
    · simp [Ascending, values]
      omega

lemma setElements_vets (elements : List Element) : ∀ scan : SetScan, ∃ last,
    Vets (setElements scan (elements.map expr)) a (Ascending scan.last (elements.flatMap values))
      { scan with last } := by
  induction elements with
  | nil => exact fun scan => ⟨scan.last, .congr (.pure scan) (by simp [Ascending])⟩
  | cons element rest ih =>
    intro scan
    obtain ⟨last, hrest⟩ := ih { scan with last := element.high }
    have hfirst := setElement_vets (a := a) scan element
    refine ⟨last, .congr (.bind (fun _ => inferInstance) hfirst fun _ => hrest) ?_⟩
    exact ascending_append.symm

end Analyze

namespace Constant

open Element

/-! ## Masks -/

lemma getLsbD_rangeMask (low high) (i : Nat) (hi : i < 32) :
    (rangeMask low high).getLsbD i = true ↔ low ≤ i ∧ i ≤ high := by
  have hrun (n : Nat) : ((range n).foldl (fun mask (i : Nat) =>
      if low ≤ (i : Int) && (i : Int) ≤ high then mask ||| BitVec.twoPow 32 i else mask)
      0#32).getLsbD i = true ↔ i < n ∧ low ≤ i ∧ i ≤ high := by
    induction n with
    | zero => simp
    | succ n ih =>
      rw [range_succ, foldl_append, foldl_cons, foldl_nil]
      split
      · rw [BitVec.getLsbD_or, Bool.or_eq_true, ih, BitVec.getLsbD_twoPow]
        grind
      · rw [ih]
        grind
  rw [rangeMask, hrun]
  simp [hi]

lemma elementMask_of_le {low high : Int} (hl : 0 ≤ low) (h : low ≤ high) (hh : high ≤ 31) (span) :
    elementMask span (.integer low) (.integer high) = .ok (rangeMask low high) := by
  have hlow : 0 ≤ low ∧ low ≤ setMax := ⟨hl, Int.le_trans h hh⟩
  have hhigh : 0 ≤ high ∧ high ≤ setMax := ⟨Int.le_trans hl h, hh⟩
  simp [elementMask, boundCheck, hlow, hhigh, Int.not_lt.2 h]

lemma foldElements_cons (element : Element) (rest) : foldElements (element.expr :: rest) =
    join (elementMask element.expr.span (.integer element.low) (.integer element.high))
      (foldElements rest) := by
  cases element <;> rfl

/-- The mask of constant elements has the bits of what they contain. -/
lemma foldElements_ascending (elements : List Element) : ∀ {least},
    Ascending least (elements.flatMap values) → ∃ mask,
    foldElements (elements.map expr) = .ok mask ∧
    ∀ i < 32, mask.getLsbD i = true ↔ ∃ element ∈ elements, element.Contains i := by
  induction elements with
  | nil => exact fun _ => ⟨0, rfl, by simp⟩
  | cons element rest ih =>
    intro least ha
    obtain ⟨hfirst, hrest⟩ := ascending_append.1 ha
    obtain ⟨hlow, hle, hhigh⟩ := hfirst.limits
    obtain ⟨mask, hmask, hbits⟩ := ih hrest
    refine ⟨rangeMask element.low element.high ||| mask, ?_, fun i hi => ?_⟩
    · rw [map_cons, foldElements_cons, elementMask_of_le hlow hle hhigh, hmask, join]
    · rw [BitVec.getLsbD_or, Bool.or_eq_true, getLsbD_rangeMask _ _ i hi, hbits i hi]
      simp [contains_iff_le]

/-! ## Operators -/

/-- The set that a mask stands for. -/
def members (mask : BitVec 32) : Finset (Fin 32) := {i | mask.getLsbD i = true}

lemma mem_members : i ∈ members mask ↔ mask.getLsbD i = true := by simp [members]

lemma members_inj : members l = members r ↔ l = r := by
  refine ⟨fun h => BitVec.eq_of_getLsbD_eq fun i hi => Bool.eq_iff_iff.2 ?_, congrArg members⟩
  simpa only [mem_members] using Finset.ext_iff.1 h ⟨i, hi⟩

lemma members_subset : members l ⊆ members r ↔ l &&& ~~~r = 0#32 := by
  rw [← members_inj, Finset.ext_iff]
  refine forall_congr' fun i => ?_
  simp [mem_members]

/-- What an operator has as its value between two sets. -/
inductive Means (l r : Finset (Fin 32)) : BinaryOp → Literal → Prop
  | union (h : members mask = l ∪ r) : Means l r .add (.set mask)
  | difference (h : members mask = l \ r) : Means l r .sub (.set mask)
  | intersection (h : members mask = l ∩ r) : Means l r .mul (.set mask)
  | symmDiff (h : members mask = symmDiff l r) : Means l r .divide (.set mask)
  | equal (h : b = true ↔ l = r) : Means l r .eq (.boolean b)
  | unequal (h : b = true ↔ l ≠ r) : Means l r .neq (.boolean b)
  | subset (h : b = true ↔ l ⊆ r) : Means l r .leq (.boolean b)
  | superset (h : b = true ↔ r ⊆ l) : Means l r .geq (.boolean b)

/-- The operator between two literals has the value `v`, within a tree and on its own. -/
def Folds (op : BinaryOp) (l r v : Literal) : Prop := ∀ m n note span common,
  fold (.binary op (.literal l m) (.literal r n) note) = .ok v ∧
  ∃ type, reduce span op (.literal l m) (.literal r n) common = .ok (.literal v type)

lemma Folds.of_binary (h : ∀ span common, binary span op l r common = .ok (v, t))
    (hr : r.isZero = false) : Folds op l r v := fun m n note span common =>
  ⟨by simp [fold, foldTyped, h, Except.map], t, reduce_eq_ok_iff.2 ⟨h span common, by simp [hr]⟩⟩

lemma sets_mean (l r) (h : op ∈ [.add, .sub, .mul, .divide, .eq, .neq, .leq, .geq]) :
    ∃ v, Folds op (.set l) (.set r) v ∧ Means (members l) (members r) op v := by
  simp only [mem_cons, not_mem_nil, or_false] at h
  rcases h with rfl | rfl | rfl | rfl | rfl | rfl | rfl | rfl <;>
    refine ⟨_, .of_binary (fun _ _ => rfl) rfl, ?_⟩
  · exact .union (by ext i; simp [mem_members])
  · exact .difference (by ext i; simp [mem_members])
  · exact .intersection (by ext i; simp [mem_members])
  · exact .symmDiff (by ext i; simp [mem_members, Finset.mem_symmDiff]; grind)
  · exact .equal (by simp [members_inj])
  · exact .unequal (by simp [members_inj])
  · exact .subset (by simp [members_subset])
  · exact .superset (by simp [members_subset])

lemma member_folds (i : Fin 32) (mask) :
    Folds .member (.integer i) (.set mask) (.boolean (i ∈ members mask)) := by
  have hi : 0 ≤ (i : Int) ∧ (i : Int) ≤ setMax := ⟨by omega, by simp only [setMax]; omega⟩
  refine .of_binary (t := .boolean) (fun span common => ?_) rfl
  simp [binary, boundCheck, hi, truth, mem_members]

end Constant

namespace Analyze

open Element Constant

lemma allConstant_elements (elements : List Element) : Expr.allConstant (elements.map expr) := by
  induction elements with
  | nil => rfl
  | cons element _ ih =>
    cases element <;> simpa [Expr.allConstant, Expr.isConstant, expr, IntegerLiteral.expr]

/-- A set constructor over constant elements yields their mask if the values ascend. -/
lemma setOf_vets (span) (elements : List Element) (a) : ∃ mask,
    Vets (setOf span (elements.map expr)) a (Ascending (-1) (elements.flatMap values))
      (.literal (.set mask) { type := .set, span }) ∧
    (Ascending (-1) (elements.flatMap values) →
      ∀ i < 32, mask.getLsbD i = true ↔ ∃ element ∈ elements, element.Contains i) := by
  obtain ⟨last, hrun⟩ := setElements_vets (a := a) elements {}
  have hmask : ∃ mask, Ascending (-1) (elements.flatMap values) →
      foldElements (elements.map expr) = .ok mask ∧
      ∀ i < 32, mask.getLsbD i = true ↔ ∃ element ∈ elements, element.Contains i := by
    by_cases ha : Ascending (-1) (elements.flatMap values)
    · exact (foldElements_ascending elements ha).imp fun _ h _ => h
    · exact ⟨0, fun h => absurd h ha⟩
  obtain ⟨mask, hmask⟩ := hmask
  refine ⟨mask, .congr (.bind (q := True) (fun _ => ?_) hrun fun ha => .inl ⟨trivial, ?_⟩)
    (by simp), fun ha => (hmask ha).2⟩
  · dsimp only
    split
    · exact .andThen fun _ => by split <;> infer_instance
    · infer_instance
  · have hc : (Expr.set (elements.map expr) { type := .set, span }).isConstant :=
      allConstant_elements elements
    simp [hc, fold, foldTyped, (hmask ha).1, Except.map, evaluate]

/-- Constant sets denote sets: a set constructor over integer literals and ranges of them is
accepted and folded exactly if its values ascend within 0 to 31, its mask has the bits of what is
listed, and the operators on masks are those on sets. -/
theorem constant_sets (span : Span) (elements : List Element) (a : Analysis) :
    let result := setOf span (elements.map expr) a
    (result.2.log.errorCount = a.log.errorCount ∧
      (∃ mask, result.1 = .literal (.set mask) { type := .set, span }) ↔
      (∀ v ∈ elements.flatMap values, 0 ≤ v ∧ v ≤ 31) ∧
        (elements.flatMap values).Pairwise (· < ·)) ∧
    (∀ mask note, result.2.log.errorCount = a.log.errorCount →
      result.1 = .literal (.set mask) note →
      ∀ i < 32, mask.getLsbD i = true ↔ ∃ element ∈ elements, element.Contains i) ∧
    (∀ l r, ∀ op ∈ [.add, .sub, .mul, .divide, .eq, .neq, .leq, .geq],
      ∃ v, Folds op (.set l) (.set r) v ∧ Means (members l) (members r) op v) ∧
    (∀ mask, ∃ mask', members mask' = (members mask)ᶜ ∧ ∀ m note,
      fold (.unary .neg (.literal (.set mask) m) note) = .ok (.set mask') ∧
      reduceUnary .neg (.literal (.set mask) m) = .ok (.set mask', .set)) ∧
    ∀ (i : Fin 32) mask, Folds .member (.integer i) (.set mask) (.boolean (i ∈ members mask)) := by
  dsimp only
  obtain ⟨mask, hvets, hbits⟩ := setOf_vets span elements a
  refine ⟨?_, fun mask' note herr he => ?_, fun l r op hop => sets_mean l r hop,
    fun mask => ⟨~~~mask, by ext i; simp [mem_members], fun m note => ⟨rfl, rfl⟩⟩, member_folds⟩
  · rw [← ascending_iff]
    rcases hvets with ⟨ha, hrun⟩ | ⟨ha, hlt⟩
    · simp [hrun, ha]
    · simp [ha, Nat.ne_of_gt hlt]
  · rcases hvets with ⟨ha, hrun⟩ | ⟨ha, hlt⟩
    · rw [hrun] at he
      cases he
      exact hbits ha
    · exact absurd herr (Nat.ne_of_gt hlt)

end Analyze
end Oberon
