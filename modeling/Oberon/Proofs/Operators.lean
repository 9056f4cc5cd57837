import Oberon.Proofs.Chains
import Oberon.Proofs.Reading

/-!
# Oberon.Proofs.Operators

What operators, ranges and sets yield where nothing is reported. With what is known of designators
this makes the rules by which expressions are formed (`Elaborates`); the state of the analysis
matters to them by its declarations only.
-/

namespace Oberon

open Store Ty

variable {t : Ty} {s : Store}

/-! ## Numeric types -/

namespace Ty

lemma isBasic_ofInteger (value) : ∃ b, ofInteger value = .basic b := by
  unfold ofInteger
  split
  · exact ⟨_, rfl⟩
  · split <;> exact ⟨_, rfl⟩

lemma isBasic_of_isNumeric (h : t.isNumeric) : ∃ b, t = .basic b := by
  cases t with
  | basic b => exact ⟨b, rfl⟩
  | pseudo p | composite k => cases h

lemma isNumeric_of_isEntire (h : t.isEntire) : t.isNumeric := by
  simp [isNumeric, h]

end Ty

/-- Numbers are converted to the type of one of the operands, and to a real one if there is one. -/
lemma Store.commonType?_numeric {l r : Ty} (hl : l.isNumeric) (hr : r.isNumeric)
    (h : s.commonType? l r = some t) : t.isNumeric ∧ (l.isReal ∨ r.isReal → t.isReal) := by
  obtain ⟨b, rfl⟩ := isBasic_of_isNumeric hl
  obtain ⟨c, rfl⟩ := isBasic_of_isNumeric hr
  unfold commonType? at h
  split at h
  · next hsame =>
    cases h
    have hbc : b = c ∨ b = c ∧ b ≠ .string := by simpa [sameType, sameName] using hsame
    obtain rfl := hbc.elim id And.left
    exact ⟨hl, fun h => h.elim id id⟩
  · rw [if_pos (by rw [hl, hr]; rfl)] at h
    split at h
    · next hreal =>
      cases h
      split
      · next hb => exact ⟨hl, fun _ => hb⟩
      · next hb =>
        refine ⟨hr, fun h => h.resolve_left hb⟩
    · next hreal =>
      cases h
      have hreal : (basic b).isReal = (basic c).isReal := by simpa using hreal
      split
      · exact ⟨hr, fun h => h.elim (fun h => hreal ▸ h) id⟩
      · exact ⟨hl, fun h => h.elim id fun h => hreal ▸ h⟩

/-! ## Folding -/

namespace Constant

lemma checked_type (h : checked span n = .ok (value, type)) : ∃ b, type = .basic b := by
  unfold checked at h
  split at h
  · cases h
    exact isBasic_ofInteger n
  · cases h

lemma unary_type {op : UnaryOp} (h : unary span op v common = .ok (value, type)) : type = common ∨
    ∃ b, type = .basic b := by
  unfold unary at h
  split at h
  · cases h; exact .inr ⟨_, rfl⟩
  · cases h; exact .inl rfl
  · exact .inr (checked_type h)
  · cases h; exact .inl rfl
  · cases h; exact .inl rfl
  · cases h; exact .inr ⟨_, rfl⟩
  · cases h

lemma relation_type (h : relation op eq lt le gt ge = .ok (value, type)) : ∃ b, type =
    .basic b := by
  unfold relation at h
  split at h <;> cases h <;> exact ⟨_, rfl⟩

lemma booleans_type {l r : Bool} (h : booleans op l r = .ok (value, type)) : ∃ b, type =
    .basic b := by
  unfold booleans at h
  split at h <;> cases h <;> exact ⟨_, rfl⟩

lemma strings_type {l r : String} (h : strings op l r = .ok (value, type)) : ∃ b, type =
    .basic b := by
  unfold strings at h
  split at h <;> cases h <;> exact ⟨_, rfl⟩

lemma sets_type {l r : BitVec 32} (h : sets op l r = .ok (value, type)) : ∃ b, type =
    .basic b := by
  unfold sets at h
  split at h <;> cases h <;> exact ⟨_, rfl⟩

lemma integers_type {l r : Int} (h : integers span op l r common = .ok (value, type)) : type =
    common ∨ ∃ b, type = .basic b := by
  have hdiv {n failure failure'}
      (h : (if r = 0 then .error failure else if r < 0 then .error failure' else
        .ok (.integer n, common) : Result (Literal × Ty)) = .ok (value, type)) : type = common := by
    split at h
    · cases h
    · split at h
      · cases h
      · cases h; rfl
  unfold integers at h
  split at h
  iterate 3
    · exact .inr (checked_type h)
  · exact .inl (hdiv h)
  · exact .inl (hdiv h)
  · split at h
    · cases h
    · split at h
      · cases h; exact .inl rfl
      · cases h; exact .inr ⟨_, rfl⟩
  · exact .inr (relation_type h)

lemma reals_type {l r : Float} (h : reals op l r common = .ok (value, type)) : type = common ∨
    ∃ b, type = .basic b := by
  unfold reals at h
  split at h
  iterate 4
    · cases h; exact .inl rfl
  · exact .inr (relation_type h)

lemma binary_type {l r : Literal} (h : binary span op l r common = .ok (value, type)) : type =
    common ∨ ∃ b, type = .basic b := by
  unfold binary at h
  split at h
  · exact .inr (booleans_type h)
  · exact integers_type h
  iterate 3
    · exact reals_type h
  · exact .inr (relation_type h)
  iterate 3
    · exact .inr (strings_type h)
  · split at h <;> cases h <;> exact .inr ⟨_, rfl⟩
  · exact .inr (sets_type h)
  · split at h
    · split at h
      · cases h
      · cases h; exact .inr ⟨_, rfl⟩
    · cases h
  · cases h

/-- Dividing by one leaves the dividend. -/
lemma divisor_eq (h : divisor op left right span = .ok (some r)) : r = .lhs ∧ left = none ∧
    op.isRelation = false := by
  have hone {d : Int} {failure : Reduction} (h : (if (decide (d = 1) && left.isNone) = true then
      .ok (some failure) else .ok none : Result (Option Reduction)) = .ok (some r)) :
      r = failure ∧ left = none := by
    split at h
    · next hd =>
      cases h
      rw [Bool.and_eq_true, Option.isNone_iff_eq_none] at hd
      exact ⟨rfl, hd.2⟩
    · cases h
  unfold divisor at h
  split at h
  · split at h
    · cases h
    · split at h
      · cases h
      · exact ⟨(hone h).1, (hone h).2, rfl⟩
  · split at h
    · cases h
    · split at h <;> cases h
  · split at h
    · cases h
    · exact ⟨(hone h).1, (hone h).2, rfl⟩
  · split at h <;> cases h
  · cases h

lemma isSome_of_isInteger (h : isInteger v n) : v.isSome := by
  cases v with
  | none => cases h
  | some v => rfl

lemma isSome_of_isBoolean (h : isBoolean v b) : v.isSome := by
  cases v with
  | none => cases h
  | some v => rfl

/-- An operand that is kept stands beside a literal. -/
lemma identity_eq (h : identity op left right = .ok r) : op.isRelation = false ∧
    ((r = .lhs ∧ right.isSome) ∨ ((r = .rhs ∨ r = .negatedRhs) ∧ left.isSome) ∨ r =
     .literal (.integer 0) .shortint) := by
  unfold identity at h
  split at h
  · refine ⟨rfl, ?_⟩
    split at h
    · next hl => cases h; exact .inr (.inl ⟨.inl rfl, isSome_of_isInteger hl⟩)
    · split at h
      · next hr => cases h; exact .inl ⟨rfl, isSome_of_isInteger hr⟩
      · cases h
  · refine ⟨rfl, ?_⟩
    split at h
    · next hr => cases h; exact .inl ⟨rfl, isSome_of_isInteger hr⟩
    · split at h
      · next hl => cases h; exact .inr (.inl ⟨.inr rfl, isSome_of_isInteger hl⟩)
      · cases h
  · refine ⟨rfl, ?_⟩
    split at h
    · cases h; exact .inr (.inr rfl)
    · split at h
      · next hl => cases h; exact .inr (.inl ⟨.inl rfl, isSome_of_isInteger hl⟩)
      · split at h
        · next hr => cases h; exact .inl ⟨rfl, isSome_of_isInteger hr⟩
        · cases h
  iterate 2
    · refine ⟨rfl, ?_⟩
      split at h
      · next hl => cases h; exact .inr (.inl ⟨.inl rfl, isSome_of_isBoolean hl⟩)
      · split at h
        · next hr => cases h; exact .inl ⟨rfl, isSome_of_isBoolean hr⟩
        · cases h
  · cases h

/-- What an operator over two operands is reduced to. Literals are computed with; otherwise one of
the operands may be kept, if it is no literal. -/
lemma reduce_eq (h : reduce span op x y common = .ok r) :
    (∃ value type, r = .literal value type ∧ (type = common ∨ ∃ b, type = .basic b)) ∨
    (op.isRelation = false ∧ ((r = .lhs ∧ x.isLiteral = false) ∨ ((r = .rhs ∨ r = .negatedRhs) ∧
     y.isLiteral = false))) := by
  unfold reduce at h
  split at h
  · cases h
  · next r' hr =>
    cases h
    obtain ⟨rfl, hl, hop⟩ := divisor_eq hr
    exact .inr ⟨hop, .inl ⟨rfl, by simp [Expr.isLiteral, hl]⟩⟩
  · split at h
    · split at h
      · cases h
      · next heq =>
        cases h
        exact .inl ⟨_, _, rfl, binary_type heq⟩
    · next hboth =>
      obtain ⟨hop, ⟨rfl, hr⟩ | ⟨hkept, hl⟩ | rfl⟩ := identity_eq h
      · obtain ⟨r, hr⟩ := Option.isSome_iff_exists.1 hr
        refine .inr ⟨hop, .inl ⟨rfl, ?_⟩⟩
        cases hx : x.literal? with
        | none => simp [Expr.isLiteral, hx]
        | some l => exact (hboth l r hx hr).elim
      · obtain ⟨l, hl⟩ := Option.isSome_iff_exists.1 hl
        refine .inr ⟨hop, .inr ⟨hkept, ?_⟩⟩
        cases hy : y.literal? with
        | none => simp [Expr.isLiteral, hy]
        | some r => exact (hboth l r hl hy).elim
      · exact .inl ⟨_, _, rfl, .inr ⟨_, rfl⟩⟩

end Constant

namespace Analyze

/-! ## Unary operators -/

/-- What a unary operator yields. -/
inductive Applied (span : Span) (op : UnaryOp) (x : Expr) : Expr → Prop
  | literal {value : Literal} {type : Ty} (h : Constant.reduceUnary op x = .ok (value, type)) :
      Applied span op x (.literal value { type, span })
  | unary (h : (unaryOperand op x.type).1 = true ∨ x.type = .undefined) :
      Applied span op x (.unary op x { type := x.type, span })

lemma unary_ensures (span op x) : (unary span op (some x)).Ensures a fun v _ => ∃ e, v = some e ∧
    Applied span op x e := by
  refine .otherwise fun hvalid => ?_
  have hvalid : (unaryOperand op x.type).1 ∨ x.type = .undefined := by
    rw [Bool.and_eq_true, not_and_or] at hvalid
    exact hvalid.imp (fun h => by simpa [unaryOperand] using h) (by simp)
  refine .bind_of_appends (fun _ => by split <;> infer_instance) .evaluate fun v _ hv => ?_
  split
  · exact .pure fun _ => ⟨_, rfl, .literal (hv.2 _ rfl)⟩
  · exact .pure fun _ => ⟨_, rfl, .unary hvalid⟩

/-- A literal stays of its type or gets a basic one. -/
lemma reduceUnary_type {op : UnaryOp} (h : Constant.reduceUnary op x = .ok (value, type)) :
    x.isLiteral ∧ (type = x.type ∨ ∃ b, type = .basic b) := by
  unfold Constant.reduceUnary at h
  split at h
  · next v hl => exact ⟨by simp [Expr.isLiteral, hl], Constant.unary_type h⟩
  · cases h

/-! ## Binary operators -/

/-- The typing of an operator other than `IS`. -/
inductive Operates (s : Store) (op : BinaryOp) (x y : Expr) : Typing → Prop
  | relation {common : Option Ty} (hop : op.isRelation = true)
      (hc : ∀ t, common = some t → s.commonType? x.type y.type = some t) :
      Operates s op x y ⟨.boolean, common⟩
  | strings (hx : x.isLiteral = true) (hy : y.isLiteral = true) :
      Operates s op x y ⟨.string, some .string⟩
  | numbers {t t' : Ty} (hx : x.type.isNumeric = true) (hy : y.type.isNumeric = true)
      (ht : s.commonType? x.type y.type = some t)
      (ht' : t' = if op == .divide && t.isEntire then .real else t) :
      Operates s op x y ⟨t', some t'⟩
  | sets (hx : x.type = .set) (hy : y.type = .set) : Operates s op x y ⟨.set, some .set⟩
  | booleans (hx : x.type = .boolean) (hy : y.type = .boolean) :
      Operates s op x y ⟨.boolean, some .boolean⟩

/-- Operands may be compared as they are. -/
lemma Operates.unconverted (hop : op.isRelation) (x y) : Operates s op x y ⟨.boolean, none⟩ :=
  .relation hop (by simp)

/-- Results have basic types. -/
lemma Operates.isBasic (h : Operates s op x y typing) : ∃ b, typing.result = .basic b := by
  cases h with
  | numbers hx hy ht ht' =>
    subst ht'
    split
    · exact ⟨_, rfl⟩
    · exact isBasic_of_isNumeric (commonType?_numeric hx hy ht).1
  | _ => exact ⟨_, rfl⟩

lemma commonType_ensures (span l r) :
    (commonType span l r).Ensures a fun t _ => a.store.commonType? l r = some t := by
  refine .getStore ?_
  split
  · next t ht => exact .pure fun _ => ht
  · exact .reported

/-- What an action that types an operator ensures. -/
abbrev Types (a : Analysis) (op : BinaryOp) (x y : Expr) (v : Option Typing) : Prop :=
  ∃ typing, v = some typing ∧ Operates a.store op x y typing

section Relations

variable {op : BinaryOp} (hop : op.isRelation = true)
include hop

lemma converted_ensures (span x y) :
    (converted span x y).Ensures a fun v _ => Types a op x y v := by
  refine .bind (commonType_ensures span _ _) fun t _ ht => .pure fun _ => ⟨_, rfl, .relation hop ?_⟩
  rintro _ ⟨⟩
  exact ht

lemma compareLiteral_ensures (length literal x y) :
    (compareLiteral length literal).Ensures a fun v _ => Types a op x y v := by
  have hbool : Types a op x y (some ⟨.boolean, none⟩) := ⟨_, rfl, .unconverted hop _ _⟩
  unfold compareLiteral
  split
  · exact .optional fun _ _ => .pure fun _ => hbool
  · exact .pure fun _ => hbool

lemma compareScalars_ensures (span x y) :
    (compareScalars span op x y).Ensures a fun v _ => Types a op x y v := by
  refine .getStore ?_
  dsimp only
  refine .ite (fun _ => converted_ensures hop span x y) fun _ => ?_
  refine .ite (fun _ => .pure fun _ => ⟨_, rfl, .unconverted hop _ _⟩) fun _ => ?_
  exact .provided fun _ => converted_ensures hop span x y

lemma relation_ensures (span x y) :
    (relation span op x y).Ensures a fun v _ => Types a op x y v := by
  refine .getStore ?_
  split
  · exact .pure fun _ => ⟨_, rfl, .unconverted hop _ _⟩
  iterate 2
    · exact .provided fun _ => compareLiteral_ensures hop _ _ _ _
  · refine .ite (fun _ => converted_ensures hop span x y) fun _ => ?_
    exact .otherwise fun _ => compareScalars_ensures hop span x y

end Relations

/-- Text is joined to text. -/
lemma commonType?_string {s : Store} {l r t : Ty} (h : l = .string ∨ r = .string)
    (ht : s.commonType? l r = some t) : t = .string := by
  have hform : s.form? .string = none := rfl
  unfold commonType? at ht
  split at ht
  · next hsame =>
    cases ht
    rcases h with h | rfl
    · exact h
    · cases l with
      | basic b => simpa [sameType, sameName] using hsame
      | _ => simp [sameType, sameName, naming?, entry?] at hsame
  · simp only [isPointer, isRecord, pointer?, record?] at ht
    rcases h with rfl | rfl
    iterate 2
      · simp [hform, isNumeric, isEntire, isInteger, isByte, isReal, isString,
          isChar] at ht
        grind

/-- `+`, `-`, `*` and `/` -/
lemma arithmetic_ensures (span op) (x y : Expr) :
    Ensures (if op == .add && (x.type.isString || y.type.isString) then
      if x.isLiteral && y.isLiteral then do
        return arithmetic (← commonType span x.type y.type)
      else do
        report x.span (.expression .concatenation)
        return none
    else if (x.type.isNumeric && y.type.isNumeric) || (x.type.isSet && y.type.isSet) then do
      let common ← commonType span x.type y.type
      return arithmetic (if op == .divide && common.isEntire then .real else common)
    else do
      report x.span (.expression .arithmetic)
      return none : Analyze (Option Typing)) a fun v _ => Types a op x y v := by
  refine .ite (fun hs => ?_) fun _ => ?_
  · refine .provided fun hl => ?_
    refine .bind (commonType_ensures span _ _) fun t _ ht => .pure fun _ => ?_
    simp only [Bool.and_eq_true, Bool.or_eq_true] at hs hl
    simp only [isString, beq_iff_eq] at hs
    obtain rfl := commonType?_string hs.2 ht
    exact ⟨_, rfl, .strings hl.1 hl.2⟩
  · refine .provided fun hk => ?_
    refine .bind (commonType_ensures span _ _) fun t _ ht => .pure fun _ => ⟨_, rfl, ?_⟩
    simp only [Bool.and_eq_true, Bool.or_eq_true] at hk
    rcases hk with ⟨hx, hy⟩ | ⟨hx, hy⟩
    · exact .numbers hx hy ht rfl
    · have hx : x.type = .set := beq_iff_eq.1 hx
      have hy : y.type = .set := beq_iff_eq.1 hy
      obtain rfl : t = .set := by simpa [commonType?, sameType, hx, hy] using ht.symm
      have hset : (if (op == .divide && Ty.isEntire .set) = true then .real else .set) = Ty.set := by
        simp [isEntire, isInteger, isByte]
      rw [hset]
      exact .sets hx hy

/-- `DIV` and `MOD` -/
lemma division_ensures (span) (hop : op ≠ .divide) (x y : Expr) :
    Ensures (if x.type.isEntire && y.type.isEntire then do
        return arithmetic (← commonType span x.type y.type)
      else do
        report span (.expression .integerDivision)
        return none : Analyze (Option Typing)) a fun v _ => Types a op x y v := by
  refine .provided fun hk => ?_
  refine .bind (commonType_ensures span _ _) fun t _ ht => .pure fun _ => ⟨_, rfl, ?_⟩
  rw [Bool.and_eq_true] at hk
  exact .numbers (isNumeric_of_isEntire hk.1) (isNumeric_of_isEntire hk.2) ht (by simp [hop])

lemma logical_ensures (span) (op : BinaryOp) (x y : Expr) :
    Ensures (if x.type.isBoolean && y.type.isBoolean then return arithmetic .boolean
      else do
        report span (.expression (.booleanExpected op.text))
        return none : Analyze (Option Typing)) a fun v _ => Types a op x y v := by
  refine .provided fun hk => .pure fun _ => ⟨_, rfl, ?_⟩
  rw [Bool.and_eq_true] at hk
  exact .booleans (beq_iff_eq.1 hk.1) (beq_iff_eq.1 hk.2)

lemma operator_ensures (span op x y) :
    (operator span op x y).Ensures a fun v _ => Types a op x y v := by
  unfold operator
  dsimp only
  split
  iterate 6
    · exact relation_ensures rfl span x y
  · exact .pure fun _ => ⟨_, rfl, .unconverted rfl _ _⟩
  · exact .bind (.quiet _) fun _ _ _ => .bind (.quiet _) fun _ _ _ =>
      .pure fun _ => ⟨_, rfl, .unconverted rfl _ _⟩
  iterate 4
    · exact arithmetic_ensures span _ x y
  · exact division_ensures span (by simp) x y
  · exact division_ensures span (by simp) x y
  · exact logical_ensures span _ x y
  · exact logical_ensures span _ x y

/-- What a binary operator yields. -/
inductive Combines (s : Store) (span : Span) (op : BinaryOp) (x y : Expr) : Expr → Prop
  | undefined (h : x.type = .undefined ∨ y.type = .undefined) :
      Combines s span op x y (.binary op x y { type := .undefined, span })
  | test (hop : op = .typeTest) (hx : x.type ≠ .undefined) (hy : y.type = .typeName) :
      Combines s span op x y (.binary op x y { type := .boolean, span })
  | literal {typing : Typing} {value : Literal} {type : Ty} (ht : Operates s op x y typing)
      (hr : Constant.reduce span op x y typing.result = .ok (.literal value type)) :
      Combines s span op x y (foldedLiteral span value type typing.result)
  | lhs {typing : Typing} (ht : Operates s op x y typing) (hop : op.isRelation = false)
      (hx : x.isLiteral = false) : Combines s span op x y (convertTo s typing.common x)
  | rhs {typing : Typing} (ht : Operates s op x y typing) (hop : op.isRelation = false)
      (hy : y.isLiteral = false) : Combines s span op x y (convertTo s typing.common y)
  | negated {typing : Typing} (hy : y.type ≠ .undefined) (ht : Operates s op x y typing) :
      Combines s span op x y
        (.unary .neg (convertTo s typing.common y) { type := typing.result, span })
  | binary {typing : Typing} (hx : x.type ≠ .undefined) (hy : y.type ≠ .undefined)
      (ht : Operates s op x y typing) : Combines s span op x y
        (.binary op (convertTo s typing.common x) (convertTo s typing.common y)
          { type := typing.result, span })

lemma adapts_convertTo (s t) (e : Expr) : e.Adapts (convertTo s t e) := by
  cases t with
  | none => exact .refl e
  | some t => exact s.adapts_convert e t

lemma foldedLiteral_eq (span value type result) :
    ∃ v t, foldedLiteral span value type result = .literal v { type := t, span } ∧
      (t = type ∨ t = result) := by
  unfold foldedLiteral
  split
  · exact ⟨_, _, rfl, .inr rfl⟩
  · exact ⟨_, _, rfl, .inl rfl⟩

/-- What is folded has a basic type. -/
lemma Operates.foldedLiteral_eq (ht : Operates s op x y typing)
    (hr : Constant.reduce span op x y typing.result = .ok (.literal value type)) : ∃ v b,
    foldedLiteral span value type typing.result = .literal v { type := .basic b, span } := by
  obtain ⟨b, hb⟩ := ht.isBasic
  obtain ⟨v, t, hv, ht⟩ := Analyze.foldedLiteral_eq span value type typing.result
  obtain ⟨_, _, hl, htype⟩ | ⟨_, ⟨hl, _⟩ | ⟨hl | hl, _⟩⟩ := Constant.reduce_eq hr <;> cases hl
  obtain ⟨c, rfl⟩ : ∃ c, t = .basic c := by
    rcases ht with rfl | rfl
    · exact htype.elim (fun h => ⟨b, h.trans hb⟩) id
    · exact ⟨b, hb⟩
  exact ⟨v, c, hv⟩

lemma reduce_ensures (span op) (hx : x.type ≠ .undefined) (hy : y.type ≠ .undefined)
    (ht : Operates a.store op x y typing) :
    (reduce span op x y typing).Ensures a fun e _ => Combines a.store span op x y e := by
  refine .getStore ?_
  refine .bind_of_appends (fun _ => by split <;> infer_instance) .evaluate fun v _ hv => ?_
  split
  · exact .bind (.quiet _) fun _ _ _ => .pure fun _ => .literal ht (hv.2 _ rfl)
  · refine .pure fun _ => ?_
    obtain ⟨_, _, h, _⟩ | ⟨hop, ⟨_, hx⟩ | ⟨h | h, _⟩⟩ := Constant.reduce_eq (hv.2 _ rfl)
    · cases h
    · exact .lhs ht hop hx
    · cases h
    · cases h
  · refine .pure fun _ => ?_
    obtain ⟨_, _, h, _⟩ | ⟨hop, ⟨h, _⟩ | ⟨_, hy⟩⟩ := Constant.reduce_eq (hv.2 _ rfl)
    · cases h
    · cases h
    · exact .rhs ht hop hy
  · exact .pure fun _ => .negated hy ht
  · exact .pure fun _ => .binary hx hy ht

lemma typeTest_ensures (span x y) : (typeTest span x y).Ensures a fun _ _ => y.type =
    .typeName := by
  refine .getStore ?_
  split
  · refine .ite (fun _ => .report _ _) fun hy => ?_
    exact fun _ => by simpa using hy
  · exact .report _ _

lemma binary_ensures (span op x y) : (binary span op (some x) (some y)).Ensures a fun v _ => ∃ e,
    v = some e ∧ Combines a.store span op x y e := by
  refine .ite (fun hu => .pure fun _ => ⟨_, rfl, .undefined (by simpa using hu)⟩) fun hu => ?_
  simp only [Bool.or_eq_true, beq_iff_eq, not_or] at hu
  refine .ite (fun hop => ?_) fun _ => .getStore ?_
  · refine .bind (typeTest_ensures span x y) fun _ _ hy => .pure fun _ => ⟨_, rfl, ?_⟩
    exact .test (beq_iff_eq.1 hop) hu.1 hy
  dsimp only
  refine .optional_of_appends (.andThen fun _ => ?_) fun b hb => .bind_of_appends (fun _ => ?_)
    (operator_ensures span op x y).silently fun v c hv => ?_
  iterate 2
    · split <;> infer_instance
  obtain ⟨hc, typing, rfl, ht⟩ := hv
  dsimp only
  rw [hb.store, ← (hb.trans hc).store] at ht
  rw [← (hb.trans hc).store]
  refine .ite (fun hr => ?_) fun _ => ?_
  · obtain ⟨t, hb⟩ := ht.isBasic
    rw [hb] at hr
    cases hr
  · exact .bind (reduce_ensures span op hu.1 hu.2 ht) fun e _ h => .pure fun _ => ⟨e, rfl, h⟩

/-! ## Ranges and sets -/

/-- Types of bounds. -/
def IsBound (t : Ty) : Prop := t.isEntire = true ∨ t.isChar = true

/-- What a range yields: one of the bounds may be converted to the type of the other. -/
inductive Ranges (s : Store) (span : Span) (x y : Expr) : Expr → Prop
  | mk {x' y' : Expr} {t : Ty} (hx : IsBound x.type) (hy : IsBound y.type) (hx' : x.Adapts x')
      (hy' : y.Adapts y') (ht : t = x.type ∨ t = y.type) :
      Ranges s span x y (.range x' y' { type := t, span })

lemma range_ensures (span x y) : (range span (some x) (some y)).Ensures a fun v _ => ∃ e, v =
    some e ∧ Ranges a.store span x y e := by
  refine .getStore (.bind (.reportIf _ _ _) fun _ _ hx => .bind (.reportIf _ _ _) fun _ _ hy => ?_)
  have hx : IsBound x.type := by
    unfold IsBound
    cases h : x.type.isEntire <;> simp_all
  have hy : IsBound y.type := by
    unfold IsBound
    cases h : y.type.isEntire <;> simp_all
  refine .bind (.quiet _) fun _ _ _ => .ite (fun _ => .pure fun _ => ?_) fun _ => ?_
  · exact ⟨_, rfl, hx, hy, .refl x, adapts_convert .., .inl rfl⟩
  · refine .ite (fun _ => .pure fun _ => ?_) fun _ => .pure fun _ => ?_
    · exact ⟨_, rfl, hx, hy, adapts_convert .., .refl y, .inr rfl⟩
    · exact ⟨_, rfl, hx, hy, .refl x, .refl y, .inl rfl⟩

/-- Elements of sets are integers and ranges of integers. -/
def IsElement (e : Expr) : Prop :=
  e.type.isEntire = true ∨ ∃ lower upper note, e = .range lower upper note ∧
    lower.type.isEntire = true ∧ upper.type.isEntire = true

lemma setElement_ensures (scan e) : (setElement scan e).Ensures a fun _ _ => IsElement e := by
  unfold setElement
  split
  · next lower upper note =>
    refine .otherwise fun hk => ?_
    have hk : lower.type.isEntire ∧ upper.type.isEntire := by
      simpa using hk
    exact fun _ => .inr ⟨lower, upper, note, rfl, hk⟩
  · refine .otherwise fun hk => ?_
    exact fun _ => .inl (by simpa using hk)

lemma setElements_ensures (xs) : ∀ scan a, (setElements scan xs).Ensures a fun _ _ => ∀ x ∈ xs,
    IsElement x := by
  induction xs with
  | nil => exact fun scan a => .pure fun _ => by simp
  | cons x xs ih =>
    intro scan a
    refine .bind (setElement_ensures scan x) fun scan b hx => (ih scan b).mono fun _ _ h => ?_
    exact List.forall_mem_cons.2 ⟨hx, h⟩

/-- What a set constructor yields. -/
inductive Collects (span : Span) (xs : List Expr) : Expr → Prop
  | literal (value : Literal) : Collects span xs (.literal value { type := .set, span })
  | set (hx : ∀ x ∈ xs, IsElement x) : Collects span xs (.set xs { type := .set, span })

lemma setOf_ensures (span xs) : (setOf span xs).Ensures a fun e _ => Collects span xs e := by
  refine .bind_of_appends (fun _ => ?_) (setElements_ensures xs _ _) fun _ _ hx =>
    .ite (fun _ => ?_) fun _ => .pure fun _ => .set hx
  · dsimp only
    split
    · exact .andThen fun _ => by split <;> infer_instance
    · infer_instance
  · refine .bind_of_appends (fun _ => by split <;> infer_instance) (.quiet _) fun _ _ _ => ?_
    split
    · exact .pure fun _ => .literal _
    · exact .pure fun _ => .set hx

end Analyze

open Analyze

/-! ## Expressions -/

/-- How expressions are formed where `a` tells what is declared; selectors are not resolved yet. -/
inductive Elaborates (a : Analysis) : ExprPhrase → Prop
  | literal {lexis : Lexis} {value : Literal} {type : Ty} (span : Span)
      (h : Grammar.literalOf? lexis = some (value, type)) :
      Elaborates a (.expr (.literal value { type, span }))
  | constant {ident : QualIdent} {d : Declaration} {value : Literal} (span : Span)
      (hd : a.lookup ident = some d) (hv : d.constantValue? = some value) :
      Elaborates a (.expr (.literal value { type := d.type, span }))
  | designator {span : Span} {ident : QualIdent} {chain : List Selector} {e : Expr}
      (hc : ∀ s ∈ chain, Elaborates a (.selector s)) (h : Designates a span ident chain e) :
      Elaborates a (.expr e)
  | unary {span : Span} {op : UnaryOp} {x e : Expr} (hx : Elaborates a (.expr x))
      (h : Applied span op x e) : Elaborates a (.expr e)
  | binary {span : Span} {op : BinaryOp} {x y e : Expr} (hx : Elaborates a (.expr x))
      (hy : Elaborates a (.expr y)) (h : Combines a.store span op x y e) : Elaborates a (.expr e)
  | range {span : Span} {x y e : Expr} (hx : Elaborates a (.expr x)) (hy : Elaborates a (.expr y))
      (h : Ranges a.store span x y e) : Elaborates a (.expr e)
  | set {span : Span} (hx : ∀ x ∈ xs, Elaborates a (.expr x))
      (h : Collects span xs e) : Elaborates a (.expr e)
  | field (name : String) (span : Span) : Elaborates a (.selector (.field name none { span }))
  | index {xs : List Expr} (span : Span) (hx : ∀ x ∈ xs, Elaborates a (.expr x)) :
      Elaborates a (.selector (.index xs { span }))
  | deref (span : Span) : Elaborates a (.selector (.deref false { span }))
  | call {xs : List Expr} (span : Span) (hx : ∀ x ∈ xs, Elaborates a (.expr x)) :
      Elaborates a (.selector (.call xs { span }))

lemma ReadsExpr.elaborates (h : ReadsExpr a p) : Elaborates a p := by
  induction h with
  | literal lexis value type span h => exact .literal span h
  | constant span ident chain _ hb h ih =>
    obtain ⟨d, value, hd, hv, he⟩ := h.ensures (constant_ensures span ident chain hb)
    cases he
    exact .constant span hd hv
  | designator span ident chain _ hb h ih =>
    exact .designator ih (h.ensures (designates_of_designator span ident chain hb))
  | unary span op _ hb h ih =>
    obtain ⟨_, he, h⟩ := h.ensures (unary_ensures span op _)
    cases he
    exact .unary ih h
  | binary span op _ _ hb h ihx ihy =>
    obtain ⟨_, he, h⟩ := h.ensures (binary_ensures span op _ _)
    cases he
    exact .binary ihx ihy (hb.store ▸ h)
  | range span _ _ hb h ihx ihy =>
    obtain ⟨_, he, h⟩ := h.ensures (range_ensures span _ _)
    cases he
    exact .range ihx ihy (hb.store ▸ h)
  | set span _ hb h ih => exact .set ih (h.ensures (setOf_ensures span _))
  | field name span => exact .field name span
  | index span _ ih => exact .index span ih
  | deref span => exact .deref span
  | call span _ ih => exact .call span ih

end Oberon
