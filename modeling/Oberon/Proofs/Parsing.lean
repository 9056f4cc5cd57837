import Oberon.Outcome
import Oberon.Proofs.Meets
import Oberon.Proofs.Operators
import Oberon.Proofs.Statements

/-!
# Oberon.Proofs.Parsing

Reading a source without faults follows the rules of `Oberon.Proofs.Reading`, production by
production. Faulty phrases are reported, so in such a run every phrase that has to be there is
there.
-/

namespace Oberon

open List Outcome

namespace Analyze

/-- An import that may yield nothing does so only if it is faulty. -/
lemma importModule_some (span rename ident earlier) :
    (importModule span rename ident earlier).Ensures a fun v _ => ∃ i, v = some i := by
  refine .otherwise fun _ => .get ?_
  refine .otherwise fun _ => ?_
  refine .bind (P := fun _ _ => True) (fun _ => trivial) fun _ _ _ => ?_
  refine .provided fun _ => ?_
  exact .bind (P := fun _ _ => True) (fun _ => trivial) fun _ _ _ => .pure fun _ => ⟨_, rfl⟩

end Analyze

set_option synthInstance.maxSize 2000

namespace Grammar

open Oberon.Parser Analysis

variable {c d : Cursor}

/-! ## Names -/

lemma name?_eq_some (h : name? l = some name) : l = .ident name := by
  unfold name? at h
  split at h
  · cases h; rfl
  · cases h

lemma meets_ident : (@ident n).Meets c fun v d => ∃ i, v = some i ∧ IsWord i.name ∧ c.Calm d := by
  refine .bind_of_proceeds (fun _ => by split <;> infer_instance) .peek fun t d hd => ?_
  split
  · rename_i name hn
    have ht := name?_eq_some hn
    exact .bind .next fun _ e he => .pure fun _ => ⟨_, rfl, hd.1 name ht, hd.2.trans he⟩
  · exact .fails (.reportExpected _ _)

lemma meets_qualify (first) : (@qualify n first).Meets c fun _ d => c.Silent d := by
  refine .withAnalysis (.ite (fun _ => .pure fun _ => .refl _) fun _ => ?_)
  refine .bind_of_proceeds (fun dot => ?_) (.acceptSymbol _) fun v e he => ?_
  · split
    · exact .andThen fun _ => by split <;> infer_instance
    · infer_instance
  refine .ite (fun _ => ?_) fun _ => .pure fun _ => he.silent
  refine .bind_of_proceeds (fun _ => by split <;> infer_instance) meets_ident fun v f hf => ?_
  obtain ⟨i, rfl, -, hf⟩ := hf
  exact .pure fun _ => (he.trans hf).silent

lemma meets_qualident : (@qualident n).Meets c fun v d => (∃ i, v = some i) ∧ c.Silent d := by
  refine .bind_of_proceeds (fun _ => by split <;> infer_instance) meets_ident fun v d hd => ?_
  obtain ⟨i, rfl, -, hd⟩ := hd
  exact .bind (meets_qualify i) fun q e he => .pure fun _ => ⟨⟨q, rfl⟩, hd.silent.trans he⟩

lemma meets_checkIdentifier (ident) :
    (@checkIdentifier n ident).Meets c fun _ d => '_' ∉ ident.name.toList ∧ d = c := by
  refine .ite (fun _ => .report _ _) fun hn => .pure fun _ => ⟨?_, rfl⟩
  rwa [contains_iff_mem] at hn

lemma meets_defining {ident : Ident} (hw : IsWord ident.name) :
    (@defining n ident).Meets c fun v d => IsPlain v.name ∧ c.Silent d := by
  refine .bind (meets_checkIdentifier ident) fun _ d hd => ?_
  obtain ⟨hn, rfl⟩ := hd
  refine .bind (.acceptSymbol _) fun v e he => .ite (fun _ => ?_) fun _ => ?_
  · exact .withSpan fun span => .pure fun _ => ⟨⟨hw, hn⟩, he.silent⟩
  · exact .pure fun _ => ⟨⟨hw, hn⟩, he.silent⟩

lemma meets_identdef : (@identdef n).Meets c fun v d => (∃ i, v = some i ∧ IsPlain i.name) ∧
    c.Silent d := by
  refine .bind_of_proceeds (fun _ => by split <;> infer_instance) meets_ident fun v d hd => ?_
  obtain ⟨i, rfl, hw, hd⟩ := hd
  exact .bind (meets_defining hw) fun q e he =>
    .pure fun _ => ⟨⟨q, rfl, he.1⟩, hd.silent.trans he.2⟩

lemma meets_listGoesOn (unexpected : Token → Parser n Unit) [∀ t, Proceeds (unexpected t)]
    (hu : ∀ t c, (unexpected t).Meets c fun _ _ => False) :
    (listGoesOn unexpected).Meets c fun _ d => c.Silent d := by
  refine .bind_of_proceeds (fun _ => by split <;> infer_instance) .peek fun t d hd => ?_
  split
  · exact .bind .next fun _ e he => .pure fun _ => (hd.2.trans he).silent
  · exact .reported
  · exact .pure fun _ => hd.2.silent
  · exact .fails (hu _ _)

lemma meets_skipToColon (t c) : (@skipToColon n t).Meets c fun _ _ => False :=
  .fails (.reportUnexpected t)

/-- Names that may all be declared. -/
lemma meets_identDefs (hf : IsWord first.name) :
    (@identDefs n first).Meets c fun v d => (∀ i ∈ v, IsPlain i.name) ∧ c.Silent d := by
  refine .bind (meets_defining hf) fun i d hi => ?_
  have hone : ∀ j ∈ [i], IsPlain j.name := forall_mem_singleton.2 hi.1
  refine .bind (meets_listGoesOn _ meets_skipToColon) fun v e he => .ite (fun _ => ?_) fun _ => ?_
  · exact .pure fun _ => ⟨hone, hi.2.trans he⟩
  refine .lift (.loop (fun names f => (∀ i ∈ names, IsPlain i.name) ∧ c.Silent f) _
      (fun _ _ _ => inferInstance)
    (fun name t names f g hs hg hb hword => ?_) (fun t names f g hs hg => .reported)
    ⟨hone, hi.2.trans he⟩)
  refine .bind (meets_defining (hword.word name (name?_eq_some hb))) fun i h hi => ?_
  have hall : ∀ j ∈ names ++ [i], IsPlain j.name :=
    forall_mem_append.2 ⟨hs.1, forall_mem_singleton.2 hi.1⟩
  have hsilent := (hs.2.trans hg).trans hi.2
  refine .bind (meets_listGoesOn _ meets_skipToColon) fun v k hk => .ite (fun _ => ?_) fun _ => ?_
  all_goals exact .pure fun _ => ⟨hall, hsilent.trans hk⟩

/-! ## Expressions -/

/-- The items of a list are all read as a single one is. -/
lemma meets_commaSeparated {α : Type} {item : Parser n α} [Proceeds item] {R : Cursor → α → Prop}
    (hi : ∀ c, item.Meets c fun v d => R c v ∧ c.Silent d)
    (hR : ∀ {c d : Cursor} {v}, c.Silent d → R d v → R c v) :
    (commaSeparated item).Meets c fun vs d => (∀ v ∈ vs, R c v) ∧ c.Silent d := by
  refine .bind (hi c) fun first d hd => .lift ?_
  refine .loopWhile (fun vs d => (∀ v ∈ vs, R c v) ∧ c.Silent d) _
    (fun t vs e f he hf => ?_) (fun vs e f he hf _ => ⟨he.1, he.2.trans hf⟩) ?_
  · have hs := he.2.trans hf
    refine .bind (hi f) fun v g hg => .pure fun _ => ⟨forall_mem_append.2 ⟨he.1, ?_⟩, hs.trans hg.2⟩
    exact forall_mem_singleton.2 (hR hs hg.1)
  · exact ⟨forall_mem_singleton.2 hd.1, hd.2⟩

/-- An expression has been read from `c` to `d`. -/
def IsExpr (c : Cursor) (v : Option Expr) (d : Cursor) : Prop :=
  ∃ e, v = some e ∧ ReadsExpr c.analysis (.expr e) ∧ c.analysis.Silent d.analysis

lemma IsExpr.of_silent (hs : c.Silent d) (h : IsExpr d v e) : IsExpr c v e := by
  obtain ⟨x, hv, hr, ht⟩ := h
  exact ⟨x, hv, hr.of_silent hs, hs.trans ht⟩

lemma meets_exprs [Proceeds item] (hi : ∀ c, item.Meets c (IsExpr c)) :
    (commaSeparated item).Meets c fun vs d => (∃ es : List Expr, vs = es.map some ∧ ∀ e ∈ es,
     ReadsExpr c.analysis (.expr e)) ∧ c.Silent d := by
  have hone : ∀ c, item.Meets c fun v d =>
      (∃ e, v = some e ∧ ReadsExpr c.analysis (.expr e)) ∧ c.Silent d :=
    fun c => (hi c).mono fun v d h => by
      obtain ⟨e, hv, hr, hs⟩ := h
      exact ⟨⟨e, hv, hr⟩, hs⟩
  refine (meets_commaSeparated hone fun hs h => ?_).mono ?_
  · obtain ⟨e, hv, hr⟩ := h
    exact ⟨e, hv, hr.of_silent hs⟩
  rintro vs d ⟨hvs, hs⟩
  refine ⟨?_, hs⟩
  clear hs
  induction vs with
  | nil => exact ⟨[], rfl, forall_mem_nil _⟩
  | cons v vs ih =>
    rw [forall_mem_cons] at hvs
    obtain ⟨⟨e, rfl, hr⟩, hvs⟩ := hvs
    obtain ⟨es, rfl, hes⟩ := ih hvs
    exact ⟨e :: es, rfl, forall_mem_cons.2 ⟨hr, hes⟩⟩

section

variable {expression : Parser n (Option Expr)} [Proceeds expression]
  (he : ∀ c, expression.Meets c (IsExpr c))
include he

lemma meets_expressionList :
    (expressionList expression).Meets c fun es d => (∀ e ∈ es, ReadsExpr c.analysis (.expr e)) ∧
    c.Silent d := by
  refine .bind (meets_exprs he) fun vs d hd => .pure fun _ => ?_
  obtain ⟨⟨es, rfl, hes⟩, hs⟩ := hd
  simpa using ⟨hes, hs⟩

lemma meets_selector (start t) : (selector expression start t).Meets c fun v d => ∃ s, v =
    some s ∧ ReadsExpr c.analysis (.selector s) ∧ c.Silent d := by
  unfold selector
  cases start with
  | field =>
    refine .bind_of_proceeds (fun _ => by split <;> infer_instance) meets_ident fun v d hd => ?_
    obtain ⟨i, rfl, -, hd⟩ := hd
    exact .pure fun _ => ⟨_, rfl, .field _ _, hd.silent⟩
  | index =>
    refine .bind (meets_expressionList he) fun es d hd => ?_
    refine .otherwise fun _ => ?_
    refine .bind (.symbol _) fun _ e hsym => .withSpan fun span => ?_
    exact .pure fun _ => ⟨_, rfl, .index _ hd.1, hd.2.trans hsym.2.silent⟩
  | deref => exact .pure fun _ => ⟨_, rfl, .deref _, .refl _⟩
  | call =>
    refine .bind (.check _) fun v d hd => ?_
    have hargs : ∀ {es : List Expr} {f : Cursor},
        (∀ e ∈ es, ReadsExpr d.analysis (.expr e)) ∧ d.Silent f →
        (do
          let _ ← symbol .rightParen
          return some (Selector.call es { span := ← spanFrom t.span }) :
            Parser n (Option Selector)).Meets f fun v g =>
          ∃ s, v = some s ∧ ReadsExpr c.analysis (.selector s) ∧ c.Silent g := by
      intro es f hf
      refine .bind (.symbol _) fun _ g hsym => .withSpan fun span => ?_
      exact .pure fun _ => ⟨_, rfl, .call _ fun e h => (hf.1 e h).of_silent hd.silent,
        (hd.silent.trans hf.2).trans hsym.2.silent⟩
    refine .ite (fun _ => ?_) fun _ => ?_
    · exact .pureThen (hargs ⟨forall_mem_nil _, .refl _⟩)
    · exact .bind (meets_expressionList he) fun es f hf => hargs hf

lemma meets_selectors :
    (selectors expression).Meets c fun ss d => (∀ s ∈ ss, ReadsExpr c.analysis (.selector s)) ∧
    c.Silent d := by
  unfold selectors
  refine .loop (fun ss d => (∀ s ∈ ss, ReadsExpr c.analysis (.selector s)) ∧
      c.Silent d) _ (fun _ _ _ => .andThen fun _ => by split <;> infer_instance)
    (fun start t ss d e hd hde _ _ => ?_)
    (fun t ss d e hd hde => .pure fun _ => ⟨hd.1, hd.2.trans hde⟩)
    ⟨forall_mem_nil _, .refl _⟩
  refine .bind_of_proceeds (fun _ => by split <;> infer_instance) (meets_selector he start t)
    fun v f hf => ?_
  obtain ⟨s, rfl, hr, hs⟩ := hf
  have hde := hd.2.trans hde
  exact .pure fun _ =>
    ⟨forall_mem_append.2 ⟨hd.1, forall_mem_singleton.2 (hr.of_silent hde)⟩, hde.trans hs⟩

lemma meets_designator (first) :
    (designator expression first).Meets c fun v d => (∀ s ∈ v.2,
     ReadsExpr c.analysis (.selector s)) ∧ c.Silent d := by
  refine .bind (meets_qualify first) fun ident d hd => ?_
  refine .bind (.lift (meets_selectors he)) fun ss e hss => .pure fun _ => ?_
  exact ⟨fun s hs => (hss.1 s hs).of_silent hd, hd.trans hss.2⟩

lemma meets_designatorFactor (first) :
    (designatorFactor expression first).Meets c (IsExpr c) := by
  refine .bind (meets_designator he first) fun v d hd => ?_
  refine .withSpan fun span => .withAnalysis ?_
  refine .ite (fun _ => ?_) fun _ => ?_
  · refine (Unless.action _).mono fun x g hg => ?_
    obtain ⟨_, _, _, _, rfl⟩ := hg.ensures (Analyze.constant_ensures _ _ _ (.refl _))
    exact ⟨_, rfl, .constant span v.1 v.2 hd.1 hd.2 hg, hd.2.trans hg.silent⟩
  · refine .bind (.action _) fun x g hg => .pure fun _ => ?_
    exact ⟨x, rfl, .designator span v.1 v.2 hd.1 hd.2 hg, hd.2.trans hg.silent⟩

lemma meets_rangeExpression : (rangeExpression expression).Meets c (IsExpr c) := by
  refine .bind .peek fun t d hd => .bind (he d) fun v f hf => ?_
  obtain ⟨x, rfl, hx, hxs⟩ := hf
  have hx := hx.of_silent hd.2.silent
  have hf := hd.2.silent.trans hxs
  refine .bind (.acceptSymbol _) fun v g hg => .ite (fun _ => ?_) fun _ => ?_
  · refine .bind (he g) fun v k hk => ?_
    obtain ⟨y, rfl, hy, hys⟩ := hk
    have hg' := hf.trans hg.silent
    refine .withSpan fun span => ?_
    refine (Unless.action _).mono fun w m hm => ?_
    obtain ⟨e, rfl, -⟩ := hm.ensures (Analyze.range_ensures _ _ _)
    have hk := hg'.trans hys
    exact ⟨e, rfl, .range span hx (hy.of_silent hg') hk hm, hk.trans hm.silent⟩
  · exact .pure fun _ => ⟨x, rfl, hx, hf.trans hg.silent⟩

lemma meets_rangeExpressionList :
    (rangeExpressionList expression).Meets c fun es d => (∀ e ∈ es,
     ReadsExpr c.analysis (.expr e)) ∧ c.Silent d := by
  refine .bind (meets_exprs fun _ => meets_rangeExpression he) fun vs d hd => .pure fun _ => ?_
  obtain ⟨⟨es, rfl, hes⟩, hs⟩ := hd
  simpa using ⟨hes, hs⟩

lemma meets_setFactor (opening) :
    (setFactor expression opening).Meets c fun e d => ReadsExpr c.analysis (.expr e) ∧
    c.Silent d := by
  refine .bind (.check _) fun v d hd => ?_
  have hset : ∀ {es : List Expr} {f : Cursor},
      (∀ e ∈ es, ReadsExpr d.analysis (.expr e)) ∧ d.Silent f →
      (do
        let _ ← symbol .rightBrace
        Analyze.setOf (← spanFrom opening) es : Parser n Expr).Meets f fun e g =>
        ReadsExpr c.analysis (.expr e) ∧ c.Silent g := by
    intro es f hf
    refine .bind (.symbol _) fun _ g hsym => .withSpan fun span => ?_
    refine (Unless.action _).mono fun e k hk => ?_
    have hg := (hd.silent.trans hf.2).trans hsym.2.silent
    exact ⟨.set span (fun e h => (hf.1 e h).of_silent hd.silent) hg hk, hg.trans hk.silent⟩
  refine .ite (fun _ => ?_) fun _ => ?_
  · exact .pureThen (hset ⟨forall_mem_nil _, .refl _⟩)
  · exact .bind (meets_rangeExpressionList he) fun es f hf => hset hf

lemma meets_basicFactor : (basicFactor expression).Meets c (IsExpr c) := by
  refine .onToken (fun t p d hp _ hd => ?_) fun t d _ => .fails (.reportUnexpected t)
  unfold basicFactorBehind? at hp
  split at hp
  · cases hp
    exact (meets_designatorFactor he _).mono fun _ _ => .of_silent hd
  · cases hp
    refine .bind (meets_setFactor he _) fun e f hf => .pure fun _ => ?_
    exact .of_silent hd ⟨e, rfl, hf.1, hf.2⟩
  · cases hp
    refine .bind (he d) fun v f hf => .bind (.symbol _) fun _ g hg => .pure fun _ => ?_
    obtain ⟨e, rfl, hr, hs⟩ := hf
    exact .of_silent hd ⟨e, rfl, hr, hs.trans hg.2.silent⟩
  · split at hp
    · rename_i l _ _ _ _ value type hl
      cases hp
      exact .pure fun _ => .of_silent hd ⟨_, rfl, .literal t.lexis value type _ hl, .refl _⟩
    · cases hp

omit he in
lemma meets_signed {op? : Lexis → Option UnaryOp} [Proceeds operand] (ho : ∀ c, operand.Meets c (IsExpr c)) :
    (onToken (fun t => (op? t.lexis).map fun op => do
        let x ← (liftM operand : Parser n (Option Expr))
        Analyze.unary (← spanFrom t.span) op x)
      (fun _ => operand)).Meets c (IsExpr c) := by
  refine .onToken (fun t p d hp _ hd => ?_) fun t d hd => (ho d).mono fun _ _ => .of_silent hd
  obtain ⟨op, -, rfl⟩ := Option.map_eq_some_iff.mp hp
  refine .bind (.lift (ho d)) fun v f hf => .withSpan fun span => ?_
  obtain ⟨x, rfl, hx, hxs⟩ := hf
  refine (Unless.action _).mono fun w k hk => ?_
  obtain ⟨e, rfl, -⟩ := hk.ensures (Analyze.unary_ensures _ _ _)
  have hg := hd.trans hxs
  exact ⟨e, rfl, .unary span op (hx.of_silent hd) hg hk, hg.trans hk.silent⟩

lemma meets_factor : (factor expression).Meets c (IsExpr c) :=
  meets_signed fun _ => meets_basicFactor he

omit he in
lemma meets_leftAssociative {op? : Lexis → Option BinaryOp} {operand : Parser n (Option Expr)}
    [Proceeds operand] (ho : ∀ c, operand.Meets c (IsExpr c)) (start) {first : Option Expr}
    (hf : IsExpr c first d) : (leftAssociative op? operand start first).Meets d (IsExpr c) := by
  refine .loop (IsExpr c) _ (fun _ _ _ => inferInstance) (fun op t lhs f g hf hg _ _ => ?_) (fun t e f g hf hg => ?_) hf
  · obtain ⟨x, rfl, hx, hxs⟩ := hf
    refine .bind (ho g) fun v k hk => .withSpan fun span => ?_
    obtain ⟨y, rfl, hy, hys⟩ := hk
    refine .bind (.action _) fun w m hm => .pure fun _ => ?_
    obtain ⟨e, rfl, -⟩ := hm.ensures (Analyze.binary_ensures _ _ _ _)
    have hg := hxs.trans hg
    have hl := hg.trans hys
    exact ⟨e, rfl, .binary span op hx (hy.of_silent hg) hl hm, hl.trans hm.silent⟩
  · obtain ⟨x, rfl, hx, hxs⟩ := hf
    exact .pure fun _ => ⟨x, rfl, hx, hxs.trans hg⟩

lemma meets_term : (term expression).Meets c (IsExpr c) := by
  refine .bind .peek fun t d hd => .bind (meets_factor he) fun v f hf => ?_
  exact meets_leftAssociative (fun _ => .lift (meets_factor he)) _ (hf.of_silent hd.2.silent)

lemma meets_signedTerm : (signedTerm expression).Meets c (IsExpr c) :=
  meets_signed fun _ => meets_term he

lemma meets_simpleExpression : (simpleExpression expression).Meets c (IsExpr c) := by
  refine .bind .peek fun t d hd => .bind (meets_signedTerm he) fun v f hf => ?_
  exact meets_leftAssociative (fun _ => .lift (meets_term he)) _ (hf.of_silent hd.2.silent)

lemma meets_relation : (relation expression).Meets c (IsExpr c) := by
  have hproc (start lhs) : Proceeds (onToken
      (fun t => (relationOp? t.lexis).map fun op => do
        let rhs ← simpleExpression expression
        Analyze.binary (← spanFrom start) op lhs rhs)
      (fun _ => Pure.pure lhs) : Parser (n + 1) (Option Expr)) :=
    Uniform.onToken (fun _ => .map fun _ => inferInstance) fun _ => inferInstance
  refine .bind .peek fun t d hd => .bind (meets_simpleExpression he) fun v f hf => ?_
  obtain ⟨x, rfl, hx, hxs⟩ := hf.of_silent hd.2.silent
  refine .onToken (fun t p g hp _ hg => ?_) fun t g hg =>
    .pure fun _ => ⟨x, rfl, hx, hxs.trans hg⟩
  obtain ⟨op, -, rfl⟩ := Option.map_eq_some_iff.mp hp
  refine .bind (.lift (meets_simpleExpression he)) fun v k hk => ?_
  obtain ⟨y, rfl, hy, hys⟩ := hk
  refine .withSpan fun span => ?_
  refine (Unless.action _).mono fun w m hm => ?_
  obtain ⟨e, rfl, -⟩ := hm.ensures (Analyze.binary_ensures _ _ _ _)
  have hg := hxs.trans hg
  have hl := hg.trans hys
  exact ⟨e, rfl, .binary span op hx (hy.of_silent hg) hl hm, hl.trans hm.silent⟩

lemma meets_expressionBody : (expressionBody n expression).Meets c (IsExpr c) := by
  refine .bind (meets_relation he) fun v d hd => ?_
  obtain ⟨x, rfl, hx, hxs⟩ := hd
  exact .ite (fun h => by cases h) fun _ => .pure fun _ => ⟨x, rfl, hx, hxs⟩

end

lemma meets_expression : (expression n).Meets c (IsExpr c) :=
  Unless.fix (E := Logs) (fun _ _ _ he _ => meets_expressionBody he)
    (fun _ _ _ _ _ => inferInstance) n c

/-! ## Types -/

/-- A type has been named between `c` and `d`. -/
def IsReference (c : Cursor) (v : Option Ty) (d : Cursor) : Prop :=
  ∃ t ident dimensions b, v = some t ∧ c.analysis.Silent b ∧
    (Analyze.typeReference ident dimensions).Succeeds b t d.analysis

lemma meets_resultType : (@resultType n).Meets c fun v d => ∃ t ident b, v = some t ∧
    c.analysis.Silent b ∧ (Analyze.typeReference ident 0).Succeeds b t d.analysis := by
  refine .bind_of_proceeds (fun _ => by split <;> infer_instance) meets_qualident fun v d hd => ?_
  obtain ⟨⟨q, rfl⟩, hd⟩ := hd
  exact .bind (.action _) fun t e he => .pure fun _ => ⟨t, q, _, rfl, hd, he⟩

lemma meets_openDimensions : (@openDimensions n).Meets c fun _ d => c.Silent d := by
  refine .lift (.loopWhile (fun _ d => c.Silent d) _ (fun t k d e hd he => ?_)
    (fun k d e hd he _ => hd.trans he) (.refl _))
  exact .bind (.keyword _) fun v f hf => .pure fun _ => (hd.trans he).trans hf.2.silent

lemma meets_formalType : (@formalType n).Meets c (IsReference c) := by
  refine .bind_of_proceeds (fun _ => .andThen fun _ => ?_) meets_openDimensions
    fun k d hd => .bind_of_proceeds (fun _ => ?_) .peek fun t e he => ?_
  iterate 2
    · split
      · exact .andThen fun _ => by split <;> infer_instance
      all_goals infer_instance
  split
  · refine .bind_of_proceeds (fun _ => by split <;> infer_instance) meets_qualident fun v f hf => ?_
    obtain ⟨⟨q, rfl⟩, hf⟩ := hf
    refine .bind (.action _) fun t g hg => .pure fun _ => ?_
    exact ⟨t, q, k, _, rfl, (hd.trans he.2.silent).trans hf, hg⟩
  · exact .reported
  · exact .reported
  · exact .fails (.reportExpected _ _)

lemma meets_reportBehindName (t c) : (@reportBehindName n t).Meets c fun _ _ => False :=
  .report _ _

lemma meets_formalNames {names : List Ident} (hn : ∀ i ∈ names, IsWord i.name) (hs : c.Silent d) :
    (@formalNames n names).Meets d fun v e => (∀ i ∈ v, IsWord i.name) ∧ c.Silent e := by
  refine .lift (.loop (fun names e => (∀ i ∈ names, IsWord i.name) ∧ c.Silent e) _
      (fun _ _ _ => inferInstance)
    (fun name t names e f he hf hb hword => ?_) (fun t names e f he hf => .fails (.reportExpected _ _))
    ⟨hn, hs⟩)
  have hall : ∀ i ∈ names ++ [⟨name, t.span⟩], IsWord i.name :=
    forall_mem_append.2 ⟨he.1, forall_mem_singleton.2 (hword.word name (name?_eq_some hb))⟩
  refine .bind (meets_listGoesOn _ meets_reportBehindName) fun v g hg => .ite (fun _ => ?_) fun _ => ?_
  all_goals exact .pure fun _ => ⟨hall, (he.2.trans hf).trans hg⟩

lemma meets_moreFormalNames (hf : IsWord first.name) :
    (@moreFormalNames n first).Meets c fun v d => (∀ i ∈ v, IsWord i.name) ∧ c.Silent d := by
  have hone : ∀ i ∈ [first], IsWord i.name := forall_mem_singleton.2 hf
  refine .bind (meets_listGoesOn _ meets_reportBehindName) fun v d hd => .ite (fun _ => ?_) fun _ => ?_
  · exact meets_formalNames hone hd
  · exact .pure fun _ => ⟨hone, hd⟩

section

lemma meets_formalSection (byReference) (hn : ∀ i ∈ names, IsWord i.name)
    (hp : ReadsParams a list.params c.analysis) :
    (@formalSection n byReference names list).Meets c fun v d => ReadsParams a v.params d.analysis :=
     by
  refine .bind (.symbol _) fun _ d hd => .bind meets_formalType fun v e he => ?_
  obtain ⟨t, ident, k, b, rfl, hb, ht⟩ := he
  refine .bind (.action _) fun ps f hf => .pure fun _ => ?_
  exact .group ident k byReference names (hp.silent (hd.2.silent.trans hb)) ht hn hf

lemma meets_formals {start : FormalStart} {t : Token} (hs : formalStart? t.lexis = some start)
    (hword : ∀ name, t.lexis = .ident name → IsWord name)
    (hp : ReadsParams a list.params c.analysis) :
    (@formals n start t list).Meets c fun v d => ReadsParams a v.params d.analysis := by
  unfold formals
  cases start with
  | variadic =>
    exact .withAnalysis (.otherwise fun _ => .pure fun _ => hp)
  | reference =>
    refine .bind (meets_formalNames (forall_mem_nil _) (.refl _))
      fun names d hd => ?_
    exact meets_formalSection true hd.1 (hp.silent hd.2)
  | value name =>
    have hname : IsWord name := by
      apply hword
      unfold formalStart? at hs
      split at hs <;> simp_all
    exact .bind (meets_moreFormalNames hname) fun names d hd =>
      meets_formalSection false hd.1 (hp.silent hd.2)

lemma meets_behindFormals (hp : ReadsParams a list.params c.analysis) :
    (@behindFormals n list).Meets c (Flow.Holds (fun list d => ReadsParams a list.params d.analysis)
     fun list d => ReadsParams a list.params d.analysis) := by
  refine .bind_of_proceeds (fun _ => by split <;> infer_instance) .peek fun t d hd => ?_
  have hp := hp.silent hd.2.silent
  split
  · exact .pure fun _ => hp
  · refine .bind .next fun _ e he => .otherwise fun _ => ?_
    exact .pure fun _ => hp.silent he.silent
  · exact .bind .next fun _ e he => .fails (.reportExpected _ _)

end

lemma meets_parameterList :
    (@parameterList n).Meets c fun v d => ReadsParams c.analysis v.params d.analysis := by
  refine .lift (.loop (fun list d => ReadsParams c.analysis list.params d.analysis) _
      (fun _ _ _ => inferInstance)
    (fun start t list d e hd he hs hword => ?_)
    (fun t list d e hd he => .pure fun _ => hd.silent he) .none)
  exact .bind (meets_formals hs hword.word (hd.silent he)) fun list f hf => meets_behindFormals hf

lemma meets_formalParameters :
    (@formalParameters n).Meets c fun v d => ReadsFormals c.analysis v.1.params v.2 d.analysis := by
  refine .bind_of_proceeds (fun _ => by split <;> infer_instance) .peek fun t d hd => ?_
  split
  · refine .bind .next fun _ e he => .bind meets_parameterList fun list f hf => ?_
    have hf := hf.of_silent (hd.2.trans he).silent
    refine .bind (.symbol _) fun _ g hg => .bind (.acceptSymbol _) fun _ k hk => ?_
    have hk := (hf.silent hg.2.silent).silent hk.silent
    refine .ite (fun _ => .bind meets_resultType fun v l hl => ?_) fun _ => ?_
    · obtain ⟨t, ident, b, rfl, hb, ht⟩ := hl
      exact .pure fun _ => .function ident (hk.silent hb) ht
    · exact .pureThen (.pure fun _ => .proper hk)
  · refine .bind .next fun _ e he => .bind (.warn _ _) fun _ f hf => ?_
    refine .bind meets_resultType fun v g hg => ?_
    obtain ⟨t, ident, b, rfl, hb, ht⟩ := hg
    have hf := (((hd.2.trans he).trans hf).silent).trans hb
    exact .pure fun _ => .function ident (ReadsParams.none.silent hf) ht
  · exact .pure fun _ => .proper (ReadsParams.none.silent hd.2.silent)

lemma meets_closedSignature (start) :
    (@closedSignature n start).Meets c fun t d => ReadsSignature c.analysis t d.analysis := by
  refine .bind (.action _) fun _ d hd => .bind meets_formalParameters fun v e he => ?_
  refine .bind (.action _) fun _ f hf => .withSpan fun span => ?_
  exact (Unless.action _).mono fun t k hk => .mk span v.1.variadic hd he hf hk

/-- A type has been read from `c` to `d`. -/
def IsType (c : Cursor) (v : Option Ty) (d : Cursor) : Prop :=
  ∃ t, v = some t ∧ ReadsType c.analysis (.type t) d.analysis

section

variable {type : Parser n (Option Ty)} [Proceeds type] (ht : ∀ c, type.Meets c (IsType c))
include ht

lemma meets_arrayType (start) : (arrayType type start).Meets c (IsType c) := by
  refine .bind_of_proceeds (fun _ => by split <;> infer_instance) (.check _) fun v d hd => ?_
  have hrest : ∀ (es : List Expr) {e : Cursor},
      (∀ x ∈ es, ReadsExpr d.analysis (.expr x)) ∧ d.Silent e →
      (do
        if ← keyword .OF then
          let member ← type
          return some (← Analyze.arrayType (← spanFrom start) (es.map some) member)
        else
          resync .type
          return none : Parser n (Option Ty)).Meets e (IsType c) := by
    intro es e he
    refine .expectThen fun f hf => .bind (ht f) fun v g hg => .withSpan fun span => ?_
    obtain ⟨member, rfl, hm⟩ := hg
    refine .bind (.action _) fun t l hl => .pure fun _ => ⟨t, rfl, ?_⟩
    have hs := hd.silent.trans (he.2.trans hf.silent)
    exact .array span es (fun x hx => (he.1 x hx).of_silent hd.silent)
      (.silent hs hm (.refl _)) hl
  refine .ite (fun _ => ?_) fun _ => ?_
  · exact .pureThen (hrest [] ⟨forall_mem_nil _, .refl _⟩)
  · refine .bind (meets_exprs fun _ => meets_expression) fun vs f hf => ?_
    obtain ⟨⟨es, rfl, hes⟩, hs⟩ := hf
    exact hrest es ⟨hes, hs⟩

lemma meets_fieldList (hf : ReadsType a (.fields ids) c.analysis) :
    (fieldList type ids).Meets c fun jds d => ReadsType a (.fields jds) d.analysis := by
  refine .bind_of_proceeds (fun _ => by split <;> infer_instance) .peek fun t d hd => ?_
  have hf : ReadsType a (.fields ids) d.analysis := .silent (.refl _) hf hd.2.silent
  have hrest : ∀ {jds : List DeclId} {e : Cursor}, ReadsType a (.fields jds) e.analysis → (do
        resync .fields
        return jds : Parser n (List DeclId)).Meets e fun jds d =>
          ReadsType a (.fields jds) d.analysis :=
    fun h => .bind .resync_fields fun _ f hf => .pure fun _ => .silent (.refl _) h hf.silent
  dsimp only
  split
  · rename_i name hname
    have hword : IsWord name := hd.1 name hname
    refine .bind .next fun _ e he => .bind (meets_identDefs hword) fun names f hnames => ?_
    refine .expectThen fun g hg => .bind (ht g) fun v k hk => ?_
    obtain ⟨t, rfl, hk⟩ := hk
    refine .bind (.action _) fun jds l hl => hrest ?_
    have hg := (he.silent.trans hnames.2).trans hg.silent
    exact .fieldList names (.silent (.refl _) hf hg) hk hl
  · exact .pureThen (hrest hf)
  · exact .reported

lemma meets_fieldLists :
    (fieldLists type).Meets c fun ids d => ReadsType c.analysis (.fields ids) d.analysis := by
  refine .bind (.check _) fun v d hd => .ite (fun _ => ?_) fun _ => ?_
  · have hnone : ReadsType c.analysis (.fields []) d.analysis :=
      .silent hd.silent (.noFields _) (.refl _)
    refine .bind (meets_fieldList ht hnone) fun ids e he => .lift ?_
    refine .loopWhile (fun ids e => ReadsType c.analysis (.fields ids) e.analysis) _
      (fun t ids f g hf hg => ?_) (fun ids f g hf hg _ => .silent (.refl _) hf hg) he
    exact .bind (meets_fieldList ht (.silent (.refl _) hf hg)) fun jds k hk => .pure fun _ => hk
  · exact .pure fun _ => .silent hd.silent (.noFields _) (.refl _)

lemma meets_recordType :
    (recordType type).Meets c fun t d => ReadsType c.analysis (.type t) d.analysis := by
  refine .bind_of_proceeds (fun _ => by split <;> infer_instance) (.acceptSymbol _) fun v d hd => ?_
  have hrest : ∀ {base : Option QualIdent} {e : Cursor}, c.Silent e → (do
        let fields ← fieldLists type
        let _ ← keyword .END
        Analyze.recordType base fields : Parser n Ty).Meets e fun t d =>
          ReadsType c.analysis (.type t) d.analysis := by
    intro base e he
    refine .bind (meets_fieldLists ht) fun ids f hf => .bind (.keyword _) fun _ g hg => ?_
    exact (Unless.action _).mono fun t k hk => .record base (.silent he hf hg.2.silent) hk
  refine .ite (fun _ => ?_) fun _ => ?_
  · refine .bind meets_qualident fun v e he => .bind (.symbol _) fun _ f hf => ?_
    exact .pureThen (hrest ((hd.silent.trans he.2).trans hf.2.silent))
  · exact .pureThen (hrest hd.silent)

lemma meets_pointerBase (start t) :
    (pointerBase type start t).Meets c fun _ d => ReadsType c.analysis (.base t) d.analysis := by
  refine .bind_of_proceeds (fun _ => ?_) (.keyword _) fun v d hd => ?_
  · repeat' first
      | infer_instance
      | split
      | refine .andThen fun _ => ?_
  obtain ⟨rfl, hd⟩ := hd
  refine .ite (fun h => by cases h) fun _ => ?_
  refine .bind_of_proceeds (fun isName => ?_) (.check _) fun v e he => ?_
  · split
    · exact .andThen fun _ => by split <;> infer_instance
    · infer_instance
  have he := (hd.trans he).silent
  refine .ite (fun _ => ?_) fun _ => ?_
  · refine .bind_of_proceeds (fun _ => by split <;> infer_instance) meets_qualident fun v f hf => ?_
    obtain ⟨⟨ident, rfl, hn⟩, hf⟩ := hf
    have hf := he.trans hf
    refine .withAnalysis (.ite (fun _ => .bind (.action _) fun base k hk => ?_) fun h => ?_)
    · refine .withSpan fun span => ?_
      exact (Unless.action _).mono fun _ m hm =>
        .silent hf (.base span (.name ident hk) hm) (.refl _)
    · exact (Unless.action _).mono fun _ k hk =>
        .silent hf (.forward ident (by simpa using h) hk) (.refl _)
  · refine .bind (ht e) fun v f hf => .withSpan fun span => ?_
    obtain ⟨base, rfl, hf⟩ := hf
    exact (Unless.action _).mono fun _ k hk => .silent he (.base span hf hk) (.refl _)

lemma meets_typeBody : (typeBody n type).Meets c (IsType c) := by
  refine .onToken (fun t p d hp _ hd => ?_) fun t d _ => .fails (.reportUnexpected t)
  have hsilent {v e} (h : IsType d v e) : IsType c v e := by
    obtain ⟨t, hv, hr⟩ := h
    exact ⟨t, hv, .silent hd hr (.refl _)⟩
  unfold typeBehind? at hp
  split at hp <;> cases hp
  · refine .bind (meets_qualify _) fun ident e he => ?_
    refine .bind (.action _) fun t f hf => .pure fun _ => hsilent ⟨t, rfl, ?_⟩
    exact .silent he (.name ident hf) (.refl _)
  · exact (meets_arrayType ht _).mono fun _ _ => hsilent
  · exact .bind (meets_recordType ht) fun t e he => .pure fun _ => hsilent ⟨t, rfl, he⟩
  · refine .bind (.action _) fun t e he => .bind (meets_pointerBase ht _ _) fun _ f hf => ?_
    exact .pure fun _ => hsilent ⟨t, rfl, .pointer he hf⟩
  · exact .bind (meets_closedSignature _) fun t e he =>
      .pure fun _ => hsilent ⟨t, rfl, .procedure he⟩

end

lemma meets_type : (type n).Meets c (IsType c) :=
  Unless.fix (E := Logs) (fun _ _ _ ht _ => meets_typeBody ht)
    (fun _ _ _ _ _ => inferInstance) n c

/-! ## Statements -/

/-- A statement has been read from `c` to `d`. -/
def IsStatement (c : Cursor) (v : Option Statement) (d : Cursor) : Prop :=
  ∃ s, v = some s ∧ ReadsStatement c.analysis (.statement s) d.analysis

lemma meets_assignment (target ident) (hc : ∀ s ∈ chain, ReadsExpr c.analysis (.selector s))
    (hs : c.Silent d) : (@assignment n target ident chain).Meets d (IsStatement c) := by
  refine .bind (.action _) fun x e he => .bind meets_expression fun v f hf => ?_
  obtain ⟨y, rfl, hy, hf⟩ := hf
  refine .withSpan fun span => ?_
  refine (Unless.action _).mono fun w k hk => ?_
  obtain ⟨-, _, rfl, -⟩ := hk.ensures (Analyze.assignment_ensures _ _ _)
  exact ⟨_, rfl, .assign span target ident chain hc hs he hy hf hk⟩

lemma meets_assignmentOrCall (first) : (@assignmentOrCall n first).Meets c (IsStatement c) := by
  refine .bind_of_proceeds
    (fun _ => .andThen fun _ => .andThen fun _ => by split <;> infer_instance)
    (meets_designator (fun _ => meets_expression) first) fun v d hd => ?_
  refine .withSpan fun span => ?_
  refine .bind_of_proceeds (fun _ => by split <;> infer_instance) .peek fun t f hf => ?_
  have hf := hd.2.trans hf.2.silent
  split
  · exact .bind .next fun _ g hg => .reported
  · exact .bind .next fun _ g hg => meets_assignment span v.1 hd.1 (hf.trans hg.silent)
  · refine (Unless.action _).mono fun w g hg => ?_
    obtain ⟨_, rfl, -⟩ := hg.ensures (Analyze.callStatement_ensures _ _ _ (.refl _))
    exact ⟨_, rfl, .call span v.1 v.2 hd.1 hf hg⟩

section

variable {statements : Parser n (List Statement)} [Uniform {} Steady statements statements]
  (hs : ∀ c, statements.Meets c fun ss d => ReadsStatement c.analysis (.statements ss) d.analysis)
include hs

lemma meets_elsifs (separator) :
    (elsifs statements separator).Meets c fun bs d => ReadsStatement c.analysis (.branches bs)
     d.analysis := by
  refine .lift (.loopWhile (fun bs d => ReadsStatement c.analysis (.branches bs) d.analysis) _
    (fun t bs d e hd he => ?_) (fun bs d e hd he _ => .silent (.refl _) hd he) (.noBranches _))
  refine .bind meets_expression fun v f hf => .bind (.keyword _) fun _ g hg => ?_
  obtain ⟨test, rfl, htest, hf⟩ := hf
  refine .bind (hs g) fun body k hk => .withSpan fun span => ?_
  refine .bind (.action _) fun w m hm => .pure fun _ => ?_
  obtain ⟨-, rfl, -⟩ := hm.ensures (Analyze.branch_ensures _ _ _)
  exact .branch span (.silent (.refl _) hd he) htest
    (.silent (hf.trans hg.2.silent) hk (.refl _)) hm

lemma meets_otherwise :
    (otherwise statements).Meets c fun o d => ReadsStatement c.analysis (.otherwise o) d.analysis :=
      by
  refine .bind (.acceptKeyword _) fun v d hd => .ite (fun _ => ?_) fun _ => ?_
  · exact .bind (hs d) fun body e he => .pure fun _ => .silent hd.silent (.otherwise he) (.refl _)
  · exact .pure fun _ => .silent hd.silent (.noOtherwise _) (.refl _)

lemma meets_ifStatement (start) : (ifStatement statements start).Meets c (IsStatement c) := by
  refine .bind meets_expression fun v d hd => .bind (.keyword _) fun _ e he => ?_
  obtain ⟨test, rfl, htest, hd⟩ := hd
  refine .bind (hs e) fun body f hf => .bind (meets_elsifs hs _) fun elsifs g hg => ?_
  refine .bind (meets_otherwise hs) fun o k hk => .bind (.keyword _) fun _ l hl => ?_
  refine .withSpan fun span => ?_
  refine (Unless.action _).mono fun w q hq => ?_
  obtain ⟨-, rfl, -⟩ := hq.ensures (Analyze.conditional_ensures _ _ _ _ _)
  exact ⟨_, rfl, .cond span htest (.silent (hd.trans he.2.silent) hf (.refl _)) hg
    (.silent (.refl _) hk hl.2.silent) hq⟩

/-- Arms behind those that have been read. -/
lemma meets_caseArm (ha : ReadsStatement a (.arms as) c.analysis) :
    (caseArm statements).Meets c fun arm d => ReadsStatement a (.arms (as ++ [arm])) d.analysis := by
  refine .bind .peek fun t d hd => ?_
  refine .bind (meets_rangeExpressionList fun _ => meets_expression) fun es e he => ?_
  refine .withSpan fun span => .bind (.symbol _) fun _ g hg => ?_
  refine .bind (.action _) fun l k hk => .bind (hs k) fun body m hm => ?_
  exact (Unless.action _).mono fun arm q hq =>
    .arm span (.silent (.refl _) ha hd.2.silent) he.1 (he.2.trans hg.2.silent) hk hm hq

lemma meets_caseArms :
    (caseArms statements).Meets c fun as d => ReadsStatement c.analysis (.arms as) d.analysis := by
  refine .bind_of_proceeds (fun _ => by split <;> infer_instance) .peek fun t d hd => ?_
  have hrest : ∀ {e : Cursor}, c.Silent e → (do
        let first ← caseArm statements
        loopWhile (n := n) (Lexis.isSymbol .bar)
          (fun _ arms => do return .again (arms ++ [← caseArm statements])) [first] :
        Parser n (List Arm)).Meets e fun as d =>
          ReadsStatement c.analysis (.arms as) d.analysis := by
    intro e he
    have hnone : ReadsStatement c.analysis (.arms []) e.analysis := .silent he (.noArms _) (.refl _)
    refine .bind (meets_caseArm hs hnone) fun arm f hf => .lift ?_
    refine .loopWhile (fun as d => ReadsStatement c.analysis (.arms as) d.analysis) _
      (fun t as g k hg hk => ?_) (fun as g k hg hk _ => .silent (.refl _) hg hk) hf
    exact .bind (meets_caseArm hs (.silent (.refl _) hg hk)) fun arm l hl => .pure fun _ => hl
  dsimp only
  refine .ite (fun _ => ?_) fun _ => hrest hd.2.silent
  exact .bind .next fun _ e he => .bind (.warn _ _) fun _ f hf =>
    hrest ((hd.2.trans he).trans hf).silent

lemma meets_caseBody (start) : (caseBody statements start).Meets c fun v d => ∃ b,
    ReadsStatement c.analysis (.arms v.1) b ∧ ReadsStatement b (.otherwise v.2) d.analysis := by
  refine .bind_of_proceeds (fun _ => by split <;> infer_instance) (.keyword _) fun v d hd => ?_
  obtain ⟨rfl, hd⟩ := hd
  refine .ite (fun h => by cases h) fun _ => .bind (.check _) fun v e he => ?_
  have he := (hd.trans he).silent
  dsimp only
  refine .otherwise fun _ => ?_
  refine .bind (meets_caseArms hs) fun as f hf => .bind (meets_otherwise hs) fun o g hg => ?_
  refine .bind (.keyword _) fun _ k hk => .pure fun _ => ?_
  exact ⟨_, .silent he hf (.refl _), .silent (.refl _) hg hk.2.silent⟩

lemma meets_caseStatement (start) : (caseStatement statements start).Meets c (IsStatement c) := by
  refine .bind_of_proceeds (fun _ => by split <;> infer_instance) meets_expression fun v d hd => ?_
  obtain ⟨subject, rfl, hsubject, hd⟩ := hd
  refine .bind (.action _) fun _ e he => .bind (meets_caseBody hs start) fun v f hf => ?_
  refine .withSpan fun span => .bind (.action _) fun s k hk => .pure fun _ => ?_
  obtain ⟨b, ha, ho⟩ := hf
  exact ⟨s, rfl, .select span hsubject hd he ha ho hk⟩

lemma meets_loopStatement (start) :
    (loopStatement statements start).Meets c fun s d => ReadsStatement c.analysis (.statement s)
     d.analysis := by
  refine .bind (.action _) fun _ d hd => .bind (hs d) fun body e he => ?_
  refine .bind (.keyword _) fun _ f hf => .withSpan fun span => ?_
  exact (Unless.action _).mono fun s k hk =>
    .loop span hd (.silent (.refl _) he hf.2.silent) hk

lemma meets_whileStatement (start) :
    (whileStatement statements start).Meets c (IsStatement c) := by
  refine .bind (.action _) fun _ d hd => .bind meets_expression fun v e he => ?_
  obtain ⟨test, rfl, htest, he⟩ := he
  refine .bind (.keyword _) fun _ f hf => .bind (hs f) fun body g hg => ?_
  refine .bind (meets_elsifs hs _) fun elsifs k hk => .bind (.keyword _) fun _ l hl => ?_
  refine .withSpan fun span => ?_
  refine (Unless.action _).mono fun w q hq => ?_
  obtain ⟨-, rfl, -⟩ := hq.ensures (Analyze.whileLoop_ensures _ _ _ _)
  exact ⟨_, rfl, .while span hd htest (.silent (he.trans hf.2.silent) hg (.refl _))
    (.silent (.refl _) hk hl.2.silent) hq⟩

lemma meets_repeatStatement (start) :
    (repeatStatement statements start).Meets c (IsStatement c) := by
  refine .bind (.action _) fun _ d hd => .bind (hs d) fun body e he => ?_
  refine .expectThen fun f hf => .bind meets_expression fun v g hg => .withSpan fun span => ?_
  obtain ⟨test, rfl, htest, hg⟩ := hg
  refine (Unless.action _).mono fun w l hl => ?_
  obtain ⟨-, rfl, -⟩ := hl.ensures (Analyze.repeatLoop_ensures _ _ _)
  exact ⟨_, rfl, .repeat span hd (.silent (.refl _) he hf.silent) htest hg hl⟩

/-- The rest of a FOR statement behind its bounds. -/
lemma meets_forBody (start counter) (hl : Analyze.beginLoop.Succeeds c.analysis () b)
    (hlow : ReadsExpr b (.expr low)) (hhigh : ReadsExpr b (.expr high))
    (hstep : ∀ e ∈ step, ReadsExpr b (.expr e)) (hb : b.Silent d.analysis) :
    (do
      let _ ← keyword .DO
      let body ← statements
      let _ ← keyword .END
      let span ← spanFrom start
      Analyze.forLoop span counter (some low) (some high) step body :
      Parser n (Option Statement)).Meets d (IsStatement c) := by
  refine .bind (.keyword _) fun _ e he => .bind (hs e) fun body f hf => ?_
  refine .bind (.keyword _) fun _ g hg => .withSpan fun span => ?_
  refine (Unless.action _).mono fun w l hl' => ?_
  obtain ⟨-, _, _, _, _, rfl, -⟩ := hl'.ensures (Analyze.forLoop_ensures _ _ _ _ _ _)
  exact ⟨_, rfl, .for span counter hl hlow hhigh hstep
    (.silent (hb.trans he.2.silent) hf hg.2.silent) hl'⟩

lemma meets_forStatement (start) : (forStatement statements start).Meets c (IsStatement c) := by
  refine .bind_of_proceeds (fun _ => .andThen fun _ => .andThen fun _ => ?_) (.action _)
    fun _ d hd => .bind_of_proceeds (fun _ => .andThen fun _ => ?_) meets_qualident
    fun v e he => .bind_of_proceeds (fun _ => ?_) (.symbol _) fun v' f hf => ?_
  -- behind the first bound there are too many branches for instances
  iterate 3
    · repeat' first
        | infer_instance
        | split
        | refine .andThen fun _ => ?_
  obtain ⟨⟨counter, rfl⟩, he⟩ := he
  obtain ⟨rfl, hf⟩ := hf
  have hf := he.trans hf.silent
  refine .ite (fun _ => ?_) fun h => absurd rfl h
  refine .bind meets_expression fun v g hg => .expectThen fun k hk => ?_
  obtain ⟨low, rfl, hlow, hg⟩ := hg
  have hlow := hlow.of_silent hf
  have hk := hf.trans (hg.trans hk.silent)
  refine .bind meets_expression fun v l hl => .bind (.acceptKeyword _) fun v m hm => ?_
  obtain ⟨high, rfl, hhigh, hl⟩ := hl
  have hhigh := hhigh.of_silent hk
  have hm := hk.trans (hl.trans hm.silent)
  refine .ite (fun _ => ?_) fun _ => ?_
  · refine .bind meets_expression fun v q hq => ?_
    obtain ⟨step, rfl, hstep, hq⟩ := hq
    have hstep : ∀ x ∈ some step, ReadsExpr d.analysis (.expr x) := by
      intro x hx
      cases hx
      exact hstep.of_silent hm
    exact meets_forBody hs start counter hd hlow hhigh hstep (hm.trans hq)
  · exact .pureThen (meets_forBody hs start counter hd hlow hhigh (fun x h => by cases h) hm)

omit hs in
lemma meets_returnStatement (start) :
    (@returnStatement n start).Meets c fun s d => ReadsStatement c.analysis (.statement s)
     d.analysis := by
  refine .bind (.check _) fun v d hd => .ite (fun _ => ?_) fun _ => ?_
  · refine .pureThen ?_
    refine .withSpan fun span => ?_
    exact (Unless.action _).mono fun s g hg => .return span (fun x h => by cases h) hd.silent hg
  · refine .bind meets_expression fun v e he => .withSpan fun span => ?_
    obtain ⟨x, rfl, hx, he⟩ := he
    refine (Unless.action _).mono fun s g hg => .return span (fun y h => ?_) (hd.silent.trans he) hg
    cases h
    exact hx.of_silent hd.silent

lemma meets_statement (t) : (statement statements t).Meets c (IsStatement c) := by
  unfold statement
  split
  · exact meets_assignmentOrCall _
  · exact meets_ifStatement hs _
  · exact meets_caseStatement hs _
  · exact .bind (meets_loopStatement hs _) fun s d hd => .pure fun _ => ⟨s, rfl, hd⟩
  · exact meets_whileStatement hs _
  · exact meets_repeatStatement hs _
  · exact meets_forStatement hs _
  · exact .bind (.action _) fun s d hd => .pure fun _ => ⟨s, rfl, .exit _ hd⟩
  · exact .bind (meets_returnStatement _) fun s d hd => .pure fun _ => ⟨s, rfl, hd⟩
  · exact .reported

omit hs in
lemma meets_sequenceGoesOn : (@sequenceGoesOn n).Meets c fun _ d => c.Silent d := by
  refine .bind .peek fun t d hd => .ite (fun _ => ?_) fun _ => .ite (fun _ => ?_) fun _ => ?_
  · exact .bind .next fun _ e he => .pure fun _ => (hd.2.trans he).silent
  · exact .bind .previous fun _ e he => .reported
  · refine .otherwise fun _ => ?_
    exact .ite (fun _ => .pure fun _ => hd.2.silent) fun _ => .fails (.reportUnexpected _)

lemma meets_statementsBody :
    (statementsBody n statements).Meets c fun ss d => ReadsStatement c.analysis (.statements ss)
     d.analysis := by
  refine .bind (P := fun ss d => ReadsStatement c.analysis (.statements ss) d.analysis)
    (.loopWhile (fun ss d => ReadsStatement c.analysis (.statements ss) d.analysis) _
      (fun t ss d e hd he => ?_) (fun ss d e hd he _ => .silent (.refl _) hd he) (.nil _))
    fun ss d hd => .bind (.action _) fun _ e he => .pure fun _ => ?_
  · have hd : ReadsStatement c.analysis (.statements ss) e.analysis := .silent (.refl _) hd he
    refine .ite (fun _ => .pure fun _ => hd) fun _ => ?_
    refine .bind (meets_statement hs t) fun v f hf => .bind meets_sequenceGoesOn fun v g hg => ?_
    obtain ⟨s, rfl, hf⟩ := hf
    have hg : ReadsStatement c.analysis (.statements (ss ++ [s])) g.analysis :=
      .silent (.refl _) (.snoc hd hf) hg
    exact .ite (fun _ => .pure fun _ => hg) fun _ => .pure fun _ => hg
  · exact .silent (.refl _) hd he.silent

end

lemma meets_statements :
    (statements n).Meets c fun ss d => ReadsStatement c.analysis (.statements ss) d.analysis :=
  Unless.fix (E := Steady) (Q := fun c ss d => ReadsStatement c.analysis (.statements ss) d.analysis)
    (fun _ _ _ hs _ => meets_statementsBody hs) (fun _ _ _ _ _ => inferInstance) n c

/-! ## Declarations -/

/-- The entries of a section, each behind those before it. -/
lemma meets_declarationSection {word : Keyword}
    {entry : Ident → List DeclId → Parser n (List DeclId)} [∀ i ids, Proceeds (entry i ids)]
    (phrase : List DeclId → SectionPhrase) (hnone : ∀ a, ReadsSection a (phrase []) a)
    (he : ∀ a c i ids, IsWord i.name → ReadsSection a (phrase ids) c.analysis →
     (entry i ids).Meets c fun jds d => ReadsSection a (phrase jds) d.analysis) :
    (declarationSection word entry).Meets c fun ids d => ReadsSection c.analysis (phrase ids)
     d.analysis := by
  refine .onToken (fun t p d hp _ hd => ?_) fun t d hd =>
    .pure fun _ => .silent hd (hnone _) (.refl _)
  dsimp only at hp
  split at hp <;> cases hp
  refine .bind (P := fun ids e => ReadsSection c.analysis (phrase ids) e.analysis)
    (.lift (.loop (fun ids e => ReadsSection c.analysis (phrase ids) e.analysis) _
      (fun _ _ _ => inferInstance)
      (fun name t ids e f h hf hb hword => ?_)
      (fun t ids e f h hf => .pure fun _ => .silent (.refl _) h hf)
      (.silent hd (hnone _) (.refl _))))
    fun ids e h => .otherwise fun _ => .pure fun _ => h
  refine .bind (he c.analysis f ⟨name, t.span⟩ ids (hword.word name (name?_eq_some hb))
    (.silent (.refl _) h hf)) fun jds g hg => .pure fun _ => hg

lemma meets_constantDeclaration (hi : IsWord i.name)
    (h : ReadsSection a (.constants ids) c.analysis) :
    (@constantDeclaration n i ids).Meets c fun jds d => ReadsSection a (.constants jds) d.analysis :=
     by
  refine .bind (meets_defining hi) fun ident d hd => .expectThen fun e he => ?_
  refine .bind meets_expression fun v f hf => .bind (.action _) fun id g hg => ?_
  obtain ⟨x, rfl, hx, hf⟩ := hf
  refine .bind (.symbol _) fun _ k hk => .pure fun _ => .silent (.refl _) ?_ hk.2.silent
  exact .constant ident hd.1 (.silent (.refl _) h (hd.2.trans he.silent)) hx hf hg

lemma meets_typeDeclaration (hi : IsWord i.name) (h : ReadsSection a (.types ids) c.analysis) :
    (@typeDeclaration n i ids).Meets c fun jds d => ReadsSection a (.types jds) d.analysis := by
  refine .bind (meets_defining hi) fun ident d hd => .expectThen fun e he => ?_
  have h : ReadsSection a (.types ids) e.analysis := .silent (.refl _) h (hd.2.trans he.silent)
  refine .bind (P := fun id f => ReadsSection a (.types (ids ++ [id])) f.analysis)
    (.lift (.onToken (fun t p f hp _ hf => ?_) fun t f hf => ?_)) fun id f hf =>
    .bind (.symbol _) fun _ g hg => .pure fun _ => .silent (.refl _) hf hg.2.silent
  · split at hp <;> cases hp
    refine .bind (.action _) fun t g hg => .bind (.action _) fun id k hk => ?_
    refine .bind (meets_pointerBase (fun _ => meets_type) _ _) fun _ l hl => .pure fun _ => ?_
    exact .pointer ident hd.1 (.silent (.refl _) h hf) hg hk hl
  · refine .bind meets_type fun v g hg => (Unless.action _).mono fun id k hk => ?_
    obtain ⟨t, rfl, hg⟩ := hg
    exact .type ident hd.1 (.silent (.refl _) h hf) hg hk

lemma meets_variableDeclaration (hi : IsWord i.name) (h : ReadsSection a (.vars ids) c.analysis) :
    (@variableDeclaration n i ids).Meets c fun jds d => ReadsSection a (.vars jds) d.analysis := by
  refine .bind (meets_identDefs hi) fun names d hd => .expectThen fun e he => ?_
  refine .bind meets_type fun v f hf => .bind (.action _) fun jds g hg => ?_
  obtain ⟨t, rfl, hf⟩ := hf
  refine .bind (.symbol _) fun _ k hk => .pure fun _ => .silent (.refl _) ?_ hk.2.silent
  exact .vars names (.silent (.refl _) h (hd.2.trans he.silent)) hf hd.1 hg

/-! ## Procedures and modules -/

/-- A procedure has been read from `c` to `d`. -/
def IsProcedure (c : Cursor) (v : Option Procedure) (d : Cursor) : Prop :=
  ∃ p, v = some p ∧ ReadsBlock c.analysis (.procedure p) d.analysis

lemma meets_stringLiteral : (@stringLiteral n).Meets c fun _ d => c.Silent d := by
  refine .bind_of_proceeds (fun _ => by split <;> infer_instance) .peek fun t d hd => ?_
  split
  · exact .bind .next fun _ e he => .pure fun _ => (hd.2.trans he).silent
  · exact .reported

lemma meets_externalProcedure (start) : (@externalProcedure n start).Meets c (IsProcedure c) := by
  refine .bind_of_proceeds
    (fun _ => .andThen fun _ => .andThen fun _ => by split <;> infer_instance)
    meets_stringLiteral fun convention d hd => ?_
  refine .bind_of_proceeds (fun _ => .andThen fun _ => by split <;> infer_instance) (.symbol _)
    fun _ e he => ?_
  refine .bind_of_proceeds (fun _ => by split <;> infer_instance) meets_identdef fun v f hf => ?_
  obtain ⟨⟨ident, rfl, hn⟩, hf⟩ := hf
  refine .bind (meets_closedSignature start) fun t g hg => .bind (.symbol _) fun _ k hk => ?_
  refine .bind (.keyword _) fun _ l hl => .bind (.symbol _) fun _ m hm => ?_
  refine .bind meets_stringLiteral fun name q hq => .bind (.symbol _) fun _ r hr => ?_
  refine .bind (.action _) fun p u hu => .pure fun _ => ⟨p, rfl, ?_⟩
  have hgap := ((hk.2.trans hl.2).trans hm.2).silent.trans (hq.trans hr.2.silent)
  exact .silent ((hd.trans he.2.silent).trans hf)
    (.external ident convention (name.map Prod.fst) hn hg hgap hu) (.refl _)

/-- A block has been read from `c` to `d`, its body in the end. -/
lemma meets_blockBody {constants types vars : List DeclId} {procedures : List Procedure} :
    (blockBody (statements n) (.mk constants types vars procedures [])).Meets c fun b d => ∃ body,
    b = .mk constants types vars procedures body ∧
    ReadsStatement c.analysis (.statements body) d.analysis := by
  refine .bind (.acceptKeyword _) fun v d hd => .ite (fun _ => ?_) fun _ => ?_
  · exact .bind meets_statements fun body e he =>
      .pure fun _ => ⟨body, rfl, .silent hd.silent he (.refl _)⟩
  · exact .pure fun _ => ⟨[], rfl, .silent hd.silent (.nil _) (.refl _)⟩

lemma meets_closingName (ident) : (@closingName n ident).Meets c fun _ d => c.Calm d := by
  refine .bind_of_proceeds (fun _ => by split <;> infer_instance) meets_ident fun v d hd => ?_
  obtain ⟨last, rfl, -, hd⟩ := hd
  exact .pure fun _ => hd

/-- Declarations have been read from `a` to `b`. A body that is read next makes a block of them. -/
def AreDeclarations (a : Analysis) (v : Block) (b : Analysis) : Prop :=
  ∃ constants types vars procedures, v = .mk constants types vars procedures [] ∧
    ∀ body c, ReadsStatement b (.statements body) c →
      ReadsBlock a (.block (.mk constants types vars procedures body)) c

section

variable {declarations : Parser n Block} [Uniform {} (Settles Eq) declarations declarations]
  (hd : ∀ c, declarations.Meets c fun b d => AreDeclarations c.analysis b d.analysis)
include hd

lemma meets_definedProcedure (start : Span) :
    (definedProcedure (statements n) declarations start).Meets c (IsProcedure c) := by
  refine .bind_of_proceeds (fun _ => by split <;> infer_instance) meets_identdef
    fun v d hident => ?_
  obtain ⟨⟨ident, rfl, hn⟩, hident⟩ := hident
  refine .bind (.action _) fun id e he => .bind (P := fun t f => ∃ span ps variadic result b,
    ReadsFormals e.analysis ps result b ∧
      (Analyze.procedureType span ps variadic result).Succeeds b t f.analysis) ?_ fun t f hf => ?_
  · refine .bind meets_formalParameters fun v f hf => .withSpan fun span => ?_
    exact (Unless.action _).mono fun t k hk => ⟨span, _, _, _, _, hf, hk⟩
  obtain ⟨span, ps, variadic, result, b, hps, ht⟩ := hf
  refine .bind (.action _) fun _ g hg => .bind (.symbol _) fun _ k hk => ?_
  refine .bind (hd k) fun v l hl => ?_
  obtain ⟨constants, types, vars, procedures, rfl, hl⟩ := hl
  refine .bind meets_blockBody fun v m hm => .unlessExpected fun q hq => ?_
  obtain ⟨body, rfl, hbody⟩ := hm
  refine .bind (meets_closingName ident) fun last r hr => ?_
  refine .bind (.action _) fun p w hw => .pure fun _ => ⟨p, rfl, ?_⟩
  have hblock := hl body m.analysis hbody
  exact .silent hident (.defined ident span variadic last hn he hps ht hg
    (.silent hk.2.silent hblock (hq.trans hr).silent) hw) (.refl _)

lemma meets_procedure (start : Span) :
    (procedure (statements n) declarations start).Meets c (IsProcedure c) := by
  have hrest : ∀ {v : Option Procedure} {d : Cursor}, IsProcedure c v d → (do
        let _ ← symbol .semicolon
        return v : Parser n (Option Procedure)).Meets d (IsProcedure c) := by
    intro v d h
    obtain ⟨p, rfl, h⟩ := h
    exact .bind (.symbol _) fun _ e he =>
      .pure fun _ => ⟨p, rfl, .silent (.refl _) h he.2.silent⟩
  have hsilent {v} {d e : Cursor} (hs : c.Silent d)
      (h : IsProcedure d v e) : IsProcedure c v e := by
    obtain ⟨p, hv, h⟩ := h
    exact ⟨p, hv, .silent hs h (.refl _)⟩
  refine .bind (.acceptSymbol _) fun v d hbracket => .ite (fun _ => ?_) fun _ => ?_
  · refine .withAnalysis (.otherwise fun _ => ?_)
    exact .bind (meets_externalProcedure start) fun v f hf =>
      hrest (hsilent hbracket.silent hf)
  · exact .bind (meets_definedProcedure hd start) fun v f hf =>
      hrest (hsilent hbracket.silent hf)

lemma meets_declarationsBody :
    (declarationsBody statements n declarations).Meets c fun b d => AreDeclarations c.analysis b
     d.analysis := by
  refine .bind (meets_declarationSection .constants .noConstants
    fun _ _ _ _ hi => meets_constantDeclaration hi) fun constants d hconst => ?_
  refine .bind (.expectBehind _) fun _ e he => ?_
  refine .bind (meets_declarationSection .types .noTypes
    fun _ _ _ _ hi => meets_typeDeclaration hi) fun types f htypes => ?_
  refine .bind (.expectBehind _) fun _ g hg => ?_
  refine .bind (meets_declarationSection .vars .noVars
    fun _ _ _ _ hi => meets_variableDeclaration hi) fun vars k hvars => ?_
  refine .bind (.expectBehind _) fun _ l hl => .bind (.action _) fun _ m hm => ?_
  refine .bind (P := fun ps q => ReadsBlock m.analysis (.procedures ps) q.analysis)
    (.loopWhile (fun ps q => ReadsBlock m.analysis (.procedures ps) q.analysis) _
      (fun t ps q r hq hr => ?_) (fun ps q r hq hr _ => .silent (.refl _) hq hr) (.nil _))
    fun procedures q hq => .bind (.expectBehind _) fun _ r hr => .pure fun _ => ?_
  · refine .bind (meets_procedure hd _) fun v u hu => .pure fun _ => ?_
    obtain ⟨p, rfl, hu⟩ := hu
    exact .snoc (.silent (.refl _) hq hr) hu
  · refine ⟨constants, types, vars, procedures, rfl, fun body b hbody => ?_⟩
    exact .block (.silent (.refl _) hconst he.silent) (.silent (.refl _) htypes hg.silent)
      (.silent (.refl _) hvars hl.silent) hm hq (.silent hr.silent hbody (.refl _))

end

lemma meets_declarations :
    (declarations statements n).Meets c fun b d => AreDeclarations c.analysis b d.analysis :=
  Unless.fix (E := Settles Eq) (Q := fun c b d => AreDeclarations c.analysis b d.analysis)
    (fun _ _ _ hd _ => meets_declarationsBody hd) (fun _ _ _ _ _ => inferInstance) n c

lemma meets_importEntry (h : ReadsImports a imports c.analysis) :
    (@importEntry n first imports).Meets c fun is d => ReadsImports a is d.analysis := by
  refine .bind_of_proceeds (fun isAlias => ?_) (.acceptSymbol _) fun v d hd => ?_
  · split
    · exact .andThen fun _ => by split <;> infer_instance
    · infer_instance
  refine .ite (fun _ => ?_) fun _ => ?_
  · refine .bind_of_proceeds (fun _ => by split <;> infer_instance) meets_ident fun v e he => ?_
    obtain ⟨name, rfl, -, he⟩ := he
    refine .bind (.action _) fun w f hf => .pure fun _ => ?_
    obtain ⟨i, rfl⟩ := hf.ensures (Analyze.importModule_some _ _ _ _)
    exact .entry _ _ _ (h.silent (hd.trans he).silent) hf
  · refine .bind (.action _) fun w f hf => .pure fun _ => ?_
    obtain ⟨i, rfl⟩ := hf.ensures (Analyze.importModule_some _ _ _ _)
    exact .entry _ _ _ (h.silent hd.silent) hf

lemma meets_importsGoOn : (@importsGoOn n).Meets c fun _ d => c.Silent d := by
  refine .bind_of_proceeds (fun _ => by split <;> infer_instance) .peek fun t d hd => ?_
  split
  · exact .bind .next fun _ e he => .pure fun _ => (hd.2.trans he).silent
  · exact .reported
  · exact .bind .next fun _ e he => .pure fun _ => (hd.2.trans he).silent
  · exact .fails (.reportUnexpected _)

lemma meets_importList :
    (@importList n).Meets c fun is d => ReadsImports c.analysis is d.analysis := by
  unfold importList
  refine .lift (.loop (fun is d => ReadsImports c.analysis is d.analysis) _
    (fun _ _ _ => by split <;> infer_instance) (fun start t is d e hd he _ _ => ?_)
    (fun t is d e hd he => .fails (.reportExpected _ _)) .none)
  cases start with
  | entry name =>
    refine .bind (meets_importEntry (hd.silent he)) fun is f hf => ?_
    refine .bind meets_importsGoOn fun v g hg => ?_
    exact .ite (fun _ => .pure fun _ => hf.silent hg) fun _ => .pure fun _ => hf.silent hg
  | comma => exact .fails (.reportExpected _ _)

lemma meets_moduleEnd (name : Ident) : (@moduleEnd n name).Meets c fun _ d => c.Silent d := by
  refine .bind_of_proceeds (fun _ => by split <;> infer_instance) meets_ident fun v d hd => ?_
  obtain ⟨last, rfl, -, hd⟩ := hd
  refine .bind (.symbol _) fun _ e he => (Unless.action _).mono fun _ f hf => ?_
  exact (hd.trans he.2).silent.trans hf.silent

/-- A module behind its name. -/
lemma meets_moduleBody (start : Span) (name : Ident) (ha : a.Silent c.analysis) :
    (@moduleBody n statements start name).Meets c fun m d => ReadsModule a m d.analysis := by
  refine .bind_of_proceeds (fun _ => .andThen fun _ => .andThen fun _ => ?_)
    (meets_checkIdentifier name) fun _ d hd => .bind_of_proceeds (fun _ => .andThen fun _ => ?_)
    (.action _) fun _ e he => .bind_of_proceeds (fun _ => ?_) (.symbol _) fun v f hf => ?_
  iterate 3
    · dsimp only
      split <;> infer_instance
  obtain ⟨-, rfl⟩ := hd
  obtain ⟨rfl, hf⟩ := hf
  refine .ite (fun h => by cases h) fun _ => .bind (.acceptKeyword _) fun v g hg => ?_
  have hnone : ReadsImports e.analysis [] g.analysis :=
    ReadsImports.none.silent (hf.trans hg).silent
  have hrest : ∀ {imports : List Import} {k : Cursor}, ReadsImports e.analysis imports k.analysis →
      (do
        let block ← blockBody (statements n) (← declarations statements n)
        if !(← keyword .END) then
          resync .module
          return { name := name.name, span := name.span, imports, block }
        else
          moduleEnd name
          return { name := name.name, span := ← spanFrom start, imports, block } :
        Parser n Module).Meets k fun m d => ReadsModule a m d.analysis := by
    intro imports k hk
    refine .bind meets_declarations fun v l hl => ?_
    obtain ⟨constants, types, vars, procedures, rfl, hl⟩ := hl
    refine .bind meets_blockBody fun v m hm => .unlessExpected fun q hq => ?_
    obtain ⟨body, rfl, hbody⟩ := hm
    refine .bind (meets_moduleEnd name) fun _ r hr => ?_
    refine .withSpan fun span => .pure fun _ => ?_
    exact .mk name span ha he hk (hl body _ hbody) (hq.silent.trans hr)
  refine .ite (fun _ => .bind meets_importList fun is k hk => ?_) fun _ => ?_
  · exact hrest (hk.of_silent (hf.trans hg).silent)
  · exact .pureThen (hrest hnone)

lemma meets_module : (@module n).Meets c fun v d => ∃ m, v = some m ∧
    ReadsModule c.analysis m d.analysis := by
  refine .bind .peek fun t d hd => ?_
  refine .bind (P := fun v e => (∃ i, v = some i) ∧ d.Calm e) ?_ fun v e he => ?_
  · refine .expectThen fun e he => meets_ident.mono fun v f hf => ?_
    obtain ⟨i, hi, -, hf⟩ := hf
    exact ⟨⟨i, hi⟩, he.trans hf⟩
  · obtain ⟨⟨i, rfl⟩, he⟩ := he
    exact .bind (meets_moduleBody _ i (hd.2.trans he).silent) fun m f hf =>
      .pure fun _ => ⟨m, rfl, hf⟩

end Grammar

/-- Reading a source without errors follows the rules. -/
lemma Outcome.reads (h : ¬ (ofSource features library source).analysis.Failed) : ∃ m,
    (ofSource features library source).module = some m ∧
    ReadsModule (.start features library) m (ofSource features library source).analysis :=
  (Grammar.meets_module (c := .ofSource source (.start features library)) (Nat.lt_succ_self _)
    (scan_worded source) h).2

end Oberon
