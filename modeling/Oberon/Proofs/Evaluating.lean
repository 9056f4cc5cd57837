import Oberon.Proofs.Arithmetic
import Oberon.Proofs.Spelling
import Oberon.Proofs.Modules

/-!
# Oberon.Proofs.Evaluating

Reading constant expressions over integers. The parser follows the grammar of `Arith` production by
production and folds as it goes. The induction is on the expression: what stands at the front of the
input is read and evaluated, whatever comes behind it.
-/

namespace Oberon

open Scan (ends_of_head isDigit)

open Grammar (expression)

open Oberon.Grammar Oberon.Parser Oberon.Analyze

/-! ## Cursors and values -/

/-- From `c` to `d` nothing has happened but that the input was read up to `rest`. -/
def Cursor.Reaches (c : Cursor) (rest : List Lexeme) (d : Cursor) : Prop :=
  ∃ previous, d = { c with rest, previous }

namespace Cursor.Reaches

variable {c d e : Cursor} {rest : List Lexeme}

lemma behind (c : Cursor) (t rest) : c.Reaches rest (c.behind t rest) :=
  ⟨t.span, rfl⟩

lemma trans (h : c.Reaches rest d) (h' : d.Reaches rest' e) : c.Reaches rest' e := by
  obtain ⟨p, rfl⟩ := h
  obtain ⟨q, rfl⟩ := h'
  exact ⟨q, rfl⟩

lemma rest_eq (h : c.Reaches rest d) : d.rest = rest := by
  obtain ⟨p, rfl⟩ := h
  rfl

end Cursor.Reaches

/-- The value of an integer expression was read, and the input up to `rest`. -/
structure Parser.Values (v : Int) (c : Cursor) (rest : List Lexeme) (x : Option Expr) (d : Cursor) :
    Prop where
  value : ∃ e : Expr, x = some e ∧ e.IsValue v
  reaches : c.Reaches rest d

namespace Parser

lemma Values.after (h : d.Reaches rest' c) (hv : Values v c rest x e) : Values v d rest x e :=
  ⟨hv.value, h.trans hv.reaches⟩

/-- A computation moves nothing. -/
lemma Decides.computes {x : Analyze (Option Expr)} (h : x.Computes c.analysis good v) :
    (liftM x : Parser n (Option Expr)).Decides c good fun r d => (∃ e, r = some e ∧ e.IsValue v) ∧
    d = c := by
  refine .action (fun hgood => ?_) h.fails
  obtain ⟨e, hrun, he⟩ := h.yields hgood
  rw [hrun]
  exact ⟨⟨e, rfl, he⟩, rfl⟩

end Parser

namespace Grammar

/-- The rounds of a chain of operators. -/
def rounds (op? : Lexis → Option BinaryOp) (operand : Parser n (Option Expr)) (start : Span)
    (k : Nat) (hk : k ≤ n + 1) (first : Option Expr) : Parser k (Option Expr) :=
  loopWithin op?
    (fun op _ lhs => do
      let rhs ← operand
      return .again (← Analyze.binary (← spanFrom start) op lhs rhs))
    (fun _ e => pure e) k hk first

section

variable {t : Token}

lemma rounds_closed (hc : c.rest = .token t :: rest) (ht : op? t.lexis = none) :
    (rounds op? operand start k hk lhs).Gives c lhs c :=
  .loopWithin_closed hc ht (.pure _ _)

/-- An operator is applied to its operands, and the rounds go on with the result. -/
lemma rounds_again [Proceeds operand] {computed : Prop} (hc : c.rest = .token t :: rest)
    (ht : op? t.lexis = some op)
    (hoperand : operand.Decides (c.behind t rest) good (Values w (c.behind t rest) rest'))
    (hbinary : good → ∀ rhs : Expr, rhs.IsValue w → ∀ span a,
     (Analyze.binary span op lhs (some rhs)).Computes a computed v)
    (hrest : good → computed → ∀ k hk x d, Values v c rest' x d →
     (rounds op? operand start k hk x).Decides d other Q) :
    (rounds op? operand start k hk lhs).Decides c ((good ∧ computed) ∧ other) Q := by
  refine .loopWithin (R := fun flow d => ∃ x, flow = .again x ∧ Values v c rest' x d) hc ht ?_ ?_
  · refine hoperand.bind fun hgood rhs d hrhs => ?_
    obtain ⟨⟨e, rfl, he⟩, hreaches⟩ := hrhs
    refine .after (.spanFrom _ _) ?_
    refine (Decides.computes (hbinary hgood e he _ _)).before fun _ x d' hx => ?_
    obtain ⟨hvalue, rfl⟩ := hx
    exact ⟨_, _, .pure _ _, x, rfl, hvalue, (Cursor.Reaches.behind c t rest).trans hreaches⟩
  · rintro ⟨hgood, hcomputed⟩ flow d ⟨x, rfl, hx⟩
    exact ⟨x, rfl, fun k hk => hrest hgood hcomputed k hk x d hx⟩

end

end Grammar

/-! ## The induction -/

namespace Arith

/-- What follows is a token that is no operator of the kind. -/
def Ends (op? : Lexis → Option BinaryOp) (rest : List Lexeme) : Prop :=
  ∃ t rest', rest = .token t :: rest' ∧ op? t.lexis = none

def Level.isPlain : Level → Bool
  | .primary => true
  | .factor b => !b
  | .term b => !b
  | .sum => false

/-- An expression starts with a token, which is no sign where none is allowed. -/
lemma Stands.head {e : Arith l} : ∀ {xs rest : List Lexeme}, e.Stands xs rest → ∃ t ys, xs =
    .token t :: ys ∧ (l.isPlain → factorOp? t.lexis = none) := by
  induction e with
  | literal m _ =>
    rintro xs rest ⟨t, rfl, ht⟩
    exact ⟨t, _, rfl, fun _ => by rw [ht]; rfl⟩
  | paren e _ =>
    rintro xs rest ⟨t, ys, _, rfl, ht, _⟩
    exact ⟨t, _, rfl, fun _ => by rw [ht]; rfl⟩
  | plain p ih => exact fun h => ih h
  | signed s p _ =>
    rintro xs rest ⟨t, ys, rfl, _⟩
    exact ⟨t, ys, rfl, fun h => by cases h⟩
  | factor f ih => exact fun h => ih h
  | multiply t op f ih _ =>
    rintro xs rest ⟨_, _, h, _⟩
    exact ih h
  | term t ih =>
    intro xs rest h
    obtain ⟨t, ys, hxs, _⟩ := ih h
    exact ⟨t, ys, hxs, fun h => by cases h⟩
  | leading s t _ =>
    rintro xs rest ⟨t, ys, rfl, _⟩
    exact ⟨t, ys, rfl, fun h => by cases h⟩
  | add e op t ih _ =>
    rintro xs rest ⟨_, _, h, _⟩
    exact ih h

lemma sign?_eq_none (h : factorOp? l = none) : sign? l = none := by
  unfold factorOp? at h
  split at h
  · cases h
  · exact h

/-- What reading makes of an expression that stands at the front of the input. A term or a sum may be
only the first part of a longer one, so that the operators behind it are read with it. -/
def Parses : {l : Level} → Arith l → Prop
  | .primary, p => ∀ n c rest, p.Stands c.rest rest →
      (basicFactor (expression n)).Decides c p.Exact (Values p.value c rest)
  | .factor _, f => ∀ n c rest, f.Stands c.rest rest →
      (Grammar.factor (expression n)).Decides c f.Exact (Values f.value c rest)
  | .term _, t => ∀ n start c rest other Q, t.Stands c.rest rest →
      (t.Exact → ∀ k hk x d, Values t.value c rest x d →
        (rounds (n := n) multiplicativeOp? (liftM (Grammar.factor (expression n))) start k hk x).Decides d
          other Q) →
      (Grammar.factor (expression n) >>=
        leftAssociative multiplicativeOp? (liftM (Grammar.factor (expression n))) start).Decides c
          (t.Exact ∧ other) Q
  | .sum, e => ∀ n start c rest other Q, e.Stands c.rest rest → Ends multiplicativeOp? rest →
      (e.Exact → ∀ k hk x d, Values e.value c rest x d →
        (rounds (n := n) additiveOp? (liftM (Grammar.term (expression n))) start k hk x).Decides d
          other Q) →
      (signedTerm (expression n) >>=
        leftAssociative additiveOp? (liftM (Grammar.term (expression n))) start).Decides c
          (e.Exact ∧ other) Q

variable {n : Nat}

lemma rounds_end {hk : k ≤ n + 1} (hx : Values v c rest x d) (hend : Ends op? rest) :
    (rounds op? operand start k hk x).Decides d True (Values v c rest) := by
  obtain ⟨t, rest', rfl, ht⟩ := hend
  exact .of_gives (rounds_closed hx.reaches.rest_eq ht) trivial hx

/-- A term that is not gone on with. -/
lemma Parses.term {t : Arith (.term b)} (h : t.Parses) (hs : t.Stands c.rest rest)
    (hend : Ends multiplicativeOp? rest) :
    (Grammar.term (expression n)).Decides c t.Exact (Values t.value c rest) := by
  obtain ⟨tok, ys, hc, _⟩ := hs.head
  refine .after (.peek hc) ?_
  exact (h n tok.span c rest True _ hs fun _ k hk x d hx => rounds_end hx hend).mono (by simp)
    fun _ _ _ hx => hx

/-- A sum that is not gone on with. -/
lemma Parses.expression {e : Arith .sum} (h : e.Parses) (hs : e.Stands c.rest rest)
    (hmul : Ends multiplicativeOp? rest) (hadd : Ends additiveOp? rest)
    (hrel : Ends relationOp? rest) : (expression n).Decides c e.Exact (Values e.value c rest) := by
  obtain ⟨tok, ys, hc, _⟩ := hs.head
  cases n with
  | zero => exact .zero
  | succ n =>
    have hsimple : (simpleExpression (expression n)).Decides c e.Exact (Values e.value c rest) := by
      refine .after (.peek hc) ?_
      exact (h n tok.span c rest True _ hs hmul fun _ k hk x d hx => rounds_end hx hadd).mono (by simp)
        fun _ _ _ hx => hx
    have hrelation : (relation (expression n)).Decides c e.Exact (Values e.value c rest) := by
      refine .after (.peek hc) (.before_of_proceeds (fun x => ?_) hsimple fun _ x d hx => ⟨x, d, ?_, hx⟩)
      · exact .onToken (fun t => .map fun b => inferInstance) fun t => inferInstance
      obtain ⟨t, rest', rfl, ht⟩ := hrel
      exact .onToken_skip hx.reaches.rest_eq (by rw [ht]; rfl) (.pure _ _)
    show (expressionBody n (expression n)).Decides c e.Exact (Values e.value c rest)
    refine hrelation.before fun _ x d hx => ⟨x, d, ?_, hx⟩
    obtain ⟨⟨v, rfl, _⟩, _⟩ := hx
    exact .pure _ _

lemma parses (e : Arith l) : e.Parses := by
  induction e with
  | literal m h =>
    rintro n c rest ⟨t, hc, ht⟩
    have hfits : fits64 m := fits64_iff.2 ⟨by omega, by omega⟩
    have htake : basicFactorBehind? (expression n) t =
        some (pure (some (.literal (.integer m) { type := .ofInteger m, span := t.span }))) := by
      unfold basicFactorBehind?
      rw [ht]
      rfl
    have hvalue : (Expr.literal (.integer m) { type := .ofInteger m, span := t.span }).IsValue m := by
      refine ⟨_, rfl, ?_⟩
      simp only [Ty.isInteger_ofInteger]
    exact .of_gives (.onToken hc htake (.pure _ _)) hfits ⟨⟨_, rfl, hvalue⟩, .behind c t rest⟩
  | paren e ih =>
    rintro n c rest ⟨t, ys, t', hc, ht, hs, ht'⟩
    have htake : basicFactorBehind? (expression n) t = some do
        let e ← expression n
        let _ ← symbol .rightParen
        return e := by
      unfold basicFactorBehind?
      rw [ht]
    have hend (op? : Lexis → Option BinaryOp) (h : op? (.symbol .rightParen) = none) :
        Ends op? (.token t' :: rest) := ⟨t', rest, rfl, by rw [ht', h]⟩
    have hread := ih.expression (n := n) (c := c.behind t ys) hs (hend _ rfl) (hend _ rfl) (hend _ rfl)
    refine .onToken hc htake (hread.before fun _ x d hx => ⟨x, d.behind t' rest, ?_, hx.value, ?_⟩)
    · exact .bind (.expect hx.reaches.rest_eq _ (by rw [ht']; rfl)) (.pure _ _)
    · exact ((Cursor.Reaches.behind c t ys).trans hx.reaches).trans (.behind d t' rest)
  | plain p ih =>
    intro n c rest hs
    obtain ⟨t, ys, hc, ht⟩ := hs.head
    exact .onToken_skip hc (by rw [ht rfl]; rfl) (ih n c rest hs)
  | signed s p ih =>
    rintro n c rest ⟨t, ys, hc, ht, hs⟩
    have hop : factorOp? t.lexis = some s.op := by rw [ht]; cases s <;> rfl
    refine .onToken hc (by rw [hop]; rfl) ((ih n (c.behind t ys) rest hs).lift.bind fun hexact x d hx => ?_)
    obtain ⟨⟨v, rfl, hv⟩, hreaches⟩ := hx
    refine .after (.spanFrom _ _) ?_
    refine (Decides.computes (computes_unary s hv hexact.fits _ _)).mono Iff.rfl fun _ x d' hx => ?_
    obtain ⟨hvalue, rfl⟩ := hx
    exact ⟨hvalue, (Cursor.Reaches.behind c t ys).trans hreaches⟩
  | factor f ih =>
    intro n start c rest other Q hs hrest
    exact (ih n c rest hs).bind fun hexact x d hx => hrest hexact _ _ x d hx
  | multiply t op f iht ihf =>
    rintro n start c rest other Q ⟨tok, ys, hs, htok, hf⟩ hrest
    have hop : multiplicativeOp? tok.lexis = some op.op := by rw [htok]; cases op <;> rfl
    refine (iht n start c (.token tok :: ys) ((f.Exact ∧ op.Applies f.value ∧
      fits64 (op.apply t.value f.value)) ∧ other) Q hs fun ht k hk x d hx => ?_).mono
        (by simp [Exact, and_assoc]) fun _ _ _ hx => hx
    obtain ⟨⟨v, rfl, hv⟩, hreaches⟩ := hx
    refine rounds_again hreaches.rest_eq hop (ihf n (d.behind tok ys) rest hf).lift
      (fun hf w hw span a => computes_mul op hv hw ht.fits hf.fits span a)
      fun hf hcomputed k hk x d hx => hrest ⟨ht, hf, hcomputed⟩ k hk x d (hx.after hreaches)
  | term t ih =>
    intro n start c rest other Q hs hend hrest
    obtain ⟨tok, ys, hc, htok⟩ := Stands.head (e := t) hs
    have hsign : sign? tok.lexis = none := sign?_eq_none (htok rfl)
    have hfirst : (signedTerm (expression n)).Decides c t.Exact (Values t.value c rest) :=
      .onToken_skip hc (by rw [hsign]; rfl) (Parses.term ih hs hend)
    exact hfirst.bind fun hexact x d hx => hrest hexact _ _ x d hx
  | leading s t ih =>
    rintro n start c rest other Q ⟨tok, ys, hc, htok, hs⟩ hend hrest
    have hop : sign? tok.lexis = some s.op := by rw [htok]; cases s <;> rfl
    have hfirst : (signedTerm (expression n)).Decides c (leading s t).Exact
        (Values (leading s t).value c rest) := by
      refine .onToken hc (by rw [hop]; rfl)
        ((Parses.term ih (c := c.behind tok ys) hs hend).lift.bind fun hexact x d hx => ?_)
      obtain ⟨⟨v, rfl, hv⟩, hreaches⟩ := hx
      refine .after (.spanFrom _ _) ?_
      refine (Decides.computes (computes_unary s hv hexact.fits _ _)).mono Iff.rfl fun _ x d' hx => ?_
      obtain ⟨hvalue, rfl⟩ := hx
      exact ⟨hvalue, (Cursor.Reaches.behind c tok ys).trans hreaches⟩
    exact hfirst.bind fun hexact x d hx => hrest hexact _ _ x d hx
  | add e op t ihe iht =>
    rintro n start c rest other Q ⟨tok, ys, hs, htok, ht⟩ hend hrest
    have hop : additiveOp? tok.lexis = some op.op := by rw [htok]; cases op <;> rfl
    have hmul : Ends multiplicativeOp? (.token tok :: ys) :=
      ⟨tok, ys, rfl, by rw [htok]; cases op <;> rfl⟩
    refine (ihe n start c (.token tok :: ys) ((t.Exact ∧
      fits64 (op.apply e.value t.value)) ∧ other) Q hs hmul fun he k hk x d hx => ?_).mono
        (by simp [Exact, and_assoc]) fun _ _ _ hx => hx
    obtain ⟨⟨v, rfl, hv⟩, hreaches⟩ := hx
    refine rounds_again hreaches.rest_eq hop (Parses.term iht (c := d.behind tok ys) ht hend).lift
      (fun ht w hw span a => computes_add op hv hw span a)
      fun ht hcomputed k hk x d hx => hrest ⟨he, ht, hcomputed⟩ k hk x d (hx.after hreaches)

end Arith

/-! ## Constant declarations -/

namespace Analysis

/-- The state after a constant has been declared. -/
def withConstant (a : Analysis) (ident : IdentDef) (value : Literal) (type : Ty) : Analysis :=
  { a with
    store := (a.store.addDecl (a.declaration ident (.constant (some value)) type)).2
    scopes := a.scopes.insert ident.name ⟨a.store.decls.size⟩ }

end Analysis

lemma Analyze.enter_run (hnew : a.scopes.isDuplicate name = false)
    (hfree : a.scopes.isPredefined name = false) (span id) :
    enter name span id a = ((), { a with scopes := a.scopes.insert name id }) := by
  rw [enter, get_bind_run, if_neg (by simp [hnew]), hfree]
  rfl

lemma Analyze.declareConstant_run (ident : IdentDef) {x : Expr} (hx : x.IsValue v)
    (hexported : ident.exported = false) (hnew : a.scopes.isDuplicate ident.name = false)
    (hfree : a.scopes.isPredefined ident.name = false) : ∃ type, declareConstant ident (some x) a =
    (⟨a.store.decls.size⟩, a.withConstant ident (.integer v) type) := by
  let b := a.withConstant ident (.integer v) x.type
  have hvalue : constantValue ident (some x) a = ((some (.integer v), x.type), a) := by
    simp [constantValue, hx.literal?]
  have hdeclare : declare ident (.constant (some (.integer v))) x.type a = (⟨a.store.decls.size⟩, b) := by
    let a' := { a with store := (a.store.addDecl
      (a.declaration ident (.constant (some (.integer v))) x.type)).2 }
    have hadd : addDecl ident (.constant (some (.integer v))) x.type a = (⟨a.store.decls.size⟩, a') := rfl
    have henter := enter_run (a := a') hnew hfree ident.span ⟨a.store.decls.size⟩
    rw [declare, bind_of_run hadd, bind_of_run henter, pure_run]
    rfl
  have hexport : checkExport ⟨a.store.decls.size⟩ b = ((), b) := by
    have hdecl : b.store.decl ⟨a.store.decls.size⟩ =
      a.declaration ident (.constant (some (.integer v))) x.type := Store.decl_addDecl_self ..
    rw [checkExport, getStore_bind_run]
    simp [hdecl, Analysis.declaration, hexported, Declaration.isType]
  refine ⟨x.type, ?_⟩
  rw [declareConstant, bind_of_run hvalue]
  exact (bind_of_run hdeclare _).trans (bind_of_run hexport _)

namespace Grammar

variable {c : Cursor}

lemma checkIdentifier_gives {ident : Ident} (h : ident.name.toList.contains '_' = false) :
    (@checkIdentifier n ident).Gives c () c := by
  unfold checkIdentifier
  rw [h]
  exact .pure _ _

/-- A constant has been declared, and the input read up to `rest`. -/
def DeclaresConstant (c : Cursor) (ident : IdentDef) (v : Int) (rest : List Lexeme)
    (ids : List DeclId) (d : Cursor) : Prop :=
  ∃ type previous, ids = [⟨c.analysis.store.decls.size⟩] ∧
    d = { c with rest, previous, analysis := c.analysis.withConstant ident (.integer v) type }

/-- A constant is entered with the value of its expression. -/
lemma constantDeclaration_decides {e : Arith .sum} (first : Ident) (hname : first.name.toList.contains '_' = false)
    (hnew : c.analysis.scopes.isDuplicate first.name = false)
    (hfree : c.analysis.scopes.isPredefined first.name = false)
    (hc : c.rest = .token t :: xs) (ht : t.lexis = .symbol .eq)
    (he : e.Stands xs (.token t' :: rest)) (ht' : t'.lexis = .symbol .semicolon) :
    (constantDeclaration (n := n) first []).Decides c e.Exact
      (DeclaresConstant c ⟨first.name, false, first.span⟩ e.value rest) := by
  have hdefining : (@defining n first).Gives c ⟨first.name, false, first.span⟩ c :=
    .bind (checkIdentifier_gives hname) (.bind (.accept_skip hc (by rw [ht]; rfl)) (.pure _ _))
  refine .after hdefining (.after (.expect hc _ (by rw [ht]; rfl)) ?_)
  have hend (op? : Lexis → Option BinaryOp) (h : op? (.symbol .semicolon) = none) :
      Arith.Ends op? (.token t' :: rest) := ⟨t', rest, rfl, by rw [ht', h]⟩
  refine (Arith.Parses.expression (Arith.parses e) (c := c.behind t xs) he (hend _ rfl) (hend _ rfl)
    (hend _ rfl)).before fun _ x d hx => ?_
  obtain ⟨⟨x, rfl, hx⟩, previous, rfl⟩ := hx
  obtain ⟨type, hrun⟩ := declareConstant_run ⟨first.name, false, first.span⟩ hx rfl hnew hfree
  exact ⟨_, _, .bind (.action hrun) (.bind (.expect rfl _ (by rw [ht']; rfl)) (.pure _ _)), type,
    t'.span, rfl, rfl⟩

lemma declarationSection_skip (hc : c.rest = .token t :: rest)
    (ht : t.lexis.isKeyword word = false) : (declarationSection word entry).Gives c [] c :=
  .onToken_skip hc (by rw [ht]; rfl) (.pure _ _)

lemma settleForwards_of_nil (h : a.forwards = []) : settleForwards a = ((), a) := by
  have ha : { a with forwards := [] } = a := by rw [← h]
  rw [settleForwards, get_bind_run, h]
  exact congrArg (((), ·)) ha

section

variable {e : Arith .sum} (hname : name.toList.contains '_' = false)
  (hnew : c.analysis.scopes.isDuplicate name = false)
  (hfree : c.analysis.scopes.isPredefined name = false)
  (hc : c.rest = .token t :: .token t1 :: .token t2 :: xs) (ht : t.lexis = .keyword .CONST)
  (ht1 : t1.lexis = .ident name) (ht2 : t2.lexis = .symbol .eq)
  (he : e.Stands xs (.token t3 :: .token t4 :: rest)) (ht3 : t3.lexis = .symbol .semicolon)
  (ht4 : t4.lexis = .keyword .END)
include hname hnew hfree hc ht ht1 ht2 he ht3 ht4

/-- A section with one constant. -/
lemma constSection_decides :
    (declarationSection .CONST (constantDeclaration (n := n))).Decides c e.Exact
      (DeclaresConstant c ⟨name, false, t1.span⟩ e.value (.token t4 :: rest)) := by
  let c1 := c.behind t (.token t1 :: .token t2 :: xs)
  let c2 := c1.behind t1 (.token t2 :: xs)
  let round (name : String) (t : Token) (decls : List DeclId) : Parser n (Flow (List DeclId)) := do
    return .again (← constantDeclaration ⟨name, t.span⟩ decls)
  have hround : (round name t1 []).Decides c2 e.Exact fun flow d => ∃ ids, flow = .again ids ∧
      DeclaresConstant c ⟨name, false, t1.span⟩ e.value (.token t4 :: rest) ids d := by
    refine (constantDeclaration_decides (c := c2) ⟨name, t1.span⟩ hname hnew hfree rfl ht2 he ht3).before
      fun _ ids d hd => ⟨_, d, .pure _ _, ids, rfl, ?_⟩
    obtain ⟨type, previous, rfl, rfl⟩ := hd
    exact ⟨type, previous, rfl, rfl⟩
  have hloop : (loop (n := n) name? round (fun _ decls => pure decls) []).Decides c1 e.Exact
      (DeclaresConstant c ⟨name, false, t1.span⟩ e.value (.token t4 :: rest)) := by
    suffices h : (loop (n := n) name? round (fun _ decls => pure decls) []).Decides c1 (e.Exact ∧ True)
        (DeclaresConstant c ⟨name, false, t1.span⟩ e.value (.token t4 :: rest)) from
      h.mono (by simp) fun _ _ _ h => h
    refine .loopWithin rfl (by rw [ht1]; rfl) hround ?_
    rintro _ flow d ⟨ids, rfl, hd⟩
    obtain ⟨type, previous, rfl, rfl⟩ := hd
    exact ⟨_, rfl, fun k hk => .of_gives (.loopWithin_closed rfl (by rw [ht4]; rfl) (.pure _ _)) trivial
      ⟨type, previous, rfl, rfl⟩⟩
  refine .onToken hc (by rw [ht]; rfl) (hloop.lift.before fun _ ids d hd => ⟨ids, d, ?_, hd⟩)
  obtain ⟨type, previous, rfl, rfl⟩ := hd
  exact .bind (.pure _ _) (.pure _ _)

/-- Declarations that consist of one constant. -/
lemma declarations_decides (hforwards : c.analysis.forwards = []) :
    (declarations statements n).Decides c e.Exact fun block d => ∃ ids, block =
    .mk ids [] [] [] [] ∧
    DeclaresConstant c ⟨name, false, t1.span⟩ e.value (.token t4 :: rest) ids d := by
  cases n with
  | zero => exact .zero
  | succ n =>
    show (declarationsBody statements n (declarations statements n)).Decides c e.Exact _
    refine (constSection_decides hname hnew hfree hc ht ht1 ht2 he ht3 ht4).before fun _ ids d hd => ?_
    obtain ⟨type, previous, rfl, rfl⟩ := hd
    have hfollow {phrase : Recovery} (h : phrase.follow (.keyword .END)) :
        phrase.follow t4.lexis := by rw [ht4, h]
    have hskip {word} (h : Lexis.isKeyword word (.keyword .END) = false) :
        t4.lexis.isKeyword word = false := by rw [ht4, h]
    refine ⟨_, _, ?_, _, rfl, type, previous, rfl, rfl⟩
    refine .bind (.expectBehind rfl (hfollow rfl)) (.bind (declarationSection_skip rfl (hskip rfl)) ?_)
    refine .bind (.expectBehind rfl (hfollow rfl)) (.bind (declarationSection_skip rfl (hskip rfl)) ?_)
    refine .bind (.expectBehind rfl (hfollow rfl)) (.bind (.action (settleForwards_of_nil hforwards)) ?_)
    refine .bind (.loopWithin_closed rfl (by rw [ht4]; rfl) (.pure _ _)) ?_
    exact .bind (.expectBehind rfl (hfollow rfl)) (.pure _ _)

end

/-- The tokens of a module that declares one constant. -/
def constantModule (e : Arith .sum) : List Lexis :=
  [.keyword .MODULE, .ident "M", .symbol .semicolon, .keyword .CONST, .ident "c", .symbol .eq] ++
    (e.lexes ++ [.symbol .semicolon, .keyword .END, .ident "M", .symbol .dot])

lemma moduleEnd_gives {t' : Token} (span) (ht : t.lexis = .ident name)
    (hdot : t'.lexis = .symbol .dot) (hc : c.rest = .token t :: .token t' :: rest) : ∃ d,
    (moduleEnd ⟨name, span⟩ : Parser n Unit).Gives c () d ∧ d.analysis = c.analysis := by
  have hend : endModule name ⟨name, t.span⟩ c.analysis = ((), c.analysis) := by
    rw [endModule, bne_self_eq_false]
    rfl
  exact ⟨_, .bind (.ident hc ht) (.bind (.expect rfl _ (by rw [hdot]; rfl)) (.action hend)), rfl⟩

/-- The rest of such a module, behind its name. -/
lemma moduleBody_decides {e : Arith .sum} (start span) (hfree : c.analysis.scopes.isPredefined "c" = false)
    (hc : c.rest = .token t1 :: .token t2 :: .token t3 :: .token t4 :: xs)
    (ht1 : t1.lexis = .symbol .semicolon) (ht2 : t2.lexis = .keyword .CONST)
    (ht3 : t3.lexis = .ident "c") (ht4 : t4.lexis = .symbol .eq)
    (he : e.Stands xs (.token t5 :: .token t6 :: .token t7 :: .token t8 :: rest))
    (ht5 : t5.lexis = .symbol .semicolon) (ht6 : t6.lexis = .keyword .END)
    (ht7 : t7.lexis = .ident "M") (ht8 : t8.lexis = .symbol .dot) :
    (moduleBody statements start ⟨"M", span⟩ : Parser n Module).Decides c e.Exact fun m d =>
      ∃ type, m.block = .mk [⟨c.analysis.store.decls.size⟩] [] [] [] [] ∧
        d.analysis = (beginModule ⟨"M", span⟩ c.analysis).2.withConstant ⟨"c", false, t3.span⟩
          (.integer e.value) type := by
  let a := (beginModule ⟨"M", span⟩ c.analysis).2
  let c1 : Cursor := { c with analysis := a }
  let c2 := c1.behind t1 (.token t2 :: .token t3 :: .token t4 :: xs)
  have hname : "M".toList.contains '_' = false := by decide
  have hbegin : (beginModule ⟨"M", span⟩ : Parser n Unit).Gives c () c1 := .action rfl
  refine .after (checkIdentifier_gives hname) (.after hbegin ?_)
  refine .after (.expect (c := c1) hc _ (by rw [ht1]; rfl)) ?_
  refine .after (.accept_skip (c := c2) rfl (by rw [ht2]; rfl)) (.after (.pure _ _) ?_)
  have hdeclarations :=
    declarations_decides (n := n) (c := c2) (by decide) rfl hfree rfl ht2 ht3 ht4 he ht5 ht6 rfl
  refine .before_of_proceeds (fun block => ?_) hdeclarations fun _ block d hd => ?_
  · refine .andThen fun block => .andThen fun closed => ?_
    split <;> infer_instance
  · obtain ⟨ids, rfl, type, previous, rfl, rfl⟩ := hd
    let b := a.withConstant ⟨"c", false, t3.span⟩ (.integer e.value) type
    let c3 : Cursor := { c2 with rest := .token t6 :: .token t7 :: .token t8 :: rest, previous, analysis := b }
    obtain ⟨d', hgives, hd'⟩ := moduleEnd_gives (n := n) span ht7 ht8
      (c := c3.behind t6 (.token t7 :: .token t8 :: rest)) rfl
    have hblock {block} : (blockBody (statements n) block).Gives c3 block c3 :=
      .bind (.accept_skip rfl (by rw [ht6]; rfl)) (.pure _ _)
    exact ⟨_, _, .bind hblock (.bind (.expect rfl _ (by rw [ht6]; rfl)) (.bind hgives
      (.bind (.spanFrom _ _) (.pure _ _)))), type, rfl, hd'⟩

/-- A module that consists of one constant. -/
lemma module_decides {ts : List Token} (hts : ts.map Token.lexis = constantModule e)
    (hc : c.rest = ts.map .token) (hfree : c.analysis.scopes.isPredefined "c" = false) :
    (@module n).Decides c e.Exact fun m d =>
      ∃ m' name span type, m = some m' ∧
        m'.block = .mk [⟨c.analysis.store.decls.size⟩] [] [] [] [] ∧
        d.analysis = (beginModule name c.analysis).2.withConstant ⟨"c", false, span⟩ (.integer e.value)
          type := by
  simp only [constantModule, List.cons_append, List.nil_append, List.map_eq_cons_iff,
    List.map_eq_append_iff] at hts
  obtain ⟨t1, _, rfl, ht1, t2, _, rfl, ht2, t3, _, rfl, ht3, t4, _, rfl, ht4, t5, _, rfl, ht5, t6, _, rfl, ht6,
    us, _, rfl, hus, t7, _, rfl, ht7, t8, _, rfl, ht8, t9, _, rfl, ht9, t0, ts, rfl, ht0, _⟩ := hts
  have hstands := Arith.stands_of_lexes e us (List.map .token (t7 :: t8 :: t9 :: t0 :: ts)) hus
  rw [← List.map_append] at hstands
  simp only [List.map_cons] at hc hstands
  let c1 := c.behind t1 (.token t2 :: .token t3 :: .token t4 :: .token t5 :: .token t6 ::
    List.map Lexeme.token (us ++ t7 :: t8 :: t9 :: t0 :: ts))
  have hbody := moduleBody_decides (n := n) (c := c1.behind t2 _) t1.span t2.span hfree rfl ht3 ht4 ht5 ht6
    hstands ht7 ht8 ht9 ht0
  refine .after (.peek hc) (.after (.bind (.expect hc _ (by rw [ht1]; rfl)) (.ident (c := c1) rfl ht2)) ?_)
  refine hbody.before fun _ m d hm => ?_
  obtain ⟨type, hblock, hanalysis⟩ := hm
  exact ⟨_, d, .pure _ _, m, ⟨"M", t2.span⟩, t5.span, type, rfl, hblock, hanalysis⟩

end Grammar

namespace Outcome

variable (features : Features) (library : Library)

/-- What is made of the text of a module of one constant. -/
lemma ofSource_decides (h : Scan.Spells (constantModule e) source.toList) :
    (e.Exact → ∃ m name span type,
      (ofSource features library source).module = some m ∧
      m.block = .mk [⟨(Analysis.start features library).store.decls.size⟩] [] [] [] [] ∧
      (ofSource features library source).analysis =
        (beginModule name (.start features library)).2.withConstant ⟨"c", false, span⟩ (.integer e.value)
          type) ∧
    (¬ e.Exact → (ofSource features library source).analysis.Failed) := by
  obtain ⟨ts, hscan, hts⟩ := h.lexemes 0
  have hfree : Universe.standard.scopes.isPredefined "c" = false := by decide +kernel
  have hmodule := module_decides (c := Cursor.ofSource source (.start features library))
    (n := (scan source).length + 1) hts hscan hfree
  exact ⟨fun hexact => hmodule.yields hexact _, fun hnot => hmodule.fails hnot _⟩

/-- A constant expression over integers is accepted exactly if every result on the way fits into 64 bits
and every divisor is positive. The constant then has the value of the expression in the integers. -/
theorem hasErrors_eq_false_iff_exact (h : Scan.Spells (constantModule e) source.toList) :
    (∀ strict, ((ofSource features library source).log strict).hasErrors = false ↔ e.Exact) ∧
    (e.Exact → ∃ m c, (ofSource features library source).Accepts m ∧ m.block.constants = [c] ∧
      ((ofSource features library source).store.decl c).name = "c" ∧
      ((ofSource features library source).store.decl c).role = .constant (some (.integer e.value))) := by
  obtain ⟨hyields, hfails⟩ := ofSource_decides features library h
  have hclean (hexact : e.Exact) (strict : Bool) :
      ((ofSource features library source).log strict).hasErrors = false := by
    obtain ⟨_, _, _, _, _, _, hanalysis⟩ := hyields hexact
    have hlog : (Outcome.analysis (ofSource features library source)).log = { strict := features.strict } := by
      rw [hanalysis]; rfl
    rw [log, hlog]
    cases strict <;> simp [Log.promoted, Log.hasErrors, Log.errorCount, Log.count]
  refine ⟨fun strict => ⟨fun hlog => ?_, fun hexact => hclean hexact strict⟩, fun hexact => ?_⟩
  · by_contra hnot
    rw [hasErrors_log (hfails hnot) strict] at hlog
    cases hlog
  · obtain ⟨m, name, span, type, hm, hblock, hanalysis⟩ := hyields hexact
    refine ⟨m, _, ⟨hm, by rw [hanalysis]; rfl, false, hclean hexact false⟩, by rw [hblock]; rfl, ?_⟩
    rw [store, hanalysis]
    have hdecl := Store.decl_addDecl_self (Analysis.start features library).store
      ((beginModule name (.start features library)).2.declaration ⟨"c", false, span⟩
        (.constant (some (.integer e.value))) type)
    exact ⟨congrArg (·.name) hdecl, congrArg (·.role) hdecl⟩

/-- The expression `-(1 - 8) DIV 2 - 5`. -/
def floored : Arith .sum := .add (.leading .minus (.multiply (.factor (.plain (.paren
    (.add (.term (.factor (.plain (.literal 1 (by decide))))) .minus
      (.factor (.plain (.literal 8 (by decide))))))))
    .div (.plain (.literal 2 (by decide))))) .minus (.factor (.plain (.literal 5 (by decide))))

/-- The sign applies to the whole quotient, which is `-4`. -/
theorem floored_accepted :
    floored.Exact ∧ ∃ m c, (ofSource {} {} "MODULE M; CONST c = -(1 - 8) DIV 2 - 5; END M.").Accepts m ∧
      m.block.constants = [c] ∧
      ((ofSource {} {} "MODULE M; CONST c = -(1 - 8) DIV 2 - 5; END M.").store.decl c).role =
        .constant (some (.integer (-1))) := by
  have hspells : Scan.Spells (constantModule floored)
      "MODULE M; CONST c = -(1 - 8) DIV 2 - 5; END M.".toList := by
    have hname : ∀ c ∈ ([] : List Char), Scan.isIdentChar c = true := by simp
    refine .keyword .MODULE (ends_of_head rfl) (.blank rfl ?_)
    refine .ident 'M' [] rfl hname (by decide) (ends_of_head rfl) ?_
    refine .symbol .semicolon (ends_of_head rfl) (.blank rfl ?_)
    refine .keyword .CONST (ends_of_head rfl) (.blank rfl ?_)
    refine .ident 'c' [] rfl hname (by decide) (ends_of_head rfl) (.blank rfl ?_)
    refine .symbol .eq (ends_of_head rfl) (.blank rfl (.symbol .minus (ends_of_head rfl) ?_))
    refine .symbol .leftParen (ends_of_head rfl) ?_
    refine .number ['1'] (by simp) (by simp [isDigit]) (by decide) (ends_of_head (by decide)) (.blank rfl ?_)
    refine .symbol .minus (ends_of_head rfl) (.blank rfl ?_)
    refine .number ['8'] (by simp) (by simp [isDigit]) (by decide) (ends_of_head (by decide)) ?_
    refine .symbol .rightParen (ends_of_head rfl) ?_
    refine .blank rfl (.keyword .DIV (ends_of_head rfl) (.blank rfl ?_))
    refine .number ['2'] (by simp) (by simp [isDigit]) (by decide) (ends_of_head (by decide)) (.blank rfl ?_)
    refine .symbol .minus (ends_of_head rfl) (.blank rfl ?_)
    refine .number ['5'] (by simp) (by simp [isDigit]) (by decide) (ends_of_head (by decide)) ?_
    refine .symbol .semicolon (ends_of_head rfl) (.blank rfl ?_)
    refine .keyword .END (ends_of_head rfl) (.blank rfl ?_)
    exact .ident 'M' [] rfl hname (by decide) (ends_of_head rfl) (.symbol .dot (by simp) .nil)
  have hexact : floored.Exact := by decide
  obtain ⟨m, c, hm, hc, _, hrole⟩ := (hasErrors_eq_false_iff_exact {} {} hspells).2 hexact
  exact ⟨hexact, m, c, hm, hc, hrole⟩

end Outcome

end Oberon
