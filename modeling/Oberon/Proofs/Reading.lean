import Oberon.Proofs.Ensures

/-!
# Oberon.Proofs.Reading

What the analysis does in the course of reading a source without faults, phrase by phrase and
without the tokens: `ReadsX a p b` says that reading the phrase `p` takes the analysis from `a` to
`b`. There is one rule for every way in which a production calls the analysis. Everything that
holds of modules without errors is shown by induction on these rules; that reading a source follows
them is the subject of `Oberon.Proofs.Parsing`.

Between two actions only messages may be recorded, which is what the rules `silent` are for.
-/

namespace Oberon

open Analyze

/-- A name that a source can contain starts with a letter. -/
def IsWord (name : String) : Prop := ∃ c cs, name.toList = c :: cs ∧ Scan.isLetter c = true

/-- A name that a source can declare has no underscores. -/
structure IsPlain (name : String) : Prop where
  word : IsWord name
  joined : '_' ∉ name.toList

/-! ## Expressions -/

inductive ExprPhrase where
  | expr (e : Expr)
  | selector (s : Selector)

/-- Expressions and selectors, the latter not resolved yet. Nothing but the log of the analysis
changes, so there is only one state `a` to speak of. -/
inductive ReadsExpr (a : Analysis) : ExprPhrase → Prop
  | literal (lexis : Lexis) (value : Literal) (type : Ty) (span : Span)
      (h : Grammar.literalOf? lexis = some (value, type)) :
      ReadsExpr a (.expr (.literal value { type, span }))
  | constant {b c : Analysis} {e : Expr} (span : Span) (ident : QualIdent) (chain : List Selector)
      (hc : ∀ s ∈ chain, ReadsExpr a (.selector s)) (hb : a.Silent b)
      (h : (constant span ident chain).Succeeds b (some e) c) : ReadsExpr a (.expr e)
  | designator {b c : Analysis} {e : Expr} (span : Span) (ident : QualIdent)
      (chain : List Selector) (hc : ∀ s ∈ chain, ReadsExpr a (.selector s)) (hb : a.Silent b)
      (h : (designator span ident chain).Succeeds b e c) : ReadsExpr a (.expr e)
  | unary {b c : Analysis} {x e : Expr} (span : Span) (op : UnaryOp) (hx : ReadsExpr a (.expr x))
      (hb : a.Silent b) (h : (unary span op (some x)).Succeeds b (some e) c) :
      ReadsExpr a (.expr e)
  | binary {b c : Analysis} {x y e : Expr} (span : Span) (op : BinaryOp)
      (hx : ReadsExpr a (.expr x)) (hy : ReadsExpr a (.expr y)) (hb : a.Silent b)
      (h : (binary span op (some x) (some y)).Succeeds b (some e) c) : ReadsExpr a (.expr e)
  | range {b c : Analysis} {x y e : Expr} (span : Span) (hx : ReadsExpr a (.expr x))
      (hy : ReadsExpr a (.expr y)) (hb : a.Silent b)
      (h : (range span (some x) (some y)).Succeeds b (some e) c) : ReadsExpr a (.expr e)
  | set (span : Span)
      (hx : ∀ x ∈ xs, ReadsExpr a (.expr x)) (hb : a.Silent b)
      (h : (setOf span xs).Succeeds b e c) : ReadsExpr a (.expr e)
  | field (name : String) (span : Span) : ReadsExpr a (.selector (.field name none { span }))
  | index {xs : List Expr} (span : Span) (hx : ∀ x ∈ xs, ReadsExpr a (.expr x)) :
      ReadsExpr a (.selector (.index xs { span }))
  | deref (span : Span) : ReadsExpr a (.selector (.deref false { span }))
  | call {xs : List Expr} (span : Span) (hx : ∀ x ∈ xs, ReadsExpr a (.expr x)) :
      ReadsExpr a (.selector (.call xs { span }))

/-- Messages recorded before an expression do not matter to it. -/
lemma ReadsExpr.of_silent {a b : Analysis} (hs : a.Silent b) (h : ReadsExpr b p) :
    ReadsExpr a p := by
  induction h with
  | literal lexis value type span h => exact .literal lexis value type span h
  | constant span ident chain _ hb h ih => exact .constant span ident chain ih (hs.trans hb) h
  | designator span ident chain _ hb h ih => exact .designator span ident chain ih (hs.trans hb) h
  | unary span op _ hb h ih => exact .unary span op ih (hs.trans hb) h
  | binary span op _ _ hb h ihx ihy => exact .binary span op ihx ihy (hs.trans hb) h
  | range span _ _ hb h ihx ihy => exact .range span ihx ihy (hs.trans hb) h
  | set span _ hb h ih => exact .set span ih (hs.trans hb) h
  | field name span => exact .field name span
  | index span _ ih => exact .index span ih
  | deref span => exact .deref span
  | call span _ ih => exact .call span ih

/-! ## Types -/

/-- Formal parameters, group by group. -/
inductive ReadsParams (a : Analysis) : List DeclId → Analysis → Prop
  | none : ReadsParams a [] a
  | group (ident : QualIdent)
      (dimensions : Nat) (byReference : Bool) (names : List Ident) (hp : ReadsParams a ps b)
      (ht : (typeReference ident dimensions).Succeeds b t c)
      (hn : ∀ i ∈ names, IsWord i.name)
      (h : (Grammar.declareParameters byReference (some t) names ps).Succeeds c qs d) :
      ReadsParams a qs d
  | silent {b c : Analysis} {ps : List DeclId} (hp : ReadsParams a ps b) (hs : b.Silent c) :
      ReadsParams a ps c

lemma ReadsParams.of_silent {a b c : Analysis} (hs : a.Silent b) (h : ReadsParams b ps c) :
    ReadsParams a ps c := by
  induction h with
  | none => exact .silent .none hs
  | group ident dimensions byReference names _ ht hn h ih =>
    exact .group ident dimensions byReference names ih ht hn h
  | silent _ hs ih => exact .silent ih hs

/-- Formal parameters with the type of the result. -/
inductive ReadsFormals (a : Analysis) : List DeclId → Option Ty → Analysis → Prop
  | proper {b : Analysis} {ps : List DeclId} (hp : ReadsParams a ps b) : ReadsFormals a ps none b
  | function (ident : QualIdent)
      (hp : ReadsParams a ps b) (ht : (typeReference ident 0).Succeeds b t c) :
      ReadsFormals a ps (some t) c

/-- The type of a procedure whose parameters have a scope of their own. -/
inductive ReadsSignature (a : Analysis) : Ty → Analysis → Prop
  | mk {b c d e : Analysis} {ps : List DeclId} {result : Option Ty} {t : Ty} (span : Span)
      (variadic : Bool) (ho : openScope.Succeeds a () b) (hf : ReadsFormals b ps result c)
      (hc : closeScope.Succeeds c () d)
      (h : (procedureType span ps variadic result).Succeeds d t e) : ReadsSignature a t e

inductive TypePhrase where
  | type (t : Ty)
  | fields (ids : List DeclId)
  /-- The base of the pointer type `t`, which has none yet. -/
  | base (t : Ty)

inductive ReadsType : Analysis → TypePhrase → Analysis → Prop
  | name (ident : QualIdent)
      (h : (typeReference ident 0).Succeeds a t b) : ReadsType a (.type t) b
  | array {a b c : Analysis} {member t : Ty} (span : Span) (dimensions : List Expr)
      (hd : ∀ e ∈ dimensions, ReadsExpr a (.expr e)) (hm : ReadsType a (.type member) b)
      (h : (arrayType span (dimensions.map some) (some member)).Succeeds b t c) :
      ReadsType a (.type t) c
  | record {a b c : Analysis} {ids : List DeclId} {t : Ty} (base : Option QualIdent)
      (hf : ReadsType a (.fields ids) b) (h : (recordType base ids).Succeeds b t c) :
      ReadsType a (.type t) c
  | pointer {a b c : Analysis} {t : Ty} (h : beginPointer.Succeeds a t b)
      (hb : ReadsType b (.base t) c) : ReadsType a (.type t) c
  | procedure {a b : Analysis} {t : Ty} (h : ReadsSignature a t b) : ReadsType a (.type t) b
  | noFields (a : Analysis) : ReadsType a (.fields []) a
  | fieldList (names : List IdentDef)
      (hf : ReadsType a (.fields ids) b) (ht : ReadsType b (.type t) c)
      (h : (Grammar.declareFields (some t) names ids).Succeeds c jds d) :
      ReadsType a (.fields jds) d
  | base {a b c : Analysis} {t base : Ty} (span : Span) (hb : ReadsType a (.type base) b)
      (h : (endPointer span t (some base)).Succeeds b () c) : ReadsType a (.base t) c
  | forward {a b : Analysis} {t : Ty} (ident : QualIdent) (hd : a.isDeclared ident = false)
      (h : (forwardPointer t ident).Succeeds a () b) : ReadsType a (.base t) b
  | silent {a b c d : Analysis} {p : TypePhrase} (hb : a.Silent b) (h : ReadsType b p c)
      (hd : c.Silent d) : ReadsType a p d

/-! ## Statements -/

inductive StatementPhrase where
  | statement (s : Statement)
  | statements (ss : List Statement)
  | branches (bs : List Branch)
  | otherwise (o : Option (List Statement))
  | arms (as : List Arm)

inductive ReadsStatement : Analysis → StatementPhrase → Analysis → Prop
  | assign {a b c d e : Analysis} {target value : Expr} {s : Statement} (span tspan : Span)
      (ident : QualIdent) (chain : List Selector)
      (hs : ∀ s ∈ chain, ReadsExpr a (.selector s)) (hb : a.Silent b)
      (ht : (designator tspan ident chain).Succeeds b target c)
      (hv : ReadsExpr c (.expr value)) (hd : c.Silent d)
      (h : (assignment span target (some value)).Succeeds d (some s) e) :
      ReadsStatement a (.statement s) e
  | call {a b c : Analysis} {s : Statement} (span : Span) (ident : QualIdent)
      (chain : List Selector) (hs : ∀ s ∈ chain, ReadsExpr a (.selector s)) (hb : a.Silent b)
      (h : (callStatement span ident chain).Succeeds b (some s) c) :
      ReadsStatement a (.statement s) c
  | cond {a b c d e : Analysis} {test : Expr} {body : List Statement} {elsifs : List Branch}
      {o : Option (List Statement)} {s : Statement} (span : Span)
      (ht : ReadsExpr a (.expr test)) (hb : ReadsStatement a (.statements body) b)
      (he : ReadsStatement b (.branches elsifs) c) (ho : ReadsStatement c (.otherwise o) d)
      (h : (conditional span (some test) body elsifs o).Succeeds d (some s) e) :
      ReadsStatement a (.statement s) e
  | select {a b c d e f : Analysis} {subject : Expr} {arms : List Arm}
      {o : Option (List Statement)} {s : Statement} (span : Span)
      (hs : ReadsExpr a (.expr subject)) (hb : a.Silent b)
      (hc : (beginCase subject).Succeeds b () c) (ha : ReadsStatement c (.arms arms) d)
      (ho : ReadsStatement d (.otherwise o) e)
      (h : (endCase span subject arms o).Succeeds e s f) : ReadsStatement a (.statement s) f
  | loop {a b c d : Analysis} {body : List Statement} {s : Statement} (span : Span)
      (hl : beginLoop.Succeeds a () b) (hb : ReadsStatement b (.statements body) c)
      (h : (Analyze.loop span body).Succeeds c s d) : ReadsStatement a (.statement s) d
  | while {a b c d e : Analysis} {test : Expr} {body : List Statement} {elsifs : List Branch}
      {s : Statement} (span : Span) (hl : beginLoop.Succeeds a () b)
      (ht : ReadsExpr b (.expr test)) (hb : ReadsStatement b (.statements body) c)
      (he : ReadsStatement c (.branches elsifs) d)
      (h : (whileLoop span (some test) body elsifs).Succeeds d (some s) e) :
      ReadsStatement a (.statement s) e
  | repeat {a b c d e : Analysis} {test : Expr} {body : List Statement} {s : Statement}
      (span : Span) (hl : beginLoop.Succeeds a () b)
      (hb : ReadsStatement b (.statements body) c) (ht : ReadsExpr c (.expr test))
      (hd : c.Silent d) (h : (repeatLoop span (some test) body).Succeeds d (some s) e) :
      ReadsStatement a (.statement s) e
  | for {a b c d : Analysis} {low high : Expr} {step : Option Expr} {body : List Statement}
      {s : Statement} (span : Span) (ident : QualIdent) (hl : beginLoop.Succeeds a () b)
      (hlow : ReadsExpr b (.expr low)) (hhigh : ReadsExpr b (.expr high))
      (hstep : ∀ e ∈ step, ReadsExpr b (.expr e))
      (hb : ReadsStatement b (.statements body) c)
      (h : (forLoop span ident (some low) (some high) step body).Succeeds c (some s) d) :
      ReadsStatement a (.statement s) d
  | exit {a b : Analysis} {s : Statement} (span : Span) (h : (exit span).Succeeds a s b) :
      ReadsStatement a (.statement s) b
  | return {a b c : Analysis} {value : Option Expr} {s : Statement} (span : Span)
      (hv : ∀ e ∈ value, ReadsExpr a (.expr e)) (hb : a.Silent b)
      (h : (returnFrom span value).Succeeds b s c) : ReadsStatement a (.statement s) c
  | nil (a : Analysis) : ReadsStatement a (.statements []) a
  | snoc {a b c : Analysis} {ss : List Statement} {s : Statement}
      (hs : ReadsStatement a (.statements ss) b) (h : ReadsStatement b (.statement s) c) :
      ReadsStatement a (.statements (ss ++ [s])) c
  | noBranches (a : Analysis) : ReadsStatement a (.branches []) a
  | branch {a b c d : Analysis} {bs : List Branch} {br : Branch} {test : Expr}
      {body : List Statement} (span : Span) (hs : ReadsStatement a (.branches bs) b)
      (ht : ReadsExpr b (.expr test)) (hb : ReadsStatement b (.statements body) c)
      (h : (branch span (some test) body).Succeeds c (some br) d) :
      ReadsStatement a (.branches (bs ++ [br])) d
  | noOtherwise (a : Analysis) : ReadsStatement a (.otherwise none) a
  | otherwise (h : ReadsStatement a (.statements body) b) : ReadsStatement a (.otherwise (some body)) b
  | noArms (a : Analysis) : ReadsStatement a (.arms []) a
  | arm {a b c d e f : Analysis} {as : List Arm} {arm : Arm} {labels : List Expr}
      {body : List Statement} {l : CaseLabels} (span : Span) (hs : ReadsStatement a (.arms as) b)
      (hl : ∀ e ∈ labels, ReadsExpr b (.expr e)) (hb : b.Silent c)
      (hc : (caseLabels span labels).Succeeds c l d)
      (hd : ReadsStatement d (.statements body) e) (h : (caseArm l body).Succeeds e arm f) :
      ReadsStatement a (.arms (as ++ [arm])) f
  | silent {a b c d : Analysis} {p : StatementPhrase} (hb : a.Silent b)
      (h : ReadsStatement b p c) (hd : c.Silent d) : ReadsStatement a p d

/-! ## Declarations -/

/-- The declarations of one section, each behind those before it. -/
inductive SectionPhrase where
  | constants (ids : List DeclId)
  | types (ids : List DeclId)
  | vars (ids : List DeclId)

inductive ReadsSection : Analysis → SectionPhrase → Analysis → Prop
  | noConstants (a : Analysis) : ReadsSection a (.constants []) a
  | constant {a b c d : Analysis} {ids : List DeclId} {value : Expr} {id : DeclId}
      (ident : IdentDef) (hn : IsPlain ident.name) (hs : ReadsSection a (.constants ids) b)
      (hv : ReadsExpr b (.expr value)) (hb : b.Silent c)
      (h : (declareConstant ident (some value)).Succeeds c id d) :
      ReadsSection a (.constants (ids ++ [id])) d
  | noTypes (a : Analysis) : ReadsSection a (.types []) a
  | type {a b c d : Analysis} {ids : List DeclId} {t : Ty} {id : DeclId} (ident : IdentDef)
      (hn : IsPlain ident.name) (hs : ReadsSection a (.types ids) b) (ht : ReadsType b (.type t) c)
      (h : (declareType ident (some t)).Succeeds c id d) :
      ReadsSection a (.types (ids ++ [id])) d
  | pointer {a b c d e : Analysis} {ids : List DeclId} {t : Ty} {id : DeclId} (ident : IdentDef)
      (hn : IsPlain ident.name) (hs : ReadsSection a (.types ids) b)
      (hp : beginPointer.Succeeds b t c)
      (hd : (declareType ident (some t)).Succeeds c id d) (h : ReadsType d (.base t) e) :
      ReadsSection a (.types (ids ++ [id])) e
  | noVars (a : Analysis) : ReadsSection a (.vars []) a
  | vars (names : List IdentDef)
      (hs : ReadsSection a (.vars ids) b) (ht : ReadsType b (.type t) c)
      (hn : ∀ i ∈ names, IsPlain i.name)
      (h : (Grammar.declareVariables (some t) names ids).Succeeds c jds d) :
      ReadsSection a (.vars jds) d
  | silent {a b c d : Analysis} {p : SectionPhrase} (hb : a.Silent b) (h : ReadsSection b p c)
      (hd : c.Silent d) : ReadsSection a p d

/-! ## Procedures and modules -/

inductive BlockPhrase where
  | block (b : Block)
  | procedure (p : Procedure)
  | procedures (ps : List Procedure)

inductive ReadsBlock : Analysis → BlockPhrase → Analysis → Prop
  | block {a b c d e f g : Analysis} {constants types vars : List DeclId}
      {procedures : List Procedure} {body : List Statement}
      (hc : ReadsSection a (.constants constants) b) (ht : ReadsSection b (.types types) c)
      (hv : ReadsSection c (.vars vars) d) (hs : settleForwards.Succeeds d () e)
      (hp : ReadsBlock e (.procedures procedures) f)
      (hb : ReadsStatement f (.statements body) g) :
      ReadsBlock a (.block (.mk constants types vars procedures body)) g
  | external {a b c : Analysis} {t : Ty} {p : Procedure} (ident : IdentDef)
      (convention : Option (String × Span)) (name : Option String) (hn : IsPlain ident.name)
      (ht : ReadsSignature a t b)
      {b' : Analysis} (hb : b.Silent b')
      (h : (declareExternal ident convention t name).Succeeds b' p c) :
      ReadsBlock a (.procedure p) c
  | defined {a b c d e f g : Analysis} {id : DeclId} {ps : List DeclId} {result : Option Ty}
      {t : Ty} {block : Block} {p : Procedure} (ident : IdentDef) (span : Span) (variadic : Bool)
      (last : Ident) (hn : IsPlain ident.name) (hi : (beginProcedure ident).Succeeds a id b)
      (hf : ReadsFormals b ps result c)
      (ht : (procedureType span ps variadic result).Succeeds c t d)
      (hs : (setSignature id t).Succeeds d () e) (hb : ReadsBlock e (.block block) f)
      (h : (endProcedure id block last).Succeeds f p g) : ReadsBlock a (.procedure p) g
  | nil (a : Analysis) : ReadsBlock a (.procedures []) a
  | snoc {a b c : Analysis} {ps : List Procedure} {p : Procedure}
      (hs : ReadsBlock a (.procedures ps) b) (h : ReadsBlock b (.procedure p) c) :
      ReadsBlock a (.procedures (ps ++ [p])) c
  | silent {a b c d : Analysis} {p : BlockPhrase} (hb : a.Silent b) (h : ReadsBlock b p c)
      (hd : c.Silent d) : ReadsBlock a p d

inductive ReadsImports (a : Analysis) : List Import → Analysis → Prop
  | none : ReadsImports a [] a
  | entry (span : Span) (rename : Option Ident)
      (ident : Ident) (hs : ReadsImports a is b)
      (h : (importModule span rename ident is).Succeeds b (some i) c) :
      ReadsImports a (is ++ [i]) c
  | silent {b c : Analysis} {is : List Import} (h : ReadsImports a is b) (hb : b.Silent c) :
      ReadsImports a is c

lemma ReadsImports.of_silent {a b c : Analysis} (hs : a.Silent b) (h : ReadsImports b is c) :
    ReadsImports a is c := by
  induction h with
  | none => exact .silent .none hs
  | entry span rename ident _ h ih => exact .entry span rename ident ih h
  | silent _ hb ih => exact .silent ih hb

inductive ReadsModule (a : Analysis) : Module → Analysis → Prop
  | mk {b c d e f : Analysis} {imports : List Import} {block : Block} (name : Ident) (span : Span)
      (hb : a.Silent b) (hn : (beginModule name).Succeeds b () c) (hi : ReadsImports c imports d)
      (h : ReadsBlock d (.block block) e) (he : e.Silent f) :
      ReadsModule a { name := name.name, span, imports, block } f

end Oberon
