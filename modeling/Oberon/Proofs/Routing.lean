import Oberon.Lifting.Route
import Oberon.Proofs.Parts

/-!
# Oberon.Proofs.Routing

Routing rewrites designators and leaves everything around them as it is. `Reroutes refers` relates a
phrase to what it becomes, where `refers` says what may become of a designator whose selectors have
been rewritten already. Routing succeeds if it does so for the declarations a phrase refers to.
-/

namespace Oberon

/-- What becomes of a designator: its name, its declaration, its selectors and its note, and the
expression in its place. -/
abbrev Refers := QualIdent → DeclId → List Selector → Note → Expr → Prop

/-- An expression or a part of one, and what it becomes. -/
inductive ExprRoute where
  | expr (e e' : Expr)
  | exprs (xs xs' : List Expr)
  | selector (s s' : Selector)
  | selectors (ss ss' : List Selector)

inductive Reroutes (refers : Refers) : ExprRoute → Prop
  | literal (v : Literal) (note : Note) :
      Reroutes refers (.expr (.literal v note) (.literal v note))
  | unresolved (ident : QualIdent) (note : Note)
      (hs : Reroutes refers (.selectors ss ss')) :
      Reroutes refers (.expr (.designator ident none ss note) (.designator ident none ss' note))
  | designator {ident : QualIdent} {id : DeclId} {ss ss' : List Selector} {note : Note} {e : Expr}
      (hs : Reroutes refers (.selectors ss ss')) (h : refers ident id ss' note e) :
      Reroutes refers (.expr (.designator ident (some id) ss note) e)
  | unary {x x' : Expr} (op : UnaryOp) (note : Note) (hx : Reroutes refers (.expr x x')) :
      Reroutes refers (.expr (.unary op x note) (.unary op x' note))
  | binary {x x' y y' : Expr} (op : BinaryOp) (note : Note) (hx : Reroutes refers (.expr x x'))
      (hy : Reroutes refers (.expr y y')) :
      Reroutes refers (.expr (.binary op x y note) (.binary op x' y' note))
  | range {x x' y y' : Expr} (note : Note) (hx : Reroutes refers (.expr x x'))
      (hy : Reroutes refers (.expr y y')) :
      Reroutes refers (.expr (.range x y note) (.range x' y' note))
  | set (note : Note) (hx : Reroutes refers (.exprs xs xs')) :
      Reroutes refers (.expr (.set xs note) (.set xs' note))
  | nil : Reroutes refers (.exprs [] [])
  | cons {x x' : Expr} {xs xs' : List Expr} (hx : Reroutes refers (.expr x x'))
      (hs : Reroutes refers (.exprs xs xs')) : Reroutes refers (.exprs (x :: xs) (x' :: xs'))
  | index {xs xs' : List Expr} (mark : Mark) (hx : Reroutes refers (.exprs xs xs')) :
      Reroutes refers (.selector (.index xs mark) (.index xs' mark))
  | call {xs xs' : List Expr} (mark : Mark) (hx : Reroutes refers (.exprs xs xs')) :
      Reroutes refers (.selector (.call xs mark) (.call xs' mark))
  | field (name : String) (decl : Option DeclId) (mark : Mark) :
      Reroutes refers (.selector (.field name decl mark) (.field name decl mark))
  | deref (implicit : Bool) (mark : Mark) :
      Reroutes refers (.selector (.deref implicit mark) (.deref implicit mark))
  | guard (ident : QualIdent) (type : Ty) (mark : Mark) :
      Reroutes refers (.selector (.guard ident type mark) (.guard ident type mark))
  | noSelectors : Reroutes refers (.selectors [] [])
  | selectors (h : Reroutes refers (.selector s s'))
      (hs : Reroutes refers (.selectors ss ss')) :
      Reroutes refers (.selectors (s :: ss) (s' :: ss'))

/-- A part of a body, and what it becomes. -/
inductive BodyRoute where
  | statement (s s' : Statement)
  | statements (ss ss' : List Statement)
  | otherwise (o o' : Option (List Statement))
  | branches (bs bs' : List Branch)
  | arms (as as' : List Arm)

inductive ReroutesBody (refers : Refers) : BodyRoute → Prop
  | assign {t t' v v' : Expr} (span : Span) (ht : Reroutes refers (.expr t t'))
      (hv : Reroutes refers (.expr v v')) :
      ReroutesBody refers (.statement (.assign t v span) (.assign t' v' span))
  | call {e e' : Expr} (span : Span) (he : Reroutes refers (.expr e e')) :
      ReroutesBody refers (.statement (.call e span) (.call e' span))
  | cond {t t' : Expr} {body body' : List Statement} {elsifs elsifs' : List Branch}
      {o o' : Option (List Statement)} (span : Span) (ht : Reroutes refers (.expr t t'))
      (hb : ReroutesBody refers (.statements body body'))
      (he : ReroutesBody refers (.branches elsifs elsifs'))
      (ho : ReroutesBody refers (.otherwise o o')) :
      ReroutesBody refers
        (.statement (.cond t body elsifs o span) (.cond t' body' elsifs' o' span))
  | select {t t' : Expr} {arms arms' : List Arm} {o o' : Option (List Statement)} (span : Span)
      (ht : Reroutes refers (.expr t t')) (ha : ReroutesBody refers (.arms arms arms'))
      (ho : ReroutesBody refers (.otherwise o o')) :
      ReroutesBody refers (.statement (.select t arms o span) (.select t' arms' o' span))
  | loop {body body' : List Statement} (span : Span)
      (hb : ReroutesBody refers (.statements body body')) :
      ReroutesBody refers (.statement (.loop body span) (.loop body' span))
  | while (span : Span)
      (ht : Reroutes refers (.expr t t')) (hb : ReroutesBody refers (.statements body body'))
      (he : ReroutesBody refers (.branches elsifs elsifs')) :
      ReroutesBody refers
        (.statement (.while t body elsifs span) (.while t' body' elsifs' span))
  | repeat (span : Span)
      (hb : ReroutesBody refers (.statements body body')) (ht : Reroutes refers (.expr t t')) :
      ReroutesBody refers (.statement (.repeat body t span) (.repeat body' t' span))
  | for (span : Span)
      (hx : Reroutes refers (.expr x x')) (hl : Reroutes refers (.expr low low'))
      (hh : Reroutes refers (.expr high high')) (hs : Reroutes refers (.expr step step'))
      (hb : ReroutesBody refers (.statements body body')) :
      ReroutesBody refers
        (.statement (.for x low high step body span) (.for x' low' high' step' body' span))
  | exit (span : Span) : ReroutesBody refers (.statement (.exit span) (.exit span))
  | return (span : Span) (he : Reroutes refers (.expr e e')) :
      ReroutesBody refers (.statement (.return (some e) span) (.return (some e') span))
  | leave (span : Span) :
      ReroutesBody refers (.statement (.return none span) (.return none span))
  | nil : ReroutesBody refers (.statements [] [])
  | cons {s s' : Statement} {ss ss' : List Statement} (h : ReroutesBody refers (.statement s s'))
      (hs : ReroutesBody refers (.statements ss ss')) :
      ReroutesBody refers (.statements (s :: ss) (s' :: ss'))
  | noOtherwise : ReroutesBody refers (.otherwise none none)
  | otherwise (hb : ReroutesBody refers (.statements body body')) :
      ReroutesBody refers (.otherwise (some body) (some body'))
  | noBranches : ReroutesBody refers (.branches [] [])
  | branch {t t' : Expr} {body body' : List Statement} {bs bs' : List Branch} (span : Span)
      (ht : Reroutes refers (.expr t t')) (hb : ReroutesBody refers (.statements body body'))
      (hs : ReroutesBody refers (.branches bs bs')) :
      ReroutesBody refers (.branches (.mk t body span :: bs) (.mk t' body' span :: bs'))
  | noArms : ReroutesBody refers (.arms [] [])
  | arm {body body' : List Statement} {as as' : List Arm} (labels : CaseLabels)
      (hb : ReroutesBody refers (.statements body body'))
      (hs : ReroutesBody refers (.arms as as')) :
      ReroutesBody refers (.arms (.mk labels body :: as) (.mk labels body' :: as'))

lemma Reroutes.mono (h : Reroutes refers p)
    (hr : ∀ ident id ss note e, refers ident id ss note e → refers' ident id ss note e) :
    Reroutes refers' p := by
  induction h with
  | literal v note => exact .literal v note
  | unresolved ident note _ ih => exact .unresolved ident note ih
  | designator _ h ih => exact .designator ih (hr _ _ _ _ _ h)
  | unary op note _ ih => exact .unary op note ih
  | binary op note _ _ ihx ihy => exact .binary op note ihx ihy
  | range note _ _ ihx ihy => exact .range note ihx ihy
  | set note _ ih => exact .set note ih
  | nil => exact .nil
  | cons _ _ ihx ihs => exact .cons ihx ihs
  | index mark _ ih => exact .index mark ih
  | call mark _ ih => exact .call mark ih
  | field name decl mark => exact .field name decl mark
  | deref implicit mark => exact .deref implicit mark
  | guard ident type mark => exact .guard ident type mark
  | noSelectors => exact .noSelectors
  | selectors _ _ ih ihs => exact .selectors ih ihs

lemma ReroutesBody.mono (h : ReroutesBody refers p)
    (hr : ∀ ident id ss note e, refers ident id ss note e → refers' ident id ss note e) :
    ReroutesBody refers' p := by
  induction h with
  | assign span ht hv => exact .assign span (ht.mono hr) (hv.mono hr)
  | call span he => exact .call span (he.mono hr)
  | cond span ht _ _ _ ihb ihe iho => exact .cond span (ht.mono hr) ihb ihe iho
  | select span ht _ _ iha iho => exact .select span (ht.mono hr) iha iho
  | loop span _ ih => exact .loop span ih
  | «while» span ht _ _ ihb ihe => exact .while span (ht.mono hr) ihb ihe
  | «repeat» span _ ht ih => exact .repeat span ih (ht.mono hr)
  | «for» span hx hl hh hs _ ih =>
    exact .for span (hx.mono hr) (hl.mono hr) (hh.mono hr) (hs.mono hr) ih
  | exit span => exact .exit span
  | «return» span he => exact .return span (he.mono hr)
  | leave span => exact .leave span
  | nil => exact .nil
  | cons _ _ ih ihs => exact .cons ih ihs
  | noOtherwise => exact .noOtherwise
  | otherwise _ ih => exact .otherwise ih
  | noBranches => exact .noBranches
  | branch span ht _ _ ihb ihs => exact .branch span (ht.mono hr) ihb ihs
  | noArms => exact .noArms
  | arm labels _ _ ihb ihs => exact .arm labels ihb ihs

/-! ## Success -/

namespace Lifting

/-- Designators of a declaration can be routed. -/
def Routable (l : Lifting) (env : Environment) (refers : Refers) (id : DeclId) : Prop :=
  ∀ ident ss note, ∃ e, routeDesignator l env ident (some id) ss note = .ok e ∧
    refers ident id ss note e

mutual

lemma routeExpr_ok : ∀ e : Expr, (∀ id ∈ e.roots, Routable l env refers id) →
    ∃ e', routeExpr l env e = .ok e' ∧ Reroutes refers (.expr e e')
  | .literal v note, _ => ⟨.literal v note, rfl, .literal v note⟩
  | .designator ident decl ss note, h => by
    rw [Expr.roots_designator, List.forall_mem_append] at h
    obtain ⟨ss', hrun, hs⟩ := routeSelectors_ok ss h.2
    cases decl with
    | none =>
      refine ⟨.designator ident none ss' note, ?_, .unresolved ident note hs⟩
      simp only [routeExpr, hrun]
      rfl
    | some id =>
      obtain ⟨e, he, hr⟩ := h.1 id List.mem_cons_self ident ss' note
      refine ⟨e, ?_, .designator hs hr⟩
      simp only [routeExpr, hrun]
      exact he
  | .unary op x note, h => by
    obtain ⟨x', hx, hr⟩ := routeExpr_ok x h
    refine ⟨.unary op x' note, ?_, .unary op note hr⟩
    simp only [routeExpr, hx]
    rfl
  | .binary op x y note, h => by
    rw [Expr.roots_binary, List.forall_mem_append] at h
    obtain ⟨x', hx, hrx⟩ := routeExpr_ok x h.1
    obtain ⟨y', hy, hry⟩ := routeExpr_ok y h.2
    refine ⟨.binary op x' y' note, ?_, .binary op note hrx hry⟩
    simp only [routeExpr, hx, hy]
    rfl
  | .range x y note, h => by
    rw [Expr.roots_range, List.forall_mem_append] at h
    obtain ⟨x', hx, hrx⟩ := routeExpr_ok x h.1
    obtain ⟨y', hy, hry⟩ := routeExpr_ok y h.2
    refine ⟨.range x' y' note, ?_, .range note hrx hry⟩
    simp only [routeExpr, hx, hy]
    rfl
  | .set xs note, h => by
    obtain ⟨xs', hx, hr⟩ := routeExprs_ok xs h
    refine ⟨.set xs' note, ?_, .set note hr⟩
    simp only [routeExpr, hx]
    rfl

lemma routeExprs_ok : ∀ xs, (∀ id ∈ Expr.rootsOf xs, Routable l env refers id) →
    ∃ xs', routeExprs l env xs = .ok xs' ∧ Reroutes refers (.exprs xs xs')
  | [], _ => ⟨[], rfl, .nil⟩
  | x :: xs, h => by
    rw [Expr.rootsOf_cons, List.forall_mem_append] at h
    obtain ⟨x', hx, hrx⟩ := routeExpr_ok x h.1
    obtain ⟨xs', hs, hrs⟩ := routeExprs_ok xs h.2
    refine ⟨x' :: xs', ?_, .cons hrx hrs⟩
    simp only [routeExprs, hx, hs]
    rfl

lemma routeSelector_ok : ∀ s : Selector, (∀ id ∈ s.roots, Routable l env refers id) →
    ∃ s', routeSelector l env s = .ok s' ∧ Reroutes refers (.selector s s')
  | .index xs mark, h => by
    obtain ⟨xs', hx, hr⟩ := routeExprs_ok xs h
    refine ⟨.index xs' mark, ?_, .index mark hr⟩
    simp only [routeSelector, hx]
    rfl
  | .call xs mark, h => by
    obtain ⟨xs', hx, hr⟩ := routeExprs_ok xs h
    refine ⟨.call xs' mark, ?_, .call mark hr⟩
    simp only [routeSelector, hx]
    rfl
  | .field name decl mark, _ => ⟨.field name decl mark, rfl, .field name decl mark⟩
  | .deref implicit mark, _ => ⟨.deref implicit mark, rfl, .deref implicit mark⟩
  | .guard ident type mark, _ => ⟨.guard ident type mark, rfl, .guard ident type mark⟩

lemma routeSelectors_ok : ∀ ss,
    (∀ id ∈ Selector.rootsOf ss, Routable l env refers id) →
    ∃ ss', routeSelectors l env ss = .ok ss' ∧ Reroutes refers (.selectors ss ss')
  | [], _ => ⟨[], rfl, .noSelectors⟩
  | s :: ss, h => by
    rw [Selector.rootsOf_cons, List.forall_mem_append] at h
    obtain ⟨s', hs, hr⟩ := routeSelector_ok s h.1
    obtain ⟨ss', hss, hrs⟩ := routeSelectors_ok ss h.2
    refine ⟨s' :: ss', ?_, .selectors hr hrs⟩
    simp only [routeSelectors, hs, hss]
    rfl

end

/-- Everything but labels can be routed. -/
def RoutableAll (l : Lifting) (env : Environment) (refers : Refers) (uses : List (Use × Expr)) :
    Prop :=
  ∀ u ∈ uses, u.1 ≠ .label → ∀ id ∈ u.2.roots, Routable l env refers id

lemma routableAll_cons (h : RoutableAll l env refers ((u, e) :: uses)) (hu : u ≠ .label) :
    (∀ id ∈ e.roots, Routable l env refers id) ∧ RoutableAll l env refers uses :=
  ⟨h _ List.mem_cons_self hu, fun u hm => h u (List.mem_cons_of_mem _ hm)⟩

/-- What statements use themselves can be routed. -/
def RoutableIn (l : Lifting) (env : Environment) (refers : Refers) (ss : List Statement) : Prop :=
  ∀ s ∈ ss, RoutableAll l env refers s.own

lemma routableIn_cons : RoutableIn l env refers (s :: ss) ↔
    RoutableAll l env refers s.own ∧ RoutableIn l env refers ss :=
  List.forall_mem_cons

lemma routableIn_append : RoutableIn l env refers (ss ++ rest) ↔
    RoutableIn l env refers ss ∧ RoutableIn l env refers rest :=
  List.forall_mem_append

mutual

lemma routeStatement_ok : ∀ s : Statement, RoutableIn l env refers s.all →
    ∃ s', routeStatement l env s = .ok s' ∧ ReroutesBody refers (.statement s s')
  | .assign t v span, h => by
    obtain ⟨ht, h⟩ := routableAll_cons (routableIn_cons.1 h).1 nofun
    obtain ⟨t', hrt, ht⟩ := routeExpr_ok t ht
    obtain ⟨v', hrv, hv⟩ := routeExpr_ok v (routableAll_cons h nofun).1
    refine ⟨.assign t' v' span, ?_, .assign span ht hv⟩
    simp only [routeStatement, hrt, hrv]
    rfl
  | .call e span, h => by
    obtain ⟨e', hre, he⟩ := routeExpr_ok e (routableAll_cons (routableIn_cons.1 h).1 nofun).1
    refine ⟨.call e' span, ?_, .call span he⟩
    simp only [routeStatement, hre]
    rfl
  | .cond t body elsifs o span, h => by
    obtain ⟨h, hn⟩ := routableIn_cons.1 h
    rw [routableIn_append, routableIn_append] at hn
    obtain ⟨ht, he⟩ := routableAll_cons h nofun
    obtain ⟨t', hrt, ht⟩ := routeExpr_ok t ht
    obtain ⟨body', hrb, hb⟩ := routeStatements_ok body hn.1.1
    obtain ⟨elsifs', hre, he⟩ := routeBranches_ok elsifs he hn.1.2
    obtain ⟨o', hro, ho⟩ := routeOtherwise_ok o hn.2
    refine ⟨.cond t' body' elsifs' o' span, ?_, .cond span ht hb he ho⟩
    simp only [routeStatement, hrt, hrb, hre, hro]
    rfl
  | .select t arms o span, h => by
    obtain ⟨h, hn⟩ := routableIn_cons.1 h
    rw [routableIn_append] at hn
    obtain ⟨t', hrt, ht⟩ := routeExpr_ok t (routableAll_cons h nofun).1
    obtain ⟨arms', hra, ha⟩ := routeArms_ok arms hn.1
    obtain ⟨o', hro, ho⟩ := routeOtherwise_ok o hn.2
    refine ⟨.select t' arms' o' span, ?_, .select span ht ha ho⟩
    simp only [routeStatement, hrt, hra, hro]
    rfl
  | .loop body span, h => by
    obtain ⟨body', hrb, hb⟩ := routeStatements_ok body (routableIn_cons.1 h).2
    refine ⟨.loop body' span, ?_, .loop span hb⟩
    simp only [routeStatement, hrb]
    rfl
  | .while t body elsifs span, h => by
    obtain ⟨h, hn⟩ := routableIn_cons.1 h
    rw [routableIn_append] at hn
    obtain ⟨ht, he⟩ := routableAll_cons h nofun
    obtain ⟨t', hrt, ht⟩ := routeExpr_ok t ht
    obtain ⟨body', hrb, hb⟩ := routeStatements_ok body hn.1
    obtain ⟨elsifs', hre, he⟩ := routeBranches_ok elsifs he hn.2
    refine ⟨.while t' body' elsifs' span, ?_, .while span ht hb he⟩
    simp only [routeStatement, hrt, hrb, hre]
    rfl
  | .repeat body t span, h => by
    obtain ⟨h, hn⟩ := routableIn_cons.1 h
    obtain ⟨body', hrb, hb⟩ := routeStatements_ok body hn
    obtain ⟨t', hrt, ht⟩ := routeExpr_ok t (routableAll_cons h nofun).1
    refine ⟨.repeat body' t' span, ?_, .repeat span hb ht⟩
    simp only [routeStatement, hrb, hrt]
    rfl
  | .for x low high step body span, h => by
    obtain ⟨h, hn⟩ := routableIn_cons.1 h
    obtain ⟨hx, h⟩ := routableAll_cons h nofun
    obtain ⟨hl, h⟩ := routableAll_cons h nofun
    obtain ⟨hh, h⟩ := routableAll_cons h nofun
    obtain ⟨hs, _⟩ := routableAll_cons h nofun
    obtain ⟨x', hrx, hx⟩ := routeExpr_ok x hx
    obtain ⟨low', hrl, hl⟩ := routeExpr_ok low hl
    obtain ⟨high', hrh, hh⟩ := routeExpr_ok high hh
    obtain ⟨step', hrs, hs⟩ := routeExpr_ok step hs
    obtain ⟨body', hrb, hb⟩ := routeStatements_ok body hn
    refine ⟨.for x' low' high' step' body' span, ?_, .for span hx hl hh hs hb⟩
    simp only [routeStatement, hrx, hrl, hrh, hrs, hrb]
    rfl
  | .exit span, _ => ⟨.exit span, rfl, .exit span⟩
  | .return (some e) span, h => by
    obtain ⟨e', hre, he⟩ := routeExpr_ok e (routableAll_cons (routableIn_cons.1 h).1 nofun).1
    refine ⟨.return (some e') span, ?_, .return span he⟩
    simp only [routeStatement, hre]
    rfl
  | .return none span, _ => ⟨.return none span, rfl, .leave span⟩

lemma routeStatements_ok : ∀ ss, RoutableIn l env refers (Statement.allOf ss) →
    ∃ ss', routeStatements l env ss = .ok ss' ∧ ReroutesBody refers (.statements ss ss')
  | [], _ => ⟨[], rfl, .nil⟩
  | s :: ss, h => by
    rw [Statement.allOf, routableIn_append] at h
    obtain ⟨s', hrs, hs⟩ := routeStatement_ok s h.1
    obtain ⟨ss', hrss, hss⟩ := routeStatements_ok ss h.2
    refine ⟨s' :: ss', ?_, .cons hs hss⟩
    simp only [routeStatements, hrs, hrss]
    rfl

lemma routeOtherwise_ok : ∀ o : Option (List Statement),
    RoutableIn l env refers (Statement.allOfOtherwise o) →
    ∃ o', routeOtherwise l env o = .ok o' ∧ ReroutesBody refers (.otherwise o o')
  | none, _ => ⟨none, rfl, .noOtherwise⟩
  | some body, h => by
    obtain ⟨body', hrb, hb⟩ := routeStatements_ok body h
    refine ⟨some body', ?_, .otherwise hb⟩
    simp only [routeOtherwise, hrb]
    rfl

lemma routeBranches_ok : ∀ bs : List Branch,
    RoutableAll l env refers (bs.map fun b => (.value, b.test)) →
    RoutableIn l env refers (Branch.allOf bs) →
    ∃ bs', routeBranches l env bs = .ok bs' ∧ ReroutesBody refers (.branches bs bs')
  | [], _, _ => ⟨[], rfl, .noBranches⟩
  | .mk t body span :: bs, h, hn => by
    obtain ⟨ht, h⟩ := routableAll_cons h nofun
    rw [Branch.allOf, routableIn_append] at hn
    obtain ⟨t', hrt, ht⟩ := routeExpr_ok t ht
    obtain ⟨body', hrb, hb⟩ := routeStatements_ok body hn.1
    obtain ⟨bs', hrs, hs⟩ := routeBranches_ok bs h hn.2
    refine ⟨.mk t' body' span :: bs', ?_, .branch span ht hb hs⟩
    simp only [routeBranches, hrt, hrb, hrs]
    rfl

lemma routeArms_ok : ∀ as, RoutableIn l env refers (Arm.allOf as) →
    ∃ as', routeArms l env as = .ok as' ∧ ReroutesBody refers (.arms as as')
  | [], _ => ⟨[], rfl, .noArms⟩
  | .mk labels body :: as, h => by
    rw [Arm.allOf, routableIn_append] at h
    obtain ⟨body', hrb, hb⟩ := routeStatements_ok body h.1
    obtain ⟨as', hrs, hs⟩ := routeArms_ok as h.2
    refine ⟨.mk labels body' :: as', ?_, .arm labels hb hs⟩
    simp only [routeArms, hrb, hrs]
    rfl

end

end Lifting
end Oberon
