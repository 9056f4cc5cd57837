import Oberon.Proofs.Concrete
import Oberon.Proofs.Declaring
import Oberon.Proofs.Restoring

/-!
# Oberon.Proofs.Arising

Where the statements of a body come from. Each was formed from expressions that were read, or
resolved from what was read, in a state that differs from the one before the body in nothing that
matters but the types of the subjects of the type cases around it (`Analysis.Focuses`).
-/

namespace Oberon

open Analyze Analysis List

variable {id : DeclId}

/-! ## Narrowed stores -/

/-- Variables may have got other types, pointers for pointers and records for records, concrete ones
if `strict`. -/
structure Store.Narrowed (strict : Prop) (s s' : Store) : Prop where
  types : s'.types = s.types
  size : s'.decls.size = s.decls.size
  decl : ∀ id, s'.decl id = { s.decl id with type := s'.typeOf id }
  typeOf : ∀ id, s'.typeOf id = s.typeOf id ∨
    s.OneKind (s'.typeOf id) (s.typeOf id) ∧ (strict → (s'.typeOf id).Concrete)

namespace Store

variable {s s' : Store}

lemma OneKind.symm (h : s.OneKind t u) : s.OneKind u t := h.imp And.symm And.symm

lemma OneKind.trans (h : s.OneKind t u) (h' : s.OneKind u v) : s.OneKind t v := by
  rcases h with ⟨ht, hu⟩ | ⟨ht, hu⟩
  · rcases h' with ⟨_, hv⟩ | ⟨hu', _⟩
    · exact .inl ⟨ht, hv⟩
    · obtain ⟨r, hr⟩ := isRecord_iff.1 hu'
      obtain ⟨b, hb⟩ := isPointer_iff.1 hu
      rw [hr] at hb
      cases hb
  · rcases h' with ⟨hu', _⟩ | ⟨_, hv⟩
    · obtain ⟨b, hb⟩ := isPointer_iff.1 hu'
      obtain ⟨r, hr⟩ := isRecord_iff.1 hu
      rw [hr] at hb
      cases hb
    · exact .inr ⟨ht, hv⟩

lemma oneKind_congr (h : s'.types = s.types) : s'.OneKind t u ↔ s.OneKind t u := by
  have hf := form?_eq_of_types h
  simp only [OneKind, isPointer, isRecord, pointer?, record?, hf]

lemma Dynamic.oneKind (h : s.Dynamic t) : s.OneKind t t := h.imp (fun h => ⟨h, h⟩) fun h => ⟨h, h⟩

namespace Narrowed

protected lemma refl (s : Store) : s.Narrowed strict s := ⟨rfl, rfl, fun _ => rfl, fun _ => .inl rfl⟩

lemma form? (h : s.Narrowed strict s') (t) : s'.form? t = s.form? t := form?_eq_of_types h.types t

protected lemma trans (h : s.Narrowed strict s') (h' : s'.Narrowed strict s'') : s.Narrowed strict s'' where
  types := h'.types.trans h.types
  size := h'.size.trans h.size
  decl id := by rw [h'.decl id, h.decl id]
  typeOf id := by
    rcases h'.typeOf id with heq | ⟨hkind, hc⟩
    · rw [heq]
      exact h.typeOf id
    · rw [oneKind_congr h.types] at hkind
      rcases h.typeOf id with heq | ⟨hkind', _⟩
      · exact .inr ⟨heq ▸ hkind, hc⟩
      · exact .inr ⟨hkind.trans hkind', hc⟩

lemma setType (ht : s.OneKind t (s.typeOf id)) (hc : strict → t.Concrete) :
    s.Narrowed strict (s.setType id t) where
  types := rfl
  size := by simp [Store.setType]
  decl other := decl_setType s id other t
  typeOf other := by
    simp only [Store.typeOf, Store.setType, decl_modifyDecl]
    split
    · next h =>
      rw [← h.1]
      exact .inr ⟨ht, hc⟩
    · exact .inl rfl

section

variable (h : s.Narrowed strict s')
include h

/-- A type that is neither a pointer nor a record is that of the declaration. -/
lemma typeOf_eq (hd : ¬ s.Dynamic (s'.typeOf id)) : s'.typeOf id = s.typeOf id :=
  (h.typeOf id).resolve_right fun h => hd h.1.dynamic

lemma typeOf_eq_of (hd : ¬ s.Dynamic (s.typeOf id)) : s'.typeOf id = s.typeOf id :=
  (h.typeOf id).resolve_right fun h => hd h.1.symm.dynamic

lemma concrete (hs : strict → s.Concrete) (hstrict : strict) : s'.Concrete where
  predefined_le := by
    rw [h.types]
    exact (hs hstrict).predefined_le
  predefined t sig hsig := by
    rw [signature?_eq_some, h.form?]
    exact signature?_eq_some.1 ((hs hstrict).predefined t sig hsig)
  decls id hid := by
    rw [h.size] at hid
    have hd := (hs hstrict).decls id hid
    rw [h.decl id]
    rcases h.typeOf id with heq | ⟨hkind, hc⟩
    · rw [heq]
      exact hd
    · exact (hs hstrict).withType hd hkind.symm.dynamic (hc hstrict)
  forms t f ht hf := by
    refine (Attributes.of_decl (Nat.le_of_eq h.size.symm) fun id _ => h.decl id).form ?_
    exact (hs hstrict).forms t f ht (by rwa [h.form?] at hf)

/-- What a store grows into, it also grows into with other types of variables. -/
lemma grows (hg : s.Grows s'') : s'.Grows s'' where
  decls_le := by
    rw [h.size]
    exact hg.decls_le
  types_le := by
    rw [h.types]
    exact hg.types_le
  decl id hid := by
    rw [h.size] at hid
    rw [hg.decl id hid, h.decl id]
  fixed id hid hf := by
    rw [h.size] at hid
    have heq : s'.typeOf id = s.typeOf id := by
      refine h.typeOf_eq fun hd => ?_
      cases ht : s'.typeOf id with
      | composite k =>
        rw [ht] at hf hd
        obtain ⟨_, _, hn⟩ := hf
        exact hn (dynamic_of_forms h.form? hd)
      | _ =>
        rw [ht] at hd
        rcases hd with hd | hd <;> cases hd
    rw [heq] at hf ⊢
    refine hg.fixed id hid ?_
    cases ht : s.typeOf id with
    | composite k =>
      rw [ht] at hf
      obtain ⟨f, hform, hn⟩ := hf
      exact ⟨f, by rwa [h.form?] at hform, fun hd => hn (dynamic_of_forms h.form? hd)⟩
    | _ => trivial
  kept id hid := by
    rw [h.size] at hid
    rcases h.typeOf id with heq | ⟨hkind, _⟩
    · rw [heq]
      exact hg.kept id hid
    · exact .inr (hg.dynamic hid hkind.symm.dynamic)
  form t f hf := hg.form t f (by rwa [h.form?] at hf)

lemma nameable (hn : s.Nameable id) : s'.Nameable id :=
  hn.of_decl (Nat.le_of_eq h.size.symm) (h.decl id)

end

end Narrowed
end Store

namespace Analysis

variable {a b c : Analysis}

/-- Only the number of open loops, the open CASE statements with their narrowed subjects and the
messages have changed. -/
structure Focuses (strict : Prop) (a b : Analysis) : Prop where
  store : a.store.Narrowed strict b.store
  rest : b = { a with
    store := b.store, loops := b.loops, cases := b.cases, log := b.log, abandoned := b.abandoned }

namespace Focuses

protected lemma refl (a : Analysis) : a.Focuses strict a := ⟨.refl _, rfl⟩

section

variable (h : a.Focuses strict b)
include h

protected lemma trans (h' : b.Focuses strict c) : a.Focuses strict c :=
  ⟨h.store.trans h'.store, by rw [h'.rest, h.rest]⟩

lemma scopes : b.scopes = a.scopes := by rw [h.rest]

lemma signatures : b.signatures = a.signatures := by rw [h.rest]

lemma procedures : b.procedures = a.procedures := by rw [h.rest]

end

lemma narrow (ht : a.store.OneKind t (a.store.typeOf id))
    (hc : strict → t.Concrete) (hs : a.Silent b) : a.Focuses strict { b with store := a.store.setType id t } :=
  ⟨.setType ht hc, by rw [hs.rest]⟩

end Focuses

lemma Restores.focuses (h : a.Restores b) : a.Focuses strict b := by
  rw [h]
  exact ⟨.refl _, rfl⟩

lemma Silent.focuses (h : a.Silent b) : a.Focuses strict b := h.restores.focuses

/-- The subjects of open type cases have types of the kind they were declared with. -/
structure Framed (strict : Prop) (a : Analysis) : Prop where
  concrete : strict → a.store.Concrete
  nameable : strict → ∀ id, a.scopes.Knows id → a.store.Nameable id
  cases : ∀ f ∈ a.cases, ∀ id, f.decl = some id →
    a.store.OneKind f.type (a.store.typeOf id) ∧ a.store.OneKind f.declared (a.store.typeOf id) ∧
      (strict → f.declared.Concrete)

lemma Framed.focuses (h : a.Framed strict) (hf : a.Focuses strict b) (hc : b.cases = a.cases) :
    b.Framed strict := by
  refine ⟨hf.store.concrete h.concrete, fun hs id hk => ?_, fun f hmem id hid => ?_⟩
  · rw [hf.scopes] at hk
    exact hf.store.nameable (h.nameable hs id hk)
  · rw [hc] at hmem
    obtain ⟨htype, hdeclared, hconcrete⟩ := h.cases f hmem id hid
    simp only [Store.oneKind_congr hf.store.types]
    rcases hf.store.typeOf id with heq | ⟨hkind, _⟩
    · rw [heq]
      exact ⟨htype, hdeclared, hconcrete⟩
    · exact ⟨htype.trans hkind.symm, hdeclared.trans hkind.symm, hconcrete⟩

lemma Framed.silent (h : a.Framed strict) (hs : a.Silent b) : b.Framed strict :=
  h.focuses hs.focuses hs.restores.cases

end Analysis

variable {a b c : Analysis}

lemma ReadsExpr.knows (h : ReadsExpr a (.expr e)) : ∀ id ∈ e.roots, a.scopes.Knows id :=
  (ReadsExpr.visible h : e.Visible a).knows

lemma Analyze.Narrows.focuses (h : Narrows frame origins a b) (hr : a.Framed strict)
    (hf : frame.decl = none ∨ a.cases.head? = some frame)
    (ho : ∀ id, origins id → a.scopes.Knows id) : a.Focuses strict b := by
  induction h with
  | done h => exact h.focuses
  | @step a b c id origin h hid horigin ht hn ih =>
    rcases hf with hf | hf
    · rw [hf] at hid
      cases hid
    · have hmem := mem_of_mem_head? hf
      have hcases := h.restores.cases
      have hconcrete (hs : strict) : (a.store.typeOf origin).Concrete :=
        (hr.concrete hs).typeOf_of_dynamic (hr.nameable hs origin (ho origin horigin)) ht.dynamic
      have hfocus := Focuses.narrow (ht.trans (hr.cases frame hmem _ hid).1) hconcrete h
      refine hfocus.trans (ih (hr.focuses hfocus hcases) (.inr (hcases ▸ hf)) ?_)
      rw [hfocus.scopes]
      exact ho

/-- The subject of a type case is a plain variable, so its type is the declared one. -/
lemma Analysis.Framed.beginCase (hr : a.Framed strict) (hs : ReadsExpr a (.expr subject))
    (hb : a.Silent b) (hc : (beginCase subject).Succeeds b () c) : c.Framed strict ∧
    a.Focuses strict c := by
  obtain ⟨frame, rfl, htype, hframe⟩ := hc.ensures (beginCase_ensures subject)
  have hrb := hr.silent hb
  refine ⟨⟨hrb.concrete, hrb.nameable, fun f hf id hid => ?_⟩, hb.focuses.trans ⟨.refl _, rfl⟩⟩
  rcases mem_cons.1 hf with rfl | hf
  · obtain ⟨hdecl, hdyn, ident, note, rfl⟩ := hframe id hid
    have hv : Expr.Visible a _ := hs.visible
    have hplain : note.type = b.store.typeOf id := by
      rw [hb.store]
      refine (hv.plain id note.type rfl).resolve_left fun ht => ?_
      have hdyn : b.store.Dynamic note.type := hdyn
      rw [ht] at hdyn
      rcases hdyn with h | h <;> cases h
    have hdyn' : b.store.Dynamic (b.store.typeOf id) := hplain ▸ hdyn
    have hself := hdyn'.oneKind
    refine ⟨?_, by rw [hdecl]; exact hself, fun hs => ?_⟩
    · rw [htype]
      show b.store.OneKind note.type _
      rw [hplain]
      exact hself
    · rw [hdecl]
      refine (hrb.concrete hs).typeOf_of_dynamic (hrb.nameable hs id ?_) hdyn'
      rw [hb.scopes]
      exact hv.knows id (by simp)
  · exact hrb.cases f hf id hid

/-! ## Statements -/

/-- A condition, read in a state that `a` focuses on. -/
def Tests (strict : Prop) (a : Analysis) (test : Expr) : Prop :=
  ∃ b, a.Focuses strict b ∧ ReadsExpr b (.expr test) ∧ (test.type = .undefined ∨ test.type.isBoolean)

/-- A label, read in a state that `a` focuses on. -/
def Selects (strict : Prop) (a : Analysis) (label : Expr) : Prop :=
  ∃ b, a.Focuses strict b ∧ ReadsExpr b (.expr label) ∧
    (label.type = .undefined ∨ label.type = .typeName ∨ IsConstantLabel label)

lemma Tests.after (h : Tests strict b test) (hf : a.Focuses strict b) : Tests strict a test := by
  obtain ⟨c, hc, h⟩ := h
  exact ⟨c, hf.trans hc, h⟩

lemma Selects.after (h : Selects strict b label) (hf : a.Focuses strict b) :
    Selects strict a label := by
  obtain ⟨c, hc, h⟩ := h
  exact ⟨c, hf.trans hc, h⟩

/-- How a statement comes about in the state `a`, whatever the statements in it. -/
inductive Formed (strict : Prop) (a : Analysis) : Statement → Prop
  | assign {target x value : Expr} (span tspan : Span) (ident : QualIdent) (chain : List Selector)
      (hc : ∀ s ∈ chain, ReadsExpr a (.selector s)) (ht : Designates a tspan ident chain target)
      (hx : ReadsExpr a (.expr x)) (hw : a.store.unwritable? target = none)
      (h : Assigns a.store target.type x value) : Formed strict a (.assign target value span)
  | call {e : Expr} (span : Span) (ident : QualIdent) (chain : List Selector)
      (hc : ∀ s ∈ chain, ReadsExpr a (.selector s)) (h : Calls a span ident chain e) :
      Formed strict a (.call e span)
  | cond {test : Expr} {elsifs : List Branch} (body : List Statement)
      (otherwise : Option (List Statement)) (span : Span) (ht : Tests strict a test)
      (he : ∀ b ∈ elsifs, Tests strict a b.test) : Formed strict a (.cond test body elsifs otherwise span)
  | select {subject : Expr} {arms : List Arm} (otherwise : Option (List Statement)) (span : Span)
      (hs : ReadsExpr a (.expr subject))
      (hd : isDiscrete subject.type ∨ a.store.Dynamic subject.type ∨ subject.type = .undefined)
      (hl : ∀ arm ∈ arms, ∀ l ∈ arm.labels.labels, Selects strict a l) :
      Formed strict a (.select subject arms otherwise span)
  | loop (body : List Statement) (span : Span) : Formed strict a (.loop body span)
  | while (body : List Statement) (span : Span)
      (ht : Tests strict a test) (he : ∀ b ∈ elsifs, Tests strict a b.test) :
      Formed strict a (.while test body elsifs span)
  | repeat (body : List Statement) (span : Span) (ht : Tests strict a test) :
      Formed strict a (.repeat body test span)
  | for {b : Analysis} {low high counter low' high' step' : Expr} {step : Option Expr}
      (body : List Statement) (span : Span) (ident : QualIdent) (hb : a.Focuses strict b)
      (hc : Counts b ident counter) (hlow : ReadsExpr a (.expr low))
      (hhigh : ReadsExpr a (.expr high)) (hstep : ∀ e ∈ step, ReadsExpr a (.expr e))
      (hlow' : low.Adapts low') (hhigh' : high.Adapts high') (hstep' : StepOf span step step') :
      Formed strict a (.for counter low' high' step' body span)
  | exit (span : Span) : Formed strict a (.exit span)
  | return (span : Span) : Formed strict a (.return none span)
  | result {x value : Expr} {t : Ty} (span : Span) (hx : ReadsExpr a (.expr x))
      (ht : resultType a = some t) (h : Returns a.store t x value) :
      Formed strict a (.return (some value) span)

/-- Every statement is formed in a state that `a` focuses on. -/
def Analysis.Forms (strict : Prop) (a : Analysis) (ss : List Statement) : Prop :=
  ∀ s ∈ ss, ∃ b, a.Focuses strict b ∧ Formed strict b s

namespace Analysis.Forms

lemma nil : a.Forms strict [] := by simp [Forms]

lemma cons (hs : Formed strict a s) (h : a.Forms strict ss) : a.Forms strict (s :: ss) :=
  forall_mem_cons.2 ⟨⟨a, .refl a, hs⟩, h⟩

lemma append (h : a.Forms strict ss) (h' : a.Forms strict rest) : a.Forms strict (ss ++ rest) :=
  forall_mem_append.2 ⟨h, h'⟩

lemma after (h : b.Forms strict ss) (hf : a.Focuses strict b) : a.Forms strict ss := by
  intro s hs
  obtain ⟨c, hc, hformed⟩ := h s hs
  exact ⟨c, hf.trans hc, hformed⟩

end Analysis.Forms

def StatementPhrase.all : StatementPhrase → List Statement
  | .statement s => s.all
  | .statements ss => Statement.allOf ss
  | .branches bs => Branch.allOf bs
  | .otherwise o => Statement.allOfOtherwise o
  | .arms as => Arm.allOf as

/-- The conditions and labels of what is no statement in itself. -/
def StatementPhrase.Guarded (strict : Prop) (a : Analysis) : StatementPhrase → Prop
  | .branches bs => ∀ b ∈ bs, Tests strict a b.test
  | .arms as => ∀ arm ∈ as, ∀ l ∈ arm.labels.labels, Selects strict a l
  | _ => True

lemma Analyze.caseArm_focuses (h : (caseArm labels body).Succeeds a arm b) (hr : a.Framed strict) : a.Focuses strict b := by
  obtain ⟨_, ⟨hend, _⟩ | ⟨c, frame, id, hs, hf, hid, rfl⟩⟩ := h.ensures (caseArm_ensures labels body)
  · exact hend.focuses
  · obtain ⟨_, hdeclared, hc⟩ := hr.cases frame (mem_of_mem_head? hf) id hid
    exact .narrow hdeclared hc hs

/-- What reading statements leads to. -/
structure StatementPhrase.Arises (strict : Prop) (a : Analysis) (p : StatementPhrase) (b : Analysis) : Prop where
  focuses : a.Focuses strict b
  forms : a.Forms strict p.all
  guarded : p.Guarded strict a

lemma ReadsStatement.arises (h : ReadsStatement a p b) (hr : a.Framed strict) :
    p.Arises strict a b := by
  induction h with
  | @assign a b c d e target value s span tspan ident chain hs hb ht hv hd h =>
    have hc : a.Silent c := hb.trans ht.silent
    obtain ⟨hw, value', hs', hval⟩ := h.ensures (assignment_ensures span target value)
    cases hs'
    rw [(hc.trans hd).store] at hw hval
    have htarget := ht.ensures (designates_of_designator tspan ident chain hb)
    refine ⟨((hc.trans hd).trans h.silent).focuses, .cons ?_ .nil, trivial⟩
    exact .assign span tspan ident chain hs htarget (hv.of_silent hc) hw hval
  | @call a b c s span ident chain hs hb h =>
    obtain ⟨e, hs', hcalls⟩ := h.ensures (callStatement_ensures span ident chain hb)
    cases hs'
    exact ⟨(hb.trans h.silent).focuses, .cons (.call span ident chain hs hcalls) .nil, trivial⟩
  | @cond a b c d e test body elsifs o s span ht hb he ho h ihb ihe iho =>
    obtain ⟨rfl, hs, hbool⟩ := h.ensures (conditional_ensures span test body elsifs o)
    cases hs
    have ihb := ihb hr
    have hrb := hr.focuses ihb.focuses hb.retains.cases
    have ihe := ihe hrb
    have iho := iho (hrb.focuses ihe.focuses he.retains.cases)
    have hfc := ihb.focuses.trans ihe.focuses
    refine ⟨hfc.trans iho.focuses, .cons ?_ ((ihb.forms.append ?_).append ?_), trivial⟩
    · exact .cond body o span ⟨a, .refl a, ht, hbool⟩ fun b hb => (ihe.guarded b hb).after ihb.focuses
    · exact ihe.forms.after ihb.focuses
    · exact iho.forms.after hfc
  | @select a b c d e f subject arms o s span hs hb hc ha ho h iha iho =>
    obtain ⟨hrc, hfc⟩ := hr.beginCase hs hb hc
    obtain ⟨rfl, hend, hd⟩ := h.ensures (endCase_ensures span subject arms o)
    have iha := iha hrc
    have hrd := hrc.focuses iha.focuses ha.retains.cases
    have iho := iho hrd
    have hfd := hfc.trans iha.focuses
    have hfe := hfd.trans iho.focuses
    have hpop : e.Focuses strict { e with cases := e.cases.tail } := ⟨.refl _, rfl⟩
    refine ⟨(hfe.trans hpop).trans hend.focuses, .cons ?_ ((iha.forms.after hfc).append ?_), trivial⟩
    · refine .select o span hs (hd.imp_right (Or.imp_left fun h => ?_)) fun arm harm l hl => ?_
      · exact Store.dynamic_of_forms (fun t => (hfe.store.form? t).symm) h
      · exact (iha.guarded arm harm l hl).after hfc
    · exact iho.forms.after hfd
  | @loop a b c d body s span hl hb h ih =>
    obtain ⟨rfl, e, he, rfl⟩ := h.ensures (loop_ensures span body)
    have hl := restores_beginLoop hl
    have hfl : a.Focuses strict b := hl.focuses
    have ih := ih (hr.focuses hfl hl.cases)
    refine ⟨(hfl.trans ih.focuses).trans (he.focuses.trans (restores_leaveLoop e).focuses), .cons ?_ ?_, trivial⟩
    · exact .loop body span
    · exact ih.forms.after hfl
  | @«while» a b c d e test body elsifs s span hl ht hb he h ihb ihe =>
    obtain ⟨rfl, hs, hbool⟩ := h.ensures (whileLoop_ensures span test body elsifs)
    cases hs
    have hl := restores_beginLoop hl
    have hfl : a.Focuses strict b := hl.focuses
    have hrl := hr.focuses hfl hl.cases
    have ihb := ihb hrl
    have ihe := ihe (hrl.focuses ihb.focuses hb.retains.cases)
    have hfc := hfl.trans ihb.focuses
    refine ⟨(hfc.trans ihe.focuses).trans (restores_leaveLoop d).focuses, .cons ?_ ((ihb.forms.after hfl).append ?_),
      trivial⟩
    · exact .while body span ⟨b, hfl, ht, hbool⟩ fun b hb => (ihe.guarded b hb).after hfc
    · exact ihe.forms.after hfc
  | @«repeat» a b c d e test body s span hl hb ht hd h ih =>
    obtain ⟨rfl, hs, hbool⟩ := h.ensures (repeatLoop_ensures span test body)
    cases hs
    have hl := restores_beginLoop hl
    have hfl : a.Focuses strict b := hl.focuses
    have ih := ih (hr.focuses hfl hl.cases)
    have hfc := hfl.trans ih.focuses
    refine ⟨(hfc.trans hd.focuses).trans (restores_leaveLoop d).focuses, .cons ?_ (ih.forms.after hfl), trivial⟩
    exact .repeat body span ⟨c, hfc, ht, hbool⟩
  | @«for» a b c d low high step body s span ident hl hlow hhigh hstep hb h ih =>
    obtain ⟨hsilent, counter, low', high', step', hs, hcounter, hlow', hhigh', hstep'⟩ :=
      h.ensures (forLoop_ensures span ident low high step body)
    cases hs
    have hl := restores_beginLoop hl
    have hfl : a.Focuses strict b := hl.focuses
    have ih := ih (hr.focuses hfl hl.cases)
    have hend := ih.focuses.trans (restores_leaveLoop c).focuses
    refine ⟨(hfl.trans hend).trans hsilent.focuses, ?_, trivial⟩
    exact Forms.after (.cons (.for body span ident hend hcounter hlow hhigh hstep hlow' hhigh' hstep')
      ih.forms) hfl
  | @exit a b s span h =>
    cases h.ensures (exit_ensures span)
    exact ⟨h.silent.focuses, .cons (.exit span) .nil, trivial⟩
  | @«return» a b c value s span hv hb h =>
    refine ⟨(hb.trans h.silent).focuses, ?_, trivial⟩
    obtain ⟨result, rfl, hresult⟩ := h.ensures (returnFrom_ensures span value)
    rcases hresult with ⟨_, rfl⟩ | ⟨t, e, e', ht, rfl, rfl, he⟩
    · exact .cons (.return span) .nil
    · have ht : resultType a = some t := by
        rw [← ht, hb.rest]
        rfl
      rw [hb.store] at he
      exact .cons (.result span (hv e rfl) ht he) .nil
  | nil a => exact ⟨.refl a, .nil, trivial⟩
  | snoc hs h ihs ih =>
    have ihs := ihs hr
    have ih := ih (hr.focuses ihs.focuses hs.retains.cases)
    refine ⟨ihs.focuses.trans ih.focuses, ?_, trivial⟩
    simp only [StatementPhrase.all, Statement.allOf_append, Statement.allOf]
    exact ihs.forms.append ((ih.forms.after ihs.focuses).append .nil)
  | noBranches a => exact ⟨.refl a, .nil, by simp [StatementPhrase.Guarded]⟩
  | @branch a b c d bs br test body span hs ht hb h ihs ih =>
    obtain ⟨rfl, hbr, hbool⟩ := h.ensures (branch_ensures span test body)
    cases hbr
    have ihs := ihs hr
    have ih := ih (hr.focuses ihs.focuses hs.retains.cases)
    refine ⟨ihs.focuses.trans ih.focuses, ?_, forall_mem_append.2 ⟨ihs.guarded, ?_⟩⟩
    · simp only [StatementPhrase.all, Branch.allOf_append, Branch.allOf]
      exact ihs.forms.append ((ih.forms.after ihs.focuses).append .nil)
    · exact forall_mem_singleton.2 ⟨b, ihs.focuses, ht, hbool⟩
  | noOtherwise a => exact ⟨.refl a, .nil, trivial⟩
  | otherwise h ih => exact ⟨(ih hr).focuses, (ih hr).forms, trivial⟩
  | noArms a => exact ⟨.refl a, .nil, by simp [StatementPhrase.Guarded]⟩
  | @arm a b c d e f as arm labels body l span hs hl hb hc hd h ihs ih =>
    obtain ⟨hlabels, ⟨frame, hframe, hnarrow⟩, hkinds⟩ := hc.ensures (caseLabels_ensures span labels)
    have ihs := ihs hr
    have hrb := hr.focuses ihs.focuses hs.retains.cases
    have hrc := hrb.silent hb
    have hfn : c.Focuses strict d := by
      refine hnarrow.focuses hrc hframe ?_
      rintro id ⟨label, hlabel, hid⟩
      rw [hb.scopes]
      exact (hl label hlabel).knows id (Expr.mem_roots_of_root? hid)
    have hrd := hrc.focuses hfn (by rw [hnarrow.setType.1])
    have hfd := (ihs.focuses.trans hb.focuses).trans hfn
    have ih := ih hrd
    have hre := hrd.focuses ih.focuses hd.retains.cases
    have hlast := caseArm_focuses h hre
    obtain ⟨rfl, _⟩ := h.ensures (caseArm_ensures l body)
    refine ⟨(hfd.trans ih.focuses).trans hlast, ?_, forall_mem_append.2 ⟨ihs.guarded, ?_⟩⟩
    · simp only [StatementPhrase.all, Arm.allOf_append, Arm.allOf]
      exact ihs.forms.append ((ih.forms.after hfd).append .nil)
    · refine forall_mem_singleton.2 fun label hlabel => ?_
      have hlabel : label ∈ labels := hlabels ▸ hlabel
      exact ⟨b, ihs.focuses, hl label hlabel, hkinds label hlabel⟩
  | @silent a b c d p hb h hd ih =>
    have ih := ih (hr.silent hb)
    refine ⟨(hb.focuses.trans ih.focuses).trans hd.focuses, ih.forms.after hb.focuses, ?_⟩
    cases p with
    | branches bs => exact fun br hbr => (ih.guarded br hbr).after hb.focuses
    | arms as => exact fun arm harm l hl => (ih.guarded arm harm l hl).after hb.focuses
    | _ => trivial

/-! ## What statements use -/

/-- The expression comes from one that was read. -/
def Expr.Stems (a : Analysis) (e : Expr) : Prop := ∃ x, Elaborates a (.expr x) ∧ x.Adapts e

/-- How a statement comes to use an expression: what was read in the state `a` is evaluated, or the
statement calls it. -/
inductive Use.Arises (a : Analysis) : Use × Expr → Prop
  | read {kind : Use} {e : Expr} (hk : kind ≠ .call) (h : e.Stems a) : Arises a (kind, e)
  | called {span : Span} {ident : QualIdent} {chain : List Selector} {e : Expr}
      (hc : ∀ s ∈ chain, Elaborates a (.selector s)) (h : Calls a span ident chain e) :
      Arises a (.call, e)

lemma Analyze.StepOf.stems {span : Span} (h : StepOf span step e)
    (hs : ∀ x ∈ step, Elaborates a (.expr x)) : e.Stems a := by
  rcases h with ⟨_, rfl⟩ | ⟨x, hx, _, hadapts⟩
  · have hone : Grammar.literalOf? (.integer 1) = some (.integer 1, .ofInteger 1) := rfl
    exact ⟨_, .literal span hone, .literal (.inr ⟨_, rfl⟩) rfl⟩
  · exact ⟨x, hs x hx, hadapts⟩

/-- Where the expressions of a statement come from, whatever the statements in it. -/
lemma Formed.arises (h : Formed strict a stmt) : ∀ use ∈ stmt.own, ∃ b, a.Focuses strict b ∧
    Use.Arises b use := by
  have hread {x e : Expr} (hx : Elaborates a (.expr x)) (hadapts : x.Adapts e) :
      ∃ b, a.Focuses strict b ∧ Use.Arises b (.value, e) :=
    ⟨a, .refl a, .read (by simp) ⟨x, hx, hadapts⟩⟩
  have htest {e : Expr} (h : Tests strict a e) :
      ∃ b, a.Focuses strict b ∧ Use.Arises b (.value, e) := by
    obtain ⟨b, hf, hx, _⟩ := h
    exact ⟨b, hf, .read (by simp) ⟨e, hx.elaborates, .refl e⟩⟩
  have htests {test : Expr} {elsifs : List Branch} (ht : Tests strict a test)
      (he : ∀ b ∈ elsifs, Tests strict a b.test) :
      ∀ use ∈ (Use.value, test) :: elsifs.map fun b => (Use.value, b.test),
        ∃ b, a.Focuses strict b ∧ Use.Arises b use :=
    forall_mem_cons.2 ⟨htest ht, forall_mem_map.2 fun b hb => htest (he b hb)⟩
  cases h with
  | assign span tspan ident chain hc ht hx hw h =>
    have htarget := Elaborates.designator (fun s hs => (hc s hs).elaborates) ht
    exact forall_mem_cons.2 ⟨hread htarget (.refl _),
      forall_mem_singleton.2 (hread hx.elaborates h.adapts)⟩
  | call span ident chain hc h =>
    exact forall_mem_singleton.2 ⟨a, .refl a, .called (fun s hs => (hc s hs).elaborates) h⟩
  | cond body otherwise span ht he => exact htests ht he
  | select otherwise span hs hd hl =>
    refine forall_mem_cons.2 ⟨hread hs.elaborates (.refl _), fun use hu => ?_⟩
    obtain ⟨arm, harm, hu⟩ := mem_flatMap.1 hu
    obtain ⟨l, hmem, rfl⟩ := mem_map.1 hu
    obtain ⟨b, hf, hx, _⟩ := hl arm harm l hmem
    exact ⟨b, hf, .read (by simp) ⟨l, hx.elaborates, .refl l⟩⟩
  | loop => simp [Statement.own]
  | «while» body span ht he => exact htests ht he
  | «repeat» body span ht => exact forall_mem_singleton.2 (htest ht)
  | @«for» b low high counter low' high' step' step body span ident hb hc hlow hhigh hstep hlow'
      hhigh' hstep' =>
    have hcounter : Elaborates b (.expr counter) := .designator (by simp) hc.designates
    have hlast := hstep'.stems fun x hx => (hstep x hx).elaborates
    exact forall_mem_cons.2 ⟨⟨b, hb, .read (by simp) ⟨counter, hcounter, .refl _⟩⟩,
      forall_mem_cons.2 ⟨hread hlow.elaborates hlow', forall_mem_cons.2
        ⟨hread hhigh.elaborates hhigh', forall_mem_singleton.2
          ⟨a, .refl a, .read (by simp) hlast⟩⟩⟩⟩
  | exit | «return» => simp [Statement.own]
  | result span hx ht h => exact forall_mem_singleton.2 (hread hx.elaborates h.adapts)

end Oberon
