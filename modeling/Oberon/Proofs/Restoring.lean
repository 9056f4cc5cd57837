import Oberon.Proofs.Statements

/-!
# Oberon.Proofs.Restoring

Statements leave the analysis as they find it, but for its log. A type case gives its subject another
type for the length of an arm, and the end of the arm gives back the type the subject had.
-/

namespace Oberon

open Analyze Analysis

variable {a b : Analysis}

namespace Store

lemma setType_setType (s : Store) (id t u) : (s.setType id t).setType id u = s.setType id u := by
  simp only [setType, modifyDecl, Store.mk.injEq, true_and]
  refine Array.ext_getElem? fun i => ?_
  simp only [Array.getElem?_modify]
  split
  · cases s.decls[i]? <;> rfl
  · rfl

lemma setType_typeOf (s : Store) (id) : s.setType id (s.typeOf id) = s := by
  obtain ⟨types, decls⟩ := s
  simp only [setType, modifyDecl, Store.mk.injEq, true_and]
  refine Array.ext_getElem? fun i => ?_
  simp only [Array.getElem?_modify]
  split
  · next h =>
    subst h
    simp only [typeOf, decl]
    cases decls[id.index]? <;> rfl
  · rfl

end Store

/-- Nothing has changed but the messages and the number of open loops. -/
def Analysis.Restores (a b : Analysis) : Prop :=
  b = { a with loops := b.loops, log := b.log, abandoned := b.abandoned }

namespace Analysis.Restores

lemma refl (a : Analysis) : a.Restores a := rfl

section

variable (h : a.Restores b)
include h

lemma trans (h' : b.Restores c) : a.Restores c := by
  unfold Restores at *
  rw [h', h]

lemma store : b.store = a.store := by rw [h]
lemma scopes : b.scopes = a.scopes := by rw [h]
lemma forwards : b.forwards = a.forwards := by rw [h]
lemma cases : b.cases = a.cases := by rw [h]
lemma module : b.module = a.module := by rw [h]

end

end Analysis.Restores

/-- Nothing has changed but the store, the messages and the number of open loops. -/
def Analysis.Retains (a b : Analysis) : Prop :=
  b = { a with store := b.store, loops := b.loops, log := b.log, abandoned := b.abandoned }

namespace Analysis.Retains

lemma trans (h : a.Retains b) (h' : b.Retains c) : a.Retains c := by
  unfold Retains at *
  rw [h', h]

lemma scopes (h : a.Retains b) : b.scopes = a.scopes := by rw [h]
lemma cases (h : a.Retains b) : b.cases = a.cases := by rw [h]

end Analysis.Retains

lemma Analysis.Restores.retains (h : a.Restores b) : a.Retains b := by
  unfold Retains
  rw [h]

lemma Analysis.Silent.restores (h : a.Silent b) : a.Restores b := by
  unfold Restores
  rw [h.rest]

lemma Analyze.restores_beginLoop (h : beginLoop.Succeeds a () b) : a.Restores b := by
  have hb := congrArg Prod.snd h.run
  subst hb
  exact rfl

lemma Analyze.restores_leaveLoop (a : Analysis) : a.Restores (leaveLoop a) := rfl

/-- Whatever type the subject has got, setting it anew comes to the same as before. -/
lemma Analyze.Narrows.setType (h : Narrows frame origins a b) :
    b = { a with store := b.store, log := b.log, abandoned := b.abandoned } ∧
      (frame.decl = none → b.store = a.store) ∧
      ∀ id, frame.decl = some id → ∀ t, b.store.setType id t = a.store.setType id t := by
  induction h with
  | done h => exact ⟨by rw [h.rest], fun _ => h.store, fun id _ t => by rw [h.store]⟩
  | @step a b c id origin h hid _ ht hn ih =>
    obtain ⟨hrest, _, hset⟩ := ih
    refine ⟨?_, fun hnone => ?_, fun id' hid' u => ?_⟩
    · rw [hrest, h.rest]
    · rw [hid] at hnone
      cases hnone
    · rw [hset id' hid' u]
      rw [hid] at hid'
      cases hid'
      exact Store.setType_setType a.store id _ u

/-- The subject of the innermost CASE statement has its declared type. -/
def Analysis.Undisturbed (a : Analysis) : Prop :=
  ∀ frame, a.cases.head? = some frame → ∀ id, frame.decl = some id →
    frame.declared = a.store.typeOf id

/-- Arms rely on the subject having its declared type. -/
def StatementPhrase.Restores (a : Analysis) (p : StatementPhrase) (b : Analysis) : Prop :=
  match p with
  | .arms _ => a.Retains b ∧ (a.Undisturbed → a.Restores b)
  | _ => a.Restores b

lemma Analysis.Undisturbed.restores (h : a.Undisturbed) (hr : a.Restores b) : b.Undisturbed := by
  intro frame hframe id hid
  rw [hr.cases] at hframe
  rw [hr.store]
  exact h frame hframe id hid

/-- An arm undoes what its labels do. -/
lemma Analyze.restores_arm (hl : (caseLabels span labels).Succeeds a l b) (hb : b.Restores d)
    (h : (caseArm l body).Succeeds d arm e) : a.Retains e ∧ (a.Undisturbed → a.Restores e) := by
  obtain ⟨_, ⟨frame, hframe, hnarrow⟩, _⟩ := hl.ensures (caseLabels_ensures span labels)
  obtain ⟨hrest, hnone, hset⟩ := hnarrow.setType
  obtain ⟨_, hend⟩ := h.ensures (caseArm_ensures l body)
  have hcases : d.cases = a.cases := by rw [hb.cases, hrest]
  rcases hend with ⟨hs, hplain⟩ | ⟨d', frame', id, hs, hframe', hid, rfl⟩
  · have hstore : b.store = a.store := by
      refine hnone (hframe.elim (fun h => h) fun h => hplain frame ?_)
      rw [hcases, h]
    have hall : a.Restores e := by
      unfold Restores
      rw [hs.rest, hb, hrest, hstore]
    exact ⟨hall.retains, fun _ => hall⟩
  · refine ⟨by unfold Retains; rw [hs.rest, hb, hrest], fun ha => ?_⟩
    rw [hcases] at hframe'
    have hstore : d.store.setType id frame'.declared = a.store := by
      rw [hb.store, ha frame' hframe' id hid]
      rcases hframe with hframe | hframe
      · rw [hnone hframe, Store.setType_typeOf]
      · rw [hframe] at hframe'
        cases hframe'
        rw [hset id hid, Store.setType_typeOf]
    unfold Restores
    rw [hstore, hs.rest, hb, hrest]

lemma ReadsStatement.restores (h : ReadsStatement a p b) : p.Restores a b := by
  induction h with
  | assign span tspan ident chain hs hb ht hv hd h =>
    exact (((hb.trans ht.silent).trans hd).trans h.silent).restores
  | call span ident chain hs hb h => exact (hb.trans h.silent).restores
  | cond span ht hb he ho h ihb ihe iho =>
    exact ((Restores.trans ihb ihe).trans iho).trans h.silent.restores
  | @select a b c d e f subject arms o s span hs hb hc ha ho h iha iho =>
    obtain ⟨frame, rfl, _, hframe⟩ := hc.ensures (beginCase_ensures subject)
    obtain ⟨_, hend, _⟩ := h.ensures (endCase_ensures span subject arms o)
    have hsubject : Undisturbed { b with cases := frame :: b.cases } := by
      rintro _ ⟨⟩ id hid
      exact (hframe id hid).1
    have hinner : Restores { b with cases := frame :: b.cases } e := (iha.2 hsubject).trans iho
    unfold Restores at hinner
    have hrest := hb.rest
    show a.Restores f
    unfold Restores
    rw [hend.rest, hinner, hrest]
    rfl
  | loop span hl hb h ih =>
    obtain ⟨_, e, he, rfl⟩ := h.ensures (loop_ensures span _)
    exact ((restores_beginLoop hl).trans ih).trans (he.restores.trans (restores_leaveLoop e))
  | «while» span hl ht hb he h ihb ihe =>
    obtain ⟨rfl, _⟩ := h.ensures (whileLoop_ensures span _ _ _)
    exact (((restores_beginLoop hl).trans ihb).trans ihe).trans (restores_leaveLoop _)
  | «repeat» span hl hb ht hd h ih =>
    obtain ⟨rfl, _⟩ := h.ensures (repeatLoop_ensures span _ _)
    exact (((restores_beginLoop hl).trans ih).trans hd.restores).trans (restores_leaveLoop _)
  | «for» span ident hl hlow hhigh hstep hb h ih =>
    obtain ⟨hs, _⟩ := h.ensures (forLoop_ensures span ident _ _ _ _)
    exact (((restores_beginLoop hl).trans ih).trans (restores_leaveLoop _)).trans hs.restores
  | exit span h => exact h.silent.restores
  | «return» span hv hb h => exact (hb.trans h.silent).restores
  | nil a => exact .refl a
  | snoc hs h ihs ih => exact Restores.trans ihs ih
  | noBranches a => exact .refl a
  | branch span hs ht hb h ihs ih => exact (Restores.trans ihs ih).trans h.silent.restores
  | noOtherwise a => exact .refl a
  | otherwise h ih => exact ih
  | noArms a => exact ⟨rfl, fun _ => .refl a⟩
  | arm span hs hl hb hc hd h ihs ih =>
    have harm := restores_arm hc ih h
    refine ⟨(ihs.1.trans hb.restores.retains).trans harm.1, fun ha => ?_⟩
    have hbefore := (ihs.2 ha).trans hb.restores
    exact hbefore.trans (harm.2 (ha.restores hbefore))
  | @silent a b c d p hb h hd ih =>
    have hend {x} (hx : b.Restores x) (hs : x.Silent d) : a.Restores d :=
      (hb.restores.trans hx).trans hs.restores
    cases p with
    | arms as =>
      exact ⟨(hb.restores.retains.trans ih.1).trans hd.restores.retains,
        fun ha => hend (ih.2 (ha.restores hb.restores)) hd⟩
    | _ => exact hend ih hd

lemma ReadsStatement.retains (h : ReadsStatement a p b) : a.Retains b := by
  have h := h.restores
  cases p with
  | arms as => exact h.1
  | _ => exact Restores.retains h

/-- A body leaves the store as it is. -/
lemma ReadsStatement.restores_body (h : ReadsStatement a (.statements body) b) : a.Restores b := h.restores

end Oberon
