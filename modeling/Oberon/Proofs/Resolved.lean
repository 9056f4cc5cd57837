import Oberon.Proofs.Converting
import Oberon.Proofs.Occurring

/-!
# Oberon.Proofs.Resolved

The tree of an accepted module is resolved but for the calls of proper procedures that stand for a
value. Such a call has no type, and nothing is reported where it is used: every check is left out for
an operand without a type. Each expression that is not resolved holds such a call.
-/

namespace Oberon

open Analyze Analysis Use

/-- The expressions of a use that stand for a value. What is called by a statement does not. -/
def Use.values : Use × Expr → List Expr
  | (.call, e) => e.inner
  | (_, e) => e.parts

lemma Use.parts_subset_values (hq : q ∈ values use) : q.parts ⊆ values use := by
  obtain ⟨kind, e⟩ := use
  cases kind with
  | call =>
    obtain ⟨x, hx, hq⟩ := Expr.mem_inner.1 hq
    exact fun r hr => Expr.mem_inner.2 ⟨x, hx, Expr.parts_subset x hq hr⟩
  | _ => exact Expr.parts_subset e hq

/-! ## Uses -/

/-- Each value of the use is accounted for, and a designator that is not linked is to be blamed on one
of them. -/
structure Use.Accounted (s : Store) (use : Use × Expr) : Prop where
  values : ∀ q ∈ Use.values use, q.Accounted s
  linked : use.2.isLinked = false → ∃ q ∈ Use.values use, q.Blames s

section

variable {e : Expr}

lemma Use.accounted_of_parts (hu : values use = use.2.parts)
    (h : ∀ q ∈ use.2.parts, q.Accounted s) : Use.Accounted s use := by
  refine ⟨by rwa [hu], fun hl => ?_⟩
  have hself := use.2.self_mem_parts
  exact ⟨use.2, by rwa [hu], (h _ hself).blames (by simp [Expr.isResolved, hl])⟩

lemma Expr.Stems.accounted_parts (h : e.Stems a) (ha : a.Ready) (hg : a.store.Grows s) :
    ∀ q ∈ e.parts, q.Accounted s :=
  fun q hq => (h.parts ha q hq).accounted ha hg

lemma Analyze.Calls.accounted (h : Calls a span ident chain e)
    (hc : ∀ s ∈ chain, Elaborates a (.selector s)) (ha : a.Ready) (hg : a.store.Grows s) :
    Use.Accounted s (.call, e) := by
  obtain ⟨id, out, type, added, note, rfl, _, _, hwalks, hadded⟩ :=
    h.walks ha (fun x hx => (hx.settled ha : x.Settled _)) fun s hs => (hc s hs).raw ha
  have hoperands := Expr.operands_bare hadded ident (some id) out note
  refine ⟨fun q hq => ?_, fun hl => ?_⟩
  · obtain ⟨o, ho, hq⟩ := Expr.mem_inner.1 hq
    rw [hoperands] at ho
    obtain ⟨x, hx, hadapts⟩ := hwalks.operands o ho
    exact Expr.Stems.accounted_parts ⟨x, hx, hadapts⟩ ha hg q hq
  · have hlinked : added.all Selector.isLinked := by
      rw [List.all_eq_true]
      intro s hs
      obtain ⟨mark, rfl⟩ := hadded s hs
      rfl
    have hl : out.all Selector.isLinked = false := by
      simpa [Expr.isLinked, List.all_append, hlinked] using hl
    obtain ⟨o, ho, hblames⟩ := (hwalks.lost_of_unlinked hl).blames fun x hx => hx.accounts ha hg
    rw [← hoperands] at ho
    exact ⟨o, Expr.mem_inner.2 ⟨o, ho, o.self_mem_parts⟩, hblames⟩

lemma Use.Arises.accounted (h : Use.Arises a use) (ha : a.Ready) (hg : a.store.Grows s) :
    Use.Accounted s use := by
  cases h with
  | @read kind e hk h =>
    refine Use.accounted_of_parts ?_ (h.accounted_parts ha hg)
    cases kind with
    | call => exact absurd rfl hk
    | _ => rfl
  | called hc h => exact h.accounted hc ha hg

end

namespace Outcome

variable {features : Features} {library : Library}

lemma Accepts.accounted (h : (ofSource features library source).Accepts m) (hl : library.Built) :
    ∀ use ∈ m.uses, Use.Accounted (ofSource features library source).store use := by
  intro use hu
  obtain ⟨a, ha, harises⟩ := h.arises hl use hu
  exact harises.accounted ha.ready ha.grows

/-- The tree of an accepted module is resolved exactly if no proper procedure is called for a value:
then every expression that stands for a value has a type, every designator a declaration and every
field that is selected is found, also in what is called by a statement. -/
theorem resolved_iff_no_proper_value (h : (ofSource features library source).Accepts m)
    (hl : library.Built) :
    (∀ use ∈ m.uses, (∀ e ∈ Use.values use, e.type ≠ .undefined ∧ e.isLinked = true) ∧
     use.2.isLinked = true) ↔ ∀ use ∈ m.uses, ∀ e ∈ Use.values use,
    (ofSource features library source).store.isProperCall e = false := by
  have haccounted := h.accounted hl
  constructor
  · intro hresolved use hu e he
    by_contra hp
    exact ((hresolved use hu).1 e he).1 (((haccounted use hu).values e he).type (by simpa using hp))
  · intro hnone use hu
    have hunblamed (e : Expr) (he : e ∈ Use.values use) :
        ¬ e.Blames (ofSource features library source).store := by
      rintro ⟨q, hq, hp⟩
      rw [hnone use hu q (Use.parts_subset_values he hq)] at hp
      cases hp
    refine ⟨fun e he => ?_, ?_⟩
    · by_contra hu'
      refine hunblamed e he (((haccounted use hu).values e he).blames ?_)
      rw [not_and_or, not_not, Bool.not_eq_true] at hu'
      rw [Expr.isResolved, Bool.and_eq_false_iff, bne_eq_false_iff_eq]
      exact hu'
    · by_contra hunlinked
      obtain ⟨e, he, hblames⟩ := (haccounted use hu).linked (by simpa using hunlinked)
      exact hunblamed e he hblames

/-- A record is written and passed on, and nothing is called for a value that has none. -/
def passedField : String :=
  "MODULE M; TYPE T = RECORD a: INTEGER END; VAR t: T; PROCEDURE P(i: INTEGER); END P; " ++
    "BEGIN t.a := 1; P(t.a) END M."

lemma passedField_eval :
    (ofSource {} {} passedField).acceptsWith (fun o m => m.uses.length == 3 && m.uses.all fun use =>
     (values use).all fun e => !o.store.isProperCall e) := by
  decide +kernel

/-- Everything in this module is resolved. -/
theorem passedField_resolved : ∃ m, (ofSource {} {} passedField).Accepts m ∧ m.uses.length = 3 ∧
    ∀ use ∈ m.uses, (∀ e ∈ Use.values use, e.type ≠ .undefined ∧ e.isLinked = true) ∧
    use.2.isLinked = true := by
  obtain ⟨m, haccepts, hall⟩ := exists_of_acceptsWith passedField_eval
  rw [Bool.and_eq_true, beq_iff_eq] at hall
  refine ⟨m, haccepts, hall.1, (resolved_iff_no_proper_value haccepts .empty).2 fun use hu e he => ?_⟩
  simpa using List.all_eq_true.1 (List.all_eq_true.1 hall.2 use hu) e he

/-- A proper procedure is called for the value of an assignment. -/
def properValue : String := "MODULE M; VAR x: INTEGER; PROCEDURE P; END P; BEGIN x := P() END M."

lemma properValue_eval :
    (ofSource {} {} properValue).acceptsWith (fun _ m => m.assigns fun target value => target.type
     == .integer && value.type == .undefined) := by
  decide +kernel

/-- The module is accepted, and a value that is assigned has no type. -/
theorem properValue_unresolved : ∃ m, (ofSource {} {} properValue).Accepts m ∧ ∃ target value span,
    Statement.assign target value span ∈ Statement.allOf m.block.body ∧ target.type = .integer ∧
    value.type = .undefined ∧ ∃ use ∈ m.uses, value ∈ Use.values use := by
  obtain ⟨m, haccepts, h⟩ := exists_of_acceptsWith properValue_eval
  obtain ⟨target, value, span, hs, h⟩ := m.exists_of_assigns h
  rw [Bool.and_eq_true, beq_iff_eq, beq_iff_eq] at h
  refine ⟨m, haccepts, target, value, span, hs, h.1, h.2, (.value, value), ?_, Expr.self_mem_parts _⟩
  refine List.mem_flatMap.2 ⟨m.block, List.mem_cons_self, List.mem_flatMap.2 ⟨_, hs, ?_⟩⟩
  simp [Statement.own]

end Outcome

end Oberon
