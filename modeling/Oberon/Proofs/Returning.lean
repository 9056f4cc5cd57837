import Oberon.Proofs.Blocks
import Oberon.Proofs.Executions

/-!
# Oberon.Proofs.Returning

Procedures that have a result. The analysis accepts the body of such a procedure only if `returns`
holds of it, at any depth of nesting. So control falls off the end of an accepted procedure only
after an EXIT statement has left a LOOP or REPEAT statement whose body counts as returning.
-/

namespace Oberon

open Analyze Analysis List Procedure

variable {p : Procedure}

/-- Has the procedure a body that has to yield a result? -/
def Procedure.isFunction (s : Store) (p : Procedure) : Bool :=
  !Lifting.isExternal (s.decl p.decl) &&
    match s.signature? (s.typeOf p.decl) with
    | some sig => sig.result.isSome
    | none => false

lemma Outcome.Accepts.returns {features : Features} {library : Library}
    (h : (ofSource features library source).Accepts m) (hp : p ∈ m.preorder)
    (hf : p.isFunction (ofSource features library source).store) : returns p.block.body := by
  obtain ⟨_, _, _, _, _, hblocks⟩ := h.blocks
  rw [isFunction, Bool.and_eq_true] at hf
  cases (hblocks False False.elim).2 p hp with
  | external hlt hp hr => simp [decl, hr] at hf
  | defined hd hn =>
    obtain ⟨_, _, _, _, _, _, sig, hsig, hreturns⟩ := hd
    have hresult := hf.2
    simp only [decl, Outcome.store, hsig] at hresult
    exact hreturns hresult

/-- Behind the end of a returning sequence control gets exactly where it can get by leaving loops,
and in doing so it leaves a loop that counts as returning. The bodies of functions that are accepted
are returning sequences. -/
theorem fallsThrough_iff_canEnd (ss : List Statement) :
    ((returns ss = true → ∀ es, ¬ Runs (.statements ss) es .normal) ↔ (canEnd ss .normal = true →
     returns ss = false)) ∧
    (returns ss = true → ∀ es, Runs (.statements ss) es .normal → Escapes es) ∧
    ∀ (features : Features) (library : Library) (source : String) (m : Module),
    (Outcome.ofSource features library source).Accepts m → ∀ p ∈ m.preorder,
    p.isFunction (Outcome.ofSource features library source).store = true → returns p.block.body =
    true ∧
    ((∀ es, ¬ Runs (.statements p.block.body) es .normal) ↔ canEnd p.block.body .normal = false) ∧
    ∀ es, Runs (.statements p.block.body) es .normal → Escapes es := by
  have hsound (ss : List Statement) :
      (∀ es, ¬ Runs (.statements ss) es .normal) ↔ canEnd ss .normal = false := by
    rw [← Bool.not_eq_true, canEnd_iff, not_exists]
  refine ⟨?_, fun hr es h => h.escapes hr rfl, ?_⟩
  · rw [hsound]
    cases returns ss <;> simp
  · intro features library source m h p hp hf
    have hr := h.returns hp hf
    exact ⟨hr, hsound _, fun es h => h.escapes hr rfl⟩

/-- A function whose only statement is a LOOP that may be left. -/
def leftLoop : String := "MODULE M; VAR c: BOOLEAN; PROCEDURE P(): INTEGER; " ++
    "BEGIN LOOP IF c THEN EXIT END; RETURN 1 END END P; END M."

/-- The function is accepted, and control can fall off its end. -/
theorem leftLoop_fallsThrough : ∃ m, (Outcome.ofSource {} {} leftLoop).Accepts m ∧ ∃ p ∈ m.preorder,
    p.isFunction (Outcome.ofSource {} {} leftLoop).store = true ∧ returns p.block.body = true ∧
    ∃ es, Runs (.statements p.block.body) es .normal := by
  have heval : (Outcome.ofSource {} {} leftLoop).acceptsWith (fun o m => m.preorder.any fun p =>
      p.isFunction o.store && returns p.block.body && canEnd p.block.body .normal) = true := by
    decide +kernel
  obtain ⟨m, haccepts, hany⟩ := Outcome.exists_of_acceptsWith heval
  obtain ⟨p, hp, h⟩ := List.any_eq_true.1 hany
  rw [Bool.and_eq_true, Bool.and_eq_true] at h
  refine ⟨m, haccepts, p, hp, h.1.1, h.1.2, ?_⟩
  exact canEnd_iff.1 h.2

end Oberon
