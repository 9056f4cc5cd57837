import Oberon.Analysis.Statements
import Oberon.Proofs.Executions

/-!
# Oberon.Proofs.Stopping

Where control cannot go on, and how loops are left. A terminator never completes normally, so no
execution gets to what stands behind it; and a sequence can be left by an EXIT statement only if
`hasExit` finds one, so a LOOP statement that is reported to have none goes on forever or returns.
Both checks err on one side only: a terminator may be missed, an EXIT may be found that control
never gets to.
-/

namespace Oberon

open Statement (isExit isTerminator)

/-! ## Terminators -/

mutual

lemma Statement.canEnd_of_isTerminator : ∀ s : Statement, s.isTerminator →
    s.canEnd .normal = false
  | .return _ _, _ => rfl
  | .exit _, _ => rfl
  | .cond _ body elsifs (some otherwise) _, h => by
    simp only [isTerminator, Bool.and_eq_true] at h
    simp only [Statement.canEnd, otherwiseCanEnd, canEnd_of_terminates body h.1.1,
      Branch.canEnd_of_allTerminate elsifs h.1.2, canEnd_of_terminates otherwise h.2, Bool.or_self]
  | .select _ arms (some otherwise) _, h => by
    simp only [isTerminator, Bool.and_eq_true] at h
    simp only [Statement.canEnd, otherwiseCanEnd, Arm.canEnd_of_allTerminate arms h.1,
      canEnd_of_terminates otherwise h.2, Bool.or_self]
  | .assign .., h | .call .., h | .cond _ _ _ none _, h | .select _ _ none _, h | .loop .., h
  | .while .., h | .repeat .., h | .for .., h => by simp [isTerminator] at h

lemma canEnd_of_terminates : ∀ ss, terminates ss →
    canEnd ss .normal = false
  | [], h => by simp [terminates] at h
  | s :: rest, h => by
    simp only [terminates, Bool.or_eq_true] at h
    -- what stands behind a terminator does not matter
    rcases h with h | h
    · simp [canEnd, s.canEnd_of_isTerminator h]
    · simp [canEnd, canEnd_of_terminates rest h]

lemma Branch.canEnd_of_allTerminate : ∀ bs, Branch.allTerminate bs →
    Branch.canEnd bs .normal = false
  | [], _ => rfl
  | .mk _ body _ :: rest, h => by
    simp only [Branch.allTerminate, Bool.and_eq_true] at h
    simp [Branch.canEnd, canEnd_of_terminates body h.1, Branch.canEnd_of_allTerminate rest h.2]

lemma Arm.canEnd_of_allTerminate : ∀ as, Arm.allTerminate as →
    Arm.canEnd as .normal = false
  | [], _ => rfl
  | .mk _ body :: rest, h => by
    simp only [Arm.allTerminate, Bool.and_eq_true] at h
    simp [Arm.canEnd, canEnd_of_terminates body h.1, Arm.canEnd_of_allTerminate rest h.2]

end

/-- An execution of the sequence gets to the statement at `k` once all before it have completed
normally. Whether the execution ever comes to an end is left open. -/
def Starts (ss : List Statement) (k : Nat) (es : List Event) : Prop :=
  k < ss.length ∧ Runs (.statements (ss.take k)) es .normal

lemma terminates_of_mem (hs : s ∈ ss) (h : s.isTerminator) : terminates ss := by
  induction hs with
  | head rest => simp [terminates, h]
  | tail _ _ ih => simp [terminates, ih]

lemma not_starts_of_terminatorIndex? (h : terminatorIndex? ss = some i) (es) :
    ¬ Starts ss (i + 1) es := by
  rintro ⟨_, hruns⟩
  obtain ⟨hi, hs, _⟩ := List.findIdx?_eq_some_iff_getElem.1 h
  have hmem : ss[i] ∈ ss.take (i + 1) := List.mem_take_iff_getElem.2 ⟨i, by omega, rfl⟩
  have hblocked := canEnd_of_terminates _ (terminates_of_mem hmem hs)
  have hends : canEnd (ss.take (i + 1)) .normal := hruns.canEnd
  rw [hblocked] at hends
  cases hends

/-! ## Exits -/

mutual

lemma Statement.isExit_of_canEnd : ∀ s : Statement, s.canEnd .exited → s.isExit
  | .exit _, _ => rfl
  | .cond _ body elsifs otherwise _, h => by
    simp only [Statement.canEnd, Bool.or_eq_true] at h
    simp only [isExit, Bool.or_eq_true]
    exact h.imp (.imp (hasExit_of_canEnd body) (Branch.anyExit_of_canEnd elsifs))
      (otherwiseExit_of_canEnd otherwise)
  | .select _ arms otherwise _, h => by
    simp only [Statement.canEnd, Bool.or_eq_true] at h
    simp only [isExit, Bool.or_eq_true]
    exact h.imp (Arm.anyExit_of_canEnd arms) (otherwiseExit_of_canEnd otherwise)
  | .assign .., h | .call .., h | .loop .., h | .while .., h | .repeat .., h | .for .., h
  | .return .., h => by simp [Statement.canEnd] at h

lemma hasExit_of_canEnd : ∀ ss, canEnd ss .exited → hasExit ss
  | [], h => by simp [canEnd] at h
  | s :: rest, h => by
    simp only [canEnd, Bool.or_eq_true, Bool.and_eq_true] at h
    simp only [hasExit, Bool.or_eq_true]
    exact h.symm.imp (fun h => s.isExit_of_canEnd h.2) fun h => hasExit_of_canEnd rest h.2

lemma otherwiseExit_of_canEnd : ∀ otherwise : Option (List Statement),
    otherwiseCanEnd otherwise .exited → otherwiseExit otherwise
  | none, h => by simp [otherwiseCanEnd] at h
  | some body, h => hasExit_of_canEnd body h

lemma Branch.anyExit_of_canEnd : ∀ bs, Branch.canEnd bs .exited →
    Branch.anyExit bs
  | [], h => by simp [Branch.canEnd] at h
  | .mk _ body _ :: rest, h => by
    simp only [Branch.canEnd, Bool.or_eq_true] at h
    simp only [Branch.anyExit, Bool.or_eq_true]
    exact h.imp (hasExit_of_canEnd body) (Branch.anyExit_of_canEnd rest)

lemma Arm.anyExit_of_canEnd : ∀ as, Arm.canEnd as .exited →
    Arm.anyExit as
  | [], h => by simp [Arm.canEnd] at h
  | .mk _ body :: rest, h => by
    simp only [Arm.canEnd, Bool.or_eq_true] at h
    simp only [Arm.anyExit, Bool.or_eq_true]
    exact h.imp (hasExit_of_canEnd body) (Arm.anyExit_of_canEnd rest)

end

lemma not_runs_loop (h : hasExit body = false) (span es) :
    ¬ Runs (.statement (.loop body span)) es .normal := by
  intro hruns
  have hleft : canEnd body .exited := hruns.canEnd
  rw [hasExit_of_canEnd body hleft] at h
  cases h

/-! ## What is reported -/

namespace Analyze

lemma not_starts_of_sequence (h : (sequence ss a).2.log ≠ a.log) : ∃ k s, ss[k]? = some s ∧
    (sequence ss a).2.log = a.log.record .error s.span (.statement .unreachable) ∧ ∀ es,
    ¬ Starts ss k es := by
  cases hi : terminatorIndex? ss with
  | none => exact absurd (by simp only [sequence, hi]; rfl) h
  | some i =>
    cases hs : ss[i + 1]? with
    | none => exact absurd (by simp only [sequence, hi, hs]; rfl) h
    | some s =>
      exact ⟨i + 1, s, hs, by simp only [sequence, hi, hs]; rfl, not_starts_of_terminatorIndex? hi⟩

lemma not_runs_of_loop (h : (loop span body a).2.log ≠ a.log) (es) :
    ¬ Runs (.statement (loop span body a).1) es .normal := by
  cases hexit : hasExit body with
  | true => exact absurd (by simp only [loop, hexit]; rfl) h
  | false =>
    have hloop : (loop span body a).1 = .loop body span := by simp only [loop, hexit]; rfl
    rw [hloop]
    exact not_runs_loop hexit span es

end Analyze

/-- No execution gets behind a terminator, and a sequence that is left by an EXIT statement has one.
So what is reported to be unreachable is never started, and a LOOP statement that is reported to have
no EXIT does not complete normally. -/
theorem terminators_and_exits_sound (ss : List Statement) :
    (∀ i, terminatorIndex? ss = some i → ∀ es, ¬ Starts ss (i + 1) es) ∧
    (∀ es, Runs (.statements ss) es .exited → hasExit ss = true) ∧
    (∀ a, (Analyze.sequence ss a).2.log ≠ a.log → ∃ k s, ss[k]? = some s ∧
     (Analyze.sequence ss a).2.log = a.log.record .error s.span (.statement .unreachable) ∧ ∀ es,
     ¬ Starts ss k es) ∧ ∀ span a, (Analyze.loop span ss a).2.log ≠ a.log → ∀ es,
    ¬ Runs (.statement (Analyze.loop span ss a).1) es .normal :=
  ⟨fun _ => not_starts_of_terminatorIndex?, fun _ h => hasExit_of_canEnd ss h.canEnd,
    fun _ => Analyze.not_starts_of_sequence, fun _ _ => Analyze.not_runs_of_loop⟩

end Oberon
