import Mathlib.Tactic.Lemma
import Oberon.Statement

/-!
# Oberon.Proofs.Executions

Executions of statements. Nothing is known about the values of expressions, so a condition may turn
out either way, a CASE statement may select any of its arms, and a loop may have any number of
rounds: `Runs code es c` says that `code` can be executed with the events `es`, one after the other,
and then completes as `c`. An EXIT statement leaves the innermost loop around it.

How a sequence can complete is read off it by `canEnd`. `returns` is meant to say that a sequence
does not complete normally. It counts a LOOP or REPEAT statement whose body returns as returning,
whether or not an EXIT leaves it, and that is the only way to get behind a returning sequence.
-/

namespace Oberon

open Branch (allReturn body)

open Statement (isReturn)

variable {body : List Statement}
    {l : Statement}

/-! ## Executions -/

/-- What happens in the course of an execution. -/
inductive Event where
  /-- An expression is evaluated, with the calls in it. -/
  | evaluates (e : Expr)
  | assigns (target value : Expr)
  /-- An EXIT statement leaves the loop. -/
  | leaves (loop : Statement)

/-- How an execution comes to its end. -/
inductive Completion where
  | normal
  /-- By an EXIT statement that leaves the loop around what was executed. -/
  | exited
  | returned
deriving DecidableEq

/-- What can be executed. -/
inductive Code where
  | statement (s : Statement)
  | statements (ss : List Statement)
  /-- The rounds of a loop that are still to come. -/
  | rounds (loop : Statement)

/-- The tests of branches, none of which is taken. -/
def Branch.tests (bs : List Branch) : List Event := bs.map fun b => .evaluates b.test

/-- After the tests `es` the branch with the given body is taken. -/
inductive Branch.Picks : List Branch → List Event → List Statement → Prop
  | first (test : Expr) (body : List Statement) (span : Span) (rest : List Branch) :
      Picks (.mk test body span :: rest) [.evaluates test] body
  | later {es : List Event} {body : List Statement} (test : Expr)
      (other : List Statement) (span : Span) (h : Picks rest es body) :
      Picks (.mk test other span :: rest) (.evaluates test :: es) body

namespace Statement

/-- What a loop does before its first round. -/
def opening : Statement → List Event
  | .for counter low high _ _ _ => [.assigns counter low, .evaluates high]
  | _ => []

/-- A round of the loop executes `body` once `es` has happened. -/
inductive Enters : Statement → List Event → List Statement → Prop
  | loop (body : List Statement) (span : Span) : Enters (.loop body span) [] body
  | while {test : Expr} {body b : List Statement} {elsifs : List Branch} {span : Span}
      {es : List Event} (h : Branch.Picks (.mk test body span :: elsifs) es b) :
      Enters (.while test body elsifs span) es b
  | repeat (body : List Statement) (test : Expr) (span : Span) :
      Enters (.repeat body test span) [] body
  | for (counter low high step : Expr) (body : List Statement) (span : Span) :
      Enters (.for counter low high step body span) [] body

/-- What a loop does behind a round. -/
def closing : Statement → List Event
  | .repeat _ test _ => [.evaluates test]
  | .for counter _ _ step _ _ => [.assigns counter step]
  | _ => []

/-- In front of a round the loop may end, once `es` has happened. -/
inductive Ends : Statement → List Event → Prop
  | while (test : Expr) (body : List Statement) (elsifs : List Branch) (span : Span) :
      Ends (.while test body elsifs span) (Branch.tests (.mk test body span :: elsifs))
  | for (counter low high step : Expr) (body : List Statement) (span : Span) :
      Ends (.for counter low high step body span) []

/-- Behind a round the loop may end. -/
inductive EndsBehind : Statement → Prop
  | repeat (body : List Statement) (test : Expr) (span : Span) : EndsBehind (.repeat body test span)

end Statement

inductive Runs : Code → List Event → Completion → Prop
  | assign (target value : Expr) (span : Span) :
      Runs (.statement (.assign target value span)) [.assigns target value] .normal
  | call (e : Expr) (span : Span) : Runs (.statement (.call e span)) [.evaluates e] .normal
  | branch {test : Expr} {body b : List Statement} {elsifs : List Branch}
      {otherwise : Option (List Statement)} {span : Span} {es es' : List Event} {c : Completion}
      (hp : Branch.Picks (.mk test body span :: elsifs) es b) (h : Runs (.statements b) es' c) :
      Runs (.statement (.cond test body elsifs otherwise span)) (es ++ es') c
  | otherwise {body b : List Statement} {es : List Event} {c : Completion} (h : Runs (.statements b) es c) :
      Runs (.statement (.cond test body elsifs (some b) span))
        (Branch.tests (.mk test body span :: elsifs) ++ es) c
  | noBranch (test : Expr) (body : List Statement) (elsifs : List Branch) (span : Span) :
      Runs (.statement (.cond test body elsifs none span))
        (Branch.tests (.mk test body span :: elsifs)) .normal
  | arm {subject : Expr} {arms : List Arm} {otherwise : Option (List Statement)} {span : Span}
      {a : Arm} {es : List Event} {c : Completion} (ha : a ∈ arms)
      (h : Runs (.statements a.body) es c) :
      Runs (.statement (.select subject arms otherwise span)) (.evaluates subject :: es) c
  | otherArm {subject : Expr} {arms : List Arm} {span : Span} {b : List Statement}
      {es : List Event} {c : Completion} (h : Runs (.statements b) es c) :
      Runs (.statement (.select subject arms (some b) span)) (.evaluates subject :: es) c
  | noArm (subject : Expr) (arms : List Arm) (span : Span) :
      Runs (.statement (.select subject arms none span)) [.evaluates subject] .normal
  | exit (span : Span) : Runs (.statement (.exit span)) [] .exited
  | return (value : Option Expr) (span : Span) :
      Runs (.statement (.return value span)) (value.toList.map .evaluates) .returned
  | loop {l : Statement} {es : List Event} {c : Completion} (h : Runs (.rounds l) es c) :
      Runs (.statement l) (l.opening ++ es) c
  | ends {l : Statement} {es : List Event} (h : l.Ends es) : Runs (.rounds l) es .normal
  | endsBehind {l : Statement} {body : List Statement} {es es' : List Event}
      (he : l.Enters es body) (h : Runs (.statements body) es' .normal) (hl : l.EndsBehind) :
      Runs (.rounds l) (es ++ es' ++ l.closing) .normal
  | again {l : Statement} {body : List Statement} {es es' es'' : List Event} {c : Completion}
      (he : l.Enters es body) (h : Runs (.statements body) es' .normal)
      (hr : Runs (.rounds l) es'' c) : Runs (.rounds l) (es ++ es' ++ l.closing ++ es'') c
  | left {l : Statement} {body : List Statement} {es es' : List Event}
      (he : l.Enters es body) (h : Runs (.statements body) es' .exited) :
      Runs (.rounds l) (es ++ es' ++ [.leaves l]) .normal
  | returned {l : Statement} {body : List Statement} {es es' : List Event}
      (he : l.Enters es body) (h : Runs (.statements body) es' .returned) :
      Runs (.rounds l) (es ++ es') .returned
  | nil : Runs (.statements []) [] .normal
  | cons {s : Statement} {rest : List Statement} {es es' : List Event} {c : Completion}
      (hs : Runs (.statement s) es .normal) (h : Runs (.statements rest) es' c) :
      Runs (.statements (s :: rest)) (es ++ es') c
  | stop {s : Statement} {es : List Event} {c : Completion} (rest : List Statement)
      (hs : Runs (.statement s) es c) (hc : c ≠ .normal) : Runs (.statements (s :: rest)) es c

/-! ## Possible completions -/

mutual

/-- Can an execution of the statement complete in the given way? -/
def Statement.canEnd : Statement → Completion → Bool
  | .assign _ _ _, c => c == .normal
  | .call _ _, c => c == .normal
  | .cond _ body elsifs otherwise _, c =>
    canEnd body c || Branch.canEnd elsifs c || otherwiseCanEnd otherwise c
  | .select _ arms otherwise _, c => Arm.canEnd arms c || otherwiseCanEnd otherwise c
  | .loop body _, .normal => canEnd body .exited
  | .loop body _, .returned => canEnd body .returned
  | .while _ _ _ _, .normal => true
  | .while _ body elsifs _, .returned => canEnd body .returned || Branch.canEnd elsifs .returned
  | .repeat body _ _, .normal => canEnd body .normal || canEnd body .exited
  | .repeat body _ _, .returned => canEnd body .returned
  | .for _ _ _ _ _ _, .normal => true
  | .for _ _ _ _ body _, .returned => canEnd body .returned
  | .exit _, c => c == .exited
  | .return _ _, c => c == .returned
  | _, .exited => false

/-- Can an execution of the sequence complete in the given way? -/
def canEnd : List Statement → Completion → Bool
  | [], c => c == .normal
  | s :: rest, c => (s.canEnd .normal && canEnd rest c) || (c != .normal && s.canEnd c)

def otherwiseCanEnd : Option (List Statement) → Completion → Bool
  | none, c => c == .normal
  | some body, c => canEnd body c

def Branch.canEnd : List Branch → Completion → Bool
  | [], _ => false
  | .mk _ body _ :: rest, c => Oberon.canEnd body c || Branch.canEnd rest c

def Arm.canEnd : List Arm → Completion → Bool
  | [], _ => false
  | .mk _ body :: rest, c => Oberon.canEnd body c || Arm.canEnd rest c

end

lemma Branch.Picks.mem (h : Picks bs es body) : ∃ b ∈ bs, b.body = body := by
  induction h with
  | first test body span rest => exact ⟨_, List.mem_cons_self, rfl⟩
  | later test other span _ ih =>
    obtain ⟨b, hb, rfl⟩ := ih
    exact ⟨b, List.mem_cons_of_mem _ hb, rfl⟩

lemma Branch.canEnd_iff : canEnd bs c ↔ ∃ b ∈ bs, Oberon.canEnd b.body c := by
  induction bs with
  | nil => simp [canEnd]
  | cons b rest ih =>
    cases b
    simp [canEnd, body, ih]

lemma Arm.canEnd_iff : Arm.canEnd as c ↔ ∃ a ∈ as, Oberon.canEnd a.body c := by
  induction as with
  | nil => simp [Arm.canEnd]
  | cons a rest ih =>
    cases a
    simp [Arm.canEnd, Arm.body, ih]

def Code.canEnd : Code → Completion → Bool
  | .statement s, c => s.canEnd c
  | .statements ss, c => Oberon.canEnd ss c
  | .rounds l, c => l.canEnd c

/-- How a round completes tells how the loop can. -/
lemma Statement.Enters.canEnd (h : l.Enters es body) :
    (Oberon.canEnd body .exited → l.canEnd .normal) ∧
    (Oberon.canEnd body .returned → l.canEnd .returned) := by
  cases h with
  | loop body span => simp [Statement.canEnd]
  | @«while» test body b elsifs span es hp =>
    obtain ⟨b', hb, rfl⟩ := hp.mem
    refine ⟨fun _ => rfl, fun hc => ?_⟩
    have hany := Branch.canEnd_iff.2 ⟨b', hb, hc⟩
    simpa [Statement.canEnd, Branch.canEnd] using hany
  | «repeat» body test span =>
    simp only [Statement.canEnd, Bool.or_eq_true]
    exact ⟨.inr, id⟩
  | «for» counter low high step body span => simp [Statement.canEnd]

/-- No execution completes in another way than `canEnd` says. -/
lemma Runs.canEnd (h : Runs code es c) : code.canEnd c := by
  induction h with
  | assign target value span | call e span => rfl
  | @branch test body b elsifs otherwise span es es' c hp _ ih =>
    obtain ⟨b', hb, rfl⟩ := hp.mem
    have hany := Branch.canEnd_iff.2 ⟨b', hb, ih⟩
    simp only [Branch.canEnd] at hany
    simp [Code.canEnd, Statement.canEnd, hany]
  | otherwise _ ih =>
    have ih : Oberon.canEnd _ _ := ih
    simp [Code.canEnd, Statement.canEnd, otherwiseCanEnd, ih]
  | noBranch test body elsifs span => simp [Code.canEnd, Statement.canEnd, otherwiseCanEnd]
  | arm ha _ ih =>
    have hany := Arm.canEnd_iff.2 ⟨_, ha, ih⟩
    simp [Code.canEnd, Statement.canEnd, hany]
  | otherArm _ ih =>
    have ih : Oberon.canEnd _ _ := ih
    simp [Code.canEnd, Statement.canEnd, otherwiseCanEnd, ih]
  | noArm subject arms span => simp [Code.canEnd, Statement.canEnd, otherwiseCanEnd]
  | exit span | «return» value span => rfl
  | loop _ ih => exact ih
  | ends h => cases h <;> rfl
  | endsBehind he _ hl ih =>
    cases hl
    cases he
    have ih : Oberon.canEnd _ .normal := ih
    simp [Code.canEnd, Statement.canEnd, ih]
  | again _ _ _ _ ih => exact ih
  | left he _ ih => exact he.canEnd.1 ih
  | returned he _ ih => exact he.canEnd.2 ih
  | nil => rfl
  | cons _ _ ihs ih =>
    have ihs : Statement.canEnd _ _ := ihs
    have ih : Oberon.canEnd _ _ := ih
    simp [Code.canEnd, Oberon.canEnd, ihs, ih]
  | stop rest _ hc ih =>
    have ih : Statement.canEnd _ _ := ih
    simp [Code.canEnd, Oberon.canEnd, ih, hc]

/-- A loop whose body can be executed once has an execution with one round. -/
lemma Statement.Enters.runs (h : l.Enters es body) :
    ((∃ es', Runs (.statements body) es' .exited) → ∃ es', Runs (.statement l) es' .normal) ∧
    ((∃ es', Runs (.statements body) es' .returned) → ∃ es',
     Runs (.statement l) es' .returned) := by
  constructor
  · rintro ⟨es', hr⟩
    exact ⟨_, .loop (.left h hr)⟩
  · rintro ⟨es', hr⟩
    exact ⟨_, .loop (.returned h hr)⟩

mutual

lemma Statement.runs_of_canEnd : ∀ (s : Statement) c, s.canEnd c →
    ∃ es, Runs (.statement s) es c
  | .assign target value span, c, h => by
    simp only [Statement.canEnd, beq_iff_eq] at h
    subst h
    exact ⟨_, .assign target value span⟩
  | .call e span, c, h => by
    simp only [Statement.canEnd, beq_iff_eq] at h
    subst h
    exact ⟨_, .call e span⟩
  | .cond test body elsifs otherwise span, c, h => by
    simp only [Statement.canEnd, Bool.or_eq_true] at h
    rcases h with (h | h) | h
    · obtain ⟨es, hr⟩ := runs_of_canEnd body c h
      exact ⟨_, .branch (.first test body span elsifs) hr⟩
    · obtain ⟨es, b, hp, es', hr⟩ := Branch.runs_of_canEnd elsifs c h
      exact ⟨_, .branch (.later test body span hp) hr⟩
    · cases otherwise with
      | none =>
        simp only [otherwiseCanEnd, beq_iff_eq] at h
        subst h
        exact ⟨_, .noBranch test body elsifs span⟩
      | some b =>
        obtain ⟨es, hr⟩ := runs_of_canEnd b c h
        exact ⟨_, .otherwise hr⟩
  | .select subject arms otherwise span, c, h => by
    simp only [Statement.canEnd, Bool.or_eq_true] at h
    rcases h with h | h
    · obtain ⟨a, ha, es, hr⟩ := Arm.runs_of_canEnd arms c h
      exact ⟨_, .arm ha hr⟩
    · cases otherwise with
      | none =>
        simp only [otherwiseCanEnd, beq_iff_eq] at h
        subst h
        exact ⟨_, .noArm subject arms span⟩
      | some b =>
        obtain ⟨es, hr⟩ := runs_of_canEnd b c h
        exact ⟨_, .otherArm hr⟩
  | .loop body span, c, h => by
    have hl := Statement.Enters.runs (.loop body span)
    cases c with
    | normal => exact hl.1 (runs_of_canEnd body .exited h)
    | exited => cases h
    | returned => exact hl.2 (runs_of_canEnd body .returned h)
  | .while test body elsifs span, c, h => by
    cases c with
    | normal => exact ⟨_, .loop (.ends (.while test body elsifs span))⟩
    | exited => cases h
    | returned =>
      simp only [Statement.canEnd, Bool.or_eq_true] at h
      rcases h with h | h
      · exact (Statement.Enters.runs (.while (.first test body span elsifs))).2
          (runs_of_canEnd body .returned h)
      · obtain ⟨es, b, hp, hr⟩ := Branch.runs_of_canEnd elsifs .returned h
        exact (Statement.Enters.runs (.while (.later test body span hp))).2 hr
  | .repeat body test span, c, h => by
    have hl := Statement.Enters.runs (.repeat body test span)
    cases c with
    | normal =>
      simp only [Statement.canEnd, Bool.or_eq_true] at h
      rcases h with h | h
      · obtain ⟨es, hr⟩ := runs_of_canEnd body .normal h
        exact ⟨_, .loop (.endsBehind (.repeat body test span) hr (.repeat body test span))⟩
      · exact hl.1 (runs_of_canEnd body .exited h)
    | exited => cases h
    | returned => exact hl.2 (runs_of_canEnd body .returned h)
  | .for counter low high step body span, c, h => by
    cases c with
    | normal => exact ⟨_, .loop (.ends (.for counter low high step body span))⟩
    | exited => cases h
    | returned =>
      exact (Statement.Enters.runs (.for counter low high step body span)).2
        (runs_of_canEnd body .returned h)
  | .exit span, c, h => by
    simp only [Statement.canEnd, beq_iff_eq] at h
    subst h
    exact ⟨_, .exit span⟩
  | .return value span, c, h => by
    simp only [Statement.canEnd, beq_iff_eq] at h
    subst h
    exact ⟨_, .return value span⟩

lemma runs_of_canEnd : ∀ ss c, canEnd ss c →
    ∃ es, Runs (.statements ss) es c
  | [], c, h => by
    simp only [canEnd, beq_iff_eq] at h
    subst h
    exact ⟨_, .nil⟩
  | s :: rest, c, h => by
    simp only [canEnd, Bool.or_eq_true, Bool.and_eq_true, bne_iff_ne] at h
    rcases h with ⟨hs, h⟩ | ⟨hc, hs⟩
    · obtain ⟨es, hrs⟩ := Statement.runs_of_canEnd s .normal hs
      obtain ⟨es', hr⟩ := runs_of_canEnd rest c h
      exact ⟨_, .cons hrs hr⟩
    · obtain ⟨es, hrs⟩ := Statement.runs_of_canEnd s c hs
      exact ⟨es, .stop rest hrs hc⟩

lemma Branch.runs_of_canEnd : ∀ bs c, Branch.canEnd bs c →
    ∃ es b, Branch.Picks bs es b ∧ ∃ es', Runs (.statements b) es' c
  | [], c, h => by cases h
  | .mk test body span :: rest, c, h => by
    simp only [Branch.canEnd, Bool.or_eq_true] at h
    rcases h with h | h
    · exact ⟨_, body, .first test body span rest, Oberon.runs_of_canEnd body c h⟩
    · obtain ⟨es, b, hp, hr⟩ := Branch.runs_of_canEnd rest c h
      exact ⟨_, b, .later test body span hp, hr⟩

lemma Arm.runs_of_canEnd : ∀ as c, Arm.canEnd as c →
    ∃ a ∈ as, ∃ es, Runs (.statements a.body) es c
  | [], c, h => by cases h
  | .mk labels body :: rest, c, h => by
    simp only [Arm.canEnd, Bool.or_eq_true] at h
    rcases h with h | h
    · exact ⟨_, List.mem_cons_self, Oberon.runs_of_canEnd body c h⟩
    · obtain ⟨a, ha, hr⟩ := Arm.runs_of_canEnd rest c h
      exact ⟨a, List.mem_cons_of_mem _ ha, hr⟩

end

/-- `canEnd` knows all ways in which a sequence can complete, and no others. -/
lemma canEnd_iff : canEnd ss c ↔ ∃ es, Runs (.statements ss) es c := by
  constructor
  · exact runs_of_canEnd ss c
  · rintro ⟨es, h⟩
    exact h.canEnd

/-! ## Sequences that return -/

/-- In the course of the events an EXIT statement leaves a loop that counts as returning. -/
def Escapes (es : List Event) : Prop := ∃ l : Statement, Event.leaves l ∈ es ∧ l.isReturn = true

lemma Escapes.left (h : Escapes es) (es') : Escapes (es ++ es') := by
  obtain ⟨l, hl, hr⟩ := h
  exact ⟨l, List.mem_append_left _ hl, hr⟩

lemma Escapes.right (es) (h : Escapes es') : Escapes (es ++ es') := by
  obtain ⟨l, hl, hr⟩ := h
  exact ⟨l, List.mem_append_right _ hl, hr⟩

lemma Branch.Picks.returns (h : Picks bs es body) (hr : allReturn bs) : Oberon.returns body := by
  induction h with
  | first test body span rest =>
    simp only [allReturn, Bool.and_eq_true] at hr
    exact hr.1
  | later test other span _ ih =>
    simp only [allReturn, Bool.and_eq_true] at hr
    exact ih hr.2

lemma Arm.returns_of_mem (hm : a ∈ as) (h : Arm.allReturn as) : returns a.body := by
  induction as with
  | nil => cases hm
  | cons a' rest ih =>
    cases a'
    simp only [Arm.allReturn, Bool.and_eq_true] at h
    rcases List.mem_cons.1 hm with rfl | hm
    · exact h.1
    · exact ih hm h.2

lemma Statement.Enters.returns (h : l.Enters es body) (hr : l.isReturn) :
    Oberon.returns body := by
  cases h with
  | loop body span => exact hr
  | «while» hp => cases hr
  | «repeat» body test span => exact hr
  | «for» counter low high step body span => cases hr

def Code.Returns : Code → Prop
  | .statement s => s.isReturn = true
  | .statements ss => returns ss = true
  | .rounds l => l.isReturn = true

/-- What counts as returning completes normally only if a loop in it is left that counts as
returning. -/
lemma Runs.escapes (h : Runs code es c) (hr : code.Returns) (hc : c = .normal) : Escapes es := by
  induction h with
  | assign | call | noBranch | noArm => cases hr
  | exit | «return» => cases hc
  | @branch test body b elsifs otherwise span es es' c hp _ ih =>
    cases otherwise with
    | none => cases hr
    | some o =>
      simp only [Code.Returns, isReturn, Bool.and_eq_true] at hr
      have hb : allReturn (.mk test body span :: elsifs) := by
        simp [allReturn, hr.1]
      exact .right es (ih (hp.returns hb) hc)
  | otherwise _ ih =>
    simp only [Code.Returns, isReturn, Bool.and_eq_true] at hr
    exact .right _ (ih hr.2 hc)
  | @arm subject arms otherwise span a es c ha _ ih =>
    cases otherwise with
    | none => cases hr
    | some o =>
      simp only [Code.Returns, isReturn, Bool.and_eq_true] at hr
      exact .right [.evaluates subject] (ih (Arm.returns_of_mem ha hr.1) hc)
  | @otherArm subject arms span b es c _ ih =>
    simp only [Code.Returns, isReturn, Bool.and_eq_true] at hr
    exact .right [.evaluates subject] (ih hr.2 hc)
  | loop _ ih => exact .right _ (ih hr hc)
  | ends h => cases h <;> cases hr
  | endsBehind he _ _ ih => exact .left (.right _ (ih (he.returns hr) rfl)) _
  | again _ _ _ _ ih => exact .right _ (ih hr hc)
  | @left l body es es' _ _ _ =>
    exact .right _ ⟨l, List.mem_singleton_self _, hr⟩
  | returned => cases hc
  | nil => cases hr
  | cons _ _ ihs ih =>
    simp only [Code.Returns, returns, Bool.or_eq_true] at hr
    rcases hr with hr | hr
    · exact .left (ihs hr rfl) _
    · exact .right _ (ih hr hc)
  | stop rest _ hn _ => exact absurd hc hn

end Oberon
