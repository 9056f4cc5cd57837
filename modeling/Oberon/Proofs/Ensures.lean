import Oberon.Proofs.Keeps

/-!
# Oberon.Proofs.Ensures

Reasoning about actions of the analysis that report nothing wrong. `x.Ensures a Q` says that `x`,
started in `a`, either leaves an error in the log or satisfies `Q`; `x.Succeeds a v b` says that it
did not leave one. The rules go through an action from its front to its end, and behind a report
there is nothing left to show.
-/

namespace Oberon

variable {q : Prop}
namespace Analyze

open Analysis

/-- The action yields `v` and leaves the analysis as `b`, in which nothing wrong is reported. -/
structure Succeeds (x : Analyze α) (a : Analysis) (v : α) (b : Analysis) : Prop where
  run : x a = (v, b)
  clean : ¬ b.Failed

/-- Unless an error is reported, the outcome satisfies `Q`. -/
def Ensures (x : Analyze α) (a : Analysis) (Q : α → Analysis → Prop) : Prop :=
  ¬ (x a).2.Failed → Q (x a).1 (x a).2

lemma Succeeds.silent {x : Analyze α} {v : α} [Quiet x] (h : x.Succeeds a v b) : a.Silent b := by
  have hs := Analyze.silent x a
  rwa [h.run] at hs

lemma Succeeds.ensures {x : Analyze α} {v : α} {Q : α → Analysis → Prop} (h : x.Succeeds a v b)
    (hx : x.Ensures a Q) : Q v b := by
  have hr := hx (by rw [h.run]; exact h.clean)
  rwa [h.run] at hr

namespace Ensures

variable {x : Analyze α} {Q : β → Analysis → Prop}

lemma mono {Q : α → Analysis → Prop} (hx : x.Ensures a P) (h : ∀ v b, P v b → Q v b) :
    x.Ensures a Q :=
  fun hf => h _ _ (hx hf)

lemma pure {v : β} (h : ¬ a.Failed → Q v a) : (pure v : Analyze β).Ensures a Q := fun hf => h hf

/-- As `bind`, where instances are not enough to see that what follows only adds to the log. -/
lemma bind_of_appends (hf' : ∀ v, Appends (f v)) (hx : x.Ensures a P)
    (hf : ∀ v b, P v b → (f v).Ensures b Q) : (x >>= f).Ensures a Q := by
  intro hfail
  have hclean : ¬ (x a).2.Failed := fun h => hfail (((hf' (x a).1).keeps (x a).2).failed h)
  exact hf _ _ (hx hclean) hfail

lemma bind [hf' : ∀ v, Appends (f v)] (hx : x.Ensures a P)
    (hf : ∀ v b, P v b → (f v).Ensures b Q) : (x >>= f).Ensures a Q :=
  bind_of_appends hf' hx hf

/-- What follows a report does not matter. -/
lemma fails [∀ v, Appends (f v)] (hx : x.Ensures a fun _ _ => False) : (x >>= f).Ensures a Q :=
  bind hx fun _ _ h => h.elim

lemma ite [Decidable q] {x y : Analyze α} (hx : q → x.Ensures a P)
    (hy : ¬ q → y.Ensures a P) : (if q then x else y).Ensures a P := by
  split
  · exact hx ‹_›
  · exact hy ‹_›

lemma get {f : Analysis → Analyze β} (h : (f a).Ensures a Q) : (get >>= f).Ensures a Q := h

lemma getStore {f : Store → Analyze β} (h : (f a.store).Ensures a Q) :
    (getStore >>= f).Ensures a Q := h

/-- After a report there is nothing to show. -/
lemma report (span message) {Q : Unit → Analysis → Prop} : (report span message).Ensures a Q :=
  fun hf => absurd (failed_report span message a) hf

section

variable [Decidable q] {f : Unit → Analyze β} [∀ v, Appends (f v)]

lemma reported : (Analyze.report span message >>= f).Ensures a Q := fails (report span message)

/-- Where one branch reports something, the other one matters. -/
lemma otherwise {y : Analyze β} (h : ¬ q → y.Ensures a Q) :
    (if q then Analyze.report span message >>= f else y).Ensures a Q :=
  ite (fun _ => reported) h

lemma provided {x : Analyze β} (h : q → x.Ensures a Q) :
    (if q then x else Analyze.report span message >>= f).Ensures a Q :=
  ite h fun _ => reported

end

lemma reportIf (condition span message) :
    (reportIf condition span message).Ensures a fun _ b => condition = false ∧ b = a :=
  ite (fun _ => report span message) fun h => pure fun _ => ⟨by simpa using h, rfl⟩

/-- A quiet action records messages. -/
lemma quiet (x : Analyze α) [Quiet x] : x.Ensures a fun _ b => a.Silent b :=
  fun _ => Analyze.silent x a

lemma silently [Quiet x] (h : x.Ensures a P) : x.Ensures a fun v b => a.Silent b ∧ P v b :=
  fun hf => ⟨Analyze.silent x a, h hf⟩

/-- What a quiet action is run for under some condition only has to hold either way. -/
lemma optional_of_appends [Decidable q] {x : Analyze α} {k : Analyze β} [Quiet x]
    (hk : Appends k) (h : ∀ b, a.Silent b → k.Ensures b Q) :
    (if q then x >>= fun _ => k else k).Ensures a Q :=
  ite (fun _ => bind (quiet x) fun _ b hb => h b hb) fun _ => h a (.refl a)

lemma optional [Decidable q] {x : Analyze α} {k : Analyze β} [Quiet x]
    [hk : Appends k] (h : ∀ b, a.Silent b → k.Ensures b Q) :
    (if q then x >>= fun _ => k else k).Ensures a Q :=
  optional_of_appends hk h

lemma evaluate {r : Constant.Result α} : (evaluate r).Ensures a fun v b => b = a ∧ ∀ w, v =
    some w → r = .ok w := by
  unfold Analyze.evaluate
  split
  · exact pure fun _ => ⟨rfl, fun w h => by cases h; rfl⟩
  · exact pure fun _ => ⟨rfl, fun w h => by cases h⟩
  · exact reported

end Ensures
end Analyze
end Oberon
