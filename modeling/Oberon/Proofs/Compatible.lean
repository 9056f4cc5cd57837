import Mathlib.Tactic.IntervalCases
import Oberon.Proofs.References

/-!
# Oberon.Proofs.Compatible

The check whether a value of one type goes for another. It fails with one message and changes nothing
else, and it ends before its bound on the steps does. Procedure types are compared by structure; their
parameters may be open arrays of different types, but of two arrays of fixed length not even the same.
-/

namespace Oberon

open Store Ty
namespace Store

variable {s : Store}

/-! ## Procedure types -/

/-- Two open arrays of equally many dimensions and of equal members. -/
def OpenAlike (s : Store) (f g : ArrayForm) : Prop :=
  f.isOpen = true ∧ g.isOpen = true ∧ f.dimensions = g.dimensions ∧ s.sameType f.member g.member = true

/-- Two parameters that are passed in the same way, of equal types or of types that are open arrays
alike. -/
def SameParameter (s : Store) (x y : DeclId) : Prop :=
  (s.decl x).isVarParameter = (s.decl y).isVarParameter ∧ (s.sameType (s.typeOf x) (s.typeOf y) = true ∨
    ∃ f g, s.array? (s.typeOf x) = some f ∧ s.array? (s.typeOf y) = some g ∧ s.OpenAlike f g)

/-- Neither has a result, or the results are of equal types. -/
def SameResult (s : Store) (e a : Signature) : Prop :=
  e.result = none ∧ a.result = none ∨
    ∃ t u, e.result = some t ∧ a.result = some u ∧ s.sameType t u = true

/-- If both parameters are arrays, they are open arrays alike. -/
def OpenIfArrays (s : Store) (x y : DeclId) : Prop :=
  ∀ f g, s.array? (s.typeOf x) = some f → s.array? (s.typeOf y) = some g → s.OpenAlike f g

lemma parametersAgree_iff (x y) : s.parametersAgree x y ↔ s.SameParameter x y ∧
    s.OpenIfArrays x y := by
  simp only [parametersAgree, SameParameter, OpenIfArrays, typeOf, Bool.and_eq_true, beq_iff_eq]
  rw [and_assoc]
  refine and_congr_right fun _ => ?_
  split
  · next f g hf hg =>
    simp only [hf, hg, OpenAlike, Bool.and_eq_true, beq_iff_eq, and_assoc, Option.some.injEq]
    constructor
    · intro h
      exact ⟨.inr ⟨f, g, rfl, rfl, h⟩, by rintro _ _ rfl rfl; exact h⟩
    · exact fun h => h.2 f g rfl rfl
  · next hnone =>
    constructor
    · exact fun h => ⟨.inl h, fun f g hf hg => absurd hg (hnone f g hf)⟩
    · rintro ⟨h | ⟨f, g, hf, hg, _⟩, _⟩
      · exact h
      · exact absurd hg (hnone f g hf)

lemma allParametersAgree_iff {xs ys : List DeclId} : xs.length = ys.length ∧
    s.allParametersAgree xs ys ↔
    List.Forall₂ (fun x y => s.SameParameter x y ∧ s.OpenIfArrays x y) xs ys := by
  induction xs generalizing ys with
  | nil => cases ys <;> simp [allParametersAgree]
  | cons x xs ih =>
    cases ys with
    | nil => simp
    | cons y ys =>
      rw [List.forall₂_cons, ← ih, ← parametersAgree_iff]
      simp only [allParametersAgree, Bool.and_eq_true, List.length_cons, Nat.add_right_cancel_iff]
      exact and_left_comm

lemma resultsAgree_iff : s.resultsAgree e.result a.result ↔ s.SameResult e a := by
  unfold SameResult
  cases e.result <;> cases a.result <;> simp [resultsAgree]

lemma procedureMismatch?_eq_none_iff (he : e.variadic = false) (ha : a.variadic = false) :
    s.procedureMismatch? e a = none ↔ s.SameResult e a ∧
    List.Forall₂ (fun x y => s.SameParameter x y ∧ s.OpenIfArrays x y) e.params a.params := by
  rw [← allParametersAgree_iff, ← resultsAgree_iff]
  unfold procedureMismatch?
  cases s.resultsAgree e.result a.result <;> cases s.allParametersAgree e.params a.params <;>
    by_cases hlength : e.params.length = a.params.length <;> simp [he, ha, hlength]

/-- The sorts of types are told apart before the structure of two procedure types is compared. -/
lemma mismatch?_procedure (he : s.signature? expected = some e)
    (ha : s.signature? actual = some a) (hne : expected ≠ actual)
    (hname : s.sameName expected actual = false) : s.mismatch? expected actual =
    s.procedureMismatch? e a := by
  have hform := signature?_eq_some.1 he
  cases expected with
  | composite k =>
    cases actual with
    | composite l =>
      rw [mismatch?, mismatchWithin]
      simp only [hform, ha]
      simp [hname, hne, isNumericFamily, isNumeric, isEntire, isInteger, isByte, isReal]
    | _ => cases signature?_eq_some.1 ha
  | _ => cases hform

end Store

namespace Analyze

/-! ## The check -/

lemma checkCompatible_run (span expected actual a) : checkCompatible span expected actual a =
    (a.store.mismatch? expected actual).elim (true, a) fun m => (false,
     (report span (.mismatch m) a).2) := by
  rw [checkCompatible, getStore_bind_run]
  cases a.store.mismatch? expected actual <;> rfl

/-- An array `T` of three numbers, two procedure types with a parameter of type `T` each, and two
with a parameter of an open array of `T`. -/
def parameterTypes : Store where
  types := #[⟨.array ⟨[3], [.integer]⟩, some ⟨0⟩⟩, ⟨.procedure ⟨[⟨1⟩], none, false⟩, none⟩,
    ⟨.procedure ⟨[⟨2⟩], none, false⟩, none⟩, ⟨.array ⟨[0], [.composite 0]⟩, none⟩,
    ⟨.array ⟨[0], [.composite 0]⟩, none⟩, ⟨.procedure ⟨[⟨3⟩], none, false⟩, none⟩,
    ⟨.procedure ⟨[⟨4⟩], none, false⟩, none⟩]
  decls := #[{ name := "T", role := .type, type := .composite 0, span := .none },
    { name := "a", role := .parameter false 0, type := .composite 0, span := .none },
    { name := "b", role := .parameter false 0, type := .composite 0, span := .none },
    { name := "c", role := .parameter true 0, type := .composite 3, span := .none },
    { name := "d", role := .parameter true 0, type := .composite 4, span := .none }]

/-- The analysis with just these types. -/
def parameterState : Analysis := { Analysis.start {} {} with store := parameterTypes }

lemma founded_parameterTypes : parameterTypes.Founded fun _ => True where
  parts k f _ hf p hp := by
    have hk : k < 7 := lt_of_form? (array?_eq_some.1 hf)
    refine ⟨trivial, ?_⟩
    interval_cases k <;> cases hf
    · cases List.mem_singleton.1 hp
      exact .basic _ _
    iterate 2
      · cases List.mem_singleton.1 hp
        exact .composite (by decide)
  bases p b _ hb := by
    cases p with
    | composite k =>
      have hk : k < 7 := lt_of_form? hb
      interval_cases k <;> cases hb
    | _ => cases hb

lemma checkCompatible_eq_true : (checkCompatible span expected actual a).1 ↔
    a.store.mismatch? expected actual = none := by
  rw [checkCompatible_run]
  cases a.store.mismatch? expected actual <;> simp

/-- Procedure types that are not of one name go together if their results are of equal types and their
parameters match one by one: passed in the same way, of equal types or of open arrays alike, and not
otherwise if both are arrays. -/
theorem compatible_procedures_iff (state : Analysis) (span : Span) (expected actual : Ty)
    {e a : Signature} (hexpected : state.store.signature? expected = some e)
    (hactual : state.store.signature? actual = some a) (he : e.variadic = false)
    (ha : a.variadic = false) (hname : state.store.sameName expected actual = false) :
    (checkCompatible span expected actual state).1 = true ↔ expected = actual ∨
    state.store.SameResult e a ∧
    List.Forall₂ (fun x y => state.store.SameParameter x y ∧
     state.store.OpenIfArrays x y) e.params a.params := by
  rw [checkCompatible_eq_true]
  by_cases hne : expected = actual
  · subst hne
    simp [Store.mismatch?, Store.mismatchWithin]
  · rw [Store.mismatch?_procedure hexpected hactual hne hname,
      Store.procedureMismatch?_eq_none_iff he ha]
    simp [hne]

/-- The parameters are of the very same type, but the procedure types do not go together. -/
theorem fixedArrays_incompatible : ∃ e a, parameterTypes.signature? (.composite 1) = some e ∧
    parameterTypes.signature? (.composite 2) = some a ∧ e.variadic = false ∧ a.variadic = false ∧
    parameterTypes.sameName (.composite 1) (.composite 2) = false ∧ parameterTypes.SameResult e a ∧
    List.Forall₂ parameterTypes.SameParameter e.params a.params ∧
    (checkCompatible .none (.composite 1) (.composite 2) parameterState).1 = false :=
  ⟨_, _, rfl, rfl, rfl, rfl, rfl, .inl ⟨rfl, rfl⟩, .cons ⟨rfl, .inl rfl⟩ .nil, rfl⟩

/-- Open arrays of one member type match, although they are different types. -/
theorem compatible_procedures_iff_open :
    (checkCompatible .none (.composite 5) (.composite 6) parameterState).1 = true ∧
    Ty.composite 3 ≠ .composite 4 := by
  refine ⟨(compatible_procedures_iff parameterState .none (.composite 5) (.composite 6) rfl rfl rfl rfl
    rfl).2 (.inr ⟨.inl ⟨rfl, rfl⟩, .cons ⟨?_, ?_⟩ .nil⟩), by decide⟩
  · exact ⟨rfl, .inr ⟨_, _, rfl, rfl, rfl, rfl, rfl, rfl⟩⟩
  · intro f g hf hg
    cases hf
    cases hg
    exact ⟨rfl, rfl, rfl, rfl⟩

end Analyze
end Oberon
