import Oberon.Proofs.Bindings
import Oberon.Proofs.Converting

/-!
# Oberon.Proofs.References

What may be stored through a parameter that is passed by reference. The argument is only checked to
go for the parameter, as for an assignment to it. What is stored through the parameter takes the other
way. Numbers apart, the two are told from each other for records and open arrays only, so that a pointer
may end up with a value that its type does not allow, and an array of fixed length with a longer one.
-/

namespace Oberon

open Analyze Analysis ArrayForm Declaration

/-! ## Compatibility within the size of a store -/

namespace Store

variable {s : Store}

/-- In the stores of interest the parts of an array are made before it and pointers lead to records or
to `ANY`, as far as types in `D` are met. -/
structure Founded (s : Store) (D : Ty → Prop) : Prop where
  parts : ∀ k f, D (.composite k) → s.array? (.composite k) = some f → ∀ p ∈ f.types, D p ∧ p.Below k
  bases : ∀ p b, D p → s.form? p = some (.pointer (some b)) → s.isRecord b = true ∨ b = .any

lemma Closed.founded (hc : s.Closed) (hw : s.Whole) : s.Founded Ty.Concrete where
  parts k f hk hf p hp := by
    have hform := array?_eq_some.1 hf
    exact ⟨(hw.concrete.forms _ _ hk hform).2.2 p hp, hc.earlier k _ hform rfl p hp⟩
  bases p b hp hb := .inl (hw.pointing p b hp hb)

lemma mismatchWithin_flat (ht : s.isRecord t ∨ s.form? t = none) (fuel fuel' u behind) :
    s.mismatchWithin (fuel + 1) t u behind = s.mismatchWithin (fuel' + 1) t u behind := by
  rcases ht with ht | ht
  · obtain ⟨r, hr⟩ := isRecord_iff.1 ht
    simp only [mismatchWithin, hr]
  · simp only [mismatchWithin, ht]

lemma member_mem (f : ArrayForm) : f.member ∈ f.types ∨ f.member = .undefined := by
  rw [member]
  cases h : f.types.getLast? with
  | none => exact .inr rfl
  | some t => exact .inl (List.mem_of_getLast? h)

lemma row_mem (f : ArrayForm) : f.types.headD .undefined ∈ f.types ∨ f.types.headD .undefined =
    .undefined := by
  cases f.types <;> simp

/-- The walk into member and base types is never cut short: a type is compared in as many steps as
there are types before it, and two. -/
lemma Founded.mismatchWithin_succ (hs : s.Founded D) (fuel) : ∀ n t u behind, D t → t.Below n →
    n < fuel → s.mismatchWithin (fuel + 1) t u behind = s.mismatchWithin fuel t u behind := by
  induction fuel with
  | zero => exact fun n t u behind _ _ hn => absurd hn (Nat.not_lt_zero n)
  | succ fuel ih =>
    intro n t u behind ht hbelow hn
    cases hform : s.form? t with
    | none => exact mismatchWithin_flat (.inr hform) _ _ u behind
    | some f =>
      cases t with
      | composite i =>
        have hi : i < n := hbelow i rfl
        have hflat {p} (hp : s.isRecord p ∨ s.form? p = none) (v b) :
            s.mismatchWithin (fuel + 1) p v b = s.mismatchWithin fuel p v b := by
          obtain ⟨k, rfl⟩ : ∃ k, fuel = k + 1 := ⟨fuel - 1, by omega⟩
          exact mismatchWithin_flat hp _ _ v b
        cases f with
        | array e =>
          have hpart {p} (hp : p ∈ e.types ∨ p = .undefined) (v) :
              s.mismatchWithin (fuel + 1) p v false = s.mismatchWithin fuel p v false := by
            rcases hp with hp | rfl
            · obtain ⟨hp, hbelow⟩ := hs.parts i e ht (array?_eq_some.2 hform) p hp
              exact ih i p v false hp hbelow (by omega)
            · exact hflat (.inr rfl) v false
          conv_lhs => rw [mismatchWithin]
          conv_rhs => rw [mismatchWithin]
          simp only [hform, hpart (row_mem e), hpart (member_mem e)]
        | pointer base =>
          conv_lhs => rw [mismatchWithin]
          conv_rhs => rw [mismatchWithin]
          cases base with
          | none => simp only [hform]
          | some base =>
            have hbase := hflat ((hs.bases _ _ ht hform).imp_right fun h => by rw [h]; rfl)
            rcases s.pointer? u with _ | _ | a <;> simp only [hform, hbase]
        | record r => exact mismatchWithin_flat (.inl (isRecord_iff.2 ⟨r, hform⟩)) _ _ u behind
        | procedure sig => simp only [mismatchWithin, hform]
      | _ => cases hform

/-- More steps than there are types make no difference. -/
lemma Founded.mismatchWithin_eq (hs : s.Founded D) (ht : D t) (hbelow : t.Below s.types.size)
    (hfuel : s.types.size < fuel) (u) : s.mismatchWithin fuel t u false = s.mismatch? t u := by
  induction fuel, hfuel using Nat.le_induction with
  | base => rfl
  | succ fuel hle ih => rw [hs.mismatchWithin_succ fuel _ t u false ht hbelow hle, ih]

/-- The types of the parts of an array are compared as if on their own. -/
lemma mismatchWithin_part (hc : s.Closed) (hw : s.Whole) (ha : s.array? (.composite i) = some a)
    (hi : (Ty.composite i).Concrete) (ht : t ∈ a.types) (u) :
    s.mismatchWithin s.types.size t u false = s.mismatch? t u := by
  have hs := hc.founded hw
  obtain ⟨hconcrete, hbelow⟩ := hs.parts i a hi ha t ht
  exact (hs.mismatchWithin_succ s.types.size i t u false hconcrete hbelow
    (lt_of_form? (array?_eq_some.1 ha))).symm

/-! ## Procedure types -/

lemma sameType_comm (t u) : s.sameType t u = s.sameType u t :=
  Bool.eq_iff_iff.2 ⟨sameType_symm, sameType_symm⟩

lemma parametersAgree_comm (x y) : s.parametersAgree x y = s.parametersAgree y x := by
  simp only [parametersAgree]
  rw [sameType_comm (s.decl x).type, Bool.beq_comm (a := (s.decl x).isVarParameter)]
  rcases s.array? (s.decl x).type with _ | f <;> rcases s.array? (s.decl y).type with _ | g
  · rfl
  · rfl
  · rfl
  · simp only [sameType_comm f.member, Bool.and_comm f.isOpen, Bool.beq_comm (a := f.dimensions)]

lemma allParametersAgree_comm (xs) : ∀ ys, s.allParametersAgree xs ys =
    s.allParametersAgree ys xs := by
  induction xs with
  | nil => intro ys; cases ys <;> rfl
  | cons x xs ih =>
    intro ys
    cases ys with
    | nil => rfl
    | cons y ys => simp only [allParametersAgree, ih, parametersAgree_comm x]

lemma resultsAgree_comm (r q) : s.resultsAgree r q = s.resultsAgree q r := by
  cases r <;> cases q <;> simp only [resultsAgree, sameType_comm]

/-- Procedure types agree with each other. -/
lemma procedureMismatch?_comm (f g) : s.procedureMismatch? f g = s.procedureMismatch? g f := by
  unfold procedureMismatch?
  rw [Bool.or_comm, resultsAgree_comm, bne_comm, allParametersAgree_comm]

/-! ## The two ways of a reference -/

/-- What is asked for: that `actual` is a record that extends `formal`, that `formal` is an open array,
or that values of type `formal` go for `actual`. -/
def SafelyWritten (s : Store) (formal actual : Ty) : Prop :=
  s.isRecord actual = true ∧ s.isExtension actual formal = true ∨
    (s.array? formal).any ArrayForm.isOpen = true ∨ s.mismatch? actual formal = none

/-- How `actual` has to be made for that. -/
inductive GivesBack (s : Store) (formal actual : Ty) : Prop
  | same (h : s.sameType actual formal = true)
  | number (hf : formal.isNumeric = true) (ha : actual.isNumeric = true) (h : actual.Includes formal)
  | record (hf : s.isRecord formal = true) (ha : s.isRecord actual = true)
      (h : s.Extends actual formal ∨ s.Extends formal actual)
  | pointer {f a : Ty} (hf : s.pointer? formal = some (some f)) (ha : s.pointer? actual = some (some a))
      (h : s.sameType a f = true ∨ s.Extends f a)
  | procedure {f a : Signature} (hf : s.signature? formal = some f) (ha : s.signature? actual = some a)
      (h : s.procedureMismatch? f a = none)
  | opened {f : ArrayForm} (hf : s.array? formal = some f) (ho : f.isOpen = true)
  | rows {f a : ArrayForm} (hf : s.array? formal = some f) (ha : s.array? actual = some a)
      (ho : a.isOpen = true)
      (h : s.mismatch? (a.types.headD .undefined) (f.types.headD .undefined) = none)
  | elements {f a : ArrayForm} (hf : s.array? formal = some f) (ha : s.array? actual = some a)
      (ho : a.isOpen = false) (hd : a.dimensions = f.dimensions)
      (hl : lengthMismatch? a.lengths f.lengths = none) (h : s.mismatch? a.member f.member = none)

lemma mismatch?_array_iff (hc : s.Closed) (hw : s.Whole) (ht : t.Concrete) (ha : s.array? t = some a) (hf : s.array? u = some f)
    (hsame : s.sameType t u = false) : s.mismatch? t u = none ↔
      if a.isOpen then s.mismatch? (a.types.headD .undefined) (f.types.headD .undefined) = none
      else a.dimensions = f.dimensions ∧ lengthMismatch? a.lengths f.lengths = none ∧
        s.mismatch? a.member f.member = none := by
  have hform := array?_eq_some.1 ha
  cases t with
  | composite i =>
    obtain ⟨hnames, hfamily, hnumeric⟩ := mismatchWithin_composite hsame
    obtain ⟨_, hpos, hconcrete⟩ := hw.concrete.forms _ _ ht hform
    obtain ⟨p, ps, hps⟩ := List.exists_cons_of_length_pos hpos
    have hmem : a.member ∈ a.types := by
      simp [ArrayForm.member, List.getLast?_eq_some_getLast (List.ne_nil_of_length_pos hpos)]
    have hany : (a.member == Ty.any) = false := beq_eq_false_iff_ne.2 ((hconcrete _ hmem).ne_pseudo _)
    have hrow := mismatchWithin_part hc hw ha ht (t := a.types.headD .undefined) (by simp [hps])
    have hmember := mismatchWithin_part hc hw ha ht hmem
    conv_lhs => rw [mismatch?, mismatchWithin]
    simp only [hnames, hfamily, hnumeric, hform, hf, hany, hrow, hmember, Bool.false_and,
      Bool.false_eq_true, if_false]
    by_cases ho : a.isOpen
    · simp only [ho, if_true]
    · by_cases hd : a.dimensions = f.dimensions
      · cases hl : lengthMismatch? a.lengths f.lengths <;> simp [ho, hd]
      · simp [ho, hd]
  | _ => cases hform

section

lemma GivesBack.safelyWritten (h : s.GivesBack formal actual) (hc : s.Closed) (hw : s.Whole)
    (hf : formal.Concrete) (ha : actual.Concrete ∨ actual = .undefined) :
    s.SafelyWritten formal actual := by
  have hactual {f} (hform : s.form? actual = some f) : actual.Concrete := by
    rcases ha with ha | rfl
    · exact ha
    · cases hform
  have hunless (h : s.sameType actual formal = false → s.mismatch? actual formal = none) :
      s.SafelyWritten formal actual := by
    cases hsame : s.sameType actual formal with
    | true => exact .inr (.inr (mismatch?_of_sameType hsame))
    | false => exact .inr (.inr (h hsame))
  cases h with
  | same h => exact .inr (.inr (mismatch?_of_sameType h))
  | number hf ha h => exact .inr (.inr ((mismatch?_numeric_iff ha hf).2 h))
  | record hf ha h =>
    rcases h with h | h
    · exact .inl ⟨ha, (isExtension_iff hf).2 h⟩
    · exact .inr (.inr ((mismatch?_record_iff ha hf).2 (.inl h)))
  | pointer hpf hpa h =>
    have hform := pointer?_eq_some.1 hpa
    exact .inr (.inr ((mismatch?_pointer_iff hpf hpa (hw.pointing _ _ hf (pointer?_eq_some.1 hpf))
      (hw.pointing _ _ (hactual hform) hform)).2 (.inr h)))
  | @procedure f a hsf hsa h =>
    refine hunless fun hsame => ?_
    have hform := signature?_eq_some.1 hsa
    cases actual with
    | composite k =>
      obtain ⟨hnames, hfamily, hnumeric⟩ := mismatchWithin_composite hsame
      rw [procedureMismatch?_comm] at h
      simp [mismatch?, mismatchWithin, hnames, hfamily, hnumeric, hform, hsf, h]
    | _ => cases hform
  | opened hf ho => exact .inr (.inl (by simp [hf, ho]))
  | rows haf haa ho h =>
    refine hunless fun hsame => (mismatch?_array_iff hc hw (hactual (array?_eq_some.1 haa)) haa haf hsame).2 ?_
    rwa [if_pos ho]
  | elements haf haa ho hd hl h =>
    refine hunless fun hsame => (mismatch?_array_iff hc hw (hactual (array?_eq_some.1 haa)) haa haf hsame).2 ?_
    rw [if_neg (Bool.eq_false_iff.1 ho)]
    exact ⟨hd, hl, h⟩

/-- Only what is of a simple type goes for it, but for numbers. -/
lemma eq_or_numeric_of_mismatch? (hm : s.mismatch? (.basic b) t = none) : t = .basic b ∨
    (Ty.basic b).isNumeric ∧ t.isNumeric := by
  by_cases hn : ((Ty.basic b).isNumeric && t.isNumeric)
  · exact .inr (Bool.and_eq_true_iff.1 hn)
  · have hform : s.form? (.basic b) = none := rfl
    have hfamily : (Ty.basic b).isNumericFamily = false := rfl
    simp only [mismatch?, mismatchWithin, hfamily, Bool.eq_false_iff.2 hn, hform] at hm
    split at hm
    · next h =>
      have hsame : s.sameType t (.basic b) := sameType_symm (by simpa [sameType] using h)
      exact .inl (eq_of_sameType hsame (by simp))
    · cases hm

lemma isExtension_kind (h : s.isExtension t u) (hne : t ≠ u) : (s.isRecord t ∧ s.isRecord u) ∨
    s.isPointer t ∧ s.isPointer u := by
  unfold isExtension at h
  cases hsize : s.types.size with
  | zero => simp [hsize, extendsWithin, hne] at h
  | succ n =>
    simp only [hsize, extendsWithin, Bool.or_eq_true, beq_iff_eq, hne, false_or] at h
    split at h
    · next ht hu => exact .inl ⟨isRecord_iff.2 ⟨_, ht⟩, isRecord_iff.2 ⟨_, hu⟩⟩
    · next ht hu => exact .inr ⟨isPointer_iff.2 ⟨_, ht⟩, isPointer_iff.2 ⟨_, hu⟩⟩
    · cases h

/-- Simple types that are not passed as they are have to be numbers. -/
lemma givesBack_of_mismatch? (hm : s.mismatch? actual formal = none) (hc : s.Closed)
    (hw : s.Whole) (hf : formal.Concrete) (ha : actual.Concrete ∨ actual = .undefined)
    (hv : actual.Concrete → ∀ b, formal = .basic b → actual = formal ∨ formal.isNumeric ∧
     actual.isNumeric) (hsame : s.sameType actual formal = false) : s.GivesBack formal actual := by
  have hnil : (formal == Ty.nil) = false := beq_eq_false_iff_ne.2 (hf.ne_pseudo _)
  cases actual with
  | pseudo p =>
    obtain hp := ha.resolve_left id
    rw [hp, mismatch?_undefined_iff] at hm
    exact absurd hm (hf.ne_pseudo _)
  | basic b =>
    by_cases hn : (Ty.basic b).isNumeric ∧ formal.isNumeric
    · exact .number hn.2 hn.1 ((mismatch?_numeric_iff hn.1 hn.2).1 hm)
    · rcases eq_or_numeric_of_mismatch? hm with rfl | h
      · simp [sameType] at hsame
      · exact absurd h hn
  | composite k =>
    obtain ⟨hnames, hfamily, hnumeric⟩ := mismatchWithin_composite hsame
    have hk := ha.resolve_right (by simp [Ty.undefined])
    cases hform : s.form? (.composite k) with
    | none => simp [mismatch?, mismatchWithin, hnames, hfamily, hnumeric, hform] at hm
    | some form =>
      cases form with
      | record r =>
        have hr : s.isRecord (.composite k) := isRecord_iff.2 ⟨r, hform⟩
        cases hformal : s.isRecord formal with
        | true =>
          rcases (mismatch?_record_iff hr hformal).1 hm with h | h
          · exact .record hformal hr (.inr h)
          · simp [sameType_iff.2 (.inr h)] at hsame
        | false => simp [mismatch?, mismatchWithin, hnames, hfamily, hnumeric, hform, hformal] at hm
      | pointer base =>
        cases base with
        | none => exact absurd hform (hw.based _)
        | some base =>
          rcases hp : s.pointer? formal with _ | _ | f
          · have hne : formal ≠ .composite k := by
              rintro rfl
              simp [sameType] at hsame
            have hnot : s.isExtension formal (.composite k) = false := by
              refine Bool.eq_false_iff.2 fun h => ?_
              rcases isExtension_kind h hne with h | h
              · obtain ⟨r, hr⟩ := isRecord_iff.1 h.2
                simp [hform] at hr
              · simp [isPointer, hp] at h
            simp [mismatch?, mismatchWithin, hnames, hfamily, hnumeric, hform, hnil, hnot, hp] at hm
          · exact absurd (pointer?_eq_some.1 hp) (hw.based _)
          · have hp' := pointer?_eq_some.2 hform
            refine .pointer hp hp' (((mismatch?_pointer_iff hp hp'
              (hw.pointing _ _ hf (pointer?_eq_some.1 hp)) (hw.pointing _ _ hk hform)).1 hm).resolve_left ?_)
            simp [hsame]
      | procedure sig =>
        simp only [mismatch?, mismatchWithin, hnames, hfamily, hnumeric, hform, hnil] at hm
        cases hsig : s.signature? formal with
        | none => simp [hsig] at hm
        | some f =>
          refine .procedure hsig (signature?_eq_some.2 hform) ?_
          rw [procedureMismatch?_comm]
          simpa [hsig] using hm
      | array a =>
        have harray := array?_eq_some.2 hform
        cases haf : s.array? formal with
        | none =>
          -- a character could go for the array, but the array did not go for a character
          have htext : (formal.isString || formal.isChar) := by
            by_contra htext
            simp [mismatch?, mismatchWithin, hnames, hfamily, hnumeric, hform, haf, htext] at hm
          cases formal with
          | basic b => simp [hk, Ty.isNumeric, Ty.isEntire, Ty.isInteger, Ty.isByte, Ty.isReal] at hv
          | _ => simp [Ty.isString, Ty.isChar] at htext
        | some f =>
          have hiff := (mismatch?_array_iff hc hw hk harray haf hsame).1 hm
          split at hiff
          · next ho => exact .rows haf harray ho hiff
          · next ho =>
            obtain ⟨hd, hl, h⟩ := hiff
            exact .elements haf harray (Bool.eq_false_iff.2 ho) hd hl h

lemma SafelyWritten.givesBack (h : s.SafelyWritten formal actual) (hc : s.Closed) (hw : s.Whole)
    (hf : formal.Concrete) (ha : actual.Concrete ∨ actual = .undefined)
    (hv : actual.Concrete → ∀ b, formal = .basic b → actual = formal ∨ formal.isNumeric ∧
     actual.isNumeric) : s.GivesBack formal actual := by
  cases hsame : s.sameType actual formal with
  | true => exact .same hsame
  | false =>
    rcases h with ⟨hr, hext⟩ | hopen | hm
    · cases hrecord : s.isRecord formal with
      | true => exact .record hrecord hr (.inl ((isExtension_iff hrecord).1 hext))
      | false =>
        have hne : actual ≠ formal := by
          rintro rfl
          simp [sameType] at hsame
        rcases isExtension_kind hext hne with h | h
        · simp [h.2] at hrecord
        · obtain ⟨r, hr⟩ := isRecord_iff.1 hr
          obtain ⟨b, hb⟩ := isPointer_iff.1 h.1
          simp [hr] at hb
    · obtain ⟨f, hf, ho⟩ := (Option.any_eq_true _ _).1 hopen
      exact .opened hf ho
    · exact givesBack_of_mismatch? hm hc hw hf ha hv hsame

end

end Store

/-! ## Arguments -/

section

/-- What was read and can be written has a concrete type, or none. -/
lemma Analysis.Precedes.type_of_writable (ha : a.Precedes last) (he : Elaborates a (.expr e))
    (hw : a.store.unwritable? e = none) : e.type.Concrete ∨ e.type = .undefined := by
  cases e with
  | designator ident decl out note =>
    obtain ⟨id, rfl, _, hdenotes⟩ := he.denotes ha.ready rfl
    rcases hdenotes with ⟨hrole, rfl, _⟩ | ⟨_, hden⟩
    · unfold isType at hrole
      split at hrole
      · next hrole' => simp [Store.unwritable?, hrole'] at hw
      · cases hrole
    · by_cases hout : out = []
      · exact .inl (hden.bare hout)
      · exact hden.walks.type hout
  | _ => cases hw

namespace Analyze.Lends

variable (hb : Lends a (fun x => Elaborates a (.expr x)) b) (ha : a.Precedes last)
include hb ha

lemma type_cases : b.arg.type.Concrete ∨ b.arg.type = .undefined := by
  cases hb.accepted with
  | undefined h => exact .inr ((hb.read.settled ha.ready).effectiveType_eq_pseudo _ |>.1 h)
  | location _ _ hw _ => exact ha.type_of_writable hb.read hw

lemma param_concrete (hlast : last.store.Concrete) (hv : (last.store.decl b.param).isVarParameter)
    (hbuiltin : (last.store.decl b.callee).builtin? = none) :
    (last.store.typeOf b.param).Concrete := by
  have hcallee : (a.store.decl b.callee).builtin? = none := by
    rw [ha.grows.decl _ hb.callee] at hbuiltin
    exact hbuiltin
  have hmodule : (last.store.decl b.param).module.isSome := by
    rw [ha.grows.decl _ hb.lt]
    exact hb.sourced hcallee
  have hdecl := hlast.decls b.param (Nat.lt_of_lt_of_le hb.lt ha.grows.decls_le)
  unfold isVarParameter at hv
  split at hv
  · next hrole =>
    simp only [Declaration.Concrete, hrole] at hdecl
    exact hdecl hmodule
  · cases hv

/-- A parameter of a simple type gets what is of the same type, or numbers. -/
lemma eq_or_numeric (hc : b.arg.type.Concrete) (hbasic : last.store.typeOf b.param = .basic basic)
    (hv : (last.store.decl b.param).isVarParameter) : b.arg.type = .basic basic ∨
    (Ty.basic basic).isNumeric ∧ b.arg.type.isNumeric := by
  have hrole : (a.store.decl b.param).role ≠ .procedure .defined := by
    intro hrole
    rw [ha.grows.decl _ hb.lt] at hv
    simp [Declaration.isVarParameter, hrole] at hv
  have htype : a.store.typeOf b.param = .basic basic := by
    rcases ha.kind b.param hb.lt hrole with h | h
    · rw [h, hbasic]
    · rw [hbasic] at h
      rcases h with h | h <;> cases h.2
  cases hb.accepted with
  | undefined h =>
    rw [(hb.read.settled ha.ready).effectiveType_eq_pseudo] at h
    exact absurd h (hc.ne_pseudo _)
  | location _ hm _ hn =>
    rw [htype] at hm hn
    have heff : b.arg.effectiveType = .basic basic := by
      rcases Store.eq_or_numeric_of_mismatch? hm with h | ⟨h, h'⟩
      · exact h
      · exact (hn h h').symm
    rcases (hb.read.settled ha.ready).effectiveType with h | ⟨h, h'⟩
    · exact .inl (h.symm.trans heff)
    · exact .inr ⟨heff ▸ h', h⟩

end Analyze.Lends

end

namespace Outcome

variable {features : Features} {library : Library}

/-- An argument that an accepted module passes by reference, other than to a predefined procedure, was
checked to go for the parameter. What is stored through the parameter goes for the argument as well
exactly if both have the same type, or if the argument is a number that includes the parameter, a record
on the chain of the parameter or with it on its own, a procedure that agrees with it, a pointer to what
the base of the parameter extends, or an array that is at least as long with members that take in those of
the parameter. Open parameters are only read and written by their members. -/
theorem stored_back_iff (h : (ofSource features library source).Accepts m) (hl : library.Built) :
    ∀ b ∈ m.bindings (ofSource features library source).analysis,
    ((ofSource features library source).store.decl b.param).isVarParameter = true →
    ((ofSource features library source).store.decl b.callee).builtin? = none →
    (∃ a : Analysis, a.Precedes (ofSource features library source).analysis ∧
     ByReference a.store b.param b.arg) ∧
    ((ofSource features library source).store.SafelyWritten ((ofSource features library
     source).store.typeOf b.param) b.arg.type ↔ (ofSource features library source).store.GivesBack
     ((ofSource features library source).store.typeOf b.param) b.arg.type) := by
  intro b hb hv hbuiltin
  obtain ⟨a, ha, hlends⟩ := h.references hl b hb hv
  have hwhole := h.whole hl.whole
  have hformal := hlends.param_concrete ha hwhole.concrete hv hbuiltin
  have hactual := hlends.type_cases ha
  refine ⟨⟨a, ha, hlends.accepted⟩, fun hsafe => ?_, fun hback => ?_⟩
  · exact hsafe.givesBack h.closed hwhole hformal hactual fun hc basic hbasic => by
      rw [hbasic]
      exact hlends.eq_or_numeric ha hc hbasic hv
  · exact hback.safelyWritten h.closed hwhole hformal hactual

/-- A record is passed for one that it extends. -/
def passedExtension : String :=
  "MODULE M; TYPE T = RECORD END; U = RECORD (T) x: INTEGER END; VAR u: U; " ++
    "PROCEDURE P(VAR t: T); END P; BEGIN P(u) END M."

lemma passedExtension_eval : (ofSource {} {} passedExtension).acceptsWith (fun o m =>
    (m.bindings o.analysis).any fun b =>
      let s := o.store
      (s.decl b.param).isVarParameter && (s.decl b.callee).builtin?.isNone &&
        s.isRecord (s.typeOf b.param) && s.isRecord b.arg.type &&
        s.isExtension b.arg.type (s.typeOf b.param) && b.arg.type != s.typeOf b.param) := by
  decide +kernel

/-- The record may be written through the parameter. -/
theorem passedExtension_stored_back : ∃ m, (ofSource {} {} passedExtension).Accepts m ∧
    ∃ b ∈ m.bindings (ofSource {} {} passedExtension).analysis,
    ((ofSource {} {} passedExtension).store.decl b.param).isVarParameter = true ∧
    ((ofSource {} {} passedExtension).store.decl b.callee).builtin? = none ∧
    b.arg.type ≠ (ofSource {} {} passedExtension).store.typeOf b.param ∧
    (ofSource {} {} passedExtension).store.SafelyWritten ((ofSource {} {}
     passedExtension).store.typeOf b.param) b.arg.type := by
  obtain ⟨m, haccepts, hany⟩ := exists_of_acceptsWith passedExtension_eval
  obtain ⟨b, hb, h⟩ := List.any_eq_true.1 hany
  simp only [Bool.and_eq_true, Option.isNone_iff_eq_none, bne_iff_ne] at h
  obtain ⟨⟨⟨⟨⟨hv, hbuiltin⟩, hformal⟩, hactual⟩, hext⟩, hne⟩ := h
  refine ⟨m, haccepts, b, hb, hv, hbuiltin, hne, ?_⟩
  exact (stored_back_iff haccepts .empty b hb hv hbuiltin).2.2
    (.record hformal hactual (.inl ((Store.isExtension_iff hformal).1 hext)))

/-- A pointer to an extended record is passed for a pointer to the record, and gets a new value there. -/
def passedPointer : String :=
  "MODULE M; TYPE T = RECORD END; U = RECORD (T) x: INTEGER END; P = POINTER TO T; " ++
    "Q = POINTER TO U; VAR q: Q; PROCEDURE Set(VAR p: P); BEGIN NEW(p) END Set; BEGIN Set(q) END M."

lemma passedPointer_eval : (ofSource {} {} passedPointer).acceptsWith (fun o m =>
    (m.bindings o.analysis).any fun b =>
      let s := o.store
      (s.decl b.param).isVarParameter && (s.decl b.callee).builtin?.isNone &&
        !s.isRecord b.arg.type && !(s.array? (s.typeOf b.param)).any isOpen &&
        (s.mismatch? b.arg.type (s.typeOf b.param)).isSome) := by
  decide +kernel

/-- The module is accepted, and the new value is none that the pointer can have. -/
theorem passedPointer_not_stored_back : ∃ m, (ofSource {} {} passedPointer).Accepts m ∧
    ∃ b ∈ m.bindings (ofSource {} {} passedPointer).analysis,
    ((ofSource {} {} passedPointer).store.decl b.param).isVarParameter = true ∧
    ((ofSource {} {} passedPointer).store.decl b.callee).builtin? = none ∧
    ¬ (ofSource {} {} passedPointer).store.SafelyWritten ((ofSource {} {}
     passedPointer).store.typeOf b.param) b.arg.type := by
  obtain ⟨m, haccepts, hany⟩ := exists_of_acceptsWith passedPointer_eval
  obtain ⟨b, hb, h⟩ := List.any_eq_true.1 hany
  simp only [Bool.and_eq_true, Option.isNone_iff_eq_none, Bool.not_eq_true'] at h
  obtain ⟨⟨⟨⟨hv, hbuiltin⟩, hrecord⟩, hopen⟩, hm'⟩ := h
  refine ⟨m, haccepts, b, hb, hv, hbuiltin, ?_⟩
  rintro (⟨h, _⟩ | h | h)
  · simp [hrecord] at h
  · simp [hopen] at h
  · simp [h] at hm'

end Outcome

end Oberon
