import Oberon.Proofs.Dispatching
import Oberon.Proofs.Whole

/-!
# Oberon.Proofs.Predefined

The results of predefined procedures. Which of its signatures a call uses depends on the arguments,
but the signatures of one procedure agree on whether there is a result, and a result that is not a
basic type is the type of an argument or the type that the argument names.
-/

namespace Oberon

open Universe Ty

variable {t : Ty} {s : Store}

/-! ## Choosing a signature -/

namespace Dispatch

/-- The result of a call that uses the signature `sig`. -/
inductive Yields (s : Store) (sig : Signature) (actuals : List Ty) (typeArg : Option Ty) :
    Option Ty → Prop
  | cast (h : isCastStyle s sig = true) : Yields s sig actuals typeArg (some (typeArg.getD .undefined))
  | argument (h : sig.result = some (.pseudo .numeric)) :
      Yields s sig actuals typeArg (actuals.head?.or sig.result)
  | result (h : sig.result ≠ some (.pseudo .numeric)) (hc : isCastStyle s sig = false) :
      Yields s sig actuals typeArg sig.result

lemma choose_yields (actuals typeArg) (hsig : ∀ t ∈ primary :: rest, (s.signature? t).isSome) :
    ∃ t ∈ primary :: rest, ∃ sig result, s.signature? t = some sig ∧
    Yields s sig actuals typeArg result ∧ choose s (primary :: rest) actuals typeArg =
    some ⟨t, result⟩ := by
  cases hfind : (primary :: rest).find? (isCast s) with
  | some t =>
    have hany : isCast s t := List.find?_some hfind
    obtain ⟨sig, hs, hcast⟩ := (Option.any_eq_true _ _).1 hany
    refine ⟨t, List.mem_of_find?_eq_some hfind, sig, _, hs, .cast hcast, ?_⟩
    rw [choose, search_eq, hfind]
  | none =>
    have hno : ∀ t ∈ primary :: rest, isCast s t = false := by simpa using hfind
    obtain ⟨t, hmem, -, -, hchoose⟩ := choose_eq_chosen actuals typeArg hno
    obtain ⟨sig, hs⟩ := Option.isSome_iff_exists.1 (hsig t hmem)
    have hcast : isCastStyle s sig = false := by simpa [isCast, hs] using hno t hmem
    refine ⟨t, hmem, sig, _, hs, ?_, hchoose⟩
    rw [hs, Option.bind_some]
    split
    · next hresult => exact .argument hresult
    · next hne => exact .result hne hcast

end Dispatch

/-! ## The predefined signatures -/

/-- Is this a procedure without a result? -/
def Builtin.isProper : Builtin → Bool
  | .new | .free | .inc | .dec | .incl | .excl | .halt | .assert | .copy | .pack | .unpk => true
  | _ => false

lemma Builtin.mem_all (b) : b ∈ Builtin.all := by cases b <;> decide

namespace Universe

/-- Is there no result, or a basic one, or the type of the only argument, a number or a type name? -/
def hasPlainResult (s : Store) (sig : Signature) : Bool :=
  match sig.result with
  | none => true
  | some (.basic _) => true
  | some (.pseudo .numeric) => sig.params.map s.typeOf == [.pseudo .numeric] && !sig.variadic
  | some _ => Dispatch.isCastStyle s sig && !sig.variadic

/-- Do the signatures of a predefined procedure have plain results, or none if it is proper? -/
def isOrderly (u : Universe) (b : Builtin) : Bool :=
  match u.signatures.lookup b with
  | some (primary :: rest) => (primary :: rest).all fun t =>
    (u.store.signature? t).any fun sig =>
      hasPlainResult u.store sig && sig.result.isNone == b.isProper
  | _ => false

lemma standard_orderly : (Builtin.all.all (isOrderly standard)) := by
  decide +kernel

lemma signatures_eq (b) : ∃ primary rest, standard.signatures.lookup b = some (primary :: rest) ∧
    ∀ t ∈ primary :: rest, ∃ sig, standard.store.signature? t = some sig ∧
    hasPlainResult standard.store sig ∧ sig.result.isNone = b.isProper := by
  have h := List.all_eq_true.1 standard_orderly b b.mem_all
  unfold isOrderly at h
  split at h
  · next primary rest hlookup =>
    refine ⟨primary, rest, hlookup, fun t ht => ?_⟩
    have hany := List.all_eq_true.1 h t ht
    obtain ⟨sig, hsig, hplain⟩ := (Option.any_eq_true _ _).1 hany
    rw [Bool.and_eq_true, beq_iff_eq] at hplain
    exact ⟨sig, hsig, hplain.1, hplain.2⟩
  · cases h

end Universe

/-- The parameters of predefined procedures have their types, unless these are structured. -/
def Store.KeepsFormals (s : Store) : Prop :=
  ∀ id : DeclId, id.index < standard.store.decls.size →
    (∀ k, standard.store.typeOf id ≠ .composite k) →
      s.typeOf id = standard.store.typeOf id

lemma Store.KeepsFormals.hasPlainResult (h : s.KeepsFormals)
    (hs : standard.store.signature? t = some sig) (hp : hasPlainResult standard.store sig) :
    hasPlainResult s sig := by
  have hlt (id) (hid : id ∈ sig.params) : id.In standard.store :=
    ((standard_closed.fits t _ (signature?_eq_some.1 hs)).members id hid).1
  unfold Universe.hasPlainResult Dispatch.isCastStyle at hp ⊢
  split at hp
  · rfl
  · rfl
  · next hr =>
    rw [Bool.and_eq_true, beq_iff_eq] at hp
    obtain ⟨id, hparams, hid⟩ := List.map_eq_singleton_iff.1 hp.1
    have htype := h id (hlt id (by simp [hparams])) (by simp [hid])
    simp [hparams, htype, hid, hp.2]
  · next hr hbasic hnumeric =>
    split at hp
    · next id hparams =>
      simp only [Bool.and_eq_true, beq_iff_eq] at hp
      have htype := h id (hlt id (by simp [hparams])) (by simp [hp.1.2])
      simp [htype, hp.1.1, hp.1.2, hp.2]
    · simp at hp

/-! ## Expectations -/

lemma Store.mismatch?_pseudo_iff (p) : s.mismatch? (.pseudo p) t = none ↔ p = .any ∨ t =
    .pseudo p ∨ (pseudo p).isNumericFamily ∧ familyAccepts (.pseudo p) t := by
  have hname : s.sameName (.pseudo p) t = false := rfl
  simp only [mismatch?, mismatchWithin, hname]
  by_cases ht : t = .pseudo p
  · simp [ht]
  · have hne : pseudo p ≠ t := fun h => ht h.symm
    cases p <;> simp [hne, ht, isNumericFamily, isNumeric, isEntire, isInteger,
      isByte, isReal, form?, entry?]

/-! ## Settled expressions -/

/-- The types that expressions have. -/
def Ty.Usual (t : Ty) : Prop := t = .undefined ∨ t = .typeName ∨ t = .nil ∨ t.Concrete

/-- What holds of every expression that was read: conversions are between numbers, literals have
simple types and are not converted, and what has the type of type names is the name of a type. -/
structure Expr.Settled (s : Store) (e : Expr) : Prop where
  type : e.type.Usual
  cast : ∀ c ∈ e.note.cast, e.type.isNumeric = true ∧ c.isNumeric = true
  literal : e.isLiteral = true → e.note.cast = none ∧ e.type.Simple
  named : e.type = .typeName → ∃ id, e.root? = some id ∧ (s.typeOf id).Concrete

namespace Expr.Settled

variable {e : Expr}

/-- A conversion is from a number to a number. -/
lemma effectiveType (h : e.Settled s) : e.effectiveType = e.type ∨ e.type.isNumeric ∧
    e.effectiveType.isNumeric := by
  cases hc : e.note.cast with
  | none => exact .inl (by simp [Expr.effectiveType, hc])
  | some c =>
    obtain ⟨htype, hcast⟩ := h.cast c hc
    exact .inr ⟨htype, by simpa [Expr.effectiveType, hc] using hcast⟩

lemma effectiveType_eq_pseudo (h : e.Settled s) (p) : e.effectiveType = .pseudo p ↔ e.type =
    .pseudo p := by
  rcases h.effectiveType with heq | ⟨ht, hc⟩
  · rw [heq]
  · constructor
    · intro heq
      rw [heq] at hc
      cases hc
    · intro heq
      rw [heq] at ht
      cases ht

end Expr.Settled

/-- A state in which bodies are read: the store is whole, and what is predefined is there. -/
structure Analysis.Ready (a : Analysis) : Prop where
  whole : a.store.Whole
  members : ∀ t f, a.store.form? t = some f → a.store.HasMembers f.members
  known : ∀ id, a.scopes.Knows id → a.store.Nameable id
  formals : a.store.KeepsFormals
  signatures : a.signatures = standard.signatures

/-! ## Calls -/

/-- Does a call of something with the signature `formal` have no value? A procedure that is
predefined tells by itself. -/
def Analyze.isProper (s : Store) (context : DeclId) (formal : Signature) : Bool :=
  match (s.decl context).builtin? with
  | some b => b.isProper
  | none => formal.result.isNone

namespace Analyze

variable {result : Option Ty}

/-- What a name or a chain of selectors leads to: a concrete type, or a predefined procedure. -/
def Grounds (s : Store) (context : DeclId) (base : Ty) : Prop := base.Concrete ∨
    standard.store.isProcedure base = true ∧ (s.decl context).builtin?.isSome = true

/-- The type that the first argument names. -/
def typeArgument (s : Store) : List Expr → Option Ty
  | e :: _ => if e.type == .typeName then e.root?.map s.typeOf else none
  | [] => none

lemma callSignature_builtin (h : (a.store.decl context).builtin? = some b)
    (formal args) : callSignature a context formal args =
      if (args.map Expr.effectiveType).contains .undefined then
        (formal, formal.result.map fun _ => .undefined)
      else (Dispatch.choose a.store ((a.signatures.lookup b).getD []) (args.map Expr.effectiveType)
        (typeArgument a.store args)).elim (formal, formal.result)
          fun choice => ((a.store.signature? choice.signature).getD formal, choice.result) := by
  unfold callSignature typeArgument
  rw [h]
  dsimp only
  split
  · rfl
  · cases args <;> dsimp only <;> split <;> next heq => rw [heq]; rfl

lemma Passes.mismatch? (h : Passes s param e e') (he : e.effectiveType ≠ .undefined) :
    s.mismatch? (s.typeOf param) e.effectiveType = none := by
  cases h with
  | undefined h => exact absurd h he
  | reference _ _ hm _ _ | value _ _ hm _ => exact hm

lemma Matches.single (h : Matches s signature args args') (hp : signature.params = [param])
    (hv : signature.variadic = false) : ∃ e e', args = [e] ∧ Passes s param e e' := by
  have hlength := h.surplus hv
  have hpasses := h.passes
  rw [hp] at hlength hpasses
  cases hpasses with
  | nil => cases hlength
  | @cons _ _ e e' rest _ hpass _ =>
    have hrest : rest = [] := List.length_eq_zero_iff.1 (by simpa using hlength)
    exact ⟨e, e', by rw [hrest], hpass⟩

lemma Ty.concrete_of_isNumeric (h : t.isNumeric) : t.Concrete := by
  obtain ⟨b, rfl⟩ := isBasic_of_isNumeric h
  trivial

/-- A predefined function has a concrete result, once it is called as it should be. -/
lemma yields_concrete (hp : hasPlainResult s signature) (hargs : ∀ e ∈ args, e.Settled s)
    (hm : Matches s signature args args') (hdefined : ∀ e ∈ args, e.effectiveType ≠ .undefined)
    (hy : Dispatch.Yields s signature (args.map Expr.effectiveType) (typeArgument s args) result) :
    signature.result = none ∧ result = none ∨ signature.result ≠ none ∧ ∃ t, result = some t ∧
    t.Concrete := by
  unfold hasPlainResult at hp
  cases hy with
  | cast h =>
    have hstyle := h
    unfold Dispatch.isCastStyle at hstyle
    rw [Bool.and_eq_true, beq_iff_eq] at hstyle
    obtain ⟨hr, hparams⟩ := hstyle
    rw [hr] at hp
    split at hparams
    · next param hparam =>
      simp only [h, Bool.true_and, Bool.not_eq_true'] at hp
      obtain ⟨e, e', rfl, hpass⟩ := hm.single hparam hp
      have he := hargs e (List.mem_singleton_self _)
      have hmis := hpass.mismatch? (hdefined e (List.mem_singleton_self _))
      rw [beq_iff_eq.1 hparams, Store.mismatch?_pseudo_iff] at hmis
      have htype : e.effectiveType = .typeName := by simpa [Ty.isNumericFamily] using hmis
      have htype : e.type = .typeName := (he.effectiveType_eq_pseudo _).1 htype
      obtain ⟨id, hid, hconcrete⟩ := he.named htype
      exact .inr ⟨by simp [hr], s.typeOf id, by simp [typeArgument, htype, hid], hconcrete⟩
    · cases hparams
  | argument hr =>
    rw [hr] at hp
    simp only [Bool.and_eq_true, beq_iff_eq, Bool.not_eq_true'] at hp
    obtain ⟨param, hparam, hid⟩ := List.map_eq_singleton_iff.1 hp.1
    obtain ⟨e, e', rfl, hpass⟩ := hm.single hparam hp.2
    have he := hargs e (List.mem_singleton_self _)
    have hmis := hpass.mismatch? (hdefined e (List.mem_singleton_self _))
    rw [hid, Store.mismatch?_pseudo_iff] at hmis
    refine .inr ⟨by simp [hr], e.effectiveType, by simp, ?_⟩
    rcases hmis with h | h | ⟨_, h⟩
    · cases h
    · rcases he.type with ht | ht | ht | ht <;> rw [(he.effectiveType_eq_pseudo _).1 h] at ht
      · cases ht
      · cases ht
      · cases ht
      · exact ht.elim
    · exact Ty.concrete_of_isNumeric h
  | result hr hc =>
    split at hp
    · next hnone => exact .inl ⟨hnone, hnone⟩
    · next b hbasic => exact .inr ⟨by simp [hbasic], .basic b, hbasic, trivial⟩
    · next hnumeric => exact absurd hnumeric hr
    · simp [hc] at hp

/-- The value of a call, if it has one. -/
lemma callSignature_result (ha : a.Ready) (hf : a.store.signature? base = some formal)
    (hb : Grounds a.store context base)
    (hs : callSignature a context formal args = (signature, result))
    (hm : Matches a.store signature args args') (hargs : ∀ e ∈ args, e.Settled a.store) :
    isProper a.store context formal ∧ result = none ∨ (a.store.decl context).builtin?.isSome ∧
    (∃ e ∈ args, e.type = .undefined) ∧ result.getD .undefined = .undefined ∨
    isProper a.store context formal = false ∧ ∃ t, result = some t ∧ t.Concrete := by
  unfold isProper
  cases hbuiltin : (a.store.decl context).builtin? with
  | none =>
    simp only [callSignature, hbuiltin] at hs
    cases hs
    have hconcrete : base.Concrete := hb.resolve_right fun h => by simp [hbuiltin] at h
    obtain ⟨hresult, _⟩ := ha.whole.concrete.forms _ _ hconcrete (Store.signature?_eq_some.1 hf)
    cases hr : formal.result with
    | none => exact .inl ⟨rfl, rfl⟩
    | some t => exact .inr (.inr ⟨rfl, t, rfl, hresult t hr⟩)
  | some b =>
    rw [callSignature_builtin hbuiltin] at hs
    split at hs
    · next hundefined =>
      cases hs
      obtain ⟨e, he, heq⟩ := List.mem_map.1 (List.contains_iff_mem.1 hundefined)
      refine .inr (.inl ⟨rfl, ⟨e, he, ((hargs e he).effectiveType_eq_pseudo _).1 heq⟩, ?_⟩)
      cases formal.result <;> rfl
    · next hdefined =>
      have hdefined (e) (he : e ∈ args) (h : e.effectiveType = .undefined) : False :=
        hdefined (List.contains_iff_mem.2 (List.mem_map.2 ⟨e, he, h⟩))
      obtain ⟨primary, rest, hlookup, hsigs⟩ := signatures_eq b
      have hsome (t) (ht : t ∈ primary :: rest) : (a.store.signature? t).isSome := by
        obtain ⟨sig, hsig, _⟩ := hsigs t ht
        rw [ha.whole.concrete.predefined t sig hsig]
        rfl
      obtain ⟨t, ht, sig, r, hsig, hyields, hchoose⟩ := Dispatch.choose_yields
        (args.map Expr.effectiveType) (typeArgument a.store args) hsome
      rw [ha.signatures, hlookup, Option.getD_some, hchoose, Option.elim_some, hsig,
        Option.getD_some, Prod.mk.injEq] at hs
      obtain ⟨rfl, rfl⟩ := hs
      obtain ⟨sig', hsig', hplain, hproper⟩ := hsigs t ht
      rw [ha.whole.concrete.predefined t sig' hsig'] at hsig
      cases hsig
      dsimp only
      rw [← hproper]
      rcases yields_concrete (ha.formals.hasPlainResult hsig' hplain) hargs hm hdefined hyields with
        ⟨hnone, hresult⟩ | ⟨hsome, hresult⟩
      · exact .inl ⟨by simp [hnone], hresult⟩
      · exact .inr (.inr ⟨by simpa [Option.isSome_iff_ne_none] using hsome, hresult⟩)

end Analyze

end Oberon
