import Mathlib.Data.List.Forall2
import Oberon.Proofs.Ensures
import Oberon.Proofs.Growth

/-!
# Oberon.Proofs.Chains

What designators are resolved to where nothing is reported. A chain of selectors is resolved
selector by selector, each applied to the type that the one before leads to. The rules say what has
been checked on the way.
-/

namespace Oberon

open Bool Declaration

variable (context : DeclId)

/-! ## Values that are passed or assigned -/

/-- A value that is adapted to the type it is meant for keeps its place in the program: a
conversion is noted, or a literal is written in another form. -/
inductive Expr.Adapts : Expr → Expr → Prop
  | refl (e : Expr) : Adapts e e
  | cast (e : Expr) {t : Ty} (ht : t.isPseudo = false) : Adapts e (e.withCast t)
  | literal {v v' : Literal} {n n' : Note} (ht : n'.type = n.type ∨ ∃ b, n'.type = .basic b)
      (hc : n'.cast = n.cast) : Adapts (.literal v n) (.literal v' n')

namespace Store

lemma adapts_convert (s : Store) (e : Expr) (t) : e.Adapts (s.convert e t) := by
  unfold convert
  split
  · exact .refl e
  · next h =>
    refine .cast e ?_
    cases ht : t.isPseudo with
    | false => rfl
    | true => exact absurd (by simp [isGeneric, ht]) h

lemma adapts_literalToArray (value note length) :
    Expr.Adapts (.literal value note) (literalToArray value note length).1 := by
  unfold literalToArray
  split
  · exact .literal (.inr ⟨_, rfl⟩) rfl
  · split
    · exact .literal (.inl rfl) rfl
    · exact .refl _
  · exact .refl _

lemma adapts_convertLiteral (s : Store) (e : Expr) (t) : e.Adapts (s.convertLiteral e t).1 := by
  unfold convertLiteral
  split
  · split
    · exact .refl _
    · split
      · exact adapts_literalToArray _ _ _
      · split
        · next hr =>
          refine .literal (.inr ?_) rfl
          simp only [Ty.isReal, or_eq_true, beq_iff_eq] at hr
          rcases hr with rfl | rfl <;> exact ⟨_, rfl⟩
        · exact s.adapts_convert _ _
  · exact .refl _

/-- A value as it is passed or assigned to something of type `t`. -/
def converted (s : Store) (e : Expr) (t : Ty) : Expr :=
  if e.isLiteral then (s.convertLiteral e t).1 else s.convert e t

lemma adapts_converted (s : Store) (e : Expr) (t) : e.Adapts (s.converted e t) := by
  unfold converted
  split
  · exact s.adapts_convertLiteral e t
  · exact s.adapts_convert e t

end Store

lemma Analysis.Silent.lookup {a b : Analysis} (h : a.Silent b) (ident) : b.lookup ident =
    a.lookup ident := by
  simp only [Analysis.lookup, h.scopes, h.store]

namespace Analyze

variable {a : Analysis}

/-- A value that is adapted to a compatible type. -/
lemma convertValue_ensures (e t) : (convertValue e t).Ensures a fun v _ => v =
    a.store.converted e t := by
  unfold Store.converted
  refine .ite (fun hl => .getStore ?_) fun hl => .getStore (.pure fun _ => ?_)
  · rw [if_pos hl]
    split
    · next converted _ heq =>
      rw [heq]
      split
      · exact .pure fun _ => rfl
      · exact .bind (.quiet _) fun _ _ _ => .pure fun _ => rfl
  · rw [if_neg hl]

lemma checkCompatible_ensures (span expected actual) :
    (checkCompatible span expected actual).Ensures a fun v b => b = a ∧ v ∧
    a.store.mismatch? expected actual = none := by
  refine .getStore ?_
  split
  · next h => exact .pure fun _ => ⟨rfl, rfl, h⟩
  · exact .reported

/-- What becomes of an argument that is accepted for a parameter. Nothing is known about one that has
no type. -/
inductive Passes (s : Store) (param : DeclId) (arg : Expr) : Expr → Prop
  | undefined (h : arg.effectiveType = .undefined) : Passes s param arg arg
  | reference (hx : arg.effectiveType ≠ .undefined) (hv : (s.decl param).isVarParameter = true)
      (hm : s.mismatch? (s.typeOf param) arg.effectiveType = none) (hw : s.unwritable? arg = none)
      (hn : (s.typeOf param).isNumeric = true → arg.effectiveType.isNumeric = true →
        s.typeOf param = arg.effectiveType) : Passes s param arg arg
  | value (hx : arg.effectiveType ≠ .undefined)
      (hv : (s.decl param).isVarParameter = false)
      (hm : s.mismatch? (s.typeOf param) arg.effectiveType = none)
      (h : e = arg ∨ e = s.converted arg (s.typeOf param)) : Passes s param arg e

lemma Passes.adapts (h : Passes s param arg e) : arg.Adapts e := by
  cases h with
  | undefined h | reference => exact .refl _
  | value _ _ _ h =>
    rcases h with rfl | rfl
    · exact .refl _
    · exact s.adapts_converted arg _

lemma checkReference_ensures (arg formal) :
    (checkReference arg formal).Ensures a fun _ _ => a.store.unwritable? arg = none ∧
    (formal.isNumeric → arg.effectiveType.isNumeric → formal = arg.effectiveType) := by
  refine .getStore ?_
  split
  · exact .report _ _
  · next hw =>
    refine (Ensures.reportIf _ _ _).mono fun _ _ h => ⟨hw, fun hf ha => ?_⟩
    simpa [hf, ha] using h.1

lemma passArgument_ensures (param arg) :
    (passArgument param arg).Ensures a fun e _ => Passes a.store param arg e := by
  refine .getStore (.ite (fun hu => .pure fun _ => .undefined (beq_iff_eq.1 hu)) fun hx => ?_)
  have hx : arg.effectiveType ≠ .undefined := by simpa using hx
  refine .bind (checkCompatible_ensures _ _ _) ?_
  rintro _ _ ⟨rfl, rfl, hm⟩
  refine .ite (fun h => by cases h) fun _ => .ite (fun hv => ?_) fun hv => ?_
  · refine .bind (checkReference_ensures _ _) fun _ _ h => .pure fun _ => ?_
    exact .reference hx hv hm h.1 h.2
  · have hv := eq_false_iff.2 hv
    refine .ite (fun _ => .pure fun _ => .value hx hv hm (.inl rfl)) fun _ => ?_
    refine .bind (.quiet _) fun _ b hb => (convertValue_ensures _ _).mono fun e _ h => ?_
    rw [hb.store] at h
    exact .value hx hv hm (.inr h)

/-- Arguments that are accepted for parameters. Surplus ones stay as they are. -/
inductive PassesAll (s : Store) : List DeclId → List Expr → List Expr → Prop
  | nil (params : List DeclId) : PassesAll s params [] []
  | surplus (args : List Expr) : PassesAll s [] args args
  | cons {param : DeclId} {params : List DeclId} {arg e : Expr} {args es : List Expr}
      (h : Passes s param arg e) (hs : PassesAll s params args es) :
      PassesAll s (param :: params) (arg :: args) (e :: es)

lemma Expr.Adapts.refls (args) : List.Forall₂ Expr.Adapts args args := by
  induction args with
  | nil => exact .nil
  | cons e _ ih => exact .cons (.refl e) ih

lemma PassesAll.adapts (h : PassesAll s params args es) : List.Forall₂ Expr.Adapts args es := by
  induction h with
  | nil => exact .nil
  | surplus args => exact Expr.Adapts.refls args
  | cons h _ ih => exact .cons h.adapts ih

lemma PassesAll.get (h : PassesAll s params args es) : ∀ {i : Nat} {param : DeclId} {e : Expr},
    params[i]? = some param → es[i]? = some e → ∃ arg, args[i]? = some arg ∧
    Passes s param arg e := by
  induction h with
  | nil =>
    intro i param e _ he
    cases he
  | surplus =>
    intro i param e hp _
    cases hp
  | cons h _ ih =>
    intro i param e hp he
    cases i with
    | zero =>
      cases hp
      cases he
      exact ⟨_, rfl, h⟩
    | succ i => exact ih hp he

lemma passArguments_ensures (span variadic args) : ∀ params a,
    (passArguments span variadic params args).Ensures a fun es _ => PassesAll a.store params args es
     ∧ (variadic = false → args.length ≤ params.length) := by
  induction args with
  | nil =>
    intro params a
    cases params <;> exact .pure fun _ => ⟨.nil _, fun _ => Nat.zero_le _⟩
  | cons arg args ih =>
    intro params a
    cases params with
    | nil =>
      refine .bind (.reportIf _ _ _) fun _ _ hv => .pure fun _ => ⟨.surplus _, ?_⟩
      intro hv'
      rw [hv'] at hv
      cases hv.1
    | cons param params =>
      refine .bind (passArgument_ensures param arg).silently fun e b he => ?_
      refine .bind (ih params b) fun es _ hes => .pure fun _ => ?_
      rw [he.1.store] at hes
      exact ⟨.cons he.2 hes.1, fun h => Nat.succ_le_succ (hes.2 h)⟩

/-! ## Selectors -/

/-- What becomes of the arguments of a call that are accepted for a signature. -/
structure Matches (s : Store) (signature : Signature) (args args' : List Expr) : Prop where
  enough : signature.params.length ≤ args.length
  surplus : signature.variadic = false → args.length = signature.params.length
  passes : PassesAll s signature.params args args'

/-- A selector is applied to `context` of type `base`; `next` stands behind it. -/
inductive Applies (a : Analysis) (context : DeclId) (base : Ty) (next : Option Selector) :
    Selector → Step → Prop
  | call {formal signature : Signature} {result : Option Ty} {args args' : List Expr} {mark : Mark}
      (hf : a.store.signature? base = some formal)
      (hs : callSignature a context formal args = (signature, result))
      (hm : Matches a.store signature args args')
      (hn : result = none → next = none) :
      Applies a context base next (.call args mark)
        ⟨.call args' { mark with type := result.getD .undefined }, result.getD .undefined, context⟩
  | index {form : ArrayForm} {indices : List Expr} {mark : Mark}
      (hf : a.store.array? base = some form) (hl : indices.length ≤ form.dimensions) {type : Ty}
      (ht : type = match indices.length with
        | 0 => base
        | count + 1 => form.types[count]?.getD .undefined) :
      Applies a context base next (.index indices mark)
        ⟨.index indices { mark with type }, type, context⟩
  | deref {target : Option Ty} {implicit : Bool} {mark : Mark}
      (hf : a.store.pointer? base = some target) :
      Applies a context base next (.deref implicit mark)
        ⟨.deref implicit { mark with type := target.getD .undefined }, target.getD .undefined,
          context⟩
  | field {id : DeclId} {name : String} {decl : Option DeclId} {mark : Mark}
      (hr : a.store.isRecord base) (hf : a.store.findField? base name = some id) :
      Applies a context base next (.field name decl mark)
        ⟨.field name (some id) { mark with type := a.store.typeOf id }, a.store.typeOf id, id⟩
  | guard {d : Declaration} {ident : QualIdent} {type : Ty} {mark : Mark}
      (hb : a.store.Dynamic base) (hl : a.lookup ident = some d) (hd : d.isType)
      (ht : a.store.Dynamic d.type) :
      Applies a context base next (.guard ident type mark)
        ⟨.guard ident d.type { mark with type := d.type }, d.type, context⟩

/-- A call of something that has a signature, with arguments for the one that is chosen. -/
lemma call_ensures (base span args) (hb : a.Silent b) :
    (call context base span args).Ensures b fun v _ => ∃ formal signature, a.store.signature? base =
    some formal ∧ callSignature a context formal args = (signature, v.1) ∧
    Matches a.store signature args v.2 := by
  refine .get ?_
  rw [hb.store]
  split
  · exact .reported
  · next formal hf =>
    have hs : callSignature b context formal args = callSignature a context formal args := by
      simp only [callSignature, hb.store, hb.signatures]
    dsimp only
    rw [hs]
    refine .bind (.reportIf _ _ _) ?_
    rintro _ _ ⟨hl, rfl⟩
    refine .bind (passArguments_ensures _ _ _ _ _) fun vs _ hvs => .pure fun _ => ?_
    obtain ⟨hpasses, hlength⟩ := hvs
    have hl : (callSignature a context formal args).1.params.length ≤ args.length := by
      simpa using hl
    refine ⟨formal, (callSignature a context formal args).1, hf, rfl, hl, fun hv => ?_, ?_⟩
    · exact Nat.le_antisymm (hlength hv) hl
    · rw [← hb.store]
      exact hpasses

lemma applies_call (base next args mark) (hb : a.Silent b) :
    (applySelector context base next (.call args mark)).Ensures b fun step _ => Applies a context
     base next (.call args mark) step := by
  refine .bind_of_appends (fun v => by dsimp only; split <;> infer_instance)
    (call_ensures context base mark.span args hb) ?_
  rintro ⟨result, args'⟩ c ⟨formal, signature, hf, hs, hm⟩
  dsimp only
  split
  · exact .reported
  · next hn =>
    refine .pure fun _ => .call hf hs hm fun hr => ?_
    cases next with
    | none => rfl
    | some s => exact absurd rfl (hn s hr)

lemma applies_index (base next indices mark) (hb : a.Silent b) :
    (applySelector context base next (.index indices mark)).Ensures b fun step _ => Applies a
     context base next (.index indices mark) step := by
  refine .bind (P := fun v _ => ∃ form, a.store.array? base = some form ∧
    indices.length ≤ form.dimensions ∧ v = match indices.length with
      | 0 => base
      | count + 1 => form.types[count]?.getD .undefined) ?_ fun _ _ h => .pure fun _ => ?_
  rotate_left
  · obtain ⟨_, hf, hl, ht⟩ := h
    exact .index hf hl ht
  refine .getStore ?_
  rw [hb.store]
  split
  · exact .reported
  · next form hf =>
    have happ (count) : Appends (match count with
        | 0 => Pure.pure base
        | count + 1 => Pure.pure (form.types[count]?.getD .undefined) : Analyze Ty) := by
      split <;> infer_instance
    refine .bind_of_appends (fun _ => .andThen fun _ => happ _) (.reportIf _ _ _)
      fun _ _ hl => .bind_of_appends (fun _ => happ _) (.quiet _) fun _ _ _ => ?_
    have hl : indices.length ≤ form.dimensions := by simpa using hl.1
    rw [Nat.min_eq_left hl]
    split
    iterate 2
      · next h => exact .pure fun _ => ⟨form, hf, hl, by simp [h]⟩

lemma applies_deref (base next implicit mark) (hb : a.Silent b) :
    (applySelector context base next (.deref implicit mark)).Ensures b fun step _ => Applies a
     context base next (.deref implicit mark) step := by
  refine .bind (P := fun v _ => ∃ target, a.store.pointer? base = some target ∧
    v = target.getD .undefined) ?_ fun _ _ h => .pure fun _ => ?_
  rotate_left
  · obtain ⟨_, hf, rfl⟩ := h
    exact .deref hf
  refine .getStore ?_
  rw [hb.store]
  split
  · next target hf => exact .pure fun _ => ⟨target, hf, rfl⟩
  · exact .reported

lemma applies_field (base next name decl mark) (hb : a.Silent b) :
    (applySelector context base next (.field name decl mark)).Ensures b fun step _ => Applies a
     context base next (.field name decl mark) step := by
  refine .bind_of_appends (P := fun v c => a.Silent c ∧ a.store.isRecord base ∧
    ∃ id, a.store.findField? base name = some id ∧ v = some id)
    (fun v => by split <;> infer_instance) ?_ ?_
  · refine .getStore ?_
    rw [hb.store]
    refine .otherwise fun hr => ?_
    split
    · next id hf => exact .pure fun _ => ⟨hb, by simpa using hr, id, hf, rfl⟩
    · exact .reported
  · rintro _ c ⟨hc, hr, id, hf, rfl⟩
    refine .getStore (.pure fun _ => ?_)
    rw [hc.store]
    exact .field hr hf

lemma applies_guard (base next ident type mark) (hb : a.Silent b) :
    (applySelector context base next (.guard ident type mark)).Ensures b fun step _ => Applies a
     context base next (.guard ident type mark) step := by
  refine .bind (P := fun v _ => a.store.Dynamic base ∧ ∃ d, a.lookup ident = some d ∧ d.isType ∧
    a.store.Dynamic d.type ∧ v = d.type) ?_ fun _ _ h => .pure fun _ => ?_
  rotate_left
  · obtain ⟨hbase, _, hl, hd, ht, rfl⟩ := h
    exact .guard hbase hl hd ht
  refine .get ?_
  rw [hb.lookup, hb.store]
  split
  · exact .reported
  · next d hl =>
    refine .otherwise fun hbase => ?_
    refine .otherwise fun hd => ?_
    dsimp only
    refine .provided fun ht => ?_
    have hbase : a.store.Dynamic base := by
      simp only [hasDynamicType, not_eq_true', not_eq_false, or_eq_true,
        and_eq_true] at hbase
      exact hbase.imp_right And.left
    have hv : a.store.Dynamic base ∧ ∃ d', a.lookup ident = some d' ∧ d'.isType ∧
        a.store.Dynamic d'.type ∧ d.type = d'.type :=
      ⟨hbase, d, hl, by simpa using hd, by simpa [Store.Dynamic] using ht, rfl⟩
    refine .otherwise fun _ => ?_
    exact .optional fun _ _ => .pure fun _ => hv

lemma applies_of_applySelector (context base next s) (hb : a.Silent b) :
    (applySelector context base next s).Ensures b fun step _ => Applies a context base next s step :=
      by
  cases s with
  | call args mark => exact applies_call context base next args mark hb
  | index indices mark => exact applies_index context base next indices mark hb
  | deref implicit mark => exact applies_deref context base next implicit mark hb
  | field name decl mark => exact applies_field context base next name decl mark hb
  | guard ident type mark => exact applies_guard context base next ident type mark hb

/-! ## Chains -/

/-- The first selector of a chain, applied to `context` of type `base`, is resolved to `step`, and
`left` is what is left of the chain. -/
inductive Takes (a : Analysis) (context : DeclId) (base : Ty) (selector : Selector)
    (rest : List Selector) : (step : Step) → (left : List Selector) → Prop
  | mk {guarded : Selector} {step : Step}
      (hr : (selector.implicitDeref? a.store base).isSome →
        reached a.store base selector ≠ .undefined)
      (hg : selector.asGuard? a.store (reached a.store base selector) = some guarded)
      (hs : Applies a context (reached a.store base selector)
        (guarded.gather a.store (reached a.store base selector) rest).2.head?
        (guarded.gather a.store (reached a.store base selector) rest).1 step) :
      Takes a context base selector rest step
        (guarded.gather a.store (reached a.store base selector) rest).2

/-- Resolving `chain`, applied to `context` of type `base`, in the analysis `a` yields `out`, which
leads to `type`. -/
inductive Resolves (a : Analysis) :
    (context : DeclId) → (base : Ty) → (chain out : List Selector) → (type : Ty) → Prop
  | nil (context : DeclId) (base : Ty) : Resolves a context base [] [] base
  /-- A pointer whose base is not known leads nowhere. -/
  | baseless {context : DeclId} {base : Ty} {selector d : Selector} {rest : List Selector}
      (hd : selector.implicitDeref? a.store base = some d) (ht : d.mark.type = .undefined) :
      Resolves a context base (selector :: rest) (d :: selector :: rest) .undefined
  | stop {context : DeclId} {base : Ty} {selector : Selector} {rest left : List Selector}
      {step : Step} (hs : Takes a context base selector rest step left)
      (ht : step.type = .undefined) :
      Resolves a context base (selector :: rest)
        ((selector.implicitDeref? a.store base).toList ++ step.selector :: left) .undefined
  | step {context : DeclId} {base type : Ty} {selector : Selector} {rest left out : List Selector}
      {step : Step} (hs : Takes a context base selector rest step left)
      (ht : step.type ≠ .undefined) (h : Resolves a step.context step.type left out type) :
      Resolves a context base (selector :: rest)
        ((selector.implicitDeref? a.store base).toList ++ step.selector :: out) type

lemma resolves_of_resolve (base chain) : ∀ b, a.Silent b →
    (resolve context base chain).Ensures b fun v _ => Resolves a context base chain v.1 v.2 := by
  induction context, base, chain using resolve_induction with
  | nil context base =>
    intro b _
    rw [resolve]
    exact .pure fun _ => .nil context base
  | cons context base selector rest ih =>
    intro b hb
    rw [resolve_cons]
    refine .getStore ?_
    rw [hb.store]
    refine .ite (fun hr => .pure fun _ => ?_) fun hr => ?_
    · rw [and_eq_true, beq_iff_eq] at hr
      obtain ⟨d, hd⟩ := Option.isSome_iff_exists.1 hr.1
      rw [hd, Option.toList_some]
      exact .baseless hd (by simpa only [reached, hd] using hr.2)
    split
    · exact .reported
    · next guarded hg =>
      have hr' (h : (selector.implicitDeref? a.store base).isSome) :
          reached a.store base selector ≠ .undefined := fun hu => hr (by simp [h, hu])
      refine .optional fun c hc => ?_
      refine .bind (applies_of_applySelector _ _ _ _ (hb.trans hc)).silently fun step d hd => ?_
      have hs := Takes.mk hr' hg hd.2
      refine .ite (fun ht => .pure fun _ => .stop hs (beq_iff_eq.1 ht)) fun ht => ?_
      have hsilent := (hb.trans hc).trans hd.1
      refine .bind (ih _ _ _ (Selector.length_gather ..) d hsilent) fun v _ hv => .pure fun _ => ?_
      exact .step hs (fun h => ht (beq_iff_eq.2 h)) hv

/-! ## Designators -/

/-- A constant stands for its value. -/
lemma constant_ensures (span ident chain) (hb : a.Silent b) :
    (constant span ident chain).Ensures b fun v _ => ∃ d value, a.lookup ident = some d ∧
    d.constantValue? = some value ∧ v = some (.literal value { type := d.type, span }) := by
  refine .get ?_
  rw [hb.lookup]
  split
  · exact .reported
  · next d hd =>
    cases hv : d.constantValue? with
    | none =>
      dsimp only
      split
      · exact .bind (.quiet _) fun _ _ _ => .reported
      · exact .reported
    | some value =>
      dsimp only
      split
      · exact .bind (.quiet _) fun _ _ _ => .pure fun _ => ⟨d, value, hd, hv, rfl⟩
      · exact .pure fun _ => ⟨d, value, hd, hv, rfl⟩

/-- What a name with a chain of selectors is resolved to. -/
inductive Designates (a : Analysis) (span : Span) (ident : QualIdent) (chain : List Selector) :
    Expr → Prop
  | location {id : DeclId} {out : List Selector} {type : Ty}
      (hid : a.scopes.lookup ident = some id)
      (hr : (a.store.decl id).isVariable ∨ (a.store.decl id).isParameter)
      (h : Resolves a id (a.store.typeOf id) chain out type) :
      Designates a span ident chain (.designator ident (some id) out { type, span })
  | type {id : DeclId} (hid : a.scopes.lookup ident = some id) (hr : (a.store.decl id).isType)
      (hc : chain = []) :
      Designates a span ident chain (.designator ident (some id) [] { type := .typeName, span })
  | procedure {id : DeclId} {out : List Selector} {type : Ty}
      (hid : a.scopes.lookup ident = some id) (hr : (a.store.decl id).isProcedure)
      (h : Resolves a id (a.store.typeOf id) chain out type)
      (hv : (a.store.isProcedure type ∧ (a.store.decl id).builtin? = none) ∨ endsInCall out) :
      Designates a span ident chain (.designator ident (some id) out { type, span })

lemma designates_of_designator (span ident chain) (hb : a.Silent b) :
    (designator span ident chain).Ensures b fun e _ => Designates a span ident chain e := by
  refine .get ?_
  rw [hb.scopes, hb.store]
  split
  · exact .reported
  · next id hid =>
    dsimp only
    split
    · next hrole =>
      refine .bind (resolves_of_resolve id _ chain b hb) fun v c hv => .pure fun _ => ?_
      exact .location hid (by simp [isVariable, hrole]) hv
    · next hrole =>
      refine .bind (resolves_of_resolve id _ chain b hb) fun v c hv => .pure fun _ => ?_
      exact .location hid (by simp [isParameter, hrole]) hv
    · next hrole =>
      split
      · exact .reported
      · next hnil =>
        refine .pure fun _ => ?_
        rw [List.head?_eq_none_iff.1 hnil]
        exact .type hid (by simp [isType, hrole]) rfl
    · next hrole =>
      have hp : (a.store.decl id).isProcedure := by simp [isProcedure, hrole]
      refine .bind (resolves_of_resolve id _ chain b hb).silently fun v c hv => .getStore ?_
      rw [hv.1.store, hb.store]
      refine .ite (fun ht => ?_) fun _ => ?_
      · refine .bind (.reportIf _ _ _) fun _ d hd => .pure fun _ => ?_
        exact .procedure hid hp hv.2 (.inl ⟨ht, by simpa using hd.1⟩)
      · refine .provided fun he => .pure fun _ => ?_
        exact .procedure hid hp hv.2 (.inr he)
    · exact .reported
    · exact .reported

end Analyze
end Oberon
