import Oberon.Proofs.Occurring

/-!
# Oberon.Proofs.Bindings

Which arguments are passed for which parameters in an accepted module. The calls can be told from the
tree and the state at the end of the analysis alone, also where a predefined procedure chooses its
signature by its arguments: one that takes an argument by reference has nothing to choose from. Each
argument that is passed by reference was checked in the state in which it was read.
-/

namespace Oberon

open Analyze Analysis Store Universe

/-- An argument, the parameter that it is passed for and what is called. -/
structure Binding where
  callee : DeclId
  param : DeclId
  arg : Expr

namespace Analysis

/-- The parameters that the arguments of a call of `context`, of type `base`, are passed for. -/
def formals (a : Analysis) (context : DeclId) (base : Ty) (args : List Expr) : List DeclId :=
  match a.store.signature? base with
  | none => []
  | some formal => (callSignature a context formal args).1.params

/-- What a selector passes that is applied to `context` of type `base`. -/
def passed (a : Analysis) (context : DeclId) (base : Ty) : Selector → List Binding
  | .call args _ => List.zipWith (Binding.mk context) (a.formals context base args) args
  | _ => []

/-- What a chain of selectors passes that is applied to `context` of type `base`. -/
def bindingsIn (a : Analysis) (context : DeclId) (base : Ty) : List Selector → List Binding
  | [] => []
  | selector :: rest => a.passed context base selector ++
      a.bindingsIn (selector.field?.getD context) selector.mark.type rest

/-- What the calls of a designator pass. -/
def bindings (a : Analysis) : Expr → List Binding
  | .designator _ (some id) selectors _ => a.bindingsIn id (a.store.typeOf id) selectors
  | _ => []

end Analysis

/-- All arguments in the bodies of a module, with their parameters in the state `a`. -/
def Module.bindings (a : Analysis) (m : Module) : List Binding :=
  m.uses.flatMap fun use => use.2.parts.flatMap a.bindings

/-! ## Predefined procedures -/

namespace Universe

/-- Does a predefined procedure have one signature only, or none that takes a reference? -/
def refersPlainly (u : Universe) (b : Builtin) : Bool :=
  match u.signatures.lookup b with
  | some [_] => true
  | some ts => ts.all fun t => (u.store.signature? t).all fun sig =>
    sig.params.all fun id => !(u.store.decl id).isVarParameter
  | none => true

lemma standard_refersPlainly : (Builtin.all.all (refersPlainly standard)) := by
  decide +kernel

lemma eq_nil_of_reference {id : DeclId}
    (hlookup : standard.signatures.lookup b = some (primary :: rest)) (ht : t ∈ primary :: rest)
    (hs : standard.store.signature? t = some sig) (hid : id ∈ sig.params)
    (hv : (standard.store.decl id).isVarParameter) : rest = [] := by
  have h := List.all_eq_true.1 standard_refersPlainly b b.mem_all
  unfold refersPlainly at h
  rw [hlookup] at h
  cases rest with
  | nil => rfl
  | cons next rest =>
    have hall := List.all_eq_true.1 h t ht
    rw [hs, Option.all_some] at hall
    simpa [hv] using List.all_eq_true.1 hall id hid

end Universe

/-- What is predefined has kept its signatures. -/
structure Analysis.Standard (a : Analysis) : Prop where
  signatures : a.signatures = Universe.standard.signatures
  predefined : ∀ t sig, Universe.standard.store.signature? t = some sig →
    a.store.signature? t = some sig

lemma Analysis.Ready.standard {a : Analysis} (h : a.Ready) : a.Standard :=
  ⟨h.signatures, h.whole.concrete.predefined⟩

/-- The state that an analysis ends with. -/
structure Analysis.Finished (a : Analysis) : Prop extends a.Standard where
  role : ∀ id : DeclId, id.index < Universe.standard.store.decls.size →
    (a.store.decl id).role = (Universe.standard.store.decl id).role

lemma Declaration.isVarParameter_eq {d d' : Declaration} (h : d.role = d'.role) :
    d.isVarParameter = d'.isVarParameter := by
  simp only [Declaration.isVarParameter, h]

/-! ## Arguments -/

lemma Expr.Adapts.effectiveType_eq_undefined {x e : Expr} (h : x.Adapts e)
    (he : e.effectiveType = .undefined) : x.effectiveType = .undefined := by
  cases h with
  | refl => exact he
  | @cast _ t ht =>
    have hcast : (x.withCast t).effectiveType = t := by cases x <;> rfl
    rw [hcast.symm.trans he] at ht
    cases ht
  | @literal _ _ n n' ht hc =>
    have he : n'.cast.getD n'.type = .undefined := he
    have hgoal : n.cast.getD n.type = .undefined := by
      rw [hc] at he
      cases hcast : n.cast with
      | some c =>
        rw [hcast] at he
        exact he
      | none =>
        rw [hcast] at he
        rcases ht with ht | ⟨b, ht⟩
        · exact ht.symm.trans he
        · cases ht.symm.trans he
    exact hgoal

namespace Analyze

variable {a last : Analysis} {context : DeclId} {type : Ty}
 
 

/-- An argument is accepted for a parameter that is passed by reference. Nothing is known about one that
has no type. -/
inductive ByReference (s : Store) (param : DeclId) (arg : Expr) : Prop
  | undefined (h : arg.effectiveType = .undefined)
  | location (hx : arg.effectiveType ≠ .undefined)
      (hm : s.mismatch? (s.typeOf param) arg.effectiveType = none) (hw : s.unwritable? arg = none)
      (hn : (s.typeOf param).isNumeric = true → arg.effectiveType.isNumeric = true →
        s.typeOf param = arg.effectiveType)

lemma Passes.refers (h : Passes s param arg e) (hv : (s.decl param).isVarParameter) : e = arg ∧
    ByReference s param arg := by
  cases h with
  | undefined h => exact ⟨rfl, .undefined h⟩
  | reference hx _ hm hw hn => exact ⟨rfl, .location hx hm hw hn⟩
  | value _ hv' =>
    rw [hv] at hv'
    cases hv'

lemma Passes.undefined_iff (h : Passes s param arg e) : arg.effectiveType = .undefined ↔
    e.effectiveType = .undefined := by
  refine ⟨fun ha => ?_, h.adapts.effectiveType_eq_undefined⟩
  cases h with
  | undefined | reference => exact ha
  | value hx => exact absurd ha hx

lemma PassesAll.contains_undefined (h : PassesAll s params args args') :
    (args'.map Expr.effectiveType).contains .undefined =
    (args.map Expr.effectiveType).contains .undefined := by
  induction h with
  | nil | surplus => rfl
  | @cons _ _ arg e _ _ h _ ih =>
    have hhead : (Ty.undefined == e.effectiveType) = (Ty.undefined == arg.effectiveType) := by
      rw [Bool.eq_iff_iff, beq_iff_eq, beq_iff_eq, eq_comm, ← h.undefined_iff, eq_comm]
    rw [List.map_cons, List.map_cons, List.contains_cons, List.contains_cons, ih, hhead]

/-! ## Signatures of calls -/

/-- The signature of a predefined procedure that is called with arguments that have types. -/
lemma callSignature_standard (h : a.Standard) (hb : (a.store.decl context).builtin? = some b)
    (formal) (hargs : ¬ (args.map Expr.effectiveType).contains .undefined) : ∃ primary rest,
    standard.signatures.lookup b = some (primary :: rest) ∧ ∃ t ∈ primary :: rest,
    standard.store.signature? t = some (callSignature a context formal args).1 := by
  obtain ⟨primary, rest, hlookup, hsigs⟩ := signatures_eq b
  have hsome (t) (ht : t ∈ primary :: rest) : (a.store.signature? t).isSome := by
    obtain ⟨sig, hsig, _⟩ := hsigs t ht
    rw [h.predefined t sig hsig]
    rfl
  obtain ⟨t, ht, _, _, _, _, hchoose⟩ := Dispatch.choose_yields
    (args.map Expr.effectiveType) (typeArgument a.store args) hsome
  obtain ⟨sig, hsig, _⟩ := hsigs t ht
  refine ⟨primary, rest, hlookup, t, ht, ?_⟩
  rw [callSignature_builtin hb, if_neg hargs, h.signatures, hlookup, Option.getD_some, hchoose,
    Option.elim_some, h.predefined t sig hsig, Option.getD_some]
  exact hsig

/-- The signature of a call is that of a type. -/
lemma callSignature_mem (context) (hf : a.store.signature? base = some formal) (args) : ∃ t,
    a.store.signature? t = some (callSignature a context formal args).1 := by
  cases hb : (a.store.decl context).builtin? with
  | none => exact ⟨base, by simp only [callSignature, hb, hf]⟩
  | some b =>
    rw [callSignature_builtin hb]
    split
    · exact ⟨base, hf⟩
    · cases Dispatch.choose a.store ((a.signatures.lookup b).getD []) (args.map Expr.effectiveType)
          (typeArgument a.store args) with
      | none => exact ⟨base, hf⟩
      | some choice =>
        rw [Option.elim_some]
        cases ht : a.store.signature? choice.signature with
        | none => exact ⟨base, hf⟩
        | some sig => exact ⟨choice.signature, ht⟩

/-- A parameter by reference is the same at the end of an analysis as it was when the call was read. -/
lemma callSignature_reference (ha : a.Standard) (hl : last.Finished)
    (hrole : (last.store.decl context).role = (a.store.decl context).role)
    (hargs : (args'.map Expr.effectiveType).contains .undefined =
     (args.map Expr.effectiveType).contains .undefined) {i : Nat}
    (hp : (callSignature last context formal args').1.params[i]? = some param)
    (hv : (last.store.decl param).isVarParameter) :
    (callSignature a context formal args).1.params[i]? = some param := by
  have hbuiltin : (last.store.decl context).builtin? = (a.store.decl context).builtin? := by
    simp only [Declaration.builtin?, hrole]
  cases hb : (a.store.decl context).builtin? with
  | none =>
    simp only [callSignature, hbuiltin, hb] at hp ⊢
    exact hp
  | some b =>
    have hb' := hbuiltin.trans hb
    by_cases hundefined : (args.map Expr.effectiveType).contains .undefined
    · rw [callSignature_builtin hb', if_pos (hargs.trans hundefined)] at hp
      rw [callSignature_builtin hb, if_pos hundefined]
      exact hp
    · obtain ⟨primary, rest, hlookup, t, ht, hsig⟩ := callSignature_standard ha hb formal hundefined
      obtain ⟨primary', rest', hlookup', t', ht', hsig'⟩ :=
        callSignature_standard hl.toStandard hb' formal (by rwa [hargs])
      cases hlookup.symm.trans hlookup'
      have hmem := List.mem_of_getElem? hp
      have hlt := ((standard_closed.fits t' _
        (signature?_eq_some.1 hsig')).members param hmem).1
      rw [Declaration.isVarParameter_eq (hl.role param hlt)] at hv
      -- With one signature only, there is nothing to choose.
      have hrest := eq_nil_of_reference hlookup ht' hsig' hmem hv
      rw [hrest, List.mem_singleton] at ht ht'
      rw [ht] at hsig
      rw [ht', hsig] at hsig'
      rwa [Option.some.inj hsig']

/-! ## Chains -/

lemma bindingsIn_of_raw (rest) : ∀ context base, base = .undefined → (∀ s ∈ rest, s.Raw P) →
    last.bindingsIn context base rest = [] := by
  induction rest with
  | nil => exact fun _ _ _ _ => rfl
  | cons selector rest ih =>
    rintro context _ rfl hr
    rw [List.forall_mem_cons] at hr
    rw [bindingsIn, ih _ _ hr.1.mark hr.2, List.append_nil]
    cases selector <;> rfl

lemma bindingsIn_append (h : ∀ s ∈ added, ∃ mark, s = .call [] mark) (out) : ∀ context base,
    last.bindingsIn context base (out ++ added) = last.bindingsIn context base out := by
  induction out with
  | nil =>
    induction added with
    | nil => exact fun _ _ => rfl
    | cons selector added ih =>
      intro context base
      rw [List.forall_mem_cons] at h
      obtain ⟨⟨mark, rfl⟩, h⟩ := h
      have hnone : last.passed context base (.call [] mark) = [] := List.zipWith_nil_right
      rw [List.nil_append, bindingsIn, bindingsIn, hnone]
      exact ih h _ _
  | cons selector out ih =>
    intro context base
    rw [List.cons_append, bindingsIn, bindingsIn, ih]

/-- An argument that satisfies `P` was accepted for its parameter, which is passed by reference and was
declared in a source unless a predefined procedure is called. -/
structure Lends (a : Analysis) (P : Expr → Prop) (b : Binding) : Prop where
  read : P b.arg
  accepted : ByReference a.store b.param b.arg
  lt : b.param.index < a.store.decls.size
  callee : b.callee.index < a.store.decls.size
  sourced : (a.store.decl b.callee).builtin? = none → (a.store.decl b.param).module.isSome = true

section

variable (ha : a.Ready) (hg : a.store.Grows last.store) (hl : last.Finished)
include ha hg hl

/-- What a call passes by reference. -/
lemma Matches.references (hc : context.In a.store) (hground : Grounds a.store context base)
    (hf : a.store.signature? base = some formal) (hlast : last.store.signature? base' = some formal)
    {signature : Signature} (hs : callSignature a context formal args = (signature, result))
    (hargs : ∀ e ∈ args, P e) (hm : Matches a.store signature args args') (mark)
    (hb : b ∈ last.passed context base' (.call args' mark))
    (hv : (last.store.decl b.param).isVarParameter) : Lends a P b := by
  rw [passed, formals, hlast] at hb
  obtain ⟨i, hi⟩ := List.mem_iff_getElem?.1 hb
  obtain ⟨param, e, hparam, he, rfl⟩ := List.getElem?_zipWith_eq_some.1 hi
  have hparam := callSignature_reference ha.standard hl (hg.role hc) hm.passes.contains_undefined
    hparam hv
  obtain ⟨t, ht⟩ := callSignature_mem context hf args
  have hlt := (ha.members t _ (signature?_eq_some.1 ht) param (List.mem_of_getElem? hparam)).1
  rw [Declaration.isVarParameter_eq (hg.role hlt)] at hv
  have hsourced (hnone : (a.store.decl context).builtin? = none) :
      (a.store.decl param).module.isSome := by
    have hbase := hground.resolve_right fun h => by simp [hnone] at h
    simp only [callSignature, hnone] at hparam
    exact ((ha.whole.concrete.forms base _ hbase (signature?_eq_some.1 hf)).2 param
      (List.mem_of_getElem? hparam)).2
  rw [hs] at hparam
  obtain ⟨arg, harg, hpass⟩ := hm.passes.get hparam he
  obtain ⟨rfl, hrefers⟩ := hpass.refers hv
  exact ⟨hargs _ (List.mem_of_getElem? harg), hrefers, hlt, hc, hsourced⟩

/-- What a resolved chain passes by reference. -/
lemma Walks.references (h : Walks a P context base out type) (hc : context.In a.store)
    (hground : Grounds a.store context base)
    (hbase : ∀ sig, a.store.signature? base = some sig → last.store.signature? base' = some sig) :
    ∀ b ∈ last.bindingsIn context base' out, (last.store.decl b.param).isVarParameter →
    Lends a P b := by
  have hlater (t sig) (hs : a.store.signature? t = some sig) :
      last.store.signature? t = some sig := hg.signature? hs
  induction h generalizing base' with
  | nil => simp [bindingsIn]
  | index _ _ ht _ ih | deref _ ht _ ih => exact ih hc (.inl ht) (hlater _)
  | field hf _ ht _ ih => exact ih (findFieldWithin_member ha _ _ hf).1 (.inl ht) (hlater _)
  | guard hm ht _ _ ih =>
    subst hm
    exact ih hc (.inl ht) (hlater _)
  | call hf hs hargs hm _ ht _ ih =>
    refine List.forall_mem_append.2 ⟨fun b hb hv => ?_, ih hc (.inl ht) (hlater _)⟩
    exact hm.references ha hg hl hc hground hf (hbase _ hf) hs hargs _ hb hv
  | proper hf hs hargs hm _ _ =>
    refine List.forall_mem_append.2 ⟨fun b hb hv => ?_, by simp [bindingsIn]⟩
    exact hm.references ha hg hl hc hground hf (hbase _ hf) hs hargs _ hb hv
  | @lost context _ _ _ _ _ _ mark rest hf hs hargs hm _ _ ht hr =>
    have hnone : last.bindingsIn context mark.type rest = [] := bindingsIn_of_raw rest _ _ ht hr
    refine List.forall_mem_append.2 ⟨fun b hb hv => ?_, fun b hb => ?_⟩
    · exact hm.references ha hg hl hc hground hf (hbase _ hf) hs hargs _ hb hv
    · have hb : b ∈ last.bindingsIn context mark.type rest := hb
      rw [hnone] at hb
      cases hb

end

end Analyze

/-! ## Expressions and statements -/

section

variable {a last : Analysis}

lemma Expr.Adapts.bindings (h : x.Adapts e) (last : Analysis) : last.bindings e = last.bindings x := by
  cases h with
  | refl => rfl
  | cast =>
    cases x with
    | designator ident decl selectors note => cases decl <;> rfl
    | _ => rfl
  | literal => rfl

/-- What is passed by reference was read and accepted for its parameter. -/
def Analysis.RefersIn (last a : Analysis) (e : Expr) : Prop :=
  ∀ b ∈ last.bindings e, (last.store.decl b.param).isVarParameter = true →
    Lends a (fun x => Elaborates a (.expr x)) b

variable (ha : a.Ready) (hg : a.store.Grows last.store) (hl : last.Finished)
include ha hg hl

lemma Expr.Stems.refersIn (h : e.Stems a) : last.RefersIn a e := by
  obtain ⟨x, hx, hadapts⟩ := h
  rw [Analysis.RefersIn, hadapts.bindings]
  cases x with
  | designator ident decl out note =>
    obtain ⟨id, rfl, hid, ⟨_, rfl, _⟩ | ⟨_, hden⟩⟩ := hx.denotes ha rfl
    · simp [bindings, bindingsIn]
    · have hlt := (ha.known id (Scopes.knows_of_lookup hid)).lt
      exact hden.walks.references ha hg hl hlt hden.grounds fun _ => hg.signature?_typeOf
  | _ => simp [bindings]

lemma Analyze.Calls.refersIn (h : Calls a span ident chain e)
    (hc : ∀ s ∈ chain, Elaborates a (.selector s)) : ∀ q ∈ e.parts, last.RefersIn a q := by
  obtain ⟨id, out, type, added, note, rfl, hid, hground, hwalks, hadded⟩ :=
    h.walks ha (fun x hx => (hx.settled ha : x.Settled _)) fun s hs => (hc s hs).raw ha
  intro q hq
  rw [Expr.parts_eq, List.mem_cons] at hq
  rcases hq with rfl | hq
  · intro b hb
    rw [Analysis.bindings, bindingsIn_append hadded] at hb
    have hlt := (ha.known id (Scopes.knows_of_lookup hid)).lt
    exact hwalks.references ha hg hl hlt hground (fun _ => hg.signature?_typeOf) b hb
  · obtain ⟨o, ho, hq⟩ := Expr.mem_inner.1 hq
    rw [Expr.operands_bare hadded] at ho
    obtain ⟨x, hx, hadapts⟩ := hwalks.operands o ho
    exact (Expr.Stems.parts ⟨x, hx, hadapts⟩ ha q hq).refersIn ha hg hl

lemma Use.Arises.refersIn (h : Use.Arises a use) : ∀ q ∈ use.2.parts, last.RefersIn a q := by
  cases h with
  | read _ h => exact fun q hq => (h.parts ha q hq).refersIn ha hg hl
  | called hc h => exact h.refersIn ha hg hl hc

end

namespace Outcome

variable {features : Features} {library : Library}

lemma Accepts.finished (h : (ofSource features library source).Accepts m) (hl : library.Built) :
    (ofSource features library source).analysis.Finished := by
  obtain ⟨c, hc, ⟨f, hf, _⟩, _⟩ := h.wholeBlocks hl
  obtain ⟨b, c', hb, hi, _, hreads, _⟩ := h.phases
  refine ⟨⟨?_, fun t sig ht => ?_⟩, fun id hid => ?_⟩
  · exact (hreads.continues.signatures.trans hi.signatures).trans hb.signatures
  · exact hf.grows.signature? ((hf.ready hc).whole.concrete.predefined t sig ht)
  · rw [hf.grows.role (hf.before.store.lt (hc.predefined.lt hid)),
      hf.before.store.decl (hc.predefined.lt hid), hc.predefined.decl id hid]

/-- Each argument that an accepted module passes by reference was read and accepted for its
parameter. -/
lemma Accepts.references (h : (ofSource features library source).Accepts m) (hl : library.Built) :
    ∀ b ∈ m.bindings (ofSource features library source).analysis,
    ((ofSource features library source).store.decl b.param).isVarParameter → ∃ a : Analysis,
    a.Precedes (ofSource features library source).analysis ∧
    Lends a (fun x => Elaborates a (.expr x)) b := by
  intro b hb hv
  obtain ⟨use, hu, hb⟩ := List.mem_flatMap.1 hb
  obtain ⟨q, hq, hb⟩ := List.mem_flatMap.1 hb
  obtain ⟨a, ha, harises⟩ := h.arises hl use hu
  exact ⟨a, ha, harises.refersIn ha.ready ha.grows (h.finished hl) q hq b hb hv⟩

end Outcome

end Oberon
