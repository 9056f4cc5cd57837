import Oberon.Proofs.Predefined

/-!
# Oberon.Proofs.Walking

What a resolved chain of selectors looks like in a state in which bodies are read. Each selector leads
from one concrete type to the next. Only a call can lead nowhere: one of a proper procedure, behind
which the chain ends, or one of a predefined function with an argument that has no type itself, behind
which nothing was resolved.
-/

namespace Oberon

open Expr hiding span type

open Store

variable {selector : Selector} {id : DeclId} {e : Expr}
    {a b c last : Analysis} {block : Block}

/-! ## Operands of selectors -/

/-- The expressions that a selector applies. -/
def Selector.operands : Selector → List Expr
  | .index xs _ => xs
  | .call xs _ => xs
  | _ => []

/-- The name and the declaration of a field that was found. -/
def Selector.found? : Selector → Option (String × DeclId)
  | .field name (some id) _ => some (name, id)
  | _ => none

/-- A selector as it is read: it leads nowhere yet, and its operands satisfy `P`. -/
structure Selector.Raw (P : Expr → Prop) (s : Selector) : Prop where
  mark : s.mark.type = .undefined
  found : s.found? = none
  operands : ∀ x ∈ s.operands, P x

namespace Selector

lemma Raw.asGuard? (h : selector.Raw P) (hg : selector.asGuard? s base = some guarded) :
    guarded.Raw P := by
  unfold Selector.asGuard? at hg
  split at hg
  · split at hg
    · cases hg
      exact h
    · obtain ⟨ident, _, rfl⟩ := Option.map_eq_some_iff.1 hg
      exact ⟨h.mark, rfl, by simp [Selector.operands]⟩
  · cases hg
    exact h

lemma raw_mergeIndices (dimensions rest) (hr : ∀ r ∈ rest, r.Raw P) : ∀ xs span, (∀ x ∈ xs, P x) →
    (∀ x ∈ (mergeIndices dimensions xs span rest).1, P x) ∧
    ∀ r ∈ (mergeIndices dimensions xs span rest).2.2, r.Raw P := by
  induction rest with
  | nil => exact fun xs span hx => ⟨hx, hr⟩
  | cons r rest ih =>
    intro xs span hx
    cases r with
    | index more mark =>
      simp only [mergeIndices]
      split
      · rw [List.forall_mem_cons] at hr
        exact ih hr.2 _ _ (List.forall_mem_append.2 ⟨hx, hr.1.operands⟩)
      · exact ⟨hx, hr⟩
    | _ => exact ⟨hx, hr⟩

lemma Raw.gather (s base) (h : selector.Raw P) (hr : ∀ r ∈ rest, r.Raw P) :
    (selector.gather s base rest).1.Raw P ∧ ∀ r ∈ (selector.gather s base rest).2, r.Raw P := by
  cases selector with
  | index xs mark =>
    obtain ⟨hx, hr⟩ := raw_mergeIndices _ rest hr xs mark.span h.operands
    exact ⟨⟨h.mark, rfl, hx⟩, hr⟩
  | _ => exact ⟨h, hr⟩

end Selector

namespace Analyze

/-- The chain `out`, applied to `context` of type `base`, leads to `type`. Its operands come from
expressions that satisfy `P`. -/
inductive Walks (a : Analysis) (P : Expr → Prop) : (context : DeclId) → (base : Ty) →
    (out : List Selector) → (type : Ty) → Prop
  | nil (context : DeclId) (base : Ty) : Walks a P context base [] base
  | index {context : DeclId} {base type : Ty} {form : ArrayForm} {xs : List Expr} {mark : Mark}
      {rest : List Selector} (hf : a.store.array? base = some form) (hx : ∀ x ∈ xs, P x)
      (ht : mark.type.Concrete) (h : Walks a P context mark.type rest type) :
      Walks a P context base (.index xs mark :: rest) type
  | deref {context : DeclId} {base type : Ty} {implicit : Bool} {mark : Mark}
      {rest : List Selector} (hf : a.store.pointer? base = some (some mark.type))
      (ht : mark.type.Concrete) (h : Walks a P context mark.type rest type) :
      Walks a P context base (.deref implicit mark :: rest) type
  | field {context id : DeclId} {base type : Ty} {name : String} {mark : Mark}
      {rest : List Selector} (hf : a.store.findField? base name = some id)
      (hm : mark.type = a.store.typeOf id) (ht : mark.type.Concrete)
      (h : Walks a P id mark.type rest type) :
      Walks a P context base (.field name (some id) mark :: rest) type
  | guard {context : DeclId} {base type t : Ty} {ident : QualIdent} {mark : Mark}
      {rest : List Selector} (hm : mark.type = t) (ht : t.Concrete) (hd : a.store.Dynamic t)
      (h : Walks a P context t rest type) : Walks a P context base (.guard ident t mark :: rest) type
  | call {context : DeclId} {base type : Ty} {formal signature : Signature} {args args' : List Expr}
      {mark : Mark} {rest : List Selector} (hf : a.store.signature? base = some formal)
      (hs : callSignature a context formal args = (signature, some mark.type))
      (ha : ∀ e ∈ args, P e) (hm : Matches a.store signature args args')
      (hp : isProper a.store context formal = false) (ht : mark.type.Concrete)
      (h : Walks a P context mark.type rest type) :
      Walks a P context base (.call args' mark :: rest) type
  | proper {context : DeclId} {base : Ty} {formal signature : Signature} {args args' : List Expr}
      {mark : Mark} (hf : a.store.signature? base = some formal)
      (hs : callSignature a context formal args = (signature, none))
      (ha : ∀ e ∈ args, P e) (hm : Matches a.store signature args args')
      (hp : isProper a.store context formal = true) (ht : mark.type = .undefined) :
      Walks a P context base [.call args' mark] .undefined
  | lost {context : DeclId} {base : Ty} {formal signature : Signature} {result : Option Ty}
      {args args' : List Expr} {mark : Mark} {rest : List Selector}
      (hf : a.store.signature? base = some formal)
      (hs : callSignature a context formal args = (signature, result))
      (ha : ∀ e ∈ args, P e) (hm : Matches a.store signature args args')
      (hb : (a.store.decl context).builtin?.isSome = true)
      (hu : ∃ e ∈ args, e.type = .undefined) (ht : mark.type = .undefined)
      (hr : ∀ s ∈ rest, s.Raw P) :
      Walks a P context base (.call args' mark :: rest) .undefined

end Analyze

/-! ## Resolving -/

namespace Analyze

/-- Nothing applies to what has no structure. -/
lemma Applies.ne_pseudo (h : Applies a context base next selector step) (p) : base ≠ .pseudo p := by
  rintro rfl
  cases h with
  | call hf | index hf | deref hf => cases hf
  | field hr => cases hr
  | guard hb => rcases hb with h | h <;> cases h

/-- A predefined procedure can only be called. -/
lemma Grounds.concrete (ha : a.Ready) (h : Grounds a.store context base)
    (hp : a.store.isProcedure base = false) : base.Concrete := by
  refine h.resolve_right fun hb => ?_
  rw [ha.whole.concrete.isProcedure hb.1] at hp
  cases hp

lemma Grounds.target {target : Option Ty} (ha : a.Ready) (h : Grounds a.store context base)
    (hf : a.store.pointer? base = some target) : ∃ t, target = some t ∧ t.Concrete := by
  rw [pointer?_eq_some] at hf
  have hconcrete := Grounds.concrete ha h (by simp [isProcedure, signature?, hf])
  cases target with
  | none => exact absurd hf (ha.whole.based base)
  | some t => exact ⟨t, rfl, ha.whole.concrete.forms _ _ hconcrete hf t rfl⟩

lemma findFieldWithin_concrete (ha : a.Ready) (fuel) : ∀ t : Ty, t.Concrete →
    a.store.findFieldWithin name fuel t = some id → (a.store.typeOf id).Concrete := by
  induction fuel with
  | zero =>
    intro t _ h
    cases h
  | succ fuel ih =>
    intro t ht h
    rw [findFieldWithin] at h
    split at h
    · cases h
    · next r hr =>
      have hform := record?_eq_some.1 hr
      obtain ⟨hbase, hsourced⟩ := ha.whole.concrete.forms t _ ht hform
      split at h
      · next f hf =>
        cases h
        exact ha.whole.concrete.typeOf_member (ha.members t _ hform) hsourced
          (List.mem_of_find?_eq_some hf)
      · obtain ⟨base, hb, h⟩ := Option.bind_eq_some_iff.1 h
        exact ih base (hbase base hb) h

/-- Every type that a selector leads to is concrete, unless it is a call that leads nowhere. -/
lemma Applies.walks (ha : a.Ready) (hP : ∀ x, P x → x.Settled a.store)
    (hb : Grounds a.store context base) (h : Applies a context base next selector step)
    (hs : selector.Raw P) : step.type.Concrete ∧
    (∀ out type, Walks a P step.context step.type out type →
     Walks a P context base (step.selector :: out) type) ∨ step.type = .undefined ∧
    (next = none ∧ Walks a P context base [step.selector] .undefined ∨ ∀ rest, (∀ r ∈ rest,
     r.Raw P) → Walks a P context base (step.selector :: rest) .undefined) := by
  have hs := hs.operands
  cases h with
  | @call formal signature result args args' mark hf hcall hm hn =>
    rcases callSignature_result ha hf hb hcall hm (fun e he => hP e (hs e he)) with
      ⟨hproper, rfl⟩ | ⟨hbuiltin, hundefined, hresult⟩ | ⟨hproper, t, rfl, ht⟩
    · exact .inr ⟨rfl, .inl ⟨hn rfl, .proper hf hcall hs hm hproper rfl⟩⟩
    · exact .inr ⟨hresult, .inr fun rest hr => .lost hf hcall hs hm hbuiltin hundefined hresult hr⟩
    · exact .inl ⟨ht, fun out type h => .call hf hcall hs hm hproper ht h⟩
  | @index form indices mark hf hl type ht =>
    have hconcrete : base.Concrete := hb.concrete ha (by
      simp [isProcedure, signature?, array?_eq_some.1 hf])
    have hform := ha.whole.concrete.forms _ _ hconcrete (array?_eq_some.1 hf)
    have htype : type.Concrete := by
      subst ht
      split
      · exact hconcrete
      · next count hcount =>
        have hlt : count < form.types.length := by
          have := hform.1
          omega
        rw [List.getElem?_eq_getElem hlt]
        exact hform.2.2 _ (List.getElem_mem hlt)
    exact .inl ⟨htype, fun out _ h => .index hf hs htype h⟩
  | @deref target implicit mark hf =>
    obtain ⟨t, rfl, ht⟩ := Grounds.target ha hb hf
    exact .inl ⟨ht, fun out type h => .deref hf ht h⟩
  | @field id name decl mark hr hf =>
    obtain ⟨r, hr⟩ := isRecord_iff.1 hr
    have hconcrete : base.Concrete := hb.concrete ha (by
      simp [isProcedure, signature?, hr])
    have htype := findFieldWithin_concrete ha _ base hconcrete hf
    exact .inl ⟨htype, fun out type h => .field hf rfl htype h⟩
  | @guard d ident type mark hbase hl hd ht =>
    obtain ⟨id, hid, rfl⟩ := Option.map_eq_some_iff.1 hl
    have htype : (a.store.typeOf id).Concrete :=
      ha.whole.concrete.typeOf_of_dynamic (ha.known id (Scopes.knows_of_lookup hid)) ht
    exact .inl ⟨htype, fun out type h => .guard rfl htype ht h⟩

/-- The dereference that is inserted before a selector. -/
lemma implicitDeref?_eq_some (ha : a.Ready) (hb : Grounds a.store context base)
    (hd : selector.implicitDeref? a.store base = some d) : ∃ mark, d = .deref true mark ∧
    a.store.pointer? base = some (some mark.type) ∧ mark.type.Concrete := by
  unfold Selector.implicitDeref? at hd
  split at hd
  · next target hf =>
    split at hd
    · cases hd
      obtain ⟨t, rfl, ht⟩ := Grounds.target ha hb hf
      exact ⟨_, rfl, hf, ht⟩
    · cases hd
  · cases hd

lemma reached_walks (ha : a.Ready) (hb : Grounds a.store context base) (selector) :
    Grounds a.store context (reached a.store base selector) ∧ ∀ out type,
    Walks a P context (reached a.store base selector) out type →
    Walks a P context base ((selector.implicitDeref? a.store base).toList ++ out) type := by
  unfold reached
  cases hd : selector.implicitDeref? a.store base with
  | none => exact ⟨hb, fun out type h => h⟩
  | some d =>
    obtain ⟨mark, rfl, hf, ht⟩ := implicitDeref?_eq_some ha hb hd
    exact ⟨.inl ht, fun out type h => .deref hf ht h⟩

lemma Resolves.walks (ha : a.Ready) (hP : ∀ x, P x → x.Settled a.store)
    (h : Resolves a context base chain out type) (hb : Grounds a.store context base)
    (hc : ∀ s ∈ chain, s.Raw P) : Walks a P context base out type := by
  induction h with
  | nil context base => exact .nil context base
  | @baseless context base selector d rest hd ht =>
    obtain ⟨mark, rfl, _, hconcrete⟩ := implicitDeref?_eq_some ha hb hd
    exact absurd ht (hconcrete.ne_pseudo _)
  | @stop context base selector rest left step hs ht =>
    rw [List.forall_mem_cons] at hc
    obtain ⟨hground, hderef⟩ := reached_walks (P := P) ha hb selector
    cases hs with
    | @mk guarded _ hr hg hs =>
      have hraw := (hc.1.asGuard? hg).gather a.store (reached a.store base selector) hc.2
      refine hderef _ _ ?_
      rcases hs.walks ha hP hground hraw.1 with ⟨hconcrete, _⟩ | ⟨_, ⟨hnext, hwalk⟩ | hwalk⟩
      · exact absurd ht (hconcrete.ne_pseudo _)
      · rw [List.head?_eq_none_iff.1 hnext]
        exact hwalk
      · exact hwalk _ hraw.2
  | @step context base type selector rest left out step hs ht h ih =>
    rw [List.forall_mem_cons] at hc
    obtain ⟨hground, hderef⟩ := reached_walks (P := P) ha hb selector
    cases hs with
    | @mk guarded _ hr hg hs =>
      have hraw := (hc.1.asGuard? hg).gather a.store (reached a.store base selector) hc.2
      refine hderef _ _ ?_
      rcases hs.walks ha hP hground hraw.1 with ⟨hconcrete, hwalk⟩ | ⟨hundefined, _⟩
      · exact hwalk _ _ (ih (.inl hconcrete) hraw.2)
      · exact absurd hundefined ht

lemma Walks.type_of_concrete (h : Walks a P context base out type) (hb : base.Concrete) :
    type.Concrete ∨ type = .undefined := by
  induction h with
  | nil => exact .inl hb
  | index _ _ ht _ ih | deref _ ht _ ih | field _ _ ht _ ih | guard _ ht _ _ ih
  | call _ _ _ _ _ ht _ ih => exact ih ht
  | proper | lost => exact .inr rfl

/-- The type that selectors lead to. -/
lemma Walks.type {type : Ty} (h : Walks a P context base out type) (hne : out ≠ []) :
    type.Concrete ∨ type = .undefined := by
  cases h with
  | nil => exact absurd rfl hne
  | index _ _ ht h | deref _ ht h | field _ _ ht h | guard _ ht _ h
  | call _ _ _ _ _ ht h => exact h.type_of_concrete ht
  | proper | lost => exact .inr rfl

/-! ## Designators -/

lemma concrete_location {s : Store} (h : s.Concrete) (hn : s.Nameable id)
    (hr : (s.decl id).isVariable ∨ (s.decl id).isParameter) : (s.typeOf id).Concrete := by
  have hd := h.decls id hn.lt
  have hm := hn.module
  unfold Declaration.Concrete at hd
  unfold Declaration.isVariable at hr
  unfold Declaration.isParameter at hr hm
  cases hrole : (s.decl id).role with
  | «variable» slot =>
    rw [hrole] at hd
    exact hd
  | parameter byReference index =>
    rw [hrole] at hd hm
    exact hd (hm rfl)
  | _ => simp [hrole] at hr

/-- What is declared has a type that selectors can be applied to, if it has one at all. -/
lemma grounds_of_ne_pseudo {s : Store} (h : s.Concrete) (hn : s.Nameable id)
    (ht : ∀ p, s.typeOf id ≠ .pseudo p) : Grounds s id (s.typeOf id) := by
  have hd := h.decls id hn.lt
  have hm := hn.module
  unfold Declaration.Concrete at hd
  unfold Declaration.isParameter at hm
  cases hrole : (s.decl id).role with
  | constant value =>
    rw [hrole] at hd
    obtain ⟨b, hb⟩ := hd.resolve_left (ht _)
    exact .inl (by rw [typeOf, hb]; trivial)
  | parameter byReference index =>
    rw [hrole] at hd hm
    exact .inl (hd (hm rfl))
  | procedure origin =>
    rw [hrole] at hd
    cases origin with
    | predefined b => exact .inr ⟨hd, by simp [Declaration.builtin?, hrole]⟩
    | defined | external convention name => exact .inl (hd.resolve_left (ht _))
  | _ =>
    rw [hrole] at hd
    exact .inl hd

/-- What a name with a chain of selectors stands for: a type, or what the chain leads to. -/
structure Denotes (a : Analysis) (P : Expr → Prop) (id : DeclId) (out : List Selector) (type : Ty) :
    Prop where
  grounds : Grounds a.store id (a.store.typeOf id)
  walks : Walks a P id (a.store.typeOf id) out type
  bare : out = [] → type.Concrete

lemma Resolves.ne_pseudo (h : Resolves a context base chain out type)
    (ht : a.store.isProcedure type ∨ out ≠ []) (p) : base ≠ .pseudo p := by
  have htakes {base selector rest left step}
      (h : Takes a context base selector rest step left) : base ≠ .pseudo p := by
    rintro rfl
    cases h with
    | mk _ _ hs => exact hs.ne_pseudo p rfl
  cases h with
  | nil =>
    rintro rfl
    rcases ht with ht | ht
    · cases ht
    · exact ht rfl
  | baseless hd _ =>
    rintro rfl
    cases hd
  | stop hs _ | step hs _ _ => exact htakes hs

lemma ne_nil_of_endsInCall (h : endsInCall out) : out ≠ [] := by
  rintro rfl
  cases h

lemma Designates.denotes (ha : a.Ready) (hP : ∀ x, P x → x.Settled a.store)
    (h : Designates a span ident chain e) (hc : ∀ s ∈ chain, s.Raw P) : ∃ id out type, e =
    .designator ident (some id) out { type, span } ∧ a.scopes.lookup ident = some id ∧
    ((a.store.decl id).isType ∧ out = [] ∧ type = .typeName ∨ ((a.store.decl id).isVariable ∨
     (a.store.decl id).isParameter ∨ (a.store.decl id).isProcedure) ∧ Denotes a P id out type) := by
  cases h with
  | @location id out type hid hr h =>
    have htype := concrete_location ha.whole.concrete (ha.known id (Scopes.knows_of_lookup hid)) hr
    have hwalks := h.walks ha hP (.inl htype) hc
    refine ⟨id, out, type, rfl, hid, .inr ⟨?_, .inl htype, hwalks, fun hout => ?_⟩⟩
    · exact hr.imp_right .inl
    · rw [h.eq_of_nil hout]
      exact htype
  | @type id hid hr _ => exact ⟨id, [], .typeName, rfl, hid, .inl ⟨hr, rfl, rfl⟩⟩
  | @procedure id out type hid hr h hv =>
    have hg := grounds_of_ne_pseudo ha.whole.concrete (ha.known id (Scopes.knows_of_lookup hid))
      (h.ne_pseudo (hv.imp And.left ne_nil_of_endsInCall))
    refine ⟨id, out, type, rfl, hid, .inr ⟨.inr (.inr hr), hg, h.walks ha hP hg hc, fun hout => ?_⟩⟩
    rw [h.eq_of_nil hout]
    refine hg.resolve_right fun hp => ?_
    rcases hv with ⟨_, hnone⟩ | hend
    · rw [hnone] at hp
      exact absurd hp.2 (by simp)
    · exact ne_nil_of_endsInCall hend hout

end Analyze

/-! ## Expressions -/

open Analyze

def ExprPhrase.Settled (s : Store) : ExprPhrase → Prop
  | .expr e => e.Settled s
  | .selector sel => sel.Raw fun x => x.Settled s

namespace Expr

lemma settled_literal {n : Note} (ht : n.type.Simple) (hc : n.cast = none) :
    (literal v n).Settled s := by
  have hpseudo : n.type ≠ .typeName := by
    intro h
    rw [h] at ht
    rcases ht with ht | ⟨b, ht⟩ <;> cases ht
  refine ⟨?_, ?_, fun _ => ⟨hc, ht⟩, fun h => absurd h hpseudo⟩
  · rcases ht with ht | ⟨b, ht⟩
    · exact .inr (.inr (.inl ht))
    · exact .inr (.inr (.inr (by rw [Expr.type, Expr.note, ht]; trivial)))
  · simp [note, hc]

/-- An expression that is no literal and has a basic type or none. -/
lemma settled_of_type (ht : e.type = .undefined ∨ ∃ b, e.type = .basic b)
    (hc : e.note.cast = none) (hl : e.isLiteral = false) : e.Settled s := by
  refine ⟨?_, by simp [hc], fun h => absurd h (by simp [hl]), fun h => ?_⟩
  · rcases ht with ht | ⟨b, ht⟩
    · exact .inl ht
    · exact .inr (.inr (.inr (by rw [ht]; trivial)))
  · rw [h] at ht
    rcases ht with ht | ⟨b, ht⟩ <;> cases ht

lemma Settled.withCast {t : Ty} (h : e.Settled s) (hl : e.isLiteral = false)
    (he : e.type.isNumeric) (ht : t.isNumeric) : (e.withCast t).Settled s := by
  have htype : (e.withCast t).type = e.type := by cases e <;> rfl
  have hcast : (e.withCast t).note.cast = some t := by cases e <;> rfl
  have hliteral : (e.withCast t).isLiteral = e.isLiteral := by cases e <;> rfl
  refine ⟨by rw [htype]; exact h.type, ?_, fun h => ?_, fun h => ?_⟩
  · rw [hcast, htype]
    intro c hc
    cases hc
    exact ⟨he, ht⟩
  · rw [hliteral, hl] at h
    cases h
  · rw [htype] at h
    rw [h] at he
    cases he

/-- Conversions of operands. -/
lemma Settled.convertTo {op : BinaryOp} (h : e.Settled s) (he : e = x ∨ e = y)
    (hl : e.isLiteral = false) (hop : op.isRelation = false)
    (ht : Analyze.Operates s op x y typing) : (Analyze.convertTo s typing.common e).Settled s := by
  have hsame {t} (heq : e.type = t) : s.convert e t = e := by
    simp [convert, sameType, heq]
  cases ht with
  | relation hrel _ =>
    rw [hop] at hrel
    cases hrel
  | strings hx hy => rcases he with rfl | rfl <;> simp_all
  | @numbers t t' hx hy hcommon ht' =>
    have hnumeric : e.type.isNumeric := by rcases he with rfl | rfl <;> assumption
    have ht' : t'.isNumeric := by
      subst ht'
      split
      · rfl
      · exact (commonType?_numeric hx hy hcommon).1
    simp only [Analyze.convertTo, convert]
    split
    · exact h
    · exact h.withCast hl hnumeric ht'
  | sets hx hy | booleans hx hy =>
    simp only [Analyze.convertTo]
    rw [hsame (by rcases he with rfl | rfl <;> assumption)]
    exact h

end Expr

lemma Analyze.isBasic_of_isBound (h : IsBound t) : ∃ b, t = .basic b := by
  rcases h with h | h
  · exact Ty.isBasic_of_isNumeric (by simp [Ty.isNumeric, h])
  · exact ⟨_, beq_iff_eq.1 h⟩

lemma Elaborates.settled (h : Elaborates a p) (ha : a.Ready) : p.Settled a.store := by
  induction h with
  | literal span h =>
    refine settled_literal ?_ rfl
    rcases Grammar.literalOf?_type h with rfl | ⟨b, rfl⟩
    · exact .inl rfl
    · exact .inr ⟨b, rfl⟩
  | @constant ident d value span hd hv =>
    refine settled_literal ?_ rfl
    obtain ⟨id, _, rfl⟩ := Option.map_eq_some_iff.1 hd
    refine ha.whole.concrete.simple ?_
    unfold Declaration.constantValue? at hv
    split at hv
    · next hrole => simp [Declaration.isConstant, hrole]
    · cases hv
  | @designator span ident chain e hc h ih =>
    obtain ⟨id, out, type, rfl, hid, ⟨hrole, rfl, rfl⟩ | ⟨_, hden⟩⟩ := h.denotes ha (fun _ h => h) ih
    · have hlt := (ha.known id (Scopes.knows_of_lookup hid)).lt
      refine ⟨.inr (.inl rfl), by simp [note], fun h => (by cases h), fun _ => ⟨id, rfl, ?_⟩⟩
      exact ha.whole.concrete.typeOf_of_isType hlt hrole
    · have htype : type.Concrete ∨ type = .undefined := by
        by_cases hout : out = []
        · exact .inl (hden.bare hout)
        · exact hden.walks.type hout
      refine ⟨?_, by simp [note], fun h => (by cases h), fun h => ?_⟩
      · exact htype.elim (fun h => .inr (.inr (.inr h))) .inl
      · have h : type = .typeName := h
        rcases htype with htype | htype
        · exact absurd h (htype.ne_pseudo _)
        · rw [h] at htype
          cases htype
  | @unary span op x e _ h ih =>
    have ih : x.Settled a.store := ih
    cases h with
    | literal h =>
      obtain ⟨hl, rfl | ⟨b, rfl⟩⟩ := reduceUnary_type h
      · exact settled_literal (ih.literal hl).2 rfl
      · exact settled_literal (.inr ⟨b, rfl⟩) rfl
    | unary h =>
      refine settled_of_type ?_ rfl rfl
      rcases h with h | h
      · right
        cases op with
        | not => exact ⟨_, beq_iff_eq.1 h⟩
        | plus => exact Ty.isBasic_of_isNumeric h
        | neg =>
          simp only [unaryOperand, Bool.or_eq_true, Ty.isSet, beq_iff_eq] at h
          rcases h with h | h
          · exact Ty.isBasic_of_isNumeric h
          · exact ⟨_, h⟩
      · exact .inl h
  | binary _ _ h ihx ihy =>
    cases h with
    | undefined h => exact settled_of_type (.inl rfl) rfl rfl
    | test hop hx hy => exact settled_of_type (.inr ⟨_, rfl⟩) rfl rfl
    | literal ht hr =>
      obtain ⟨v, b, hv⟩ := ht.foldedLiteral_eq hr
      rw [hv]
      exact settled_literal (.inr ⟨b, rfl⟩) rfl
    | lhs ht hop hx => exact Expr.Settled.convertTo ihx (.inl rfl) hx hop ht
    | rhs ht hop hy => exact Expr.Settled.convertTo ihy (.inr rfl) hy hop ht
    | negated hy ht | binary hx hy ht => exact settled_of_type (.inr ht.isBasic) rfl rfl
  | @range span x y e _ _ h ihx ihy =>
    cases h with
    | mk hx hy _ _ ht =>
      refine settled_of_type (.inr ?_) rfl rfl
      rcases ht with rfl | rfl
      · exact isBasic_of_isBound hx
      · exact isBasic_of_isBound hy
  | set _ h ih =>
    cases h with
    | literal value => exact settled_literal (.inr ⟨_, rfl⟩) rfl
    | set hx => exact settled_of_type (.inr ⟨_, rfl⟩) rfl rfl
  | field name span => exact ⟨rfl, rfl, by simp [Selector.operands]⟩
  | index span _ ih => exact ⟨rfl, rfl, ih⟩
  | deref span => exact ⟨rfl, rfl, by simp [Selector.operands]⟩
  | call span _ ih => exact ⟨rfl, rfl, ih⟩

/-! ## The states in which bodies are read -/

/-- A narrowed variable changes nothing of this. -/
lemma Analysis.Ready.focuses (ha : a.Ready) (h : a.Focuses True b) : b.Ready where
  whole := by
    refine ⟨h.store.concrete (fun _ => ha.whole.concrete) trivial, fun t ht => ?_, ?_⟩
    · exact ha.whole.based t (ht.of_forms h.store.form?)
    · exact ha.whole.pointing.of_forms (fun _ => isRecord_of_forms h.store.form?)
        fun t base hf => by rwa [h.store.form?] at hf
  members t f hf := by
    rw [h.store.form?] at hf
    intro id hid
    obtain ⟨hlt, hmember⟩ := ha.members t f hf id hid
    rw [h.store.size, h.store.decl id]
    exact ⟨hlt, hmember⟩
  known id hk := by
    rw [h.scopes] at hk
    exact h.store.nameable (ha.known id hk)
  formals id hid ht := by
    refine (h.store.typeOf_eq_of fun hd => ?_).trans (ha.formals id hid ht)
    rw [ha.formals id hid ht] at hd
    cases htype : Universe.standard.store.typeOf id with
    | composite k => exact ht k htype
    | _ =>
      rw [htype] at hd
      rcases hd with hd | hd <;> cases hd
  signatures := by
    rw [h.signatures]
    exact ha.signatures

/-- The state in which the block of a module is begun, behind the imports. -/
structure Analysis.Imported (c : Analysis) : Prop where
  whole : c.store.Whole
  forwards : c.forwards = []
  predefined : Universe.standard.store.Widens c.store
  signatures : c.signatures = Universe.standard.signatures

lemma Universe.role_ne_defined (h : id.In standard.store) :
    (standard.store.decl id).role ≠ .procedure .defined := by
  intro hrole
  have hplain := List.all_eq_true.1 standard_plain.1 (standard.store.decl id) (by
    rw [decl, Array.getElem?_eq_getElem h]
    exact Array.mem_toList_iff.2 (Array.getElem_mem h))
  simp [isPlain, hrole] at hplain

lemma Block.ReadIn.ready (hc : c.Imported) (h : block.ReadIn low True c a last) : a.Ready where
  whole := by
    obtain ⟨_, hbase⟩ := h.complete trivial hc.forwards
    exact ⟨h.before.sound.concrete trivial, fun t ht => hc.whole.based t (hbase t ht),
      h.before.store.pointing hc.whole.pointing⟩
  members t f hf := (h.before.sound.closed.fits t f hf).members
  known := h.before.sound.known
  formals id hid _ := by
    have hrole := Universe.role_ne_defined hid
    rw [← hc.predefined.decl id hid] at hrole
    rw [h.before.store.typeOf_eq (hc.predefined.lt hid) hrole, hc.predefined.typeOf hid]
  signatures := h.signatures.trans hc.signatures

lemma Block.ReadIn.formed (hc : c.Imported) (h : block.ReadIn low True c a last)
    (hs : s ∈ Statement.allOf block.body) : ∃ b, a.Focuses True b ∧ b.Ready ∧ Formed True b s := by
  obtain ⟨_, hbody⟩ := h.body
  obtain ⟨b, hf, hformed⟩ := (hbody.arises h.framed).forms s hs
  exact ⟨b, hf, (h.ready hc).focuses hf, hformed⟩

/-- A part of a body was read in the state `a`, and the analysis came to its end in the state
`last`. -/
structure Analysis.Precedes (a last : Analysis) : Prop where
  ready : a.Ready
  grows : a.store.Grows last.store
  plain : ∀ id, a.scopes.KnowsPlainly id → (a.store.decl id).isVariable = true →
    (a.store.decl id).imported = false
  has : ∀ id, a.store.Has (a.store.typeOf id)
  kind : ∀ id : DeclId, id.index < a.store.decls.size → (a.store.decl id).role ≠ .procedure .defined →
    a.store.typeOf id = last.store.typeOf id ∨
      a.store.OneKind (a.store.typeOf id) (last.store.typeOf id)

lemma Block.ReadIn.precedes (hc : c.Imported) (h : block.ReadIn low True c a last)
    (hf : a.Focuses True b) : b.Precedes last where
  ready := (h.ready hc).focuses hf
  grows := hf.store.grows h.grows
  plain id hid hv := by
    rw [hf.scopes] at hid
    rw [hf.store.decl id] at hv ⊢
    exact h.regular.plain id hid hv
  has id := by
    rcases hf.store.typeOf id with heq | ⟨hkind, _⟩
    · rw [heq]
      exact (h.before.sound.closed.typeOf id).mono (Nat.le_of_eq (by rw [hf.store.types]))
    · rcases hkind.dynamic with hp | hr
      · obtain ⟨base, hform⟩ := isPointer_iff.1 hp
        exact has_of_form? ((hf.store.form? _).trans hform)
      · obtain ⟨r, hform⟩ := isRecord_iff.1 hr
        exact has_of_form? ((hf.store.form? _).trans hform)
  kind id hid hr := by
    rw [hf.store.size] at hid
    rw [hf.store.decl id] at hr
    rw [h.after.store.typeOf_eq hid hr]
    exact (hf.store.typeOf id).imp_right fun hkind => (oneKind_congr hf.store.types).2 hkind.1

namespace Outcome

/-- Where the blocks of a module come from that is compiled against a library. -/
lemma Accepts.wholeBlocks (h : (ofSource features library source).Accepts m)
    (hl : library.Built) : ∃ c : Analysis, c.Imported ∧
    (∃ f, m.block.ReadIn c.store.types.size True c f (ofSource features library source).analysis ∧
     f.procedures = []) ∧ ∀ p ∈ m.preorder, p.Everywhere (ofSource features library source).store
    (Block.OwnedBy c.store.types.size True c (ofSource features library source).analysis) := by
  obtain ⟨b, c, hb, hi, hopened, hblocks⟩ := h.blocks
  have hwhole : c.store.Whole :=
    hi.whole (by rw [hb.store]; exact Universe.standard_whole) (by rw [hb.library]; exact hl.whole)
  have hpreserves := hi.preserves
  rw [hb.store] at hpreserves
  exact ⟨c, ⟨hwhole, hopened.forwards, hpreserves.toWidens, hi.signatures.trans hb.signatures⟩,
    hblocks True fun _ => hwhole.concrete⟩

lemma Accepts.block_cases (h : (ofSource features library source).Accepts m)
    (hl : library.Built) : ∃ c : Analysis, c.Imported ∧ ∀ block ∈ m.blocks, block.body = [] ∨ ∃ a,
    block.ReadIn c.store.types.size True c a (ofSource features library source).analysis := by
  obtain ⟨c, hc, ⟨f, hf, _⟩, htrees⟩ := h.wholeBlocks hl
  refine ⟨c, hc, fun block hb => ?_⟩
  rcases List.mem_cons.1 hb with rfl | hb
  · exact .inr ⟨f, hf⟩
  · obtain ⟨p, hp, rfl⟩ := List.mem_map.1 hb
    rcases (htrees p hp).block with hempty | ⟨f, hf, _⟩
    · exact .inl (by rw [hempty]; rfl)
    · exact .inr ⟨f, hf⟩

end Outcome

end Oberon
