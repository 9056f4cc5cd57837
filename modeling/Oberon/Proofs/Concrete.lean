import Oberon.Proofs.Owned
import Oberon.Proofs.Visible

/-!
# Oberon.Proofs.Concrete

Stores in which everything that can be named has a type of its own: a basic one, or a composite one
made of such. The pseudo types and the signatures made of them are left to the predefined procedures.
A literal has a basic type or that of a named constant.
-/

namespace Oberon

open Declaration (isConstant isParameter isType)

/-! ## Literals -/

section

open Analyze

/-- If the expression is a literal, its type is one of those that `P` holds of. -/
def Expr.TypedBy (P : Ty → Prop) (e : Expr) : Prop := e.isLiteral = true → P e.type

namespace Expr.TypedBy

variable {e e' : Expr}

lemma of_not (h : e.isLiteral = false) : e.TypedBy P := fun hl => by rw [h] at hl; cases hl

lemma adapts (h : e.TypedBy P) (hbasic : ∀ b, P (.basic b)) (ha : e.Adapts e') :
    e'.TypedBy P := by
  cases ha with
  | refl => exact h
  | cast => cases e <;> exact h
  | literal ht hc =>
    intro _
    rcases ht with ht | ⟨b, ht⟩
    · exact Eq.subst (motive := P) ht.symm (h rfl)
    · exact Eq.subst (motive := P) ht.symm (hbasic b)

end Expr.TypedBy

lemma Analyze.Designates.typedBy (h : Designates a span ident chain e) : e.TypedBy P := by
  cases h <;> exact .of_not rfl

lemma Grammar.literalOf?_type {lexis : Lexis} {value : Literal} {type : Ty}
    (h : Grammar.literalOf? lexis = some (value, type)) : type = .nil ∨ ∃ b, type = .basic b := by
  unfold Grammar.literalOf? at h
  split at h
  · cases h
    exact .inr (Ty.isBasic_ofInteger _)
  · cases h
    split <;> exact .inr ⟨_, rfl⟩
  · cases h; exact .inr ⟨_, rfl⟩
  · cases h; exact .inr ⟨_, rfl⟩
  · split at h
    · split at h <;> cases h <;> exact .inr ⟨_, rfl⟩
    · cases h; exact .inr ⟨_, rfl⟩
  · cases h; exact .inr ⟨_, rfl⟩
  · cases h; exact .inr ⟨_, rfl⟩
  · cases h; exact .inl rfl
  · cases h

/-- The types of literals are basic ones, that of `NIL` and those of named constants. -/
lemma Elaborates.typedBy {p : ExprPhrase} {P : Ty → Prop} (h : Elaborates a p)
    (hbasic : ∀ b, P (.basic b)) (hnil : P .nil)
    (hconstant : ∀ ident d, a.lookup ident = some d → d.isConstant → P d.type) : ∀ e, p = .expr e →
    e.TypedBy P := by
  induction h with
  | literal span h =>
    rintro _ ⟨⟩ _
    rcases Grammar.literalOf?_type h with rfl | ⟨b, rfl⟩
    · exact hnil
    · exact hbasic b
  | @constant ident d value span hd hv =>
    rintro _ ⟨⟩ _
    refine hconstant ident d hd ?_
    unfold Declaration.constantValue? at hv
    split at hv
    · next hrole => simp [isConstant, hrole]
    · cases hv
  | designator _ h ih =>
    rintro _ ⟨⟩
    exact h.typedBy
  | @unary span op x e _ h ih =>
    rintro _ ⟨⟩
    cases h with
    | literal h =>
      intro _
      obtain ⟨hl, rfl | ⟨b, rfl⟩⟩ := reduceUnary_type h
      · exact ih x rfl hl
      · exact hbasic b
    | unary h => exact .of_not rfl
  | binary _ _ h ihx ihy =>
    rintro _ ⟨⟩
    cases h with
    | literal ht hr =>
      obtain ⟨v, b, hv⟩ := ht.foldedLiteral_eq hr
      rw [hv]
      exact fun _ => hbasic b
    | lhs ht _ _ => exact (ihx _ rfl).adapts hbasic (adapts_convertTo ..)
    | rhs ht _ _ => exact (ihy _ rfl).adapts hbasic (adapts_convertTo ..)
    | _ => exact .of_not rfl
  | range _ _ h ihx ihy =>
    rintro _ ⟨⟩
    cases h
    exact .of_not rfl
  | set _ h ih =>
    rintro _ ⟨⟩
    cases h with
    | literal value => exact fun _ => hbasic _
    | set hx => exact .of_not rfl
  | field name span | index span _ ih | deref span | call span _ ih => exact fun _ h => by cases h

/-- The types of literals are in the store. -/
lemma ReadsExpr.typedBy_has (h : ReadsExpr a (.expr e)) (ha : a.store.Closed) :
    e.TypedBy a.store.Has := by
  refine h.elaborates.typedBy (.basic _) (.pseudo _ _) (fun ident d hd _ => ?_) e rfl
  obtain ⟨id, _, rfl⟩ := Option.map_eq_some_iff.1 hd
  exact ha.typeOf id

/-- The types of literals are not those of procedures. -/
lemma ReadsExpr.typedBy_free (h : ReadsExpr a (.expr e)) (ha : a.store.Unshared low) :
    e.TypedBy (a.store.Free low) := by
  refine h.elaborates.typedBy (a.store.free_basic low) (a.store.free_pseudo low _)
    (fun ident d hd hc => ?_) e rfl
  obtain ⟨id, _, rfl⟩ := Option.map_eq_some_iff.1 hd
  refine ha.free_typeOf fun hr => ?_
  simp [isConstant, hr] at hc

end

/-! ## Concrete types -/

variable {t : Ty} {f : Form} {id : DeclId}

/-- A basic type, or a composite one that is not predefined. -/
def Ty.Concrete : Ty → Prop
  | .basic _ => True
  | .pseudo _ => False
  | .composite k => Universe.standard.store.types.size ≤ k

/-- The types that constants have. -/
def Ty.Simple (t : Ty) : Prop := t = .nil ∨ ∃ b, t = .basic b

lemma Ty.Concrete.ne_pseudo (h : t.Concrete) (p) : t ≠ .pseudo p := by
  rintro rfl
  exact h

lemma Ty.Simple.ne_undefined (h : t.Simple) : t ≠ .undefined := by
  rintro rfl
  rcases h with h | ⟨b, h⟩ <;> cases h

/-- A constant has a simple type, what else is declared in a source a concrete one. A procedure is
declared before its type is known. -/
def Declaration.Concrete (d : Declaration) : Prop :=
  match d.role with
  | .constant _ => d.type.Simple
  | .parameter _ _ => d.module.isSome = true → d.type.Concrete
  | .procedure (.predefined _) => Universe.standard.store.isProcedure d.type = true
  | .procedure _ => d.type = .undefined ∨ d.type.Concrete
  | _ => d.type.Concrete

/-- Declarations that were made in some source. -/
def Store.Sourced (s : Store) (ids : List DeclId) : Prop :=
  ∀ id ∈ ids, id.index < s.decls.size ∧ (s.decl id).module.isSome = true

/-- What the form refers to by itself is concrete, an array has a type for each dimension, and fields
and parameters are no predefined ones. -/
def Form.Concrete (s : Store) : Form → Prop
  | .array a => a.dimensions ≤ a.types.length ∧ 0 < a.types.length ∧ ∀ t ∈ a.types, t.Concrete
  | .record r => (∀ t ∈ r.base, t.Concrete) ∧ s.Sourced r.fields
  | .pointer base => ∀ t ∈ base, t.Concrete
  | .procedure sig => (∀ t ∈ sig.result, t.Concrete) ∧ s.Sourced sig.params

namespace Store

variable {s s' : Store}

/-- Declarations keep their places and their modules. -/
structure Attributes (s s' : Store) : Prop where
  decls_le : s.decls.size ≤ s'.decls.size
  module : ∀ id : DeclId, id.index < s.decls.size → (s'.decl id).module = (s.decl id).module

lemma Attributes.of_decl (hs : s.decls.size ≤ s'.decls.size)
    (hd : ∀ id : DeclId, id.In s →
      s'.decl id = { s.decl id with type := s'.typeOf id }) : s.Attributes s' :=
  ⟨hs, fun id hid => by rw [hd id hid]⟩

lemma Attributes.sourced (h : s.Attributes s') (hs : s.Sourced ids) : s'.Sourced ids := by
  intro id hid
  obtain ⟨hlt, hm⟩ := hs id hid
  exact ⟨Nat.lt_of_lt_of_le hlt h.decls_le, by rw [h.module id hlt]; exact hm⟩

lemma Attributes.form (h : s.Attributes s') (hf : f.Concrete s) : f.Concrete s' := by
  cases f with
  | record r | procedure sig => exact ⟨hf.1, h.sourced hf.2⟩
  | _ => exact hf

lemma attributes_of_decls (h : s'.decls = s.decls) : s.Attributes s' :=
  ⟨Nat.le_of_eq (by rw [h]), fun id _ => by rw [decl_eq_of_decls h]⟩

lemma attributes_addDecl (s : Store) (d) : s.Attributes (s.addDecl d).2 :=
  ⟨by simp, fun id hid => by rw [decl_addDecl_of_lt d hid]⟩

lemma attributes_setType (s : Store) (id t) : s.Attributes (s.setType id t) :=
  .of_decl (by simp [Store.setType]) fun other _ => decl_setType s id other t

structure Concrete (s : Store) : Prop where
  predefined_le : Universe.standard.store.types.size ≤ s.types.size
  predefined : ∀ t sig, Universe.standard.store.signature? t = some sig → s.signature? t = some sig
  decls : ∀ id : DeclId, id.index < s.decls.size → (s.decl id).Concrete
  forms : ∀ t f, t.Concrete → s.form? t = some f → f.Concrete s

namespace Concrete

section

variable (h : s.Concrete)
include h

lemma addDecl {d : Declaration} (hd : d.Concrete) : (s.addDecl d).2.Concrete where
  predefined_le := h.predefined_le
  predefined := h.predefined
  decls id hid := by
    rw [decl_addDecl]
    split
    · exact hd
    · exact h.decls id (by rw [size_addDecl] at hid; omega)
  forms t f ht hf :=
    (attributes_addDecl s d).form (h.forms t f ht (by rwa [form?_eq_of_types rfl] at hf))

lemma addType (hf : f.Concrete s) : (s.addType f).2.Concrete where
  predefined_le := Nat.le_trans h.predefined_le (by simp)
  predefined t sig hs := (grows_addType s f).signature? (h.predefined t sig hs)
  decls := h.decls
  forms t g ht hg := by
    rw [form?_addType] at hg
    split at hg
    · cases hg
      exact (attributes_of_decls rfl).form hf
    · exact (attributes_of_decls rfl).form (h.forms t g ht hg)

lemma setForm (ht : Universe.standard.store.signature? t = none) (hf : f.Concrete s) : (s.setForm t f).Concrete where
  predefined_le := by simpa [Store.setForm] using h.predefined_le
  predefined u sig hs := by
    rw [signature?_eq_some, form?_setForm_of_ne]
    · exact signature?_eq_some.1 (h.predefined u sig hs)
    · rintro rfl
      rw [ht] at hs
      cases hs
  decls id hid := by
    rw [Store.setForm, decl_eq_of_decls (decls_modifyType ..)]
    exact h.decls id (by simpa [Store.setForm] using hid)
  forms u g hu hg := by
    rw [form?_setForm] at hg
    split at hg
    · obtain ⟨_, _, rfl⟩ := Option.map_eq_some_iff.1 hg
      exact (attributes_of_decls (decls_modifyType ..)).form hf
    · exact (attributes_of_decls (decls_modifyType ..)).form (h.forms u g hu hg)

lemma setNaming (t id) : (s.setNaming t id).Concrete where
  predefined_le := by simpa [Store.setNaming] using h.predefined_le
  predefined u sig hs := (grows_setNaming s t id).signature? (h.predefined u sig hs)
  decls other hlt := by
    rw [Store.setNaming, decl_eq_of_decls (decls_modifyType ..)]
    exact h.decls other (by simpa [Store.setNaming] using hlt)
  forms u f hu hf := (attributes_of_decls (decls_modifyType ..)).form
    (h.forms u f hu (by rwa [form?_setNaming] at hf))

lemma setType
    (hd : Declaration.Concrete { s.decl id with type := t }) : (s.setType id t).Concrete where
  predefined_le := h.predefined_le
  predefined := h.predefined
  decls other hlt := by
    rw [Store.setType, decl_modifyDecl]
    split
    · exact hd
    · exact h.decls other (by simpa [Store.setType] using hlt)
  forms u f hu hf :=
    (attributes_setType s id t).form (h.forms u f hu (by rwa [form?_setType] at hf))

/-- Only the forms of predefined procedures are fixed from the start. -/
lemma signature?_eq_none (ht : s.isPointer t) : Universe.standard.store.signature? t = none := by
  obtain ⟨base, hb⟩ := isPointer_iff.1 ht
  by_contra hne
  obtain ⟨sig, hsig⟩ := Option.ne_none_iff_exists'.1 hne
  have hform := signature?_eq_some.1 (h.predefined t sig hsig)
  rw [hb] at hform
  cases hform

/-- New types are concrete. -/
lemma composite (hk : s.types.size ≤ k) : (Ty.composite k).Concrete :=
  Nat.le_trans h.predefined_le hk

/-- The types behind one, two, … indices. -/
lemma addRows {member : Ty} (hm : member.Concrete) (lengths) :
    (s.addRows member lengths).2.Concrete ∧ (s.addRows member lengths).1.length =
    lengths.length + 1 ∧ ∀ t ∈ (s.addRows member lengths).1, t.Concrete := by
  induction lengths with
  | nil => exact ⟨h, rfl, List.forall_mem_singleton.2 hm⟩
  | cons n rest ih =>
    obtain ⟨hs, hlength, htypes⟩ := ih
    have harray : (Form.array ⟨n :: rest, (s.addRows member rest).1⟩).Concrete (s.addRows member rest).2 := by
      refine ⟨?_, ?_, htypes⟩
      · simp [ArrayForm.dimensions, hlength]
      · simp [hlength]
    refine ⟨hs.addType harray, by simp [Store.addRows, hlength], ?_⟩
    exact List.forall_mem_cons.2 ⟨hs.composite (Nat.le_refl _), htypes⟩

lemma array {member : Ty} (hm : member.Concrete) (lengths s') :
    (Form.array ⟨lengths, (s.addRows member lengths.tail).1⟩).Concrete s' := by
  obtain ⟨_, hlength, htypes⟩ := h.addRows hm lengths.tail
  refine ⟨?_, ?_, htypes⟩
  · rw [hlength, List.length_tail]
    simp only [ArrayForm.dimensions]
    omega
  · simp [hlength]

lemma addArray {member : Ty} (hm : member.Concrete) (lengths) :
    (s.addArray lengths member).2.Concrete :=
  (h.addRows hm lengths.tail).1.addType (h.array hm lengths _)

lemma member (ht : t.Concrete) (hf : s.array? t = some form) : form.member.Concrete := by
  obtain ⟨_, hpos, htypes⟩ := h.forms t _ ht (array?_eq_some.1 hf)
  have hne := List.ne_nil_of_length_pos hpos
  rw [ArrayForm.member, List.getLast?_eq_getLast_of_ne_nil hne]
  exact htypes _ (List.getLast_mem hne)

/-- Types, variables and fields. -/
lemma typeOf (hid : id.In s) (hr : (s.decl id).isConstant = false)
    (hp : (s.decl id).isParameter = false) (hf : (s.decl id).isProcedure = false) :
    (s.typeOf id).Concrete := by
  have hd := h.decls id hid
  unfold Declaration.Concrete at hd
  unfold isConstant at hr
  unfold isParameter at hp
  unfold Declaration.isProcedure at hf
  split at hd
  · next h => simp [h] at hr
  · next h => simp [h] at hp
  · next h => simp [h] at hf
  · next h => simp [h] at hf
  · exact hd

lemma typeOf_of_isType (hid : id.In s) (hr : (s.decl id).isType) : (s.typeOf id).Concrete := by
  unfold isType at hr
  split at hr
  · next hrole =>
    exact h.typeOf hid (by simp [isConstant, hrole])
      (by simp [isParameter, hrole]) (by simp [Declaration.isProcedure, hrole])
  · cases hr

end

end Concrete

/-- The declaration is one that a name can denote: the parameters of predefined procedures cannot be
named. -/
structure Nameable (s : Store) (id : DeclId) : Prop where
  lt : id.index < s.decls.size
  module : (s.decl id).isParameter = true → (s.decl id).module.isSome = true

lemma Dynamic.not_simple (h : s.Dynamic t) : ¬ t.Simple := by
  rintro (rfl | ⟨b, rfl⟩) <;> rcases h with h | h <;> cases h

lemma Dynamic.ne_undefined (h : s.Dynamic t) : t ≠ .undefined := by
  rintro rfl
  rcases h with h | h <;> cases h

lemma Dynamic.isProcedure_eq_false (h : s.Dynamic t) : s.isProcedure t = false := by
  rw [Bool.eq_false_iff, ne_eq, isProcedure_iff]
  rintro ⟨sig, hsig⟩
  rcases h with h | h
  · obtain ⟨base, hb⟩ := isPointer_iff.1 h
    rw [hsig] at hb
    cases hb
  · obtain ⟨r, hr⟩ := isRecord_iff.1 h
    rw [hsig] at hr
    cases hr

/-- A type that is a procedure type stays that of its declaration. -/
lemma Grows.signature?_typeOf (h : s.Grows s') (hs : s.signature? (s.typeOf id) = some sig) : s'.signature? (s'.typeOf id) = some sig := by
  have hlt : id.In s := by
    by_contra hlt
    rw [typeOf_of_le (by omega)] at hs
    cases hs
  have hfixed : s.Fixed (s.typeOf id) := by
    have hform := signature?_eq_some.1 hs
    cases hid : s.typeOf id with
    | composite k =>
      rw [hid] at hform
      refine ⟨_, hform, fun hd => ?_⟩
      have hp := hd.isProcedure_eq_false
      simp [isProcedure, signature?_eq_some.2 hform] at hp
    | _ => trivial
  rw [h.fixed id hlt hfixed]
  exact h.signature? hs

lemma Concrete.isProcedure (h : s.Concrete) (ht : Universe.standard.store.isProcedure t) :
    s.isProcedure t := by
  obtain ⟨sig, hsig⟩ := isProcedure_iff.1 ht
  exact isProcedure_iff.2 ⟨sig, signature?_eq_some.1 (h.predefined t sig (signature?_eq_some.2 hsig))⟩

/-- What has a dynamic type and can be named is neither a constant nor predefined. -/
lemma Concrete.typeOf_of_dynamic (h : s.Concrete) (hn : s.Nameable id)
    (hd : s.Dynamic (s.typeOf id)) : (s.typeOf id).Concrete := by
  have hdecl := h.decls id hn.lt
  have hmodule := hn.module
  unfold Declaration.Concrete at hdecl
  unfold isParameter at hmodule
  split at hdecl
  · exact absurd hdecl hd.not_simple
  · next hrole =>
    rw [hrole] at hmodule
    exact hdecl (hmodule rfl)
  · have hp : s.isProcedure (s.typeOf id) := h.isProcedure hdecl
    rw [hd.isProcedure_eq_false] at hp
    cases hp
  · exact hdecl.resolve_left hd.ne_undefined
  · exact hdecl

/-- A variable or parameter whose type can be narrowed gets another type. -/
lemma Concrete.withType (h : s.Concrete) {d : Declaration} (hd : d.Concrete)
    (hdyn : s.Dynamic d.type) (ht : t.Concrete) :
    Declaration.Concrete { d with type := t } := by
  unfold Declaration.Concrete at hd ⊢
  cases hrole : d.role with
  | constant v =>
    rw [hrole] at hd
    exact absurd hd hdyn.not_simple
  | parameter r i => exact fun _ => ht
  | procedure origin =>
    cases origin with
    | predefined b =>
      rw [hrole] at hd
      have hp := h.isProcedure hd
      rw [hdyn.isProcedure_eq_false] at hp
      cases hp
    | _ => exact .inr ht
  | _ => exact ht

lemma Nameable.of_decl (h : s.Nameable id) (hs : s.decls.size ≤ s'.decls.size)
    (hd : s'.decl id = { s.decl id with type := s'.typeOf id }) : s'.Nameable id :=
  ⟨Nat.lt_of_lt_of_le h.lt hs, by rw [hd]; exact h.module⟩

/-- The type can be referred to by any declaration, and if `strict`, it is concrete. -/
structure Offers (s : Store) (low : Nat) (strict : Prop) (t : Ty) : Prop where
  has : s.Has t
  free : s.Free low t
  concrete : strict → t.Concrete

lemma Offers.mono (h : s.Offers low strict t) (hs : s.types.size ≤ s'.types.size)
    (ho : ∀ i, i < s.types.size → s'.Owned low i → s.Owned low i) : s'.Offers low strict t :=
  ⟨h.has.mono hs, h.free.mono h.has ho, h.concrete⟩

/-- A new type. -/
lemma offers_addType (hc : s.Closed) (hs : strict → s.Concrete) (f) :
    (s.addType f).2.Offers low strict (s.addType f).1 :=
  ⟨has_addType _ _, hc.free_new rfl (Nat.le_refl _), fun h => (hs h).composite (Nat.le_refl _)⟩

lemma offers_addArray (hc : s.Closed) (hs : strict → s.Concrete) {member : Ty}
    (hm : strict → member.Concrete) (lengths) :
    (s.addArray lengths member).2.Offers low strict (s.addArray lengths member).1 :=
  ⟨has_addArray _ _ _, hc.free_new (decls_addArray ..) (Widens.addRows s member lengths.tail).types_le,
    fun h => ((hs h).addRows (hm h) lengths.tail).1.composite (Nat.le_refl _)⟩

/-- A declaration that is a constant has a place. -/
lemma lt_of_isConstant (h : (s.decl id).isConstant) : id.In s := by
  by_contra hlt
  rw [decl, Array.getElem?_eq_none (by omega)] at h
  cases h

lemma Concrete.simple (h : s.Concrete) (hc : (s.decl id).isConstant) : (s.typeOf id).Simple := by
  have hd := h.decls id (lt_of_isConstant hc)
  unfold isConstant at hc
  split at hc
  · next hrole =>
    simp only [Declaration.Concrete, hrole] at hd
    exact hd
  · cases hc

end Store

/-- Constants have simple types, hence literals too. -/
lemma ReadsExpr.typedBy_simple (h : ReadsExpr a (.expr e)) (ha : a.store.Concrete) :
    e.TypedBy Ty.Simple := by
  refine h.elaborates.typedBy (fun b => .inr ⟨b, rfl⟩) (.inl rfl) (fun ident d hd hc => ?_) e rfl
  obtain ⟨id, _, rfl⟩ := Option.map_eq_some_iff.1 hd
  exact ha.simple hc

end Oberon
