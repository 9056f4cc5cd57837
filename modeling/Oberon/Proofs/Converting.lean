import Oberon.Proofs.Records
import Oberon.Proofs.Walking

/-!
# Oberon.Proofs.Converting

Which type a value has where it is assigned or returned. A value that is not of the type that is
wanted gets a conversion to it. A value that is of that type stays as it is, along with the conversion
that it may have got as an operand that was left over when the operator was folded. Such a conversion
is right if it is to a type whose numbers are among those of the target.
-/

namespace Oberon

open Statement (allOf assign)

open Analyze Analysis Store

variable {id : DeclId} {block : Block}

/-! ## Numbers within numbers -/

/-- Place of a numeric type in the order of inclusion. -/
def Ty.rank? : Ty → Option Nat
  | .basic .shortint => some 0
  | .basic .integer => some 1
  | .basic .longint => some 2
  | .basic .real => some 3
  | .basic .longreal => some 4
  | _ => none

/-- The numbers of type `u` can be stored as numbers of type `t`. `BYTE` and the integers are stored as
each other. -/
def Ty.Includes (t u : Ty) : Prop := t = u ∨ (∃ i j, t.rank? = some i ∧ u.rank? = some j ∧ j ≤ i) ∨
    t.isByte = true ∧ u.isInteger = true ∨ t.isNumeric = true ∧ u.isByte = true

namespace Store

variable {s s' : Store}

/-- Numbers are compatible with what includes them. -/
lemma mismatch?_numeric_iff (ht : t.isNumeric) (hu : u.isNumeric) : s.mismatch? t u = none ↔
    t.Includes u := by
  obtain ⟨b, rfl⟩ := Ty.isBasic_of_isNumeric ht
  obtain ⟨c, rfl⟩ := Ty.isBasic_of_isNumeric hu
  cases b <;> first
    | exact absurd ht (by decide)
    | cases c <;> first
      | exact absurd hu (by decide)
      | simp [mismatch?, mismatchWithin, sameName, numericMismatch?, size, sizeWithin, Basic.size,
          Ty.Includes, Ty.rank?, Ty.isNumeric, Ty.isEntire, Ty.isInteger, Ty.isByte, Ty.isReal,
          Ty.isNumericFamily]

lemma mismatch?_undefined_iff : s.mismatch? .undefined t = none ↔ t = .undefined := by
  simp [mismatch?_pseudo_iff, Ty.isNumericFamily]

/-! ## Types of the same name -/

lemma DeclaredAlike.symm (h : s.DeclaredAlike t u) : s.DeclaredAlike u t := by
  obtain ⟨x, y, hx, hy, hname, hmodule⟩ := h
  exact ⟨y, x, hy, hx, hname.symm, hmodule.symm⟩

lemma sameName_iff : s.sameName t u ↔ (∃ b, t = .basic b ∧ u = .basic b ∧ b ≠ .string) ∨
    s.DeclaredAlike t u := by
  unfold sameName
  split
  · next b c =>
    have hnone : ¬ s.DeclaredAlike (.basic b) (.basic c) := by
      rintro ⟨x, _, hx, _⟩
      cases hx
    simp only [Bool.and_eq_true, beq_iff_eq, bne_iff_ne, Ty.basic.injEq, hnone, or_false]
    constructor
    · rintro ⟨rfl, h⟩
      exact ⟨b, rfl, rfl, h⟩
    · rintro ⟨_, rfl, rfl, h⟩
      exact ⟨rfl, h⟩
  · next hbasic =>
    have hnone : ¬ ∃ b, t = .basic b ∧ u = .basic b ∧ b ≠ .string := by
      rintro ⟨b, rfl, rfl, _⟩
      exact hbasic b b rfl rfl
    simp only [hnone, false_or, DeclaredAlike]
    split
    · next x y hx hy => simp [hx, hy]
    · next hn =>
      refine ⟨by simp, ?_⟩
      rintro ⟨x, y, hx, hy, _⟩
      exact absurd hy (hn x y hx)

lemma sameType_iff : s.sameType t u ↔ t = u ∨ s.DeclaredAlike t u := by
  rw [sameType, Bool.or_eq_true, beq_iff_eq, sameName_iff]
  constructor
  · rintro (h | ⟨b, rfl, rfl, _⟩ | h)
    · exact .inl h
    · exact .inl rfl
    · exact .inr h
  · rintro (h | h)
    · exact .inl h
    · exact .inr (.inr h)

lemma sameType_symm (h : s.sameType t u) : s.sameType u t := by
  rw [sameType_iff] at h ⊢
  exact h.imp Eq.symm DeclaredAlike.symm

lemma mismatch?_of_sameType (h : s.sameType t u) : s.mismatch? t u = none :=
  mismatchWithin_of_sameType h _ _

/-- Only composite types can share a name. -/
lemma eq_of_sameType (h : s.sameType t u) (hu : ∀ k, u ≠ .composite k) : t = u := by
  refine (sameType_iff.1 h).resolve_right ?_
  rintro ⟨_, y, _, hy, _⟩
  cases u with
  | composite k => exact hu k rfl
  | _ => cases hy

/-- Concrete types can be converted to. -/
lemma Concrete.isGeneric_eq_false (h : s.Concrete) (ht : t.Concrete) : s.isGeneric t = false := by
  have hpseudo {u : Ty} (hu : u.Concrete) : u.isPseudo = false := by
    cases u with
    | pseudo p => exact hu.elim
    | _ => rfl
  rw [isGeneric, hpseudo ht, Bool.false_or]
  split
  · next base hf => exact hpseudo (h.forms t _ ht hf base rfl)
  · next a hf => exact hpseudo (h.member ht (array?_eq_some.2 hf))
  · rfl

/-- A literal that goes for an array goes for a text. -/
lemma mismatch?_array_simple (hs : s.Concrete) (ht : t.Concrete) (hf : s.array? t = some form)
    (hu : u.Simple) : s.mismatch? t u = none ↔ (u.isString ∨ u.isChar) ∧ form.member = .char ∧
    form.dimensions = 1 := by
  have hform := array?_eq_some.1 hf
  have hany : form.member ≠ .any := (hs.member ht hf).ne_pseudo _
  have hsimple : ∀ k, u ≠ .composite k := by
    rintro k rfl
    rcases hu with hu | ⟨b, hu⟩ <;> cases hu
  have harray : s.array? u = none := by
    rcases hu with rfl | ⟨b, rfl⟩ <;> rfl
  have hsame : s.sameType t u = false := by
    refine Bool.eq_false_iff.2 fun h => ?_
    rw [eq_of_sameType h hsimple, harray] at hf
    cases hf
  cases t with
  | composite k =>
    obtain ⟨hnames, hfamily, hnumeric⟩ := mismatchWithin_composite hsame
    simp only [mismatch?, mismatchWithin, hnames, hfamily, hnumeric, hform, harray]
    by_cases hu : u.isString ∨ u.isChar
    · by_cases hm : form.member = .char
      · by_cases hd : form.dimensions = 1 <;> simp [hu, hm, hd]
      · simp [hu, hm, hany]
    · rw [not_or, Bool.not_eq_true, Bool.not_eq_true] at hu
      simp [hu]
  | _ => cases hform

end Store

/-! ## Values and their targets -/

/-- How a value stands to the type of what it is assigned to. -/
inductive Expr.Suits (s : Store) (t : Ty) (v : Expr) : Prop
  | same (h : s.sameType t v.type = true) (hc : v.note.cast = none)
  | converted (hc : v.note.cast = some t)
  | text {form : ArrayForm} (hf : s.array? t = some form) (hm : form.member = .char)
      (hd : form.dimensions = 1) (hv : v.type.isString = true ∨ v.type.isChar = true)
      (hc : v.note.cast = none)
  /-- The value is of the right type, and there is a conversion from before. -/
  | kept {c : Ty} (ht : v.type = t) (hn : t.isNumeric = true) (hc : v.note.cast = some c)
      (hcn : c.isNumeric = true)

namespace Expr

variable {x v : Expr}

lemma suits_of_sameType (hx : x.Settled s) (h : s.sameType t x.type) : x.Suits s t := by
  cases hc : x.note.cast with
  | none => exact .same h hc
  | some c =>
    obtain ⟨hn, hcn⟩ := hx.cast c hc
    obtain ⟨b, hb⟩ := Ty.isBasic_of_isNumeric hn
    have ht : t = x.type := eq_of_sameType h (by simp [hb])
    exact .kept ht.symm (ht ▸ hn) hc hcn

lemma suits_convert (hs : s.Concrete) (ht : t.Concrete) (hx : x.Settled s) :
    (s.convert x t).Suits s t := by
  unfold convert
  rw [hs.isGeneric_eq_false ht, Bool.false_or]
  split
  · next h => exact suits_of_sameType hx (sameType_symm h)
  · exact .converted (by cases x <;> rfl)

lemma suits_literalToArray {note : Note} (length) (hf : s.array? t = some form)
    (hm : form.member = .char) (hd : form.dimensions = 1)
    (hv : note.type.isString ∨ note.type.isChar) (hc : note.cast = none) :
    (literalToArray value note length).1.Suits s t := by
  unfold literalToArray
  split
  · exact .text hf hm hd (.inl rfl) hc
  · split <;> exact .text hf hm hd hv hc
  · exact .text hf hm hd hv hc

lemma suits_convertLiteral (hs : s.Concrete) (ht : t.Concrete) (hx : x.Settled s)
    (hl : x.isLiteral) (hm : s.mismatch? t x.type = none) : (s.convertLiteral x t).1.Suits s t := by
  cases x with
  | literal value note =>
    obtain ⟨hcast, hsimple⟩ := hx.literal hl
    simp only [Store.convertLiteral, hs.isGeneric_eq_false ht, Bool.false_or]
    split
    · next h =>
      have h : note.type = t := beq_iff_eq.1 h
      exact .same (by simp [sameType, h, Expr.type, Expr.note]) hcast
    · split
      · next form hf =>
        obtain ⟨hv, hmember, hd⟩ := (mismatch?_array_simple hs ht hf hsimple).1 hm
        exact suits_literalToArray _ hf hmember hd hv hcast
      · split
        · exact .same (by simp [sameType, Expr.type, Expr.note]) hcast
        · exact suits_convert hs ht hx
  | _ => cases hl

lemma suits_converted (hs : s.Concrete) (ht : t.Concrete) (hx : x.Settled s)
    (hm : s.mismatch? t x.type = none) : (s.converted x t).Suits s t := by
  unfold Store.converted
  split
  · next hl => exact suits_convertLiteral hs ht hx hl hm
  · exact suits_convert hs ht hx

/-- A value is compatible with its target unless it has a conversion to something else. -/
lemma Suits.mismatch?_iff (h : v.Suits s t) (hs : s.Concrete) (ht : t.Concrete) :
    s.mismatch? t v.effectiveType = none ↔ ∀ c ∈ v.note.cast, t.Includes c := by
  have heff : v.effectiveType = v.note.cast.getD v.type := rfl
  cases h with
  | same h hc =>
    rw [heff, hc]
    simpa using mismatch?_of_sameType h
  | converted hc =>
    rw [heff, hc]
    have hself := mismatch?_of_sameType (s := s) (t := t) (u := t) (by simp [sameType])
    have hrefl : t.Includes t := .inl rfl
    simp [hself, hrefl]
  | text hf hm hd hv hc =>
    rw [heff, hc]
    have hsimple : v.type.Simple := by
      rcases hv with hv | hv <;> exact .inr ⟨_, beq_iff_eq.1 hv⟩
    simpa using (mismatch?_array_simple hs ht hf hsimple).2 ⟨hv, hm, hd⟩
  | kept htype hn hc hcn =>
    rw [heff, hc]
    simpa using mismatch?_numeric_iff hn hcn

end Expr

namespace Analyze

lemma Assigns.suits (h : Assigns s t x v) (hs : s.Concrete) (ht : t.Concrete) (hx : x.Settled s)
    (hv : v.type ≠ .undefined) : v.Suits s t := by
  cases h with
  | undefined h => exact absurd h (not_or.2 ⟨ht.ne_pseudo _, hv⟩)
  | same _ h => exact Expr.suits_of_sameType hx (by simp [sameType, h])
  | converted hm _ => exact Expr.suits_converted hs ht hx hm

lemma Returns.suits (h : Returns s t x v) (hs : s.Concrete) (ht : t.Concrete) (hx : x.Settled s)
    (hv : v.type ≠ .undefined) : v.Suits s t := by
  cases h with
  | undefined h => exact absurd h hv
  | converted hm _ => exact Expr.suits_converted hs ht hx hm

end Analyze

/-! ## The store in the end -/

namespace Store

variable {s s' : Store}

lemma naming?_addType (f) (h : s.naming? t = some id) : (s.addType f).2.naming? t = some id := by
  cases t with
  | composite k =>
    simp only [naming?, entry?] at h ⊢
    obtain ⟨entry, hentry, hid⟩ := Option.bind_eq_some_iff.1 h
    have hlt := (Array.getElem?_eq_some_iff.1 hentry).1
    rw [addType, Array.getElem?_push, if_neg (Nat.ne_of_lt hlt), hentry]
    exact hid
  | _ => cases h

lemma naming?_setNaming (h : s.naming? t = some id) (hu : s.naming? u = none) :
    (s.setNaming u new).naming? t = some id := by
  cases u with
  | composite i =>
    cases t with
    | composite j =>
      have hne : i ≠ j := by
        rintro rfl
        rw [hu] at h
        cases h
      simpa [naming?, entry?, setNaming, modifyType, Array.getElem?_modify, hne] using h
    | _ => cases h
  | _ => exact h

/-- A type that has a name keeps it. -/
lemma Builds.naming? {module : String} {strict : Prop} (h : s.Builds module low strict s')
    (hid : s.naming? t = some id) : s'.naming? t = some id := by
  induction h with
  | refl => exact hid
  | addDecl _ _ ih => rwa [naming?_eq_of_types rfl]
  | setBase _ _ _ _ _ ih => rwa [naming?_setForm]
  | setNaming _ _ _ _ hn ih => exact naming?_setNaming ih hn
  | sign _ _ _ _ _ ih => exact naming?_addType _ ih
  | _ => exact naming?_addType _ ‹_›

lemma DeclaredAlike.of_decl (h : s.DeclaredAlike t u)
    (hn : ∀ t id, s.naming? t = some id → s'.naming? t = some id)
    (hd : ∀ t id, s.naming? t = some id → s'.decl id = { s.decl id with type := s'.typeOf id }) :
    s'.DeclaredAlike t u := by
  obtain ⟨x, y, hx, hy, hname, hmodule⟩ := h
  refine ⟨x, y, hn t x hx, hn u y hy, ?_, ?_⟩
  · rw [hd t x hx, hd u y hy]
    exact hname
  · rw [hd t x hx, hd u y hy]
    exact hmodule

end Store

/-- What a body was read in still holds in the end. -/
lemma Block.ReadIn.suits (h : block.ReadIn low True c a last) (hf : a.Focuses True b) {v : Expr}
    (hv : v.Suits b.store t) : v.Suits last.store t := by
  have hclosed := h.before.sound.closed
  cases hv with
  | same hsame hc =>
    refine .same (sameType_iff.2 ?_) hc
    refine (sameType_iff.1 hsame).imp id fun halike => ?_
    have hnames (t id) (hid : b.store.naming? t = some id) :
        a.store.naming? t = some id := by rwa [naming?_eq_of_types hf.store.types] at hid
    refine halike.of_decl (fun t id hid => h.after.store.naming? (hnames t id hid)) fun t id hid => ?_
    rw [h.after.store.decl (hclosed.named t id (hnames t id hid)).1, hf.store.decl id]
  | converted hc => exact .converted hc
  | @text form harray hm hd hv hc =>
    have hform := array?_eq_some.1 harray
    rw [hf.store.form?] at hform
    exact .text (array?_eq_some.2 (h.after.store.form_eq hform (.inr (by simp)))) hm hd hv hc
  | kept ht hn hc hcn => exact .kept ht hn hc hcn

/-- The target of an assignment has a concrete type, or none if it is a call of a proper procedure. -/
lemma Analyze.target_type (hb : b.Ready) (hc : ∀ s ∈ chain, ReadsExpr b (.selector s))
    (ht : Designates b tspan ident chain target) (hw : b.store.unwritable? target = none) :
    target.type.Concrete ∨ target.type = .undefined := by
  have hraw (s) (hs : s ∈ chain) : s.Raw fun x => x.Settled b.store :=
    (hc s hs).elaborates.settled hb
  obtain ⟨id, out, type, rfl, _, ⟨hrole, rfl, rfl⟩ | ⟨_, hden⟩⟩ := ht.denotes hb (fun _ h => h) hraw
  · unfold Declaration.isType at hrole
    split at hrole
    · next hrole' => simp [unwritable?, hrole'] at hw
    · cases hrole
  · by_cases hout : out = []
    · exact .inl (hden.bare hout)
    · exact hden.walks.type hout

lemma Analyze.Assigns.eq_of_undefined (h : Assigns s t x v) (ht : t = .undefined) : v = x := by
  cases h with
  | undefined _ => rfl
  | same hne _ => exact absurd ht hne
  | converted hm hx =>
    rw [ht, mismatch?_undefined_iff] at hm
    exact absurd hm hx

lemma Block.ReadIn.assignment_fits (hc : c.Imported) (hlast : last.store.Concrete)
    (h : block.ReadIn low True c a last) (hs : assign target value span ∈ allOf block.body)
    (hv : value.type ≠ .undefined) : last.store.mismatch? target.type value.effectiveType = none ↔
    target.type ≠ .undefined ∧ ∀ c ∈ value.note.cast, target.type.Includes c := by
  obtain ⟨b, hf, hb, hformed⟩ := h.formed hc hs
  cases hformed with
  | @assign _ x _ _ tspan ident chain hchain ht hx hw hassign =>
    have hx : x.Settled b.store := hx.elaborates.settled hb
    rcases target_type hb hchain ht hw with htype | htype
    · have hsuits := h.suits hf (hassign.suits hb.whole.concrete htype hx hv)
      have hiff := hsuits.mismatch?_iff hlast htype
      exact ⟨fun hm => ⟨htype.ne_pseudo _, hiff.1 hm⟩, fun h => hiff.2 h.2⟩
    · have heq := hassign.eq_of_undefined htype
      subst heq
      rw [htype, mismatch?_undefined_iff, hx.effectiveType_eq_pseudo]
      exact ⟨fun h => absurd h hv, fun h => absurd rfl h.1⟩

/-- The type of a procedure is not narrowed. -/
lemma Analysis.Focuses.resultType {strict : Prop} (h : a.Focuses strict b)
    (ht : resultType b = some t) : resultType a = some t := by
  unfold Analyze.resultType at ht ⊢
  rw [h.procedures] at ht
  obtain ⟨id, hid, ht⟩ := Option.bind_eq_some_iff.1 ht
  obtain ⟨sig, hsig, hresult⟩ := Option.bind_eq_some_iff.1 ht
  have hform := signature?_eq_some.1 hsig
  rw [h.store.form?] at hform
  have hsame : b.store.typeOf id = a.store.typeOf id := by
    refine h.store.typeOf_eq fun hd => ?_
    have hp := hd.isProcedure_eq_false
    simp [isProcedure, signature?_eq_some.2 hform] at hp
  rw [hsame] at hform
  rw [hid, Option.bind_some, signature?_eq_some.2 hform, Option.bind_some, hresult]

lemma Store.Concrete.result {s : Store} (h : s.Concrete) (hlt : id.In s)
    (hr : (s.decl id).role = .procedure .defined) (hs : s.signature? (s.typeOf id) = some sig)
    (ht : sig.result = some t) : t.Concrete := by
  have hd := h.decls id hlt
  simp only [Declaration.Concrete, hr] at hd
  have hne : s.typeOf id ≠ .undefined := by
    intro hu
    rw [hu] at hs
    cases hs
  exact (h.forms _ _ (hd.resolve_left hne) (signature?_eq_some.1 hs)).1 t ht

lemma Block.ReadIn.result_fits (hc : c.Imported) (hlast : last.store.Concrete)
    (h : block.ReadIn low True c a last)
    (hs : Statement.return (some value) span ∈ allOf block.body) : ∃ t, resultType a = some t ∧
    (t.Concrete → value.type ≠ .undefined → (last.store.mismatch? t value.effectiveType = none ↔
     ∀ c ∈ value.note.cast, t.Includes c)) := by
  obtain ⟨b, hf, hb, hformed⟩ := h.formed hc hs
  cases hformed with
  | @result x _ t _ hx ht hreturn =>
    have hx : x.Settled b.store := hx.elaborates.settled hb
    refine ⟨t, hf.resultType ht, fun htype hv => ?_⟩
    exact (h.suits hf (hreturn.suits hb.whole.concrete htype hx hv)).mismatch?_iff hlast htype

/-- Is there an assignment in the body that passes the test? -/
def Module.assigns (m : Module) (test : Expr → Expr → Bool) : Bool :=
  (allOf m.block.body).any fun s =>
    match s with
    | .assign target value _ => test target value
    | _ => false

lemma Module.exists_of_assigns (m : Module) (h : m.assigns test) : ∃ target value span,
    assign target value span ∈ allOf m.block.body ∧ test target value := by
  obtain ⟨s, hs, h⟩ := List.any_eq_true.1 h
  cases s with
  | assign target value span => exact ⟨target, value, span, hs, h⟩
  | _ => cases h

namespace Outcome

variable {features : Features} {library : Library}

/-- A value that is assigned or returned has an effective type that is compatible with what is wanted
exactly if the target has a type and the conversion noted on the value, if there is one, is to a type
that the wanted one includes. Nothing is returned from the body of the module. -/
theorem conversions_fit_iff (h : (ofSource features library source).Accepts m)
    (hl : library.Built) :
    (∀ block ∈ m.blocks, ∀ target value span, assign target value span ∈ allOf block.body →
     value.type ≠ .undefined → ((ofSource features library source).store.mismatch? target.type
     value.effectiveType = none ↔ target.type ≠ .undefined ∧ ∀ c ∈ value.note.cast,
     target.type.Includes c)) ∧
    (∀ p ∈ m.preorder, ∀ value span, Statement.return (some value) span ∈ allOf p.block.body →
     value.type ≠ .undefined → ∃ sig t, (ofSource features library source).store.signature?
     ((ofSource features library source).store.typeOf p.decl) = some sig ∧ sig.result = some t ∧
     ((ofSource features library source).store.mismatch? t value.effectiveType = none ↔
     ∀ c ∈ value.note.cast, t.Includes c)) ∧ ∀ value span,
    Statement.return (some value) span ∉ allOf m.block.body := by
  obtain ⟨c, hc, ⟨f, hf, hprocedures⟩, htrees⟩ := h.wholeBlocks hl
  have hwhole := h.whole hl.whole
  refine ⟨fun block hblock target value span hs hv => ?_, fun p hp value span hs hv => ?_,
    fun value span hs => ?_⟩
  · obtain ⟨c, hc, hblocks⟩ := h.block_cases hl
    rcases hblocks block hblock with hempty | ⟨a, ha⟩
    · rw [hempty] at hs
      cases hs
    · exact ha.assignment_fits hc hwhole.concrete hs hv
  · rcases (htrees p hp).block with hempty | ⟨a, ha, howner, hlt, _, hrole, _⟩
    · rw [hempty] at hs
      cases hs
    obtain ⟨t, ht, hfits⟩ := ha.result_fits hc hwhole.concrete hs
    rw [resultType, howner, Option.bind_some] at ht
    obtain ⟨sig, hsig, hresult⟩ := Option.bind_eq_some_iff.1 ht
    have hsig := ha.grows.signature?_typeOf hsig
    exact ⟨sig, t, hsig, hresult, hfits (hwhole.concrete.result hlt hrole hsig hresult) hv⟩
  · obtain ⟨t, ht, _⟩ := hf.result_fits hc hwhole.concrete hs
    rw [resultType, hprocedures] at ht
    cases ht

/-- A value that is converted as it is assigned and as it is returned, and an operand that is left of a
division by one. -/
def foldedDivision : String :=
  "MODULE M; VAR i: INTEGER; r: REAL; PROCEDURE F(): REAL; BEGIN RETURN i END F; " ++
    "BEGIN r := i; i := i / 1 END M."

lemma foldedDivision_eval : ∀ t ∈ [Ty.real, .integer],
    (ofSource {} {} foldedDivision).acceptsWith (fun _ m => m.assigns fun target value =>
     target.type == t && value.type == .integer && value.note.cast == some .real) := by
  decide +kernel

/-- The operand of a folded division is assigned to an integer with a conversion to a real type. -/
theorem foldedDivision_mismatch : ∃ m, (ofSource {} {} foldedDivision).Accepts m ∧
    ∃ target value span, assign target value span ∈ allOf m.block.body ∧ value.type ≠ .undefined ∧
    target.type = .integer ∧ value.effectiveType = .real ∧
    (ofSource {} {} foldedDivision).store.mismatch? target.type value.effectiveType ≠ none := by
  obtain ⟨m, haccepts, h⟩ := exists_of_acceptsWith (foldedDivision_eval .integer (by simp))
  obtain ⟨target, value, span, hs, h⟩ := m.exists_of_assigns h
  simp only [Bool.and_eq_true, beq_iff_eq] at h
  obtain ⟨⟨htarget, htype⟩, hcast⟩ := h
  have heff : value.effectiveType = .real := by simp [Expr.effectiveType, hcast]
  refine ⟨m, haccepts, target, value, span, hs, by simp [htype], htarget, heff, ?_⟩
  rw [htarget, heff, ne_eq, mismatch?_numeric_iff rfl rfl]
  simp [Ty.Includes, Ty.rank?, Ty.isByte]

/-- The conversion of a value that is assigned to a real variable fits. -/
theorem conversions_fit_widened : ∃ m, (ofSource {} {} foldedDivision).Accepts m ∧
    ∃ target value span, assign target value span ∈ allOf m.block.body ∧ value.type = .integer ∧
    value.effectiveType = .real ∧
    (ofSource {} {} foldedDivision).store.mismatch? target.type value.effectiveType = none := by
  obtain ⟨m, haccepts, h⟩ := exists_of_acceptsWith (foldedDivision_eval .real (by simp))
  obtain ⟨target, value, span, hs, h⟩ := m.exists_of_assigns h
  simp only [Bool.and_eq_true, beq_iff_eq] at h
  obtain ⟨⟨htarget, htype⟩, hcast⟩ := h
  have hfits := (conversions_fit_iff haccepts .empty).1 m.block List.mem_cons_self target value span hs
    (by simp [htype])
  refine ⟨m, haccepts, target, value, span, hs, htype, by simp [Expr.effectiveType, hcast], hfits.2 ?_⟩
  rw [htarget, hcast]
  exact ⟨by simp, by simp [Ty.Includes]⟩

end Outcome

end Oberon
