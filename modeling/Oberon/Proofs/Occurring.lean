import Oberon.Proofs.Walking

/-!
# Oberon.Proofs.Occurring

The expressions that occur in the body of a block, at any depth. Each comes from an expression that
was formed in a state in which the body was read. Where one is not resolved, a proper procedure is
called for a value next to it: nothing else leaves an expression without a type.
-/

namespace Oberon

open List hiding span

open Analyze

variable {e x : Expr}

/-! ## Operands -/

/-- The expressions that an expression is made of. -/
def Expr.operands : Expr → List Expr
  | .literal _ _ => []
  | .designator _ _ selectors _ => selectors.flatMap Selector.operands
  | .unary _ x _ => [x]
  | .binary _ x y _ => [x, y]
  | .range x y _ => [x, y]
  | .set xs _ => xs

/-- All expressions in an expression but itself. -/
def Expr.inner (e : Expr) : List Expr := Expr.partsOf e.operands

lemma Selector.parts_eq (s : Selector) : s.parts = Expr.partsOf s.operands := by
  cases s <;> simp [Selector.parts, Selector.operands, Expr.partsOf]

lemma Selector.partsOf_eq (ss) : Selector.partsOf ss =
    Expr.partsOf (ss.flatMap Selector.operands) := by
  induction ss with
  | nil => rfl
  | cons s rest ih =>
    rw [Selector.partsOf, ih, flatMap_cons, Expr.partsOf_append, Selector.parts_eq]

namespace Expr

lemma parts_eq (e : Expr) : e.parts = e :: e.inner := by
  cases e <;> simp [parts, inner, operands, partsOf, Selector.partsOf_eq]

lemma operands_withNote (e : Expr) (note) : (e.withNote note).operands = e.operands := by
  cases e <;> rfl

lemma Adapts.operands (h : x.Adapts e) : e.operands = x.operands := by
  cases h with
  | refl => rfl
  | cast => exact operands_withNote _ _
  | literal => rfl

lemma mem_inner : q ∈ e.inner ↔ ∃ x ∈ e.operands, q ∈ x.parts := mem_partsOf

lemma length_parts_lt (hx : x ∈ e.operands) : x.parts.length < e.parts.length := by
  have hsub : x.parts.Sublist e.inner := by
    rw [inner, partsOf_eq_flatMap, flatMap_def]
    exact sublist_flatten_of_mem (mem_map_of_mem hx)
  rw [parts_eq e, length_cons]
  exact Nat.lt_succ_of_le hsub.length_le

/-- What occurs in a part of an expression occurs in the expression. -/
lemma parts_subset (e : Expr) (hq : q ∈ e.parts) : q.parts ⊆ e.parts := by
  have hparts := hq
  rw [parts_eq, mem_cons] at hparts
  rcases hparts with rfl | hinner
  · exact List.Subset.refl _
  · obtain ⟨x, hx, hqx⟩ := mem_inner.1 hinner
    intro r hr
    rw [parts_eq]
    exact mem_cons_of_mem _ (mem_inner.2 ⟨x, hx, parts_subset x hqx hr⟩)
termination_by e.parts.length
decreasing_by exact length_parts_lt hx

end Expr

/-! ## Calls of proper procedures -/

/-- The field that a selector leads to. -/
def Selector.field? : Selector → Option DeclId
  | .field _ decl _ => decl
  | _ => none

/-- Is a field selected that was found? -/
def Selector.isLinked : Selector → Bool
  | .field _ decl _ => decl.isSome
  | _ => true

/-- Does a chain that is applied to `context` of type `base` end in a call of a proper procedure? -/
def Store.callsProper (s : Store) (context : DeclId) (base : Ty) : List Selector → Bool
  | [] => false
  | [.call _ _] => (s.signature? base).any (isProper s context)
  | selector :: rest =>
    s.callsProper (selector.field?.getD context) selector.mark.type rest

/-- Is this the call of a procedure that has no result? -/
def Store.isProperCall (s : Store) : Expr → Bool
  | .designator _ (some id) selectors _ => s.callsProper id (s.typeOf id) selectors
  | _ => false

/-- Do the designator and its selectors refer to declarations? -/
def Expr.isLinked : Expr → Bool
  | .designator _ decl selectors _ => decl.isSome && selectors.all Selector.isLinked
  | _ => true

/-- Is there a type, and is everything found that is named? -/
def Expr.isResolved (e : Expr) : Bool := e.type != .undefined && e.isLinked

namespace Expr.Adapts

lemma isProperCall (h : x.Adapts e) (s : Store) : s.isProperCall e = s.isProperCall x := by
  cases h with
  | refl => rfl
  | cast =>
    cases x with
    | designator ident decl selectors note => cases decl <;> rfl
    | _ => rfl
  | literal => rfl

lemma isLinked (h : x.Adapts e) : e.isLinked = x.isLinked := by
  cases h with
  | refl => rfl
  | cast => cases x <;> rfl
  | literal => rfl

/-- A value that is adapted does not lose its type. -/
lemma type_eq_undefined (h : x.Adapts e) (he : e.type = .undefined) : x.type = .undefined := by
  cases h with
  | refl => exact he
  | cast =>
    rw [← he]
    cases x <;> rfl
  | literal ht _ =>
    rcases ht with ht | ⟨b, ht⟩
    · exact ht.symm.trans he
    · cases ht.symm.trans he

lemma isResolved_eq_false (h : x.Adapts e) (he : e.isResolved = false) : x.isResolved =
    false := by
  simp only [Expr.isResolved, Bool.and_eq_false_iff, bne_eq_false_iff_eq] at he ⊢
  exact he.imp h.type_eq_undefined fun hl => h.isLinked.symm.trans hl

end Expr.Adapts

namespace Analyze

variable {a : Analysis} {type : Ty}
 

lemma callsProper_cons (s : Store) (context base) {selector : Selector}
    (h : selector.isCall = false ∨ rest ≠ []) : s.callsProper context base (selector :: rest) =
    s.callsProper (selector.field?.getD context) selector.mark.type rest := by
  cases rest with
  | nil =>
    cases selector with
    | call => exact absurd h (by simp [Selector.isCall])
    | _ => rfl
  | cons next rest => cases selector <;> rfl

lemma isProper_of_grows (hg : a.store.Grows s) (hc : context.In a.store) (formal) :
    isProper s context formal = isProper a.store context formal := by
  simp only [isProper, Declaration.builtin?, hg.role hc]

lemma findFieldWithin_member (ha : a.Ready) {id : DeclId} (fuel) : ∀ t,
    a.store.findFieldWithin name fuel t = some id → id.In a.store ∧ (a.store.decl id).isMember := by
  induction fuel with
  | zero =>
    intro t h
    cases h
  | succ fuel ih =>
    intro t h
    rw [Store.findFieldWithin] at h
    split at h
    · cases h
    · next r hr =>
      split at h
      · next f hf =>
        cases h
        exact ha.members t _ (Store.record?_eq_some.1 hr) id (mem_of_find?_eq_some hf)
      · obtain ⟨base, _, h⟩ := Option.bind_eq_some_iff.1 h
        exact ih base h

/-- An operand of the chain has no type. -/
def Loses (P : Expr → Prop) (out : List Selector) : Prop :=
  ∃ e ∈ out.flatMap Selector.operands, ∃ x, P x ∧ x.type = .undefined ∧ x.Adapts e

lemma lost_cons (h : Loses P out) : Loses P (selector :: out) := by
  obtain ⟨e, he, h⟩ := h
  exact ⟨e, by rw [flatMap_cons]; exact mem_append_right _ he, h⟩

lemma lost_of_args (hargs : ∀ e ∈ args, P e) (hm : Matches s signature args args')
    (hu : ∃ e ∈ args, e.type = .undefined) : Loses P (.call args' mark :: out) := by
  obtain ⟨x, hx, hxu⟩ := hu
  obtain ⟨e, he, hadapts⟩ := exists_of_forall₂_left hm.passes.adapts hx
  exact ⟨e, mem_append_left _ he, x, hargs x hx, hxu, hadapts⟩

section

variable (ha : a.Ready) (hg : a.store.Grows s)
include ha hg

/-- A call of a proper procedure has no type, and what else has none comes behind an operand without a
type. -/
lemma Walks.untyped (h : Walks a P context base out type) (hc : context.In a.store)
    (hb : ∀ sig, a.store.signature? base = some sig → s.signature? base' = some sig) :
    (s.callsProper context base' out → type = .undefined) ∧
    (base ≠ .undefined → type = .undefined → s.callsProper context base' out ∨ Loses P out) := by
  have hlater (t sig) (hs : a.store.signature? t = some sig) :
      s.signature? t = some sig := hg.signature? hs
  induction h generalizing base' with
  | nil => exact ⟨fun hp => (by cases hp), fun hbase hu => absurd hu hbase⟩
  | index _ _ ht _ ih | deref _ ht _ ih =>
    rw [callsProper_cons _ _ _ (.inl rfl)]
    have ih := ih hc (hlater _)
    exact ⟨ih.1, fun _ hu => (ih.2 (ht.ne_pseudo _) hu).imp_right lost_cons⟩
  | field hf _ ht _ ih =>
    rw [callsProper_cons _ _ _ (.inl rfl)]
    have ih := ih (findFieldWithin_member ha _ _ hf).1 (hlater _)
    exact ⟨ih.1, fun _ hu => (ih.2 (ht.ne_pseudo _) hu).imp_right lost_cons⟩
  | guard hm ht _ _ ih =>
    subst hm
    rw [callsProper_cons _ _ _ (.inl rfl)]
    have ih := ih hc (hlater _)
    exact ⟨ih.1, fun _ hu => (ih.2 (ht.ne_pseudo _) hu).imp_right lost_cons⟩
  | @call context base type formal signature args args' mark rest hf _ _ _ hproper ht hw ih =>
    cases rest with
    | nil =>
      cases hw
      refine ⟨fun hp => ?_, fun _ hu => absurd hu (ht.ne_pseudo _)⟩
      rw [Store.callsProper, hb formal hf, Option.any_some, isProper_of_grows hg hc, hproper] at hp
      cases hp
    | cons selector rest =>
      rw [callsProper_cons _ _ _ (.inr (by simp))]
      have ih := ih hc (hlater _)
      exact ⟨ih.1, fun _ hu => (ih.2 (ht.ne_pseudo _) hu).imp_right lost_cons⟩
  | @proper context base formal signature args args' mark hf _ _ _ hproper _ =>
    refine ⟨fun _ => rfl, fun _ _ => .inl ?_⟩
    rw [Store.callsProper, hb formal hf, Option.any_some, isProper_of_grows hg hc, hproper]
  | lost _ _ hargs hm _ hun _ _ => exact ⟨fun _ => rfl, fun _ _ => .inr (lost_of_args hargs hm hun)⟩

end

/-- A field that was not found stands behind a call that leads nowhere for want of an operand. -/
lemma Walks.lost_of_unlinked (h : Walks a P context base out type)
    (hu : out.all Selector.isLinked = false) : Loses P out := by
  induction h with
  | nil => cases hu
  | index _ _ _ _ ih | deref _ _ _ ih | field _ _ _ _ ih | guard _ _ _ _ ih
  | call _ _ _ _ _ _ _ ih => exact lost_cons (ih hu)
  | proper => cases hu
  | lost _ _ hargs hm _ hun _ _ => exact lost_of_args hargs hm hun

/-- Every operand of a resolved chain comes from one that was read. -/
lemma Walks.operands (h : Walks a P context base out type) : ∀ e ∈ out.flatMap Selector.operands,
    ∃ x, P x ∧ x.Adapts e := by
  have hargs {s signature args args'}
      (hm : Matches s signature args args') (hP : ∀ x ∈ args, P x) :
      ∀ e ∈ args', ∃ x, P x ∧ x.Adapts e := by
    intro e he
    obtain ⟨x, hx, hadapts⟩ := exists_of_forall₂ hm.passes.adapts he
    exact ⟨x, hP x hx, hadapts⟩
  induction h with
  | nil => simp
  | index _ hx _ _ ih => exact forall_mem_append.2 ⟨fun e he => ⟨e, hx e he, .refl e⟩, ih⟩
  | deref _ _ _ ih | field _ _ _ _ ih | guard _ _ _ _ ih => exact ih
  | call _ _ ha hm _ _ _ ih => exact forall_mem_append.2 ⟨hargs hm ha, ih⟩
  | proper _ _ ha hm _ _ => exact forall_mem_append.2 ⟨hargs hm ha, by simp⟩
  | lost _ _ ha hm _ _ _ hr =>
    refine forall_mem_append.2 ⟨hargs hm ha, fun e he => ?_⟩
    obtain ⟨r, hr', he⟩ := mem_flatMap.1 he
    exact ⟨e, (hr r hr').operands e he, .refl e⟩

end Analyze

/-! ## Where expressions come from -/

open Analyze

lemma Elaborates.operand_of_selector (h : Elaborates a (.selector sel)) : ∀ x ∈ sel.operands,
    Elaborates a (.expr x) := by
  cases h with
  | field => simp [Selector.operands]
  | index _ hx => exact hx
  | deref => simp [Selector.operands]
  | call _ hx => exact hx

/-- What is read as a selector leads nowhere yet, and what it applies has been read. -/
lemma Elaborates.raw (h : Elaborates a (.selector sel)) (ha : a.Ready) :
    sel.Raw fun x => Elaborates a (.expr x) :=
  ⟨(h.settled ha : sel.Raw _).mark, (h.settled ha : sel.Raw _).found, h.operand_of_selector⟩

def ExprPhrase.Stems (a : Analysis) : ExprPhrase → Prop
  | .expr e => ∀ q ∈ e.inner, q.Stems a
  | .selector sel => ∀ x ∈ sel.operands, ∀ q ∈ x.parts, q.Stems a

lemma Expr.Adapts.stems (h : x.Adapts e) (hx : Elaborates a (.expr x))
    (ih : ∀ q ∈ x.inner, q.Stems a) : ∀ q ∈ e.parts, q.Stems a := by
  intro q hq
  rw [Expr.parts_eq, mem_cons, Expr.inner, h.operands] at hq
  rcases hq with rfl | hq
  · exact ⟨x, hx, h⟩
  · exact ih q hq

/-- Whatever occurs in an expression that was read comes from one that was read itself. -/
lemma Elaborates.stems (h : Elaborates a p) (ha : a.Ready) : p.Stems a := by
  have hinner {e : Expr} (h : ∀ o ∈ e.operands, ∀ q ∈ o.parts, q.Stems a) :
      ∀ q ∈ e.inner, q.Stems a := by
    intro q hq
    obtain ⟨o, ho, hq⟩ := Expr.mem_inner.1 hq
    exact h o ho q hq
  have hself {x : Expr} (hx : Elaborates a (.expr x)) (ih : ∀ q ∈ x.inner, q.Stems a) :
      ∀ q ∈ x.parts, q.Stems a := (Expr.Adapts.refl x).stems hx ih
  have hkept {x e : Expr} (h : x.Adapts e) (ih : ∀ q ∈ x.inner, q.Stems a) :
      ∀ q ∈ e.inner, q.Stems a := by
    rw [Expr.inner, h.operands]
    exact ih
  induction h with
  | literal | constant => exact hinner (by simp [Expr.operands])
  | @designator span ident chain e hc h ih =>
    have hraw : ∀ s ∈ chain, s.Raw fun x => Elaborates a (.expr x) ∧ ∀ q ∈ x.inner, q.Stems a := by
      intro s hs
      have hread := (hc s hs).raw ha
      refine ⟨hread.mark, hread.found, fun x hx => ⟨hread.operands x hx, fun q hq => ?_⟩⟩
      exact ih s hs x hx q (by rw [Expr.parts_eq]; exact mem_cons_of_mem _ hq)
    obtain ⟨id, out, type, rfl, _, ⟨_, rfl, _⟩ | ⟨_, hden⟩⟩ :=
      h.denotes ha (fun x hx => (hx.1.settled ha : x.Settled _)) hraw
    · exact hinner (by simp [Expr.operands])
    · refine hinner fun o ho => ?_
      obtain ⟨x, ⟨hx, ih⟩, hadapts⟩ := hden.walks.operands o ho
      exact hadapts.stems hx ih
  | unary hx h ih =>
    cases h with
    | literal => exact hinner (by simp [Expr.operands])
    | unary => exact hinner (by simpa [Expr.operands] using hself hx ih)
  | binary hx hy h ihx ihy =>
    cases h with
    | undefined | test => exact hinner (by simpa [Expr.operands] using ⟨hself hx ihx, hself hy ihy⟩)
    | literal ht hr =>
      obtain ⟨v, b, hv⟩ := ht.foldedLiteral_eq hr
      rw [hv]
      exact hinner (by simp [Expr.operands])
    | lhs => exact hkept (adapts_convertTo _ _ _) ihx
    | rhs => exact hkept (adapts_convertTo _ _ _) ihy
    | negated =>
      exact hinner (by simpa [Expr.operands] using (adapts_convertTo _ _ _).stems hy ihy)
    | binary =>
      exact hinner (by
        simpa [Expr.operands] using
          ⟨(adapts_convertTo _ _ _).stems hx ihx, (adapts_convertTo _ _ _).stems hy ihy⟩)
  | range hx hy h ihx ihy =>
    cases h with
    | mk _ _ hx' hy' _ =>
      exact hinner (by simpa [Expr.operands] using ⟨hx'.stems hx ihx, hy'.stems hy ihy⟩)
  | set hx h ih =>
    cases h with
    | literal => exact hinner (by simp [Expr.operands])
    | set => exact hinner fun o ho => hself (hx o ho) (ih o ho)
  | field => simp [ExprPhrase.Stems, Selector.operands]
  | index _ hx ih => exact fun x h => hself (hx x h) (ih x h)
  | deref => simp [ExprPhrase.Stems, Selector.operands]
  | call _ hx ih => exact fun x h => hself (hx x h) (ih x h)

lemma Expr.Adapts.designator {note : Note} (h : x.Adapts (.designator ident decl out note)) :
    ∃ note', x = .designator ident decl out note' ∧ note'.type = note.type := by
  generalize he : Expr.designator ident decl out note = e at h
  cases h with
  | refl => exact ⟨note, he.symm, rfl⟩
  | cast =>
    cases x with
    | designator =>
      cases he
      exact ⟨_, rfl, rfl⟩
    | _ => cases he
  | literal => cases he

/-- An expression that was read and is a designator, if with a conversion, denotes a type, or what its
chain of selectors leads to. -/
lemma Elaborates.denotes (h : Elaborates a p) (ha : a.Ready)
    (hp : p = .expr (.designator ident decl out note)) : ∃ id, decl = some id ∧
    a.scopes.lookup ident = some id ∧
    ((a.store.decl id).isType ∧ out = [] ∧ note.type = .typeName ∨ ((a.store.decl id).isVariable ∨
     (a.store.decl id).isParameter ∨ (a.store.decl id).isProcedure) ∧
     Denotes a (fun x => Elaborates a (.expr x)) id out note.type) := by
  induction h generalizing note with
  | literal | constant => cases hp
  | designator hc h =>
    cases hp
    obtain ⟨id, out, type, heq, hid, hden⟩ :=
      h.denotes ha (fun x hx => (hx.settled ha : x.Settled _)) fun sel hs => (hc sel hs).raw ha
    cases heq
    exact ⟨id, rfl, hid, hden⟩
  | unary _ h =>
    cases hp
    cases h
  | @binary _ _ x y _ _ _ h ihx ihy =>
    cases h with
    | literal ht hr =>
      obtain ⟨v, b, hv⟩ := ht.foldedLiteral_eq hr
      rw [hv] at hp
      cases hp
    | @lhs typing =>
      have hx := adapts_convertTo a.store typing.common x
      rw [ExprPhrase.expr.inj hp] at hx
      obtain ⟨note', rfl, htype⟩ := hx.designator
      rw [← htype]
      exact ihx rfl
    | @rhs typing =>
      have hy := adapts_convertTo a.store typing.common y
      rw [ExprPhrase.expr.inj hp] at hy
      obtain ⟨note', rfl, htype⟩ := hy.designator
      rw [← htype]
      exact ihy rfl
    | _ => cases hp
  | range _ _ h | set _ h =>
    cases hp
    cases h
  | field | index | deref | call => cases hp

/-! ## Expressions without a type -/

/-- A proper procedure is called for a value somewhere in the expression. -/
def Expr.Blames (s : Store) (e : Expr) : Prop := ∃ q ∈ e.parts, s.isProperCall q = true

namespace Expr

variable {s : Store}

lemma Blames.of_operand (h : ∃ x ∈ e.operands, x.Blames s) : e.Blames s := by
  obtain ⟨x, hx, q, hq, hp⟩ := h
  refine ⟨q, ?_, hp⟩
  rw [parts_eq]
  exact mem_cons_of_mem _ (mem_inner.2 ⟨x, hx, hq⟩)

lemma Adapts.blames (h : x.Adapts e) (hx : x.Blames s) : e.Blames s := by
  obtain ⟨q, hq, hp⟩ := hx
  rw [parts_eq, mem_cons] at hq
  rcases hq with rfl | hq
  · exact ⟨e, self_mem_parts e, (h.isProperCall s).trans hp⟩
  · refine ⟨q, ?_, hp⟩
    rw [parts_eq, inner, h.operands]
    exact mem_cons_of_mem _ hq

lemma Adapts.type_of_isProperCall (h : x.Adapts e) (hp : s.isProperCall e) : e.type = x.type := by
  cases h with
  | refl => rfl
  | cast => cases x <;> rfl
  | literal => cases hp

lemma isResolved_of_basic (ht : ∃ b, e.type = .basic b) (hl : e.isLinked) : e.isResolved := by
  obtain ⟨b, ht⟩ := ht
  simp [isResolved, ht, hl]

end Expr

lemma Analyze.Loses.blames (h : Loses P out) (hP : ∀ x, P x → x.isResolved = false → x.Blames s) :
    ∃ e ∈ out.flatMap Selector.operands, e.Blames s := by
  obtain ⟨e, he, x, hx, hu, hadapts⟩ := h
  exact ⟨e, he, hadapts.blames (hP x hx (by simp [Expr.isResolved, hu]))⟩

lemma Analyze.Grounds.ne_undefined {id : DeclId} (h : Grounds s id t) : t ≠ .undefined := by
  rintro rfl
  rcases h with h | ⟨h, _⟩
  · exact h.ne_pseudo _ rfl
  · cases h

def ExprPhrase.Accounts (s : Store) : ExprPhrase → Prop
  | .expr e => e.isResolved = false → e.Blames s
  | .selector sel => ∀ x ∈ sel.operands, x.isResolved = false → x.Blames s

section

/-- Where an expression is not resolved, a proper procedure is called for a value. -/
lemma Elaborates.accounts (h : Elaborates a p) (ha : a.Ready) (hg : a.store.Grows s) :
    p.Accounts s := by
  have hliteral {v n} (h : Elaborates a (.expr (.literal v n))) :
      ExprPhrase.Accounts s (.expr (.literal v n)) := by
    have hsimple := ((h.settled ha : Expr.Settled _ _).literal rfl).2
    simp [ExprPhrase.Accounts, Expr.isResolved, Expr.isLinked, hsimple.ne_undefined]
  have hbasic {e : Expr} (ht : ∃ b, e.type = .basic b) (hl : e.isLinked)
      (hu : e.isResolved = false) : e.Blames s := by
    rw [Expr.isResolved_of_basic ht hl] at hu
    cases hu
  induction h with
  | literal span h => exact hliteral (.literal span h)
  | constant span hd hv => exact hliteral (.constant span hd hv)
  | @designator span ident chain e hc h ih =>
    intro hu
    have hraw : ∀ sel ∈ chain, sel.Raw fun x =>
        Elaborates a (.expr x) ∧ (x.isResolved = false → x.Blames s) := fun sel hs =>
      ⟨((hc sel hs).raw ha).mark, ((hc sel hs).raw ha).found,
        fun x hx => ⟨((hc sel hs).raw ha).operands x hx, ih sel hs x hx⟩⟩
    obtain ⟨id, out, type, rfl, hid, ⟨_, rfl, rfl⟩ | ⟨_, hden⟩⟩ :=
      h.denotes ha (fun x hx => (hx.1.settled ha : x.Settled _)) hraw
    · cases hu
    · have hlost (hl : Loses (fun x => Elaborates a (.expr x) ∧
          (x.isResolved = false → x.Blames s)) out) := hl.blames fun _ hx => hx.2
      have hlt := (ha.known id (Scopes.knows_of_lookup hid)).lt
      simp only [Expr.isResolved, Expr.isLinked, Option.isSome_some, Bool.true_and,
        Bool.and_eq_false_iff, bne_eq_false_iff_eq] at hu
      rcases hu with hu | hu
      · rcases (hden.walks.untyped ha hg hlt fun _ => hg.signature?_typeOf).2
          hden.grounds.ne_undefined hu with hproper | hl
        · exact ⟨_, Expr.self_mem_parts _, hproper⟩
        · exact .of_operand (hlost hl)
      · exact .of_operand (hlost (hden.walks.lost_of_unlinked hu))
  | @unary span op x e hx h ih =>
    cases h with
    | literal h => exact hliteral (.unary hx (.literal h))
    | unary h =>
      intro hu
      have hu : (Expr.unary op x { type := x.type, span }).type = .undefined := by
        simpa [Expr.isResolved, Expr.isLinked] using hu
      have hu : x.type = .undefined := hu
      exact .of_operand ⟨x, by simp [Expr.operands], ih (by simp [Expr.isResolved, hu])⟩
  | @binary span op x y e hx hy h ihx ihy =>
    cases h with
    | undefined h =>
      intro _
      rcases h with h | h
      · exact .of_operand ⟨x, by simp [Expr.operands], ihx (by simp [Expr.isResolved, h])⟩
      · exact .of_operand ⟨y, by simp [Expr.operands], ihy (by simp [Expr.isResolved, h])⟩
    | test => exact hbasic ⟨_, rfl⟩ rfl
    | literal ht hr =>
      obtain ⟨v, b, hv⟩ := ht.foldedLiteral_eq hr
      rw [hv]
      exact hbasic ⟨_, rfl⟩ rfl
    | @lhs typing =>
      have hadapts := adapts_convertTo a.store typing.common x
      exact fun hu => hadapts.blames (ihx (hadapts.isResolved_eq_false hu))
    | @rhs typing =>
      have hadapts := adapts_convertTo a.store typing.common y
      exact fun hu => hadapts.blames (ihy (hadapts.isResolved_eq_false hu))
    | negated _ ht | binary _ _ ht => exact hbasic ht.isBasic rfl
  | range hx hy h =>
    cases h with
    | mk hx hy _ _ ht =>
      refine hbasic ?_ rfl
      rcases ht with rfl | rfl
      · exact isBasic_of_isBound hx
      · exact isBasic_of_isBound hy
  | set _ h =>
    cases h with
    | literal | set => exact hbasic ⟨_, rfl⟩ rfl
  | field => simp [ExprPhrase.Accounts, Selector.operands]
  | index _ _ ih => exact ih
  | deref => simp [ExprPhrase.Accounts, Selector.operands]
  | call _ _ ih => exact ih

/-- The call of a proper procedure has no type. -/
lemma Elaborates.type_of_isProperCall (h : Elaborates a (.expr e)) (ha : a.Ready)
    (hg : a.store.Grows s) (hcall : s.isProperCall e) : e.type = .undefined := by
  cases e with
  | designator ident decl out note =>
    obtain ⟨id, rfl, hid, ⟨_, rfl, _⟩ | ⟨_, hden⟩⟩ := h.denotes ha rfl
    · cases hcall
    · have hlt := (ha.known id (Scopes.knows_of_lookup hid)).lt
      exact (hden.walks.untyped ha hg hlt fun _ => hg.signature?_typeOf).1 hcall
  | _ => cases hcall

/-- The calls of proper procedures are what has no type, and what leaves an expression unresolved. -/
structure Expr.Accounted (s : Store) (e : Expr) : Prop where
  type : s.isProperCall e = true → e.type = .undefined
  blames : e.isResolved = false → e.Blames s

lemma Expr.Stems.accounted (h : e.Stems a) (ha : a.Ready) (hg : a.store.Grows s) :
    e.Accounted s := by
  obtain ⟨x, hx, hadapts⟩ := h
  refine ⟨fun hp => ?_, fun hu => ?_⟩
  · rw [hadapts.type_of_isProperCall hp]
    exact hx.type_of_isProperCall ha hg ((hadapts.isProperCall s).symm.trans hp)
  · exact hadapts.blames (hx.accounts ha hg (hadapts.isResolved_eq_false hu))

end

/-! ## What statements call -/

/-- Calls without arguments have no operands. -/
lemma Expr.operands_bare (h : ∀ s ∈ added, ∃ mark, s = .call [] mark) (ident decl out note) :
    (Expr.designator ident decl (out ++ added) note).operands = out.flatMap Selector.operands := by
  have hnone : added.flatMap Selector.operands = [] := by
    rw [flatMap_eq_nil_iff]
    intro s hs
    obtain ⟨mark, rfl⟩ := h s hs
    rfl
  rw [Expr.operands, flatMap_append, hnone, append_nil]

namespace Analyze

/-- What a statement calls, with the call that is added to a bare name. -/
lemma Calls.walks (h : Calls a span ident chain e) (ha : a.Ready)
    (hP : ∀ x, P x → x.Settled a.store) (hc : ∀ s ∈ chain, s.Raw P) : ∃ id out type added note, e =
    .designator ident (some id) (out ++ added) note ∧ a.scopes.lookup ident = some id ∧
    Grounds a.store id (a.store.typeOf id) ∧ Walks a P id (a.store.typeOf id) out type ∧
    ∀ s ∈ added, ∃ mark, s = .call [] mark := by
  have hground {id} (hid : a.scopes.lookup ident = some id)
      (hne : ∀ p, a.store.typeOf id ≠ .pseudo p) : Grounds a.store id (a.store.typeOf id) :=
    grounds_of_ne_pseudo ha.whole.concrete (ha.known id (Scopes.knows_of_lookup hid)) hne
  cases h with
  | @bare id out type _ _ _ _ hid h hs =>
    have hp : a.store.isProcedure type := by simp [Store.isProcedure, hs]
    have hg := hground hid (h.ne_pseudo (.inl hp))
    exact ⟨id, out, type, _, _, rfl, hid, hg, h.walks ha hP hg hc, by simp⟩
  | @call id out type hid h he =>
    have hg := hground hid (h.ne_pseudo (.inr (ne_nil_of_endsInCall he)))
    exact ⟨id, out, type, [], _, by rw [append_nil], hid, hg, h.walks ha hP hg hc, by simp⟩

end Analyze

/-! ## What statements use -/

/-- Whatever occurs in an expression that comes from one that was read comes from such a one. -/
lemma Expr.Stems.parts (h : e.Stems a) (ha : a.Ready) : ∀ q ∈ e.parts, q.Stems a := by
  obtain ⟨x, hx, hadapts⟩ := h
  exact hadapts.stems hx (hx.stems ha)

/-- The uses that the bodies of a module make of expressions. -/
def Module.uses (m : Module) : List (Use × Expr) :=
  m.blocks.flatMap fun block => (Statement.allOf block.body).flatMap Statement.own

namespace Outcome

/-- Where the statements of an accepted module come from. -/
lemma Accepts.formed (h : (ofSource features library source).Accepts m) (hl : library.Built) :
    ∀ block ∈ m.blocks, ∀ s ∈ Statement.allOf block.body, ∃ a : Analysis,
    a.Precedes (ofSource features library source).analysis ∧ Formed True a s ∧ ∀ b,
    a.Focuses True b → b.Precedes (ofSource features library source).analysis := by
  intro block hblock s hs
  obtain ⟨c, hc, hblocks⟩ := h.block_cases hl
  rcases hblocks block hblock with hempty | ⟨a, ha⟩
  · rw [hempty] at hs
    cases hs
  · obtain ⟨b, hf, _, hformed⟩ := ha.formed hc hs
    exact ⟨b, ha.precedes hc hf, hformed, fun d hd => ha.precedes hc (hf.trans hd)⟩

/-- Where the expressions of an accepted module come from. -/
lemma Accepts.arises (h : (ofSource features library source).Accepts m) (hl : library.Built) :
    ∀ use ∈ m.uses, ∃ a : Analysis, a.Precedes (ofSource features library source).analysis ∧
    Use.Arises a use := by
  intro use hu
  obtain ⟨block, hblock, hu⟩ := mem_flatMap.1 hu
  obtain ⟨stmt, hs, hu⟩ := mem_flatMap.1 hu
  obtain ⟨a, _, hformed, hprecedes⟩ := h.formed hl block hblock stmt hs
  obtain ⟨b, hb, harises⟩ := hformed.arises use hu
  exact ⟨b, hprecedes b hb, harises⟩

end Outcome

end Oberon
