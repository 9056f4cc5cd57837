import Mathlib.Tactic.Lemma
import Oberon.Store

/-!
# Oberon.Proofs.Growth

How stores change. Types and declarations are added behind the existing ones, and of those only
little is ever set anew: the name of a type, the base of a pointer, and the type of a variable
that a CASE statement narrows. `s.Grows s'` is what is left of `s` in `s'` after any number of
such changes.
-/

namespace Oberon

open Array List Option

variable {id : DeclId} {f : Form}

/-- Place of a composite type. -/
def Ty.place : Ty → Nat
  | .composite i => i
  | _ => 0

/-- The store has a declaration of that number. -/
abbrev DeclId.In (id : DeclId) (s : Store) : Prop := id.index < s.decls.size

namespace Store

variable {s s' : Store}

/-! ## Looking at a changed store -/

@[simp]
lemma size_addDecl (s : Store) (d) :
    (s.addDecl d).2.decls.size = s.decls.size + 1 := size_push ..

lemma decl_addDecl (s : Store) (d id) :
    (s.addDecl d).2.decl id = if id.index = s.decls.size then d else s.decl id := by
  simp only [decl, addDecl, getElem?_push]
  split <;> rfl

lemma decl_addDecl_of_lt (d) (h : id.In s) : (s.addDecl d).2.decl id = s.decl id := by
  rw [decl_addDecl, if_neg (Nat.ne_of_lt h)]

@[simp]
lemma decl_addDecl_self (s : Store) (d) : (s.addDecl d).2.decl ⟨s.decls.size⟩ = d := by
  rw [decl_addDecl, if_pos rfl]

@[simp]
lemma types_modifyDecl (s : Store) (id f) :
    (s.modifyDecl id f).types = s.types := rfl

@[simp]
lemma size_modifyDecl (s : Store) (id f) :
    (s.modifyDecl id f).decls.size = s.decls.size := size_modify ..

lemma decl_modifyDecl (s : Store) (id other f) :
    (s.modifyDecl id f).decl other =
      if id = other ∧ id.In s then f (s.decl id) else s.decl other := by
  simp only [decl, modifyDecl, Array.getElem?_modify]
  by_cases hid : id = other
  · subst hid
    by_cases hlt : id.In s
    · simp [hlt]
    · simp [hlt]
  · have hne : id.index ≠ other.index := fun h => hid (by cases id; cases other; cases h; rfl)
    simp [hid, hne]

lemma decl_modifyDecl_self (f) (h : id.In s) : (s.modifyDecl id f).decl id = f (s.decl id) := by
  rw [decl_modifyDecl, if_pos ⟨rfl, h⟩]

lemma decl_modifyDecl_of_ne (f) (h : id ≠ other) : (s.modifyDecl id f).decl other =
    s.decl other := by
  rw [decl_modifyDecl, if_neg fun hc => h hc.1]

lemma types_foldl_modifyDecl (f) (ids : List DeclId) : ∀ s : Store,
    (ids.foldl (fun s id => s.modifyDecl id f) s).types = s.types := by
  induction ids with
  | nil => exact fun _ => rfl
  | cons id rest ih => exact fun s => ih _

lemma size_foldl_modifyDecl (f) (ids : List DeclId) : ∀ s : Store,
    (ids.foldl (fun s id => s.modifyDecl id f) s).decls.size = s.decls.size := by
  induction ids with
  | nil => exact fun _ => rfl
  | cons id rest ih => exact fun s => (ih _).trans (size_modifyDecl ..)

/-- Several declarations are modified alike. -/
lemma decl_foldl_modifyDecl (f) (ids : List DeclId) :
    ∀ s : Store, ids.Nodup → (∀ id ∈ ids, id.In s) → ∀ other,
      (ids.foldl (fun s id => s.modifyDecl id f) s).decl other =
        if other ∈ ids then f (s.decl other) else s.decl other := by
  induction ids with
  | nil => simp
  | cons id rest ih =>
    intro s hn hlt other
    rw [nodup_cons] at hn
    rw [forall_mem_cons] at hlt
    rw [foldl_cons, ih _ hn.2 (by simpa using hlt.2)]
    by_cases hmem : other ∈ rest
    · have hne : id ≠ other := fun h => hn.1 (h ▸ hmem)
      rw [if_pos hmem, if_pos (mem_cons_of_mem _ hmem), decl_modifyDecl_of_ne f hne]
    · rw [if_neg hmem]
      by_cases heq : id = other
      · subst heq
        rw [if_pos mem_cons_self, decl_modifyDecl_self f hlt.1]
      · rw [if_neg (by simp [hmem, Ne.symm heq]), decl_modifyDecl_of_ne f heq]

@[simp]
lemma decls_addType (s : Store) (f) : (s.addType f).2.decls = s.decls := rfl

@[simp]
lemma size_addType (s : Store) (f) : (s.addType f).2.types.size = s.types.size + 1 :=
  size_push ..

lemma form?_addType (s : Store) (f t) :
    (s.addType f).2.form? t = if t = .composite s.types.size then some f else s.form? t := by
  cases t with
  | composite i =>
    simp only [form?, entry?, addType, getElem?_push, Ty.composite.injEq]
    split <;> rfl
  | _ => simp [form?, entry?]

@[simp]
lemma form?_addType_self (s : Store) (f) : (s.addType f).2.form? (.composite s.types.size) =
    some f := by
  rw [form?_addType, if_pos rfl]

@[simp]
lemma decls_modifyType (s : Store) (t f) : (s.modifyType t f).decls = s.decls := by
  cases t <;> rfl

@[simp]
lemma size_modifyType (s : Store) (t f) : (s.modifyType t f).types.size = s.types.size := by
  cases t <;> simp [modifyType]

lemma form?_setForm (s : Store) (t other f) :
    (s.setForm t f).form? other =
      if t = other then (s.form? other).map fun _ => f else s.form? other := by
  cases t with
  | composite i =>
    cases other with
    | composite j =>
      simp only [form?, entry?, setForm, modifyType, Array.getElem?_modify, Ty.composite.injEq]
      split
      · cases s.types[j]? <;> rfl
      · rfl
    | _ => simp [form?, entry?]
  | _ =>
    split
    · next h => subst h; rfl
    · rfl

lemma form?_setForm_of_ne (h : t ≠ other) (f) : (s.setForm t f).form? other = s.form? other := by
  rw [form?_setForm, if_neg h]

@[simp]
lemma form?_setNaming (s : Store) (t other id) : (s.setNaming t id).form? other =
    s.form? other := by
  cases t with
  | composite i =>
    cases other with
    | composite j =>
      simp only [form?, entry?, setNaming, modifyType, Array.getElem?_modify]
      split
      · cases s.types[j]? <;> rfl
      · rfl
    | _ => rfl
  | _ => rfl

/-! ## What forms say -/

lemma form?_eq_of_types (h : s'.types = s.types) (t) : s'.form? t = s.form? t := by
  cases t <;> simp [form?, entry?, h]

lemma decl_eq_of_decls (h : s'.decls = s.decls) (id) : s'.decl id = s.decl id := by
  simp [decl, h]

lemma lt_of_form? (h : s.form? (.composite i) = some f) : i < s.types.size := by
  simp only [form?, entry?, map_eq_some_iff] at h
  obtain ⟨e, he, _⟩ := h
  exact (Array.getElem?_eq_some_iff.1 he).1

lemma place_lt (h : s.form? t = some f) : t.place < s.types.size := by
  cases t with
  | composite i => exact lt_of_form? h
  | _ => cases h

lemma signature?_eq_some : s.signature? t = some sig ↔ s.form? t = some (.procedure sig) := by
  simp only [signature?]
  split
  · next h => simp [h]
  · next h => exact ⟨nofun, fun h' => absurd h' (h sig)⟩

lemma record?_eq_some : s.record? t = some r ↔ s.form? t = some (.record r) := by
  simp only [record?]
  split
  · next h => simp [h]
  · next h => exact ⟨nofun, fun h' => absurd h' (h r)⟩

lemma array?_eq_some : s.array? t = some a ↔ s.form? t = some (.array a) := by
  simp only [array?]
  split
  · next h => simp [h]
  · next h => exact ⟨nofun, fun h' => absurd h' (h a)⟩

lemma pointer?_eq_some : s.pointer? t = some base ↔ s.form? t = some (.pointer base) := by
  simp only [pointer?]
  split
  · next h => simp [h]
  · next h => exact ⟨nofun, fun h' => absurd h' (h base)⟩

lemma isPointer_iff : s.isPointer t ↔ ∃ base, s.form? t = some (.pointer base) := by
  simp only [isPointer, isSome_iff_exists, pointer?_eq_some]

lemma isRecord_iff : s.isRecord t ↔ ∃ r, s.form? t = some (.record r) := by
  simp only [isRecord, isSome_iff_exists, record?_eq_some]

lemma isProcedure_iff : s.isProcedure t ↔ ∃ sig, s.form? t = some (.procedure sig) := by
  simp only [isProcedure, isSome_iff_exists, signature?_eq_some]

/-- Variables of these types can be narrowed. -/
def Dynamic (s : Store) (t : Ty) : Prop := s.isPointer t = true ∨ s.isRecord t = true

/-- Both types are pointers, or both are records. -/
def OneKind (s : Store) (t u : Ty) : Prop :=
  s.isPointer t = true ∧ s.isPointer u = true ∨ s.isRecord t = true ∧ s.isRecord u = true

lemma OneKind.dynamic (h : s.OneKind t u) : s.Dynamic t := h.imp And.left And.left

lemma dynamic_of_forms (hf : ∀ t, s'.form? t = s.form? t) (h : s.Dynamic t) : s'.Dynamic t := by
  simp only [Dynamic, isPointer, isRecord, pointer?, record?, hf]
  exact h

/-- Types that are there and that no variable can be narrowed from. -/
def Fixed (s : Store) : Ty → Prop
  | .composite i => ∃ f, s.form? (.composite i) = some f ∧ ¬ s.Dynamic (.composite i)
  | _ => True

end Store

/-- A pointer may get another base; everything else stays what it is. -/
def Form.Becomes : Form → Form → Prop
  | .pointer _, .pointer _ => True
  | f, f' => f' = f

lemma Form.Becomes.refl (f : Form) : f.Becomes f := by
  cases f <;> trivial

lemma Form.Becomes.trans (h : f.Becomes f') (h' : f'.Becomes f'') : f.Becomes f'' := by
  cases f with
  | pointer base =>
    cases f' with
    | pointer base' => cases f'' <;> trivial
    | _ => cases h
  | _ =>
    cases h
    exact h'

namespace Store

variable {s s' : Store}

structure Grows (s s' : Store) : Prop where
  decls_le : s.decls.size ≤ s'.decls.size
  types_le : s.types.size ≤ s'.types.size
  decl : ∀ id : DeclId, id.index < s.decls.size →
    s'.decl id = { s.decl id with type := s'.typeOf id }
  fixed : ∀ id : DeclId, id.index < s.decls.size → s.Fixed (s.typeOf id) →
    s'.typeOf id = s.typeOf id
  kept : ∀ id : DeclId, id.index < s.decls.size →
    s'.typeOf id = s.typeOf id ∨ s'.Dynamic (s'.typeOf id)
  form : ∀ t f, s.form? t = some f → ∃ f', s'.form? t = some f' ∧ f.Becomes f'

namespace Grows

section

variable (h : s.Grows s')
include h

lemma isPointer (ht : s.isPointer t) : s'.isPointer t := by
  obtain ⟨base, hb⟩ := isPointer_iff.1 ht
  obtain ⟨f', hf', hbec⟩ := h.form t _ hb
  cases f' with
  | pointer base' => exact isPointer_iff.2 ⟨base', hf'⟩
  | _ => cases hbec

/-- All forms but those of pointers stay. -/
lemma form_eq (hf : s.form? t = some f) (hp : s.isPointer t = false) : s'.form? t = some f := by
  obtain ⟨f', hf', hbec⟩ := h.form t f hf
  cases f with
  | pointer base => rw [isPointer_iff.2 ⟨base, hf⟩] at hp; cases hp
  | _ => cases hbec; exact hf'

lemma record? (hr : s.record? t = some r) : s'.record? t = some r := by
  obtain ⟨f', hf', hbec⟩ := h.form t _ (record?_eq_some.1 hr)
  cases hbec
  exact record?_eq_some.2 hf'

lemma signature? (hs : s.signature? t = some sig) : s'.signature? t = some sig := by
  obtain ⟨f', hf', hbec⟩ := h.form t _ (signature?_eq_some.1 hs)
  cases hbec
  exact signature?_eq_some.2 hf'

lemma dynamic_of (ht : s.Dynamic t) : s'.Dynamic t := by
  rcases ht with hp | hr
  · exact .inl (h.isPointer hp)
  · obtain ⟨r, hr⟩ := isSome_iff_exists.1 hr
    exact .inr (isSome_iff_exists.2 ⟨r, h.record? hr⟩)

lemma dynamic (hid : id.In s) (hd : s.Dynamic (s.typeOf id)) : s'.Dynamic (s'.typeOf id) := by
  rcases h.kept id hid with heq | hd'
  · rw [heq]
    exact h.dynamic_of hd
  · exact hd'

lemma fixed_of (ht : s.Fixed t) : s'.Fixed t := by
  cases t with
  | composite i =>
    obtain ⟨f, hf, hd⟩ := ht
    have hp : s.isPointer (.composite i) = false := by
      cases hc : s.isPointer (.composite i) with
      | false => rfl
      | true => exact absurd (.inl hc) hd
    refine ⟨f, h.form_eq hf hp, fun hd' => hd ?_⟩
    have hf' := h.form_eq hf hp
    rcases hd' with hp' | hr'
    · obtain ⟨base, hb⟩ := isPointer_iff.1 hp'
      rw [hf'] at hb
      cases hb
      exact .inl (isPointer_iff.2 ⟨base, hf⟩)
    · obtain ⟨r, hr⟩ := isRecord_iff.1 hr'
      rw [hf'] at hr
      cases hr
      exact .inr (isRecord_iff.2 ⟨r, hf⟩)
  | _ => trivial

lemma role (hid : id.In s) :
    (s'.decl id).role = (s.decl id).role := by rw [h.decl id hid]

lemma name (hid : id.In s) :
    (s'.decl id).name = (s.decl id).name := by rw [h.decl id hid]

lemma level (hid : id.In s) :
    (s'.decl id).level = (s.decl id).level := by rw [h.decl id hid]

lemma lt (hid : id.In s) :
    id.In s' := Nat.lt_of_lt_of_le hid h.decls_le

end

protected lemma refl (s : Store) : s.Grows s where
  decls_le := Nat.le_refl _
  types_le := Nat.le_refl _
  decl _ _ := rfl
  fixed _ _ _ := rfl
  kept _ _ := .inl rfl
  form _ f hf := ⟨f, hf, .refl f⟩

protected lemma trans (h : s.Grows s') (h' : s'.Grows s'') : s.Grows s'' where
  decls_le := Nat.le_trans h.decls_le h'.decls_le
  types_le := Nat.le_trans h.types_le h'.types_le
  decl id hid := by rw [h'.decl id (h.lt hid), h.decl id hid]
  fixed id hid hf := by
    have ht := h.fixed id hid hf
    rw [← ht] at hf
    rw [h'.fixed id (h.lt hid) (h.fixed_of hf), ht]
  kept id hid := by
    rcases h'.kept id (h.lt hid) with heq | hd
    · rw [heq]
      exact (h.kept id hid).imp_right h'.dynamic_of
    · exact .inr hd
  form t f hf := by
    obtain ⟨f', hf', hbec⟩ := h.form t f hf
    obtain ⟨f'', hf'', hbec'⟩ := h'.form t f' hf'
    exact ⟨f'', hf'', hbec.trans hbec'⟩

end Grows

/-! ## The changes -/

lemma grows_addDecl (s : Store) (d) : s.Grows (s.addDecl d).2 := by
  have hform (t) : (s.addDecl d).2.form? t = s.form? t := form?_eq_of_types rfl t
  have hdecl (id : DeclId) (hid : id.In s) :
      (s.addDecl d).2.typeOf id = s.typeOf id := by
    rw [typeOf, decl_addDecl_of_lt d hid, typeOf]
  refine ⟨by simp, Nat.le_refl _, fun id hid => ?_, fun id hid _ => hdecl id hid,
    fun id hid => .inl (hdecl id hid), fun t f hf => ⟨f, (hform t).trans hf, .refl f⟩⟩
  rw [hdecl id hid, decl_addDecl_of_lt d hid]
  rfl

/-- Changes of types alone. -/
lemma grows_of_decls (hd : s'.decls = s.decls) (ht : s.types.size ≤ s'.types.size)
    (hf : ∀ t f, s.form? t = some f → ∃ f', s'.form? t = some f' ∧ f.Becomes f') : s.Grows s' := by
  have hdecl := decl_eq_of_decls hd
  have htype (id) : s'.typeOf id = s.typeOf id := by simp only [typeOf, hdecl]
  refine ⟨by simp [hd], ht, fun id _ => ?_, fun id _ _ => htype id, fun id _ => .inl (htype id), hf⟩
  rw [htype, hdecl]
  rfl

lemma grows_addType (s : Store) (f) : s.Grows (s.addType f).2 := by
  refine grows_of_decls rfl (by simp) fun t g hg => ⟨g, ?_, .refl g⟩
  rw [form?_addType, if_neg, hg]
  rintro rfl
  exact Nat.lt_irrefl _ (lt_of_form? hg)

lemma grows_addRows (s : Store) (member lengths) : s.Grows (s.addRows member lengths).2 := by
  induction lengths with
  | nil => exact .refl s
  | cons n rest ih => exact ih.trans (grows_addType _ _)

lemma grows_addArray (s : Store) (lengths member) : s.Grows (s.addArray lengths member).2 :=
  (grows_addRows s member lengths.tail).trans (grows_addType _ _)

lemma grows_setNaming (s : Store) (t id) : s.Grows (s.setNaming t id) := by
  refine grows_of_decls (by simp [setNaming]) (by simp [setNaming]) fun t' f hf => ?_
  exact ⟨f, by rwa [form?_setNaming], .refl f⟩

lemma grows_setBase (h : s.isPointer t) (base) : s.Grows (s.setForm t (.pointer base)) := by
  refine grows_of_decls (by simp [setForm]) (by simp [setForm]) fun t' f hf => ?_
  rw [form?_setForm]
  split
  · next heq =>
    subst heq
    obtain ⟨base', hb⟩ := isPointer_iff.1 h
    rw [hb] at hf
    cases hf
    exact ⟨.pointer base, by rw [hb]; rfl, trivial⟩
  · exact ⟨f, hf, .refl f⟩

@[simp]
lemma form?_setType (s : Store) (id t t') :
    (s.setType id t).form? t' = s.form? t' := form?_eq_of_types rfl t'

lemma typeOf_setType (h : id.In s) (t) : (s.setType id t).typeOf id = t := by
  simp only [typeOf, setType, decl_modifyDecl_self _ h]

lemma decl_setType_of_ne (h : id ≠ other) (t) :
    (s.setType id t).decl other = s.decl other := decl_modifyDecl_of_ne _ h

/-- Nothing but a type is set. -/
lemma decl_setType (s : Store) (id other t) :
    (s.setType id t).decl other =
      { s.decl other with type := (s.setType id t).typeOf other } := by
  by_cases heq : id = other
  · subst heq
    by_cases hlt : id.In s
    · simp only [typeOf, setType, decl_modifyDecl_self _ hlt]
    · simp only [typeOf, setType, decl_modifyDecl, hlt, and_false, if_false]
  · simp only [typeOf, setType, decl_modifyDecl_of_ne _ heq]

/-- The type of a declaration that was made after `s` may be set. -/
lemma Grows.setType (h : s.Grows s') (hid : s.decls.size ≤ id.index) (t) :
    s.Grows (s'.setType id t) := by
  have hne (other : DeclId) (hlt : other.In s) : id ≠ other := by
    rintro rfl
    omega
  have htype (other : DeclId) (hlt : other.In s) :
      (s'.setType id t).typeOf other = s'.typeOf other := by
    rw [typeOf, decl_setType_of_ne (hne other hlt), typeOf]
  refine ⟨by simpa [Store.setType] using h.decls_le, h.types_le, fun other hlt => ?_,
    fun other hlt hf => ?_, fun other hlt => ?_, fun t' f hf => ?_⟩
  · rw [htype other hlt, decl_setType_of_ne (hne other hlt), h.decl other hlt]
  · rw [htype other hlt, h.fixed other hlt hf]
  · rw [htype other hlt]
    exact (h.kept other hlt).imp_right (dynamic_of_forms (form?_setType s' id t))
  · obtain ⟨f', hf', hbec⟩ := h.form t' f hf
    exact ⟨f', by rw [form?_setType]; exact hf', hbec⟩

/-! ## Procedure types -/

/-- The parameters of a procedure in their order. -/
def Parameters (s : Store) (params : List DeclId) : Prop := ∀ i id, params[i]? = some id →
    id.index < s.decls.size ∧ ∃ byReference, (s.decl id).role = .parameter byReference i

/-- In every procedure type the parameters are numbered from 0 on. -/
def Numbered (s : Store) : Prop := ∀ t sig, s.signature? t = some sig → s.Parameters sig.params

lemma Parameters.mono (hp : s.Parameters params)
    (h : ∀ id, id.In s → id.In s' ∧ (s'.decl id).role = (s.decl id).role) : s'.Parameters params := by
  intro i id hi
  obtain ⟨hlt, r, hr⟩ := hp i id hi
  exact ⟨(h id hlt).1, r, (h id hlt).2.trans hr⟩

/-- New procedure types have to be numbered as the old ones are. -/
lemma Numbered.mono (hn : s.Numbered)
    (h : ∀ id, id.In s → id.In s' ∧ (s'.decl id).role = (s.decl id).role)
    (hs : ∀ t sig, s'.signature? t = some sig → s.signature? t = some sig ∨
     s'.Parameters sig.params) : s'.Numbered := by
  intro t sig ht
  rcases hs t sig ht with hold | hnew
  · exact (hn t sig hold).mono h
  · exact hnew

lemma Grows.parameters (h : s.Grows s') (hp : s.Parameters params) : s'.Parameters params :=
  hp.mono fun _ hid => ⟨h.lt hid, h.role hid⟩

lemma Grows.numbered (h : s.Grows s')
    (hs : ∀ t sig, s'.signature? t = some sig → s.signature? t = some sig ∨
     s'.Parameters sig.params) (hn : s.Numbered) : s'.Numbered :=
  hn.mono (fun _ hid => ⟨h.lt hid, h.role hid⟩) hs

lemma Parameters.setType (hp : s.Parameters params) (id t) : (s.setType id t).Parameters params :=
  hp.mono fun other h => ⟨by simpa [Store.setType] using h, by rw [decl_setType]⟩

lemma Numbered.setType (hn : s.Numbered) (id t) : (s.setType id t).Numbered := by
  intro t' sig h
  rw [signature?_eq_some, form?_setType, ← signature?_eq_some] at h
  exact (hn t' sig h).setType id t

lemma signature?_of_forms (hf : ∀ t, s'.form? t = s.form? t) (h : s'.signature? t = some sig) :
    s.signature? t = some sig := by
  rw [signature?_eq_some] at h ⊢
  rwa [hf] at h

lemma signature?_of_addType (h : (s.addType f).2.signature? t = some sig) : s.signature? t =
    some sig ∨ f = .procedure sig := by
  rw [signature?_eq_some, form?_addType] at h
  split at h
  · cases h
    exact .inr rfl
  · exact .inl (signature?_eq_some.2 h)

lemma signature?_of_addRows (h : (s.addRows member lengths).2.signature? t = some sig) : s.signature? t = some sig := by
  induction lengths with
  | nil => exact h
  | cons n rest ih =>
    rcases signature?_of_addType h with h | h
    · exact ih h
    · cases h

lemma signature?_of_addArray (h : (s.addArray lengths member).2.signature? t = some sig) : s.signature? t = some sig := by
  rcases signature?_of_addType h with h | h
  · exact signature?_of_addRows h
  · cases h

lemma signature?_of_setForm (hf : ∀ sig, f ≠ .procedure sig)
    (h : (s.setForm t' f).signature? t = some sig) : s.signature? t = some sig := by
  rw [signature?_eq_some, form?_setForm] at h
  split at h
  · obtain ⟨_, _, h⟩ := map_eq_some_iff.1 h
    exact absurd h (hf sig)
  · exact signature?_eq_some.2 h

/-! ## Names of types -/

lemma naming?_eq_of_types {s' : Store} (h : s'.types = s.types) (t) : s'.naming? t =
    s.naming? t := by
  cases t <;> simp [naming?, entry?, h]

lemma naming?_of_addType (h : (s.addType f).2.naming? t = some id) : s.naming? t = some id := by
  cases t with
  | composite i =>
    simp only [naming?, entry?, Store.addType, Array.getElem?_push] at h
    split at h
    · cases h
    · exact h
  | _ => cases h

lemma naming?_addType_of_lt (f) (h : t.place < s.types.size) : (s.addType f).2.naming? t =
    s.naming? t := by
  cases t with
  | composite i =>
    have hne : i ≠ s.types.size := Nat.ne_of_lt h
    simp only [naming?, entry?, Store.addType, Array.getElem?_push, hne, if_false]
  | _ => rfl

lemma naming?_setForm (s : Store) (t other f) : (s.setForm t f).naming? other =
    s.naming? other := by
  cases t with
  | composite i =>
    cases other with
    | composite j =>
      simp only [naming?, entry?, Store.setForm, modifyType, Array.getElem?_modify]
      split
      · cases s.types[j]? <;> rfl
      · rfl
    | _ => rfl
  | _ => rfl

lemma naming?_setNaming_of_ne (h : t ≠ other) (id) : (s.setNaming t id).naming? other =
    s.naming? other := by
  cases t with
  | composite i =>
    cases other with
    | composite j =>
      have hne : i ≠ j := fun heq => h (congrArg Ty.composite heq)
      simp only [naming?, entry?, Store.setNaming, modifyType, Array.getElem?_modify, hne, if_false]
    | _ => rfl
  | _ => rfl

lemma naming?_of_setNaming (h : (s.setNaming t id).naming? other = some id') : id' = id ∨ s.naming? other = some id' := by
  cases t with
  | composite i =>
    cases other with
    | composite j =>
      simp only [naming?, entry?, Store.setNaming, modifyType, Array.getElem?_modify] at h
      split at h
      · cases hj : s.types[j]? with
        | none => rw [hj] at h; cases h
        | some e => rw [hj] at h; cases h; exact .inl rfl
      · exact .inr h
    | _ => cases h
  | _ => exact .inr h

end Store
end Oberon
