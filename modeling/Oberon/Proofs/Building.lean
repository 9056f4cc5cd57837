import Oberon.Proofs.Concrete
import Oberon.Proofs.Trees

/-!
# Oberon.Proofs.Building

What the declarations of a module do to the store, step by step. `Store.Builds module low strict s s'`
lists the steps: types and declarations are added whose parts are there, a pointer made from place
`low` on gets its base, a type gets a name and a procedure a type of its own. If `strict`, all of it is
concrete.
Reading a block takes such steps and no others, so that whatever a step keeps is kept by a whole block.
-/

namespace Oberon

open Analyze Analysis List Store Scopes

variable (ident : IdentDef)

variable {s s' : Store} {module : String}
    {id : DeclId}

/-- What `module` can declare. A procedure gets its type later, and only those that are not nested
can be exported. -/
structure Store.Admits (s : Store) (module : String) (low : Nat) (strict : Prop) (d : Declaration) :
    Prop where
  has : s.Has d.type
  free : s.Free low d.type
  untyped : d.role = .procedure .defined → d.type = .undefined
  level : d.role = .procedure .defined → d.exported = true → d.level = Scopes.moduleLevel
  concrete : strict → d.Concrete
  module : d.module = some module

lemma Store.Offers.admits (h : s.Offers low strict d.type) (hr : d.role ≠ .procedure .defined)
    (hc : strict → d.Concrete) (hm : d.module = some module) : s.Admits module low strict d :=
  ⟨h.has, h.free, fun h => absurd h hr, fun h => absurd h hr, hc, hm⟩

/-- Declarations of the source that is being compiled. -/
def Store.Own (s : Store) (ids : List DeclId) : Prop :=
  ∀ id ∈ ids, s.Native id ∧ (s.decl id).module.isSome = true

lemma Store.Own.sourced (h : s.Own ids) : s.Sourced ids :=
  fun id hid => ⟨(h id hid).1.lt, (h id hid).2⟩

/-- Fields of different names, none of which a field of the base has. -/
def Store.Apart (s : Store) (base : Option Ty) (fields : List DeclId) : Prop :=
  (fields.map fun f => (s.decl f).name).Nodup ∧
    ∀ f ∈ fields, (base.bind fun b => s.findField? b (s.decl f).name) = none

/-- The declarations of `module` lead from one store to the other. -/
inductive Store.Builds (module : String) (low : Nat) (strict : Prop) (s : Store) : Store → Prop
  | refl : Builds module low strict s s
  | addDecl {s' : Store} {d : Declaration} (h : Builds module low strict s s')
      (hd : s'.Admits module low strict d) : Builds module low strict s (s'.addDecl d).2
  | addArray {s' : Store} {lengths : List Nat} {types : List Ty}
      (h : Builds module low strict s s') (ht : ∀ t ∈ types, s'.Has t ∧ s'.Free low t)
      (hc : strict → (Form.array ⟨lengths, types⟩).Concrete s') :
      Builds module low strict s (s'.addType (.array ⟨lengths, types⟩)).2
  | addRecord {s' : Store} {fields : List DeclId} {base : Option Ty}
      (h : Builds module low strict s s') (hf : s'.HasMembers fields) (hm : s'.Own fields)
      (hb : ∀ t ∈ base, s'.isRecord t = true) (hc : strict → ∀ t ∈ base, t.Concrete)
      (ha : s'.Apart base fields) : Builds module low strict s
        (s'.addType (.record ⟨fields, base, Interface.recordLevel s' base⟩)).2
  | addPointer {s' : Store} (h : Builds module low strict s s') :
      Builds module low strict s (s'.addType (.pointer none)).2
  | addProcedure {s' : Store} {sig : Signature} (h : Builds module low strict s s')
      (hp : s'.HasMembers sig.params) (hm : s'.Sourced sig.params)
      (hr : ∀ t ∈ sig.result, s'.Offers low strict t) :
      Builds module low strict s (s'.addType (.procedure sig)).2
  | setBase {s' : Store} {pointer base : Ty} (h : Builds module low strict s s')
      (hl : low ≤ pointer.place) (hp : s'.isPointer pointer = true)
      (hb : s'.isRecord base = true) (hc : strict → base.Concrete) :
      Builds module low strict s (s'.setForm pointer (.pointer (some base)))
  | setNaming {s' : Store} {id : DeclId} (h : Builds module low strict s s')
      (hid : id.index < s'.decls.size) (hr : (s'.decl id).role = .type)
      (hm : (s'.decl id).module = some module) (hn : s'.naming? (s'.typeOf id) = none) :
      Builds module low strict s (s'.setNaming (s'.typeOf id) id)
  | sign {s' : Store} {id : DeclId} {sig : Signature} (h : Builds module low strict s s')
      (hid : (s'.decl id).role = .procedure .defined) (hp : s'.HasMembers sig.params)
      (hm : s'.Sourced sig.params) (hr : ∀ t ∈ sig.result, s'.Offers low strict t) :
      Builds module low strict s
        ((s'.addType (.procedure sig)).2.setType id (.composite s'.types.size))

namespace Store

lemma has_of_isRecord (h : s.isRecord t) : s.Has t := by
  obtain ⟨r, hr⟩ := isRecord_iff.1 h
  exact has_of_form? hr

namespace Builds

section

variable (h : Builds module low strict s s')
include h

protected lemma trans (h' : Builds module low strict s' s'') :
    Builds module low strict s s'' := by
  induction h' with
  | refl => exact h
  | addDecl _ hd ih => exact .addDecl ih hd
  | addArray _ ht hc ih => exact .addArray ih ht hc
  | addRecord _ hf hm hb hc ha ih => exact .addRecord ih hf hm hb hc ha
  | addPointer _ ih => exact .addPointer ih
  | addProcedure _ hp hm hr ih => exact .addProcedure ih hp hm hr
  | setBase _ hl hp hb hc ih => exact .setBase ih hl hp hb hc
  | setNaming _ hid hr hm hn ih => exact .setNaming ih hid hr hm hn
  | sign _ hid hp hm hr ih => exact .sign ih hid hp hm hr

lemma closed (hs : s.Closed) : s'.Closed := by
  induction h with
  | refl => exact hs
  | addDecl _ hd ih => exact ih.addDecl hd.has
  | addArray _ ht _ ih => exact ih.addType (fits_array fun t h => (ht t h).1)
  | addRecord _ hf _ hb _ _ ih =>
    exact ih.addType (ih.fits_record _ hf fun t ht => has_of_isRecord (hb t ht))
  | addPointer _ ih => exact ih.addType (fits_pointer nofun)
  | addProcedure _ hp _ hr ih => exact ih.addType (ih.fits_procedure hp fun t ht => (hr t ht).has)
  | setBase _ hl hp hb _ ih =>
    refine ih.setForm (fits_pointer fun t ht => ?_) rfl _
    cases ht
    exact has_of_isRecord hb
  | setNaming _ hid hr hm hn ih => exact ih.setNaming hid hr (by rw [hm]; rfl) _
  | sign _ hid hp _ hr ih =>
    exact (ih.addType (ih.fits_procedure hp fun t ht => (hr t ht).has)).setType
      (by rw [decl_eq_of_decls (decls_addType ..), Declaration.isMember, hid]) (has_addType _ _)

lemma concrete (hs : strict → s.Concrete) (hstrict : strict) : s'.Concrete := by
  induction h with
  | refl => exact hs hstrict
  | addDecl _ hd ih => exact ih.addDecl (hd.concrete hstrict)
  | addArray _ _ hc ih => exact ih.addType (hc hstrict)
  | addRecord _ _ hm _ hc _ ih => exact ih.addType (f := .record _) ⟨hc hstrict, hm.sourced⟩
  | addPointer _ ih => exact ih.addType (f := .pointer none) nofun
  | addProcedure _ _ hm hr ih =>
    exact ih.addType (f := .procedure _) ⟨fun t ht => (hr t ht).concrete hstrict, hm⟩
  | setBase _ _ hp _ hc ih =>
    refine ih.setForm (ih.signature?_eq_none hp) (f := .pointer _) fun t ht => ?_
    cases ht
    exact hc hstrict
  | setNaming _ _ _ _ _ ih => exact ih.setNaming _ _
  | sign _ hid _ hm hr ih =>
    refine (ih.addType (f := .procedure _) ⟨fun t ht => (hr t ht).concrete hstrict, hm⟩).setType ?_
    simp only [Declaration.Concrete, decl_eq_of_decls (decls_addType ..), hid]
    exact .inr (ih.composite (Nat.le_refl _))

lemma types_le : s.types.size ≤ s'.types.size := by
  induction h with
  | refl => exact Nat.le_refl _
  | addDecl _ _ ih => exact ih
  | setBase _ _ _ _ _ ih => simpa [setForm] using ih
  | setNaming _ _ _ _ _ ih => simpa [Store.setNaming] using ih
  | sign _ _ _ _ _ ih => exact Nat.le_trans ih (by simp [setType])
  | _ => exact Nat.le_trans ‹_› (by simp)

lemma decls_le : s.decls.size ≤ s'.decls.size := by
  induction h with
  | refl => exact Nat.le_refl _
  | addDecl _ _ ih => exact Nat.le_trans ih (by simp)
  | setBase _ _ _ _ _ ih => simpa [setForm] using ih
  | setNaming _ _ _ _ _ ih => simpa [Store.setNaming] using ih
  | sign _ _ _ _ _ ih => simpa [setType] using ih
  | _ => assumption

lemma lt (hid : id.In s) :
    id.In s' := Nat.lt_of_lt_of_le hid h.decls_le

/-- Of a declaration only the type may change. -/
lemma decl (hid : id.In s) :
    s'.decl id = { s.decl id with type := s'.typeOf id } := by
  induction h with
  | refl => rfl
  | addDecl h _ ih =>
    simp only [typeOf, decl_addDecl_of_lt _ (h.lt hid)]
    exact ih
  | setBase _ _ _ _ _ ih =>
    simp only [typeOf, decl_eq_of_decls (decls_modifyType ..), setForm]
    exact ih
  | setNaming _ _ _ _ _ ih =>
    simp only [typeOf, decl_eq_of_decls (decls_modifyType ..), Store.setNaming]
    exact ih
  | sign _ _ _ _ _ ih => rw [decl_setType, decl_eq_of_decls (decls_addType ..), ih]
  | _ => assumption

/-- Of a form only the base of a pointer may change. -/
lemma form (hf : s.form? t = some f) : ∃ f', s'.form? t = some f' ∧ f.Becomes f' := by
  have hadd {s' : Store} {g f'} (hf' : s'.form? t = some f') :
      (s'.addType g).2.form? t = some f' := by
    rw [form?_addType, if_neg, hf']
    rintro rfl
    exact Nat.lt_irrefl _ (lt_of_form? hf')
  induction h with
  | refl => exact ⟨f, hf, .refl f⟩
  | addDecl _ _ ih =>
    obtain ⟨f', hf', hbec⟩ := ih
    exact ⟨f', by rwa [form?_eq_of_types rfl], hbec⟩
  | @setBase s' pointer base _ _ hp _ _ ih =>
    obtain ⟨f', hf', hbec⟩ := ih
    rw [form?_setForm]
    split
    · next heq =>
      subst heq
      obtain ⟨b, hb⟩ := isPointer_iff.1 hp
      rw [hf'] at hb
      cases hb
      refine ⟨.pointer (some base), by rw [hf']; rfl, hbec.trans ?_⟩
      trivial
    · exact ⟨f', hf', hbec⟩
  | setNaming _ _ _ _ _ ih => simpa using ih
  | sign _ _ _ _ _ ih =>
    obtain ⟨f', hf', hbec⟩ := ih
    exact ⟨f', by rw [form?_setType, hadd hf'], hbec⟩
  | _ =>
    rename_i ih
    obtain ⟨f', hf', hbec⟩ := ih
    exact ⟨f', hadd hf', hbec⟩

/-- Forms of old types stay as they are, and of new types all but the bases of pointers. -/
lemma form_eq (hf : s.form? t = some f) (hold : t.place < low ∨ ∀ base, f ≠ .pointer base) :
    s'.form? t = some f := by
  have hadd {s' : Store} {g} (hf' : s'.form? t = some f) :
      (s'.addType g).2.form? t = some f := by
    rw [form?_addType, if_neg, hf']
    rintro rfl
    exact Nat.lt_irrefl _ (lt_of_form? hf')
  induction h with
  | refl => exact hf
  | addDecl _ _ ih => rwa [form?_eq_of_types rfl]
  | setBase _ hl hp _ _ ih =>
    rw [form?_setForm, if_neg, ih]
    rintro rfl
    rcases hold with hold | hold
    · exact absurd hold (Nat.not_lt_of_le hl)
    · obtain ⟨b, hb⟩ := isPointer_iff.1 hp
      rw [ih] at hb
      cases hb
      exact hold _ rfl
  | setNaming _ _ _ _ _ ih => rwa [form?_setNaming]
  | sign _ _ _ _ _ ih => rw [form?_setType, hadd ih]
  | _ => exact hadd ‹_›

/-- Only procedures get another type. -/
lemma typeOf_eq (hid : id.In s) (hr : (s.decl id).role ≠ .procedure .defined) : s'.typeOf id =
    s.typeOf id := by
  induction h with
  | refl => rfl
  | addDecl h _ ih => rw [typeOf, decl_addDecl_of_lt _ (h.lt hid), ← typeOf, ih]
  | setBase _ _ _ _ _ ih => rw [typeOf, setForm, decl_eq_of_decls (decls_modifyType ..), ← typeOf, ih]
  | setNaming _ _ _ _ _ ih =>
    rw [typeOf, Store.setNaming, decl_eq_of_decls (decls_modifyType ..), ← typeOf, ih]
  | @sign s' other sig h hrole _ _ _ ih =>
    rw [typeOf, decl_setType_of_ne, decl_eq_of_decls (decls_addType ..), ← typeOf, ih]
    rintro rfl
    rw [h.decl hid] at hrole
    exact hr hrole
  | _ => assumption

/-- The parts of a form stay the same. -/
lemma parts_eq (hf : s.HasMembers f.members) : s'.parts f = s.parts f := by
  refine parts_congr fun id hid => ?_
  obtain ⟨hlt, hmember⟩ := hf id hid
  refine h.typeOf_eq hlt fun hrole => ?_
  simp [Declaration.isMember, hrole] at hmember

lemma isPointer (ht : s.isPointer t) : s'.isPointer t := by
  obtain ⟨b, hb⟩ := isPointer_iff.1 ht
  obtain ⟨f', hf', hbec⟩ := h.form hb
  cases f' with
  | pointer b' => exact isPointer_iff.2 ⟨b', hf'⟩
  | _ => cases hbec

lemma isMember (hid : id.In s) (hp : (s.decl id).isMember) : (s'.decl id).isMember := by
  rw [h.decl hid]
  exact hp

/-- No old type gets an owner. -/
lemma owned (hi : i < s.types.size) (ho : s'.Owned low i) : s.Owned low i := by
  induction h with
  | refl => exact ho
  | @addDecl s' d _ hd ih =>
    obtain ⟨hlow, id, hr, ht⟩ := ho
    by_cases hid : id.index = s'.decls.size
    · rw [decl_addDecl, if_pos hid] at hr
      rw [typeOf, decl_addDecl, if_pos hid, hd.untyped hr] at ht
      cases ht
    · rw [decl_addDecl, if_neg hid] at hr
      rw [typeOf, decl_addDecl, if_neg hid] at ht
      exact ih ⟨hlow, id, hr, ht⟩
  | @sign s' id _ h _ _ _ _ ih =>
    obtain ⟨hlow, x, hr, ht⟩ := ho
    rw [decl_setType] at hr
    by_cases hx : id = x
    · subst hx
      rw [typeOf_setType (lt_of_procedure hr)] at ht
      cases ht
      exact absurd hi (Nat.not_lt.2 h.types_le)
    · rw [typeOf, decl_setType_of_ne hx] at ht
      exact ih ⟨hlow, x, hr, ht⟩
  | setBase _ _ _ _ _ ih => exact ih ((owned_iff_of_decls (by simp [setForm]) i).1 ho)
  | setNaming _ _ _ _ _ ih => exact ih ((owned_iff_of_decls (by simp [Store.setNaming]) i).1 ho)
  | _ =>
    rename_i ih
    exact ih ((owned_iff_of_decls rfl i).1 ho)

lemma unshared (hs : s.Closed) (hu : s.Unshared low) : s'.Unshared low := by
  have hmembers {s' : Store} (hu : s'.Unshared low) {ids} (hm : s'.HasMembers ids) :
      ∀ u ∈ ids.map s'.typeOf, s'.Free low u := by
    intro u h
    obtain ⟨id, hid, rfl⟩ := mem_map.1 h
    refine hu.free_typeOf fun hr => ?_
    have := (hm id hid).2
    simp [Declaration.isMember, hr] at this
  induction h with
  | refl => exact hu
  | addDecl h hd ih => exact ih.addDecl (h.closed hs) hd.free hd.untyped
  | addArray _ ht _ ih => exact ih.addType fun u hu => (ht u hu).2
  | addRecord _ hf _ hb _ _ ih =>
    refine ih.addType (forall_mem_append.2 ⟨fun u hu => ?_, hmembers ih hf⟩)
    obtain ⟨r, hr⟩ := isRecord_iff.1 (hb u (Option.mem_toList.1 hu))
    exact ih.free_of_form hr fun _ h => by cases h
  | addPointer _ ih => exact ih.addType fun u hu => by cases hu
  | addProcedure _ hp _ hr ih =>
    exact ih.addType (forall_mem_append.2
      ⟨hmembers ih hp, fun u hu => (hr u (Option.mem_toList.1 hu)).free⟩)
  | setBase _ _ hp hb _ ih => exact ih.setForm hp hb
  | setNaming _ _ _ _ _ ih => exact ih.setNaming _ _
  | sign h hid hp _ hr ih =>
    refine ih.sign (h.closed hs) hid hp (forall_mem_append.2 ⟨fun u hu => ?_, fun u hu => ?_⟩)
    · refine ⟨hmembers ih hp u hu, ?_⟩
      obtain ⟨id, _, rfl⟩ := mem_map.1 hu
      exact (h.closed hs).typeOf id
    · exact ⟨(hr u (Option.mem_toList.1 hu)).free, (hr u (Option.mem_toList.1 hu)).has⟩

/-- No nested procedure is exported. -/
lemma level_of_exported (hid : s.decls.size ≤ id.index)
    (hr : (s'.decl id).role = .procedure .defined) (he : (s'.decl id).exported) :
    (s'.decl id).level = moduleLevel := by
  induction h with
  | refl => exact absurd (lt_of_procedure hr) (Nat.not_lt.2 hid)
  | @addDecl s' d _ hd ih =>
    rw [decl_addDecl] at hr he ⊢
    split at hr
    · next heq =>
      rw [if_pos heq] at he ⊢
      exact hd.level hr he
    · next heq =>
      rw [if_neg heq] at he ⊢
      exact ih hr he
  | setBase _ _ _ _ _ ih =>
    rw [setForm, decl_eq_of_decls (decls_modifyType ..)] at hr he ⊢
    exact ih hr he
  | setNaming _ _ _ _ _ ih =>
    rw [Store.setNaming, decl_eq_of_decls (decls_modifyType ..)] at hr he ⊢
    exact ih hr he
  | sign _ _ _ _ _ ih =>
    rw [decl_setType] at hr he ⊢
    exact ih hr he
  | _ =>
    rename_i ih
    exact ih hr he

lemma offers (ht : s.Offers low strict t) :
    s'.Offers low strict t := ht.mono h.types_le fun _ => h.owned

lemma addRows (hc : s'.Closed) (hs : strict → s'.Concrete) (hm : s'.Offers low strict member)
    (lengths) : Builds module low strict s (s'.addRows member lengths).2 ∧
    ∀ t ∈ (s'.addRows member lengths).1, (s'.addRows member lengths).2.Has t ∧
    (s'.addRows member lengths).2.Free low t := by
  induction lengths with
  | nil => exact ⟨h, forall_mem_singleton.2 ⟨hm.has, hm.free⟩⟩
  | cons n rest ih =>
    refine ⟨.addArray ih.1 ih.2 fun hstrict => ?_, forall_mem_cons.2 ⟨⟨?_, ?_⟩, ?_⟩⟩
    · exact (hs hstrict).array (hm.concrete hstrict) (n :: rest) _
    · exact .composite (by simp [Store.addRows])
    · exact hc.free_new (decls_addRows s' member (n :: rest)) (Widens.addRows s' member rest).types_le
    · refine fun t ht => ⟨(Widens.addType _ _).has (ih.2 t ht).1, ?_⟩
      exact (ih.2 t ht).2.mono (ih.2 t ht).1 fun i _ => (owned_iff_of_decls rfl i).1

lemma addArrayType (hc : s'.Closed) (hs : strict → s'.Concrete) (hm : s'.Offers low strict member)
    (lengths) : Builds module low strict s (s'.addArray lengths member).2 := by
  obtain ⟨hrows, htypes⟩ := h.addRows hc hs hm lengths.tail
  exact .addArray hrows htypes fun hstrict => (hs hstrict).array (hm.concrete hstrict) lengths _

end

end Builds

lemma Sourced.builds (hp : s.Sourced ids) (h : Builds module low strict s s') : s'.Sourced ids :=
  (Attributes.of_decl h.decls_le fun _ hid => h.decl hid).sourced hp

lemma Own.builds (hm : s.Own ids) (h : Builds module low strict s s') : s'.Own ids := by
  intro id hid
  obtain ⟨hn, hs⟩ := hm id hid
  refine ⟨⟨h.lt hn.lt, ?_⟩, ?_⟩
  · rw [h.decl hn.lt]
    exact hn.imported
  · rw [h.decl hn.lt]
    exact hs

lemma HasMembers.builds (hp : s.HasMembers ids) (h : Builds module low strict s s') :
    s'.HasMembers ids :=
  fun id hid => ⟨h.lt (hp id hid).1, h.isMember (hp id hid).1 (hp id hid).2⟩

/-! ## Scopes -/

/-- The names of a scope are different, and each is the name of what it denotes. -/
structure Lists (s : Store) (scope : Scope) : Prop where
  nodup : (scope.map Prod.fst).Nodup
  names : ∀ e ∈ scope, e.2.index < s.decls.size ∧ (s.decl e.2).name = e.1

lemma Lists.nil (s : Store) : s.Lists [] := ⟨.nil, nofun⟩

lemma Lists.builds (hl : s.Lists scope) (h : Builds module low strict s s') : s'.Lists scope := by
  refine ⟨hl.nodup, fun e he => ?_⟩
  obtain ⟨hlt, hname⟩ := hl.names e he
  exact ⟨h.lt hlt, by rw [h.decl hlt]; exact hname⟩

lemma lookup_eq_none {α β : Type} [BEq α] [LawfulBEq α] {entries : List (α × β)} {key : α}
    (h : entries.lookup key = none) : key ∉ entries.map Prod.fst := by
  induction entries with
  | nil => exact not_mem_nil
  | cons e rest ih =>
    rw [lookup_cons] at h
    split at h
    · cases h
    · next hne =>
      rw [map_cons, mem_cons]
      rintro (heq | hmem)
      · simp [heq] at hne
      · exact ih h hmem

end Store

/-! ## The state of the analysis -/

namespace Analysis

variable {a b c : Analysis}

/-- The store is closed, what waits for a base is a pointer made from place `low` on, and the scopes
list what they contain. -/
structure Sound (low : Nat) (strict : Prop) (a : Analysis) : Prop where
  closed : a.store.Closed
  unshared : a.store.Unshared low
  concrete : strict → a.store.Concrete
  low_le : low ≤ a.store.types.size
  forwards : ∀ f ∈ a.forwards, low ≤ f.pointer.place ∧ a.store.isPointer f.pointer = true
  names : ∀ scope ∈ a.scopes.inner :: a.scopes.outer, a.store.Lists scope
  known : ∀ id, a.scopes.Knows id → a.store.Nameable id

/-- The declarations of the module lead from `a` to `b`. -/
structure Builds (low : Nat) (strict : Prop) (a b : Analysis) : Prop where
  store : a.store.Builds a.module low strict b.store
  module : b.module = a.module
  sound : b.Sound low strict

lemma Sound.imp {strict' : Prop} (h : a.Sound low strict) (hs : strict' → strict) :
    a.Sound low strict' :=
  ⟨h.closed, h.unshared, fun h' => h.concrete (hs h'), h.low_le, h.forwards, h.names, h.known⟩

lemma Builds.trans (h : a.Builds low strict b) (h' : b.Builds low strict c) : a.Builds low strict c :=
  ⟨h.store.trans (h.module ▸ h'.store), h'.module.trans h.module, h'.sound⟩

lemma Sound.refl (ha : a.Sound low strict) : a.Builds low strict a := ⟨.refl, rfl, ha⟩

/-- Only the store has changed. -/
lemma Sound.build (ha : a.Sound low strict) (hs : a.store.Builds a.module low strict b.store)
    (hm : b.module = a.module) (hscopes : b.scopes = a.scopes) (hf : b.forwards = a.forwards) :
    a.Builds low strict b := by
  refine ⟨hs, hm, hs.closed ha.closed, hs.unshared ha.closed ha.unshared, hs.concrete ha.concrete,
    Nat.le_trans ha.low_le hs.types_le, fun f hmem => ?_, fun scope hmem => ?_, fun id hk => ?_⟩
  · rw [hf] at hmem
    exact ⟨(ha.forwards f hmem).1, hs.isPointer (ha.forwards f hmem).2⟩
  · rw [hscopes] at hmem
    exact (ha.names scope hmem).builds hs
  · rw [hscopes] at hk
    exact (ha.known id hk).of_decl hs.decls_le (hs.decl (ha.known id hk).lt)

lemma Sound.silent (ha : a.Sound low strict) (hs : a.Silent b) : a.Builds low strict b :=
  ha.build (by rw [hs.store]; exact .refl) hs.module hs.scopes hs.forwards

lemma Builds.silent (h : a.Builds low strict b) (hs : b.Silent c) : a.Builds low strict c :=
  h.trans (h.sound.silent hs)

section

variable (ha : a.Sound low strict)
include ha

lemma Sound.restores (hr : a.Restores b) : a.Builds low strict b :=
  ha.build (by rw [hr.store]; exact .refl) hr.module hr.scopes hr.forwards

/-- Opening a scope adds no names. -/
lemma Sound.opens (procedures) :
    a.Builds low strict { a with procedures, scopes := a.scopes.openScope } := by
  refine ⟨.refl, rfl, ha.closed, ha.unshared, ha.concrete, ha.low_le, ha.forwards, fun scope hmem => ?_,
    fun id hk => ha.known id hk.of_openScope⟩
  rcases mem_cons.1 hmem with rfl | hmem
  · exact .nil _
  · exact ha.names scope hmem

lemma Sound.closes (procedures) :
    a.Builds low strict { a with scopes := a.scopes.closeScope, procedures } := by
  refine ⟨.refl, rfl, ha.closed, ha.unshared, ha.concrete, ha.low_le, ha.forwards,
    fun scope hmem => ha.names scope ?_, fun id hk => ha.known id hk.of_closeScope⟩
  dsimp only at hmem
  unfold Scopes.closeScope at hmem
  split at hmem
  · exact hmem
  · next heq =>
    rw [heq]
    exact mem_cons_of_mem _ hmem

/-- What a name of a type stands for. -/
lemma Sound.offers {ident : QualIdent} (hid : a.scopes.lookup ident = some id)
    (ht : (a.store.decl id).isType) : a.store.Offers low strict (a.store.typeOf id) := by
  refine ⟨ha.closed.typeOf id, ha.unshared.free_typeOf fun hr => ?_, fun h =>
    (ha.concrete h).typeOf_of_isType (ha.known id (knows_of_lookup hid)).lt ht⟩
  simp [Declaration.isType, hr] at ht

end

lemma Declares.builds (h : a.Declares d id b) (hd : a.store.Admits a.module low strict d) :
    a.store.Builds a.module low strict b.store := by
  have hadd : a.store.Builds a.module low strict (a.store.addDecl d).2 := .addDecl .refl hd
  have hdecl : (a.store.addDecl d).2.decl id = d := by rw [h.place, decl_addDecl_self]
  have htype : (a.store.addDecl d).2.typeOf id = d.type := congrArg Declaration.type hdecl
  rcases h.store with hb | ⟨hr, hn, hb⟩ <;> rw [hb]
  · exact hadd
  · have hid : id.In (a.store.addDecl d).2 := by simp [h.place]
    have hnamed := hadd.setNaming hid (by rw [hdecl, hr]) (by rw [hdecl, hd.module])
      (by rw [htype, hn])
    rwa [htype] at hnamed

lemma Sound.declares (ha : a.Sound low strict) (h : a.Declares d id b)
    (hd : a.store.Admits a.module low strict d) : a.Builds low strict b := by
  have hs := h.builds hd
  have hmiddle : a.Builds low strict
      { a with store := b.store, scopes := a.scopes.insert d.name id } := by
    refine ⟨hs, rfl, hs.closed ha.closed, hs.unshared ha.closed ha.unshared,
      hs.concrete ha.concrete, Nat.le_trans ha.low_le (Nat.le_of_eq h.types.symm), fun f hf => ?_,
      fun scope hmem => ?_, fun other hk => ?_⟩
    · exact ⟨(ha.forwards f hf).1, hs.isPointer (ha.forwards f hf).2⟩
    · rcases mem_cons.1 hmem with rfl | hmem
      · have hinner := (ha.names _ mem_cons_self).builds hs
        refine ⟨nodup_cons.2 ⟨lookup_eq_none ?_, hinner.nodup⟩, ?_⟩
        · simpa [isDuplicate] using h.fresh
        · exact forall_mem_cons.2 ⟨⟨h.lt, by rw [h.decl]⟩, hinner.names⟩
      · exact (ha.names scope (mem_cons_of_mem _ hmem)).builds hs
    · rcases hk.of_insert with rfl | hk
      · exact ⟨h.lt, fun _ => by rw [h.decl, hd.module]; rfl⟩
      · exact (ha.known other hk).of_decl hs.decls_le (hs.decl (ha.known other hk).lt)
  exact hmiddle.silent h.rest

end Analysis

/-! ## Declarations -/

namespace Analyze

lemma builds_declareConstant {value : Expr} (ha : a.Sound low strict)
    (hv : value.TypedBy a.store.Has) (hf : value.TypedBy (a.store.Free low))
    (hc : strict → value.TypedBy Ty.Simple) :
    (declareConstant ident (some value)).Ensures a fun _ b => a.Builds low strict b := by
  refine (declareConstant_ensures ident value).mono fun id b h => ?_
  obtain ⟨literal, hl, hd⟩ := h
  have hl : value.isLiteral := by simp [Expr.isLiteral, hl]
  exact ha.declares hd ⟨hv hl, hf hl, (fun h => by cases h), (fun h => by cases h), fun h => hc h hl, rfl⟩

lemma builds_declareType (ha : a.Sound low strict) (ht : a.store.Offers low strict type) :
    (declareType ident (some type)).Ensures a fun _ b => a.Builds low strict b :=
  (declareType_ensures ident type).mono fun _ _ h =>
    ha.declares h (ht.admits (fun h => by cases h) ht.concrete rfl)

lemma builds_declareVariable (index) (ha : a.Sound low strict)
    (ht : a.store.Offers low strict type) :
    (declareVariable ident (some type) index).Ensures a fun _ b => a.Builds low strict b :=
  (declareVariable_ensures ident type index).mono fun _ _ h =>
    ha.declares h (ht.admits (fun h => by cases h) ht.concrete rfl)

lemma builds_declareVariables (names) : ∀ (a : Analysis) ids, a.Sound low strict →
    a.store.Offers low strict t →
    (Grammar.declareVariables (some t) names ids).Ensures a fun _ b => a.Builds low strict b := by
  induction names with
  | nil => exact fun a ids ha _ => .pure fun _ => ha.refl
  | cons ident rest ih =>
    intro a ids ha ht
    refine .bind (builds_declareVariable ident ids.length ha ht) fun id b hb => ?_
    exact (ih b _ hb.sound (hb.store.offers ht)).mono fun _ _ h => hb.trans h

lemma builds_declareFields (names) : ∀ (a : Analysis) ids, a.Sound low strict →
    a.store.Offers low strict t → a.store.HasMembers ids → a.store.Own ids →
    (Grammar.declareFields (some t) names ids).Ensures a fun jds b => a.Builds low strict b ∧
    b.store.HasMembers jds ∧ b.store.Own jds := by
  induction names with
  | nil => exact fun a ids ha _ hids hm => .pure fun _ => ⟨ha.refl, hids, hm⟩
  | cons ident rest ih =>
    intro a ids ha ht hids hm
    let d := a.declaration ident (.field ids.length) t
    have hd : (declareField ident (some t) ids.length).Ensures a fun id b =>
        id = ⟨a.store.decls.size⟩ ∧ b = { a with store := (a.store.addDecl d).2 } :=
      fun _ => ⟨rfl, rfl⟩
    refine .bind hd ?_
    rintro _ b ⟨rfl, rfl⟩
    have hstep : a.Builds low strict { a with store := (a.store.addDecl d).2 } :=
      ha.build (.addDecl .refl (ht.admits (fun h => by cases h) ht.concrete rfl)) rfl rfl rfl
    refine (ih _ _ hstep.sound (hstep.store.offers ht) ?_ ?_).mono fun _ _ h =>
      ⟨hstep.trans h.1, h.2⟩
    · exact forall_mem_append.2 ⟨hids.builds hstep.store, a.store.hasMembers_addDecl rfl⟩
    · refine forall_mem_append.2 ⟨hm.builds hstep.store, forall_mem_singleton.2 ?_⟩
      exact ⟨⟨by simp, by simp; rfl⟩, by simp; rfl⟩

lemma builds_declareParameters (byReference names) : ∀ (a : Analysis) ids, a.Sound low strict →
    a.store.Offers low strict t → a.store.HasMembers ids → a.store.Sourced ids →
    (Grammar.declareParameters byReference (some t) names ids).Ensures a fun jds b => a.Builds low
     strict b ∧ b.store.HasMembers jds ∧ b.store.Sourced jds := by
  induction names with
  | nil => exact fun a ids ha _ hids hm => .pure fun _ => ⟨ha.refl, hids, hm⟩
  | cons ident rest ih =>
    intro a ids ha ht hids hm
    refine .bind (declareParameter_ensures ident byReference t ids.length) fun id b hb => ?_
    have hstep := ha.declares hb (ht.admits (fun h => by cases h) (fun h _ => ht.concrete h) rfl)
    refine (ih b _ hstep.sound (hstep.store.offers ht) ?_ ?_).mono fun _ _ h =>
      ⟨hstep.trans h.1, h.2⟩
    · refine forall_mem_append.2 ⟨hids.builds hstep.store, forall_mem_singleton.2 ?_⟩
      exact ⟨hb.lt, by rw [hb.decl]; rfl⟩
    · refine forall_mem_append.2 ⟨hm.builds hstep.store, forall_mem_singleton.2 ?_⟩
      exact ⟨hb.lt, by rw [hb.decl]; rfl⟩

lemma builds_declareExternal (convention name) (ha : a.Sound low strict)
    (ht : a.store.Offers low strict t) :
    (declareExternal ident convention t name).Ensures a fun _ b => a.Builds low strict b := by
  refine (declareExternal_ensures ident convention t name).mono fun _ b h => ?_
  obtain ⟨_, c, id, _, _, hc, _, hd⟩ := h
  have hbefore := ha.silent hc
  exact hbefore.trans (hbefore.sound.declares hd
    ((hbefore.store.offers ht).admits (fun h => by cases h) (fun h => .inr (ht.concrete h)) rfl))

/-! ## Types -/

lemma builds_typeReference (ident dimensions) (ha : a.Sound low strict) :
    (typeReference ident dimensions).Ensures a fun t b => a.Builds low strict b ∧
    b.store.Offers low strict t := by
  refine (typeReference_ensures ident dimensions).mono fun t b h => ?_
  obtain ⟨id, hid, ht, ⟨rfl, rfl⟩ | ⟨_, _, rfl, rfl⟩⟩ := h
  · exact ⟨ha.refl, ha.offers hid ht⟩
  · have hoffers := ha.offers hid ht
    exact ⟨ha.build (.addArrayType .refl ha.closed ha.concrete hoffers _) rfl rfl rfl,
      offers_addArray ha.closed ha.concrete hoffers.concrete _⟩

lemma Store.Closed.has_member (h : s.Closed) (hf : s.array? t = some form) :
    s.Has form.member := by
  unfold ArrayForm.member
  cases hl : form.types.getLast? with
  | none => exact .pseudo _ _
  | some u => exact (h.fits t _ (array?_eq_some.1 hf)).parts u (mem_of_getLast? hl)

lemma Store.Unshared.free_member (h : s.Unshared low) (hf : s.array? t = some form) : s.Free low form.member := by
  unfold ArrayForm.member
  cases hl : form.types.getLast? with
  | none => exact s.free_pseudo low _
  | some u => exact h.parts t _ (array?_eq_some.1 hf) u (mem_of_getLast? hl)

lemma builds_arrayType (span) (dimensions : List Expr) (ha : a.Sound low strict)
    (hm : a.store.Offers low strict member) :
    (arrayType span (dimensions.map some) (some member)).Ensures a fun t b => a.Builds low strict b
     ∧ b.store.Offers low strict t := by
  refine (arrayType_ensures span dimensions member).mono fun t b h => ?_
  obtain ⟨c, lengths, member', hc, hmember, rfl, rfl⟩ := h
  have hm' : a.store.Offers low strict member' := by
    rcases hmember with rfl | ⟨nested, hn, rfl⟩
    · exact hm
    · exact ⟨Store.Closed.has_member ha.closed hn, Store.Unshared.free_member ha.unshared hn,
        fun h => (ha.concrete h).member (hm.concrete h) hn⟩
  exact ⟨ha.build (.addArrayType .refl ha.closed ha.concrete hm' _) hc.module hc.scopes hc.forwards,
    offers_addArray ha.closed ha.concrete hm'.concrete _⟩

lemma baseRecord_ensures (ident) (ha : a.Sound low strict) :
    (baseRecord ident).Ensures a fun v _ => ∀ t ∈ v, a.store.isRecord t ∧
    (strict → t.Concrete) := by
  refine .get ?_
  simp only [Analysis.lookup]
  cases hid : a.scopes.lookup ident with
  | none => exact .reported
  | some id =>
    refine .otherwise fun hd => ?_
    refine .provided fun hr => .pure fun _ t ht => ?_
    cases ht
    exact ⟨hr, (ha.offers hid (by simpa using hd)).concrete⟩

lemma checkFields_ensures (base fields) : ∀ names,
    (checkFields base names fields).Ensures a fun _ _ => a.store.Apart base fields ∧ ∀ f ∈ fields,
    (a.store.decl f).name ∉ names := by
  induction fields with
  | nil => exact fun _ => .pure fun _ => ⟨⟨.nil, forall_mem_nil _⟩, forall_mem_nil _⟩
  | cons f fields ih =>
    intro names
    refine .getStore (.otherwise fun hbase => ?_)
    refine .otherwise fun hname => (ih _).mono fun _ _ h => ?_
    obtain ⟨⟨hnodup, hfree⟩, hnew⟩ := h
    refine ⟨⟨nodup_cons.2 ⟨fun hf => ?_, hnodup⟩, forall_mem_cons.2 ⟨by simpa using hbase, hfree⟩⟩,
      forall_mem_cons.2 ⟨by simpa using hname, fun g hg h => hnew g hg (mem_cons_of_mem _ h)⟩⟩
    obtain ⟨g, hg, heq⟩ := mem_map.1 hf
    exact hnew g hg (heq ▸ mem_cons_self)

lemma builds_recordType (base) (ha : a.Sound low strict) (hf : a.store.HasMembers fields)
    (hm : a.store.Own fields) :
    (recordType base fields).Ensures a fun t b => a.Builds low strict b ∧
    b.store.Offers low strict t := by
  have hadd (b) (hb : a.Silent b) (base)
      (hr : ∀ t ∈ base, a.store.isRecord t ∧ (strict → t.Concrete))
      (hn : a.store.Apart base fields) :
      (addType (.record ⟨fields, base, Interface.recordLevel b.store base⟩)).Ensures b
        fun t c => a.Builds low strict c ∧ c.store.Offers low strict t := by
    intro _
    simp only [addType_run, hb.store]
    refine ⟨ha.build (.addRecord .refl hf hm (fun t ht => (hr t ht).1)
      (fun h t ht => (hr t ht).2 h) hn) hb.module hb.scopes hb.forwards, offers_addType ha.closed ha.concrete _⟩
  unfold recordType
  cases base with
  | none =>
    refine .bind (P := fun v b => v = none ∧ b = a) (fun _ => ⟨rfl, rfl⟩) ?_
    rintro _ _ ⟨rfl, rfl⟩
    exact .bind (checkFields_ensures _ _ _).silently fun _ c hc => .getStore (hadd c hc.1 none nofun hc.2.1)
  | some ident =>
    refine .bind (baseRecord_ensures ident ha).silently fun v b hb => ?_
    refine .bind (checkFields_ensures _ _ _).silently fun _ c hc => .getStore ?_
    exact hadd c (hb.1.trans hc.1) v hb.2 (hb.1.store ▸ hc.2.1)

lemma builds_procedureType (span variadic) (ha : a.Sound low strict)
    (hp : a.store.HasMembers params) (hm : a.store.Sourced params)
    (hr : ∀ t ∈ result, a.store.Offers low strict t) :
    (procedureType span params variadic result).Ensures a fun t b => a.Builds low strict b ∧
    b.store.Offers low strict t := by
  refine (procedureType_ensures span params variadic result).mono fun t b h => ?_
  obtain ⟨_, rfl, rfl⟩ := h
  exact ⟨ha.build (.addProcedure .refl hp hm hr) rfl rfl rfl, offers_addType ha.closed ha.concrete _⟩

lemma builds_settleAll (forwards) : ∀ a : Analysis, a.Sound low strict →
    (∀ f ∈ forwards, low ≤ f.pointer.place ∧ a.store.isPointer f.pointer) →
    (settleAll forwards).Ensures a fun _ b => a.Builds low strict b := by
  induction forwards with
  | nil => exact fun a ha _ => .pure fun _ => ha.refl
  | cons f rest ih =>
    intro a ha hf
    rw [forall_mem_cons] at hf
    refine .bind (settle_ensures f) fun _ b h => ?_
    obtain ⟨id, hid, ht, hr, rfl⟩ := h
    have hstep : a.Builds low strict _ :=
      ha.build (b := { a with store := a.store.setForm f.pointer (.pointer (some (a.store.typeOf id))) })
        (.setBase .refl hf.1.1 hf.1.2 hr (ha.offers hid ht).concrete) rfl rfl rfl
    refine (ih _ hstep.sound fun g hg => ?_).mono fun _ _ h => hstep.trans h
    exact ⟨(hf.2 g hg).1, hstep.store.isPointer (hf.2 g hg).2⟩

lemma builds_settleForwards (ha : a.Sound low strict) :
    settleForwards.Ensures a fun _ b => a.Builds low strict b := by
  refine .get ?_
  let isLocal : Forward → Bool := fun f => a.scopes.level ≤ f.level
  have hdrop : a.Builds low strict { a with forwards := a.forwards.dropWhile isLocal } :=
    ⟨.refl, rfl, ha.closed, ha.unshared, ha.concrete, ha.low_le,
      fun f hf => ha.forwards f (dropWhile_subset _ hf), ha.names, ha.known⟩
  refine .bind (P := fun _ b => b = { a with forwards := a.forwards.dropWhile isLocal })
    (fun _ => rfl) ?_
  rintro _ _ rfl
  refine (builds_settleAll _ _ hdrop.sound fun f hf => ?_).mono fun _ _ h => hdrop.trans h
  exact ha.forwards f (( takeWhile_prefix _).subset hf)

end Analyze

/-! ## Reading -/

lemma ReadsParams.builds (h : ReadsParams a ps b) (ha : a.Sound low strict) :
    a.Builds low strict b ∧ b.store.HasMembers ps ∧ b.store.Sourced ps := by
  induction h with
  | none => exact ⟨ha.refl, nofun, nofun⟩
  | group ident dimensions byReference names _ ht _ h ih =>
    obtain ⟨hb, hps, hm⟩ := ih
    obtain ⟨hc, hhas⟩ := ht.ensures (builds_typeReference ident dimensions hb.sound)
    obtain ⟨hd, hqs⟩ := h.ensures (builds_declareParameters byReference names _ _ hc.sound hhas
      (hps.builds hc.store) (hm.builds hc.store))
    exact ⟨(hb.trans hc).trans hd, hqs⟩
  | silent _ hs ih => exact ⟨ih.1.silent hs, by rw [hs.store]; exact ih.2⟩

lemma ReadsFormals.builds (h : ReadsFormals a ps result b) (ha : a.Sound low strict) :
    a.Builds low strict b ∧ (b.store.HasMembers ps ∧ b.store.Sourced ps) ∧ ∀ t ∈ result,
    b.store.Offers low strict t := by
  cases h with
  | proper hp =>
    obtain ⟨hb, hps⟩ := hp.builds ha
    exact ⟨hb, hps, nofun⟩
  | function ident hp ht =>
    obtain ⟨hb, hps, hm⟩ := hp.builds ha
    obtain ⟨hc, hhas⟩ := ht.ensures (builds_typeReference ident 0 hb.sound)
    refine ⟨hb.trans hc, ⟨hps.builds hc.store, hm.builds hc.store⟩, fun t ht => ?_⟩
    cases ht
    exact hhas

lemma ReadsSignature.builds (h : ReadsSignature a t b) (ha : a.Sound low strict) :
    a.Builds low strict b ∧ b.store.Offers low strict t := by
  obtain @⟨_, c, _, _, _, _, _, span, variadic, ho, hf, hc, h⟩ := h
  have ho := congrArg Prod.snd ho.run
  have hc := congrArg Prod.snd hc.run
  subst ho hc
  have hopen := ha.opens a.procedures
  obtain ⟨hformals, hps, hresult⟩ := hf.builds hopen.sound
  have hclose := hformals.sound.closes c.procedures
  obtain ⟨hd, hhas⟩ := h.ensures (builds_procedureType span variadic hclose.sound
    (hps.1.builds hclose.store) (hps.2.builds hclose.store) fun t ht => hclose.store.offers (hresult t ht))
  exact ⟨((hopen.trans hformals).trans hclose).trans hd, hhas⟩

/-- What reading a part of a type does. The base of a pointer is set only if it is a new one. -/
def TypePhrase.Builds (low : Nat) (strict : Prop) (a : Analysis) (p : TypePhrase) (b : Analysis) :
    Prop :=
  match p with
  | .type t => a.Builds low strict b ∧ b.store.Offers low strict t
  | .fields ids => a.Builds low strict b ∧ b.store.HasMembers ids ∧ b.store.Own ids
  | .base t => low ≤ t.place → a.store.isPointer t = true → a.Builds low strict b

lemma Analyze.builds_beginPointer (h : beginPointer.Succeeds a t b) (ha : a.Sound low strict) :
    a.Builds low strict b ∧ b.store.Offers low strict t ∧ low ≤ t.place ∧ b.store.isPointer t := by
  have hb := congrArg Prod.snd h.run
  have ht := congrArg Prod.fst h.run
  subst hb ht
  exact ⟨ha.build (.addPointer .refl) rfl rfl rfl, offers_addType ha.closed ha.concrete _, ha.low_le,
    isPointer_iff.2 ⟨none, form?_addType_self _ _⟩⟩

lemma ReadsType.builds (h : ReadsType a p b) (ha : a.Sound low strict) :
    p.Builds low strict a b := by
  induction h with
  | name ident h => exact h.ensures (builds_typeReference ident 0 ha)
  | array span dimensions hd hm h ih =>
    obtain ⟨hb, hhas⟩ := ih ha
    obtain ⟨hc, ht⟩ := h.ensures (builds_arrayType span dimensions hb.sound hhas)
    exact ⟨hb.trans hc, ht⟩
  | record base hf h ih =>
    obtain ⟨hb, hids, hm⟩ := ih ha
    obtain ⟨hc, ht⟩ := h.ensures (builds_recordType base hb.sound hids hm)
    exact ⟨hb.trans hc, ht⟩
  | pointer h hb ih =>
    obtain ⟨hp, hhas, hlow, hpointer⟩ := builds_beginPointer h ha
    have hbase := ih hp.sound hlow hpointer
    exact ⟨hp.trans hbase, hbase.store.offers hhas⟩
  | procedure h => exact h.builds ha
  | noFields a => exact ⟨ha.refl, nofun, nofun⟩
  | fieldList names hf ht h ihf iht =>
    obtain ⟨hb, hids, hm⟩ := ihf ha
    obtain ⟨hc, hhas⟩ := iht hb.sound
    obtain ⟨hd, hjds⟩ := h.ensures (builds_declareFields names _ _ hc.sound hhas
      (hids.builds hc.store) (hm.builds hc.store))
    exact ⟨(hb.trans hc).trans hd, hjds⟩
  | base span hb h ih =>
    intro hlow hp
    obtain ⟨hbuild, hbase⟩ := ih ha
    rcases h.ensures (endPointer_ensures span _ _) with ⟨_, rfl⟩ | ⟨hr, rfl⟩
    · exact hbuild
    · refine hbuild.trans (hbuild.sound.build ?_ rfl rfl rfl)
      exact .setBase .refl hlow (hbuild.store.isPointer hp) hr hbase.concrete
  | forward ident hd h =>
    intro hlow hp
    have hb := congrArg Prod.snd h.run
    subst hb
    refine ⟨.refl, rfl, ha.closed, ha.unshared, ha.concrete, ha.low_le, fun f hf => ?_, ha.names, ha.known⟩
    rcases mem_cons.1 hf with rfl | hf
    · exact ⟨hlow, hp⟩
    · exact ha.forwards f hf
  | @silent a b c d p hb h hd ih =>
    have hfirst := ha.silent hb
    have ih := ih hfirst.sound
    cases p with
    | type t | fields ids => exact ⟨(hfirst.trans ih.1).silent hd, by rw [hd.store]; exact ih.2⟩
    | base t => exact fun hlow hp => (hfirst.trans (ih hlow (by rw [hb.store]; exact hp))).silent hd

lemma ReadsSection.builds (h : ReadsSection a p b) (ha : a.Sound low strict) :
    a.Builds low strict b := by
  induction h with
  | noConstants a => exact ha.refl
  | constant ident _ _ hv hb h ih =>
    have hc := (ih ha).silent hb
    have hvalue := hv.typedBy_has (ih ha).sound.closed
    have hfree := hv.typedBy_free (ih ha).sound.unshared
    rw [← hb.store] at hvalue hfree
    exact hc.trans (h.ensures (builds_declareConstant ident hc.sound hvalue hfree
      fun hstrict => hv.typedBy_simple ((ih ha).sound.concrete hstrict)))
  | noTypes a => exact ha.refl
  | type ident _ _ ht h ih =>
    obtain ⟨hc, hhas⟩ := ht.builds (ih ha).sound
    exact ((ih ha).trans hc).trans (h.ensures (builds_declareType ident hc.sound hhas))
  | pointer ident _ _ hp hd h ih =>
    obtain ⟨hc, hhas, hlow, hpointer⟩ := builds_beginPointer hp (ih ha).sound
    have hd := hd.ensures (builds_declareType ident hc.sound hhas)
    have hbase := h.builds hd.sound hlow (hd.store.isPointer hpointer)
    exact (((ih ha).trans hc).trans hd).trans hbase
  | noVars a => exact ha.refl
  | vars names _ ht _ h ih =>
    obtain ⟨hc, hhas⟩ := ht.builds (ih ha).sound
    exact ((ih ha).trans hc).trans (h.ensures (builds_declareVariables names _ _ hc.sound hhas))
  | silent hb _ hd ih =>
    have hfirst := ha.silent hb
    exact (hfirst.trans (ih hfirst.sound)).silent hd

/-- A procedure is declared before its parameters and gets its type behind them. -/
lemma ReadsBlock.builds_header {d e : Analysis} (span variadic) (ha : a.Sound low strict)
    (hi : (beginProcedure ident).Succeeds a id b) (hf : ReadsFormals b params result c)
    (ht : (procedureType span params variadic result).Succeeds c t d)
    (hs : (setSignature id t).Succeeds d () e) : a.Builds low strict e := by
  obtain ⟨b', hdecl, hlevel, rfl⟩ := hi.ensures (beginProcedure_ensures ident)
  have hab := ha.declares hdecl ⟨.pseudo _ _, a.store.free_pseudo low _, fun _ => rfl,
    fun _ => hlevel, fun _ => .inl rfl, rfl⟩
  have hopen := hab.sound.opens (id :: b'.procedures)
  obtain ⟨hformals, hps, hresult⟩ := hf.builds hopen.sound
  have hbc := hopen.trans hformals
  have hrole : (c.store.decl id).role = .procedure .defined := by
    rw [hbc.store.decl hdecl.lt, hdecl.decl]
    rfl
  obtain ⟨result', rfl, rfl⟩ := ht.ensures (procedureType_ensures span params variadic result)
  have he : e = _ := (congrArg Prod.snd hs.run).symm
  subst he
  exact (hab.trans hbc).trans
    (hbc.sound.build (.sign .refl hrole hps.1 hps.2 hresult) rfl rfl rfl)

lemma ReadsBlock.builds (h : ReadsBlock a p b) (ha : a.Sound low strict) :
    a.Builds low strict b := by
  induction h with
  | block hc ht hv hs hp hb ih =>
    have hc := hc.builds ha
    have ht := ht.builds hc.sound
    have hv := hv.builds ht.sound
    have hs := hs.ensures (builds_settleForwards hv.sound)
    have hbefore := ((hc.trans ht).trans hv).trans hs
    exact (hbefore.trans (ih hs.sound)).trans ((ih hs.sound).sound.restores hb.restores_body)
  | external ident convention name _ ht hb h =>
    obtain ⟨hsign, hhas⟩ := ht.builds ha
    have hlater := hsign.silent hb
    rw [← hb.store] at hhas
    exact hlater.trans (h.ensures (builds_declareExternal ident convention name hlater.sound hhas))
  | defined ident span variadic last _ hi hf ht hs hb h ih =>
    have hh := ReadsBlock.builds_header ident span variadic ha hi hf ht hs
    obtain ⟨_, hend, _⟩ := h.ensures (endProcedure_ensures _ _ last)
    exact ((hh.trans (ih hh.sound)).trans ((ih hh.sound).sound.closes _)).silent hend
  | nil a => exact ha.refl
  | snoc hs h ihs ih => exact (ihs ha).trans (ih (ihs ha).sound)
  | silent hb _ hd ih =>
    have hfirst := ha.silent hb
    exact (hfirst.trans (ih hfirst.sound)).silent hd

end Oberon
