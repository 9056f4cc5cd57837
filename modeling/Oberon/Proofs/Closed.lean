import Oberon.Proofs.Growth

/-!
# Oberon.Proofs.Closed

Stores in which every reference leads somewhere. The parts of a type and the types of declarations
are in the store, and arrays and procedure types are made behind their parts, so that only records
and pointers can refer to themselves.
-/

namespace Oberon

open List Option

variable {id : DeclId}

/-- Not a composite type, or one with a place before `n`. -/
def Ty.Below (n : Nat) (t : Ty) : Prop := ∀ i, t = .composite i → i < n

namespace Ty.Below

variable {t : Ty}

lemma mono (h : t.Below m) (hmn : m ≤ n) : t.Below n :=
  fun i hi => Nat.lt_of_lt_of_le (h i hi) hmn

lemma basic (n b) : (Ty.basic b).Below n := fun _ h => by cases h

lemma pseudo (n p) : (Ty.pseudo p).Below n := fun _ h => by cases h

lemma composite (h : i < n) : (Ty.composite i).Below n := fun _ hi => by cases hi; exact h

instance (n : Nat) : (t : Ty) → Decidable (t.Below n)
  | .composite i => decidable_of_iff (i < n) ⟨composite, fun h => h i rfl⟩
  | .basic b => isTrue (basic n b)
  | .pseudo p => isTrue (pseudo n p)

end Ty.Below

/-- A field or a parameter. -/
def Declaration.isMember (d : Declaration) : Bool :=
  match d.role with
  | .field _ => true
  | .parameter _ _ => true
  | _ => false

namespace Form

/-- The declarations a form refers to. -/
def members : Form → List DeclId
  | .record r => r.fields
  | .procedure s => s.params
  | _ => []

/-- Made behind its parts. -/
def isLate : Form → Bool
  | .array _ => true
  | .procedure _ => true
  | _ => false

end Form

namespace Store

variable {s s' : Store}

/-- The types a form refers to. -/
def parts (s : Store) : Form → List Ty
  | .array a => a.types
  | .record r => r.base.toList ++ r.fields.map s.typeOf
  | .pointer base => base.toList
  | .procedure sig => sig.params.map s.typeOf ++ sig.result.toList

/-- A type that can be referred to. -/
abbrev Has (s : Store) (t : Ty) : Prop := t.Below s.types.size

/-- Declared fields or parameters. -/
def HasMembers (s : Store) (ids : List DeclId) : Prop :=
  ∀ id ∈ ids, id.index < s.decls.size ∧ (s.decl id).isMember = true

/-- A form whose parts are there. -/
structure Fits (s : Store) (f : Form) : Prop where
  members : s.HasMembers f.members
  parts : ∀ t ∈ s.parts f, s.Has t

structure Closed (s : Store) : Prop where
  typeOf : ∀ id, s.Has (s.typeOf id)
  fits : ∀ t f, s.form? t = some f → s.Fits f
  earlier : ∀ i f, s.form? (.composite i) = some f → f.isLate = true → ∀ u ∈ s.parts f, u.Below i
  named : ∀ t id, s.naming? t = some id → id.index < s.decls.size ∧ (s.decl id).role = .type ∧
    (s.decl id).module.isSome = true

lemma typeOf_of_le (h : s.decls.size ≤ id.index) : s.typeOf id = .undefined := by
  simp only [typeOf, decl, Array.getElem?_eq_none h]
  rfl

lemma has_of_form? (h : s.form? t = some f) : s.Has t := by
  rintro i rfl
  exact lt_of_form? h

lemma form?_of_has (h : i < s.types.size) : ∃ f, s.form? (.composite i) = some f := by
  simp only [form?, entry?, Array.getElem?_eq_getElem h]
  exact ⟨_, rfl⟩

lemma parts_congr (h : ∀ id ∈ f.members, s'.typeOf id = s.typeOf id) : s'.parts f =
    s.parts f := by
  cases f with
  | record r => exact congrArg (r.base.toList ++ ·) (map_congr_left h)
  | procedure sig => exact congrArg (· ++ sig.result.toList) (map_congr_left h)
  | _ => rfl

/-- More types and more declarations. -/
structure Widens (s s' : Store) : Prop where
  decls_le : s.decls.size ≤ s'.decls.size
  types_le : s.types.size ≤ s'.types.size
  decl : ∀ id : DeclId, id.index < s.decls.size → s'.decl id = s.decl id

namespace Widens

protected lemma refl (s : Store) : s.Widens s := ⟨Nat.le_refl _, Nat.le_refl _, fun _ _ => rfl⟩

section

variable (h : s.Widens s')
include h

lemma lt (hid : id.In s) :
    id.In s' := Nat.lt_of_lt_of_le hid h.decls_le

protected lemma trans (h' : s'.Widens s'') : s.Widens s'' where
  decls_le := Nat.le_trans h.decls_le h'.decls_le
  types_le := Nat.le_trans h.types_le h'.types_le
  decl id hid := (h'.decl id (h.lt hid)).trans (h.decl id hid)

lemma has (ht : s.Has t) : s'.Has t := ht.mono h.types_le

lemma typeOf (hid : id.In s) :
    s'.typeOf id = s.typeOf id := by rw [Store.typeOf, h.decl id hid, Store.typeOf]

lemma hasMembers (hm : s.HasMembers ids) : s'.HasMembers ids := by
  intro id hid
  obtain ⟨hlt, hmember⟩ := hm id hid
  exact ⟨h.lt hlt, by rw [h.decl id hlt]; exact hmember⟩

lemma parts (hf : s.HasMembers f.members) :
    s'.parts f = s.parts f := parts_congr fun id hid => h.typeOf (hf id hid).1

lemma fits (hf : s.Fits f) : s'.Fits f where
  members := h.hasMembers hf.members
  parts := by
    rw [h.parts hf.members]
    exact fun t ht => h.has (hf.parts t ht)

end

lemma addDecl (s : Store) (d) : s.Widens (s.addDecl d).2 :=
  ⟨by simp, Nat.le_refl _, fun _ hid => decl_addDecl_of_lt d hid⟩

lemma addType (s : Store) (f) : s.Widens (s.addType f).2 :=
  ⟨Nat.le_refl _, by simp, fun _ _ => rfl⟩

lemma addRows (s : Store) (member lengths) : s.Widens (s.addRows member lengths).2 := by
  induction lengths with
  | nil => exact .refl s
  | cons n rest ih => exact ih.trans (.addType _ _)

lemma addArray (s : Store) (lengths member) : s.Widens (s.addArray lengths member).2 :=
  (addRows s member lengths.tail).trans (.addType _ _)

lemma modifyType (s : Store) (t f) : s.Widens (s.modifyType t f) :=
  ⟨by simp, by simp, fun id _ => decl_eq_of_decls (by simp) id⟩

end Widens

namespace Closed

section

variable (h : s.Closed)
include h

/-- The forms of a wider store are those of the store it comes from, or fit. -/
lemma of_widens (hw : s.Widens s') (ht : ∀ id, id.In s ∨ s'.Has (s'.typeOf id))
    (hf : ∀ t f, s'.form? t = some f → s.form? t = some f ∨ s'.Fits f ∧ (f.isLate → ∀ i, t =
     .composite i → ∀ u ∈ s'.parts f, u.Below i))
    (hn : ∀ t id, s'.naming? t = some id → s.naming? t = some id ∨ id.In s' ∧ (s'.decl id).role =
     .type ∧ (s'.decl id).module.isSome) : s'.Closed where
  typeOf id := by
    rcases ht id with hid | hid
    · rw [hw.typeOf hid]
      exact hw.has (h.typeOf id)
    · exact hid
  fits t f hform := (hf t f hform).elim (fun hold => hw.fits (h.fits t f hold)) And.left
  earlier i f hform hlate := by
    rcases hf _ f hform with hold | hnew
    · rw [hw.parts (h.fits _ f hold).members]
      exact h.earlier i f hold hlate
    · exact hnew.2 hlate i rfl
  named t id hid := by
    rcases hn t id hid with hold | hnew
    · obtain ⟨hlt, hrole, hmodule⟩ := h.named t id hold
      rw [hw.decl id hlt]
      exact ⟨hw.lt hlt, hrole, hmodule⟩
    · exact hnew

lemma addDecl {d : Declaration} (hd : s.Has d.type) : (s.addDecl d).2.Closed := by
  refine h.of_widens (.addDecl s d) (fun id => ?_) (fun t f hf => .inl ?_) fun t id hid => .inl ?_
  · by_cases hid : id.In s
    · exact .inl hid
    · refine .inr ?_
      rw [Store.typeOf, decl_addDecl]
      split
      · exact hd
      · exact h.typeOf id
  · rwa [form?_eq_of_types rfl] at hf
  · rwa [naming?_eq_of_types rfl] at hid

lemma addType (hf : s.Fits f) : (s.addType f).2.Closed := by
  have hw := Widens.addType s f
  refine h.of_widens hw (fun id => ?_) (fun t g hg => ?_) fun t id hid => .inl (naming?_of_addType hid)
  · exact (Nat.lt_or_ge id.index s.decls.size).imp_right fun hid => hw.has (h.typeOf id)
  · rw [form?_addType] at hg
    split at hg
    · next ht =>
      cases hg
      refine .inr ⟨hw.fits hf, fun _ i hi u hu => ?_⟩
      rw [ht] at hi
      cases hi
      rw [hw.parts hf.members] at hu
      exact hf.parts u hu
    · exact .inl hg

lemma setForm (hf : s.Fits f) (hlate : f.isLate = false) (t) : (s.setForm t f).Closed := by
  have hw : s.Widens (s.setForm t f) := .modifyType s t _
  refine h.of_widens hw (fun id => ?_) (fun u g hg => ?_) fun u id hid => .inl ?_
  · exact (Nat.lt_or_ge id.index s.decls.size).imp_right fun hid => by
      rw [typeOf_of_le (by simpa [Store.setForm] using hid)]
      exact .pseudo _ _
  · rw [form?_setForm] at hg
    split at hg
    · obtain ⟨_, _, rfl⟩ := map_eq_some_iff.1 hg
      exact .inr ⟨hw.fits hf, fun hl => by rw [hlate] at hl; cases hl⟩
    · exact .inl hg
  · rwa [naming?_setForm] at hid

lemma setNaming (hlt : id.In s) (hrole : (s.decl id).role = .type)
    (hmodule : (s.decl id).module.isSome) (t) : (s.setNaming t id).Closed := by
  have hw : s.Widens (s.setNaming t id) := .modifyType s t _
  refine h.of_widens hw (fun id' => ?_) (fun u g hg => .inl ?_) fun u id' hid => ?_
  · exact (Nat.lt_or_ge id'.index s.decls.size).imp_right fun hid => by
      rw [typeOf_of_le (by simpa [Store.setNaming] using hid)]
      exact .pseudo _ _
  · rwa [form?_setNaming] at hg
  · rcases naming?_of_setNaming hid with rfl | hold
    · rw [hw.decl id' hlt]
      exact .inr ⟨hw.lt hlt, hrole, hmodule⟩
    · exact .inl hold

/-- What is neither a field nor a parameter may get another type. -/
lemma setType (hid : (s.decl id).isMember = false) (ht : s.Has t) : (s.setType id t).Closed := by
  have hdecl (other) := decl_setType s id other t
  have hsize : (s.setType id t).decls.size = s.decls.size := by simp [Store.setType]
  have hmembers {ids} (hm : s.HasMembers ids) : (s.setType id t).HasMembers ids := by
    intro m hmem
    rw [hdecl, hsize]
    exact hm m hmem
  have hparts {f : Form} (hf : s.HasMembers f.members) :
      (s.setType id t).parts f = s.parts f := by
    refine parts_congr fun m hm => ?_
    have hne : id ≠ m := by
      rintro rfl
      rw [(hf _ hm).2] at hid
      cases hid
    rw [Store.typeOf, decl_setType_of_ne hne, Store.typeOf]
  refine ⟨fun other => ?_, fun u f hf => ?_, fun i f hf => ?_, fun u id' hid' => ?_⟩
  · simp only [Store.typeOf, Store.setType, decl_modifyDecl]
    split
    · exact ht
    · exact h.typeOf other
  · rw [form?_setType] at hf
    have hfits := h.fits u f hf
    exact ⟨hmembers hfits.members, by rw [hparts hfits.members]; exact hfits.parts⟩
  · rw [form?_setType] at hf
    rw [hparts (h.fits _ f hf).members]
    exact h.earlier i f hf
  · rw [naming?_eq_of_types rfl] at hid'
    obtain ⟨hlt, hrole, hmodule⟩ := h.named u id' hid'
    rw [hdecl, hsize]
    exact ⟨hlt, hrole, hmodule⟩

end

end Closed

/-! ## Forms that fit -/

lemma hasMembers_addDecl (s : Store) {d : Declaration} (hd : d.isMember) :
    (s.addDecl d).2.HasMembers [⟨s.decls.size⟩] := by
  refine forall_mem_singleton.2 ⟨by simp, ?_⟩
  rw [decl_addDecl_self]
  exact hd

lemma Closed.fits_record (h : s.Closed) (level) (hf : s.HasMembers fields)
    (hb : ∀ t ∈ base, s.Has t) : s.Fits (.record ⟨fields, base, level⟩) := by
  refine ⟨hf, fun t ht => ?_⟩
  rcases mem_append.1 ht with ht | ht
  · exact hb t (mem_toList.1 ht)
  · obtain ⟨id, _, rfl⟩ := mem_map.1 ht
    exact h.typeOf id

lemma Closed.fits_procedure (h : s.Closed) {sig : Signature} (hp : s.HasMembers sig.params)
    (hr : ∀ t ∈ sig.result, s.Has t) : s.Fits (.procedure sig) := by
  refine ⟨hp, fun t ht => ?_⟩
  rcases mem_append.1 ht with ht | ht
  · obtain ⟨id, _, rfl⟩ := mem_map.1 ht
    exact h.typeOf id
  · exact hr t (mem_toList.1 ht)

lemma fits_pointer (hb : ∀ t ∈ base, s.Has t) : s.Fits (.pointer base) :=
  ⟨nofun, fun t ht => hb t (mem_toList.1 ht)⟩

lemma has_addType (s : Store) (f) : (s.addType f).2.Has (s.addType f).1 :=
  .composite (by simp)

lemma has_addArray (s : Store) (lengths member) :
    (s.addArray lengths member).2.Has (s.addArray lengths member).1 := has_addType _ _

/-! ## Arrays -/

lemma fits_array {lengths : List Nat} {types : List Ty} (h : ∀ t ∈ types, s.Has t) :
    s.Fits (.array ⟨lengths, types⟩) := ⟨nofun, h⟩

lemma addRows_spec (h : s.Closed) (hm : s.Has member) (lengths) :
    (s.addRows member lengths).2.Closed ∧ ∀ t ∈ (s.addRows member lengths).1,
    (s.addRows member lengths).2.Has t := by
  induction lengths with
  | nil => exact ⟨h, forall_mem_singleton.2 hm⟩
  | cons n rest ih =>
    refine ⟨ih.1.addType (fits_array ih.2), forall_mem_cons.2 ⟨.composite ?_, fun t ht => ?_⟩⟩
    · simp [addRows]
    · exact (Widens.addType _ _).has (ih.2 t ht)

lemma Closed.addArray (h : s.Closed) (hm : s.Has member) (lengths) :
    (s.addArray lengths member).2.Closed := by
  obtain ⟨hrows, htypes⟩ := addRows_spec h hm lengths.tail
  exact hrows.addType (fits_array htypes)

end Store
end Oberon
