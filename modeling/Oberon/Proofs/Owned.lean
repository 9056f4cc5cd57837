import Oberon.Proofs.Closed

/-!
# Oberon.Proofs.Owned

Procedures have types of their own. From the heading of a procedure on, no other declaration has the
type that was made for it, and no type has it as a part. So whatever is done to the type of a
procedure matters to that procedure alone. Types made before place `low` are not looked at.
-/

namespace Oberon

variable {id : DeclId}
namespace Store

variable {s s' : Store}

/-- There is a procedure with the type at place `i`. -/
def Owned (s : Store) (low i : Nat) : Prop :=
  low ≤ i ∧ ∃ id, (s.decl id).role = .procedure .defined ∧ s.typeOf id = .composite i

/-- A type that any number of declarations may have. -/
def Free (s : Store) (low : Nat) (t : Ty) : Prop := ∀ i, t = .composite i → ¬ s.Owned low i

structure Unshared (low : Nat) (s : Store) : Prop where
  form : ∀ i, s.Owned low i → ∃ sig, s.form? (.composite i) = some (.procedure sig)
  only : ∀ i, s.Owned low i → ∀ x y, s.typeOf x = .composite i → s.typeOf y = .composite i → x = y
  parts : ∀ t f, s.form? t = some f → ∀ u ∈ s.parts f, s.Free low u

lemma Closed.lt_of_owned (h : s.Closed) (hi : s.Owned low i) : i < s.types.size := by
  obtain ⟨_, id, _, ht⟩ := hi
  exact h.typeOf id i ht

lemma free_basic (s : Store) (low b) : s.Free low (.basic b) := fun _ h => by cases h

lemma free_pseudo (s : Store) (low p) : s.Free low (.pseudo p) :=
  fun _ h => by cases h

lemma Free.mono (h : s.Free low t) (ht : s.Has t)
    (ho : ∀ i, i < s.types.size → s'.Owned low i → s.Owned low i) : s'.Free low t :=
  fun i hi hi' => h i hi (ho i (ht i hi) hi')

/-- Declarations alone decide which types are owned. -/
lemma owned_iff_of_decls (h : s'.decls = s.decls) (i) : s'.Owned low i ↔ s.Owned low i := by
  simp only [Owned, typeOf, decl_eq_of_decls h]

/-- A new type has no owner. -/
lemma Closed.free_new (h : s.Closed) (hd : s'.decls = s.decls) (hi : s.types.size ≤ i) :
    s'.Free low (.composite i) := by
  rintro _ ⟨⟩ ho
  exact absurd (h.lt_of_owned ((owned_iff_of_decls hd i).1 ho)) (Nat.not_lt.2 hi)

lemma decls_addRows (s : Store) (member lengths) : (s.addRows member lengths).2.decls =
    s.decls := by
  induction lengths with
  | nil => rfl
  | cons n rest ih => exact ih

lemma decls_addArray (s : Store) (lengths member) :
    (s.addArray lengths member).2.decls = s.decls := decls_addRows s member lengths.tail

lemma lt_of_procedure (h : (s.decl id).role = .procedure origin) : id.In s := by
  refine Nat.lt_of_not_le fun hle => ?_
  rw [decl, Array.getElem?_eq_none hle] at h
  cases h

namespace Unshared

/-- Nothing is owned yet. -/
lemma of_closed (h : s.Closed) : s.Unshared s.types.size := by
  have hnone (i) (hi : s.Owned s.types.size i) : False :=
    absurd (h.lt_of_owned hi) (Nat.not_lt.2 hi.1)
  exact ⟨fun i hi => (hnone i hi).elim, fun i hi => (hnone i hi).elim,
    fun _ _ _ _ _ i _ hi => hnone i hi⟩

section

variable (h : s.Unshared low)
include h

/-- Only a procedure has the type of a procedure. -/
lemma free_typeOf (hr : (s.decl id).role ≠ .procedure .defined) : s.Free low (s.typeOf id) := by
  intro i hi ho
  obtain ⟨_, id', hr', ht⟩ := ho
  cases h.only i ⟨‹_›, id', hr', ht⟩ id id' hi ht
  exact hr hr'

/-- Neither records nor pointers nor arrays are types of procedures. -/
lemma free_of_form (hf : s.form? t = some f) (hp : ∀ sig, f ≠ .procedure sig) : s.Free low t := by
  rintro i rfl ho
  obtain ⟨sig, hs⟩ := h.form i ho
  rw [hf] at hs
  cases hs
  exact hp sig rfl

lemma addDecl (hc : s.Closed) {d : Declaration} (hd : s.Free low d.type)
    (hp : d.role = .procedure .defined → d.type = .undefined) : (s.addDecl d).2.Unshared low := by
  have hforms : ∀ t, (s.addDecl d).2.form? t = s.form? t := form?_eq_of_types rfl
  have hold {id} (hid : id ≠ ⟨s.decls.size⟩) : (s.addDecl d).2.decl id = s.decl id := by
    rw [decl_addDecl, if_neg fun h => hid (congrArg DeclId.mk h)]
  have howned (i) (hi : (s.addDecl d).2.Owned low i) : s.Owned low i := by
    obtain ⟨hlow, id, hr, ht⟩ := hi
    by_cases hid : id = ⟨s.decls.size⟩
    · rw [hid, decl_addDecl_self] at hr
      rw [hid, typeOf, decl_addDecl_self, hp hr] at ht
      cases ht
    · rw [hold hid] at hr
      rw [typeOf, hold hid] at ht
      exact ⟨hlow, id, hr, ht⟩
  have hother {i} (hi : (s.addDecl d).2.Owned low i) {x : DeclId}
      (hx : (s.addDecl d).2.typeOf x = .composite i) : s.typeOf x = .composite i := by
    by_cases hid : x = ⟨s.decls.size⟩
    · rw [hid, typeOf, decl_addDecl_self] at hx
      exact absurd (howned i hi) (hd i hx)
    · rwa [typeOf, hold hid] at hx
  refine ⟨fun i hi => ?_, fun i hi x y hx hy => ?_, fun t f hf u hu i hui hi => ?_⟩
  · rw [hforms]
    exact h.form i (howned i hi)
  · exact h.only i (howned i hi) x y (hother hi hx) (hother hi hy)
  · rw [hforms] at hf
    rw [(Widens.addDecl s d).parts (hc.fits t f hf).members] at hu
    exact h.parts t f hf u hu i hui (howned i hi)

/-- The declarations stay. -/
lemma of_decls (hd : s'.decls = s.decls)
    (hf : ∀ i sig, s.form? (.composite i) = some (.procedure sig) → s'.form? (.composite i) =
     some (.procedure sig))
    (hp : ∀ t f, s'.form? t = some f → s.form? t = some f ∨ ∀ u ∈ s.parts f, s.Free low u) :
    s'.Unshared low := by
  have howned (i) : s'.Owned low i ↔ s.Owned low i := owned_iff_of_decls hd i
  have htype (x) : s'.typeOf x = s.typeOf x := by
    rw [typeOf, decl_eq_of_decls hd, ← typeOf]
  refine ⟨fun i hi => ?_, fun i hi x y hx hy => ?_, fun t f hft u hu i hui hi => ?_⟩
  · obtain ⟨sig, hs⟩ := h.form i ((howned i).1 hi)
    exact ⟨sig, hf i sig hs⟩
  · rw [htype] at hx hy
    exact h.only i ((howned i).1 hi) x y hx hy
  · rw [howned] at hi
    rw [parts_congr fun id _ => htype id] at hu
    rcases hp t f hft with hold | hnew
    · exact h.parts t f hold u hu i hui hi
    · exact hnew u hu i hui hi

lemma addType (hf : ∀ u ∈ s.parts f, s.Free low u) : (s.addType f).2.Unshared low := by
  refine h.of_decls rfl (fun i sig hs => ?_) fun t g hg => ?_
  · rw [form?_addType, if_neg, hs]
    rintro ⟨⟩
    exact Nat.lt_irrefl _ (lt_of_form? hs)
  · rw [form?_addType] at hg
    split at hg
    · cases hg
      exact .inr hf
    · exact .inl hg

lemma setForm (ht : s.isPointer t) (hb : s.isRecord base) :
    (s.setForm t (.pointer (some base))).Unshared low := by
  obtain ⟨old, hold⟩ := isPointer_iff.1 ht
  obtain ⟨r, hr⟩ := isRecord_iff.1 hb
  refine h.of_decls (by simp [Store.setForm]) (fun i sig hs => ?_) fun u g hg => ?_
  · rw [form?_setForm_of_ne, hs]
    rintro rfl
    rw [hold] at hs
    cases hs
  · rw [form?_setForm] at hg
    split at hg
    · next heq =>
      rw [← heq, hold] at hg
      cases hg
      refine .inr fun u hu => ?_
      cases List.mem_singleton.1 hu
      exact h.free_of_form hr fun _ h => by cases h
    · exact .inl hg

lemma setNaming (t id) : (s.setNaming t id).Unshared low :=
  h.of_decls (by simp [Store.setNaming]) (fun i sig hs => by rwa [form?_setNaming])
    fun u g hg => .inl (by rwa [form?_setNaming] at hg)

/-- A procedure gets a new type. -/
lemma sign (hc : s.Closed) {sig : Signature} (hr : (s.decl id).role = .procedure .defined)
    (hp : s.HasMembers sig.params) (hf : ∀ u ∈ s.parts (.procedure sig), s.Free low u ∧ s.Has u) :
    ((s.addType (.procedure sig)).2.setType id (.composite s.types.size)).Unshared low := by
  generalize hs' : (s.addType (.procedure sig)).2.setType id (.composite s.types.size) = s'
  have hforms (t) : s'.form? t = (s.addType (.procedure sig)).2.form? t := by
    rw [← hs', form?_setType]
  have hself : s'.typeOf id = .composite s.types.size := by
    rw [← hs']
    exact typeOf_setType (lt_of_procedure hr) _
  have hold {x} (hx : x ≠ id) : s'.typeOf x = s.typeOf x := by
    rw [← hs', typeOf, decl_setType_of_ne (Ne.symm hx)]
    rfl
  have hrole (x) : (s'.decl x).role = (s.decl x).role := by
    rw [← hs', decl_setType]
    rfl
  -- the new type is the only one that becomes owned
  have howned (i) (hi : s'.Owned low i) : i = s.types.size ∨ s.Owned low i := by
    obtain ⟨hlow, x, hx, ht⟩ := hi
    by_cases hid : x = id
    · rw [hid, hself] at ht
      cases ht
      exact .inl rfl
    · rw [hrole] at hx
      rw [hold hid] at ht
      exact .inr ⟨hlow, x, hx, ht⟩
  have hfree {u} (hu : s.Free low u) (hhas : s.Has u) : s'.Free low u := by
    intro i hi ho
    rcases howned i ho with rfl | ho
    · exact Nat.lt_irrefl _ (hhas _ hi)
    · exact hu i hi ho
  have hother {i} (hi : s.Owned low i) {x} (hx : s'.typeOf x = .composite i) :
      s.typeOf x = .composite i := by
    by_cases hid : x = id
    · rw [hid, hself] at hx
      cases hx
      exact absurd (hc.lt_of_owned hi) (Nat.lt_irrefl _)
    · rwa [hold hid] at hx
  have hnew {x} (hx : s'.typeOf x = .composite s.types.size) : x = id := by
    by_cases hid : x = id
    · exact hid
    · rw [hold hid] at hx
      exact absurd (hc.typeOf x _ hx) (Nat.lt_irrefl _)
  have hparts {f : Form} (hm : s.HasMembers f.members) : s'.parts f = s.parts f := by
    refine parts_congr fun x hx => hold ?_
    rintro rfl
    have := (hm x hx).2
    simp [Declaration.isMember, hr] at this
  refine ⟨fun i hi => ?_, fun i hi x y hx hy => ?_, fun t f hft u hu => ?_⟩
  · rw [hforms, form?_addType]
    rcases howned i hi with rfl | hi
    · exact ⟨sig, if_pos rfl⟩
    · obtain ⟨sig', hs⟩ := h.form i hi
      refine ⟨sig', by rw [if_neg, hs]; rintro ⟨⟩; exact Nat.lt_irrefl _ (hc.lt_of_owned hi)⟩
  · rcases howned i hi with rfl | hi
    · rw [hnew hx, hnew hy]
    · exact h.only i hi x y (hother hi hx) (hother hi hy)
  · rw [hforms, form?_addType] at hft
    split at hft
    · cases hft
      rw [hparts (f := .procedure sig) hp] at hu
      exact hfree (hf u hu).1 (hf u hu).2
    · rw [hparts (hc.fits t f hft).members] at hu
      exact hfree (h.parts t f hft u hu) ((hc.fits t f hft).parts u hu)

end

end Unshared
end Store
end Oberon
