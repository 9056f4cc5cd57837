import Oberon.Proofs.Blocks
import Oberon.Proofs.Libraries

/-!
# Oberon.Proofs.Whole

Whole stores: everything in them is concrete, and every pointer has its base, a record. The predefined
store is whole, and an import keeps a store whole if the interface was taken from a whole store. So a module
that is compiled against a library of compiled modules starts from a whole store, and ends with one.
-/

namespace Oberon

open Interface Store Array List Option Table

variable {s : Store}
    {kind : Kind}

/-- Pointers lead to records, those that are predefined apart. -/
def Store.Pointing (s : Store) : Prop :=
  ∀ t base, t.Concrete → s.form? t = some (.pointer (some base)) → s.isRecord base = true

/-- Everything is concrete, and no pointer lacks its base. -/
structure Store.Whole (s : Store) : Prop where
  concrete : s.Concrete
  based : ∀ t, ¬ s.Baseless t
  pointing : s.Pointing

namespace Store

variable {s s' : Store}

/-- What was a record is one still, and no pointer got another base. -/
lemma Pointing.of_forms (h : s.Pointing) (hr : ∀ t, s.isRecord t → s'.isRecord t)
    (hp : ∀ t base, s'.form? t = some (.pointer (some base)) → s.form? t =
     some (.pointer (some base))) : s'.Pointing :=
  fun t base ht hf => hr base (h t base ht (hp t base hf))

lemma isRecord_addType (h : s.isRecord t) : (s.addType f).2.isRecord t := by
  obtain ⟨r, hr⟩ := isRecord_iff.1 h
  refine isRecord_iff.2 ⟨r, ?_⟩
  rw [form?_addType, if_neg, hr]
  rintro rfl
  exact Nat.lt_irrefl _ (lt_of_form? hr)

lemma isRecord_of_forms (hf : ∀ t, s'.form? t = s.form? t) (h : s.isRecord t) :
    s'.isRecord t := by
  rw [isRecord_iff, hf]
  exact isRecord_iff.1 h

lemma isRecord_setForm (hf : ∀ r, s.form? u = some (.record r) → ∃ r', f = .record r')
    (h : s.isRecord t) : (s.setForm u f).isRecord t := by
  obtain ⟨r, hr⟩ := isRecord_iff.1 h
  rw [isRecord_iff, form?_setForm]
  split
  · next heq =>
    subst heq
    obtain ⟨r', rfl⟩ := hf r hr
    exact ⟨r', by rw [hr]; rfl⟩
  · exact ⟨r, hr⟩

lemma Pointing.addType (h : s.Pointing) (hf : ∀ base, f ≠ .pointer (some base)) :
    (s.addType f).2.Pointing :=
  h.of_forms (fun _ => isRecord_addType) fun _ base => pointer_of_addType (hf base)

lemma Pointing.addArray (h : s.Pointing) (lengths member) :
    (s.addArray lengths member).2.Pointing :=
  h.of_forms (fun t ht => by rwa [isRecord, record?_addArray]) fun _ _ => pointer_of_addArray

/-- A pointer gets a record as its base. -/
lemma Pointing.setBase (h : s.Pointing) (hu : s.isPointer u) (hb : ∀ b ∈ base, s.isRecord b) : (s.setForm u (.pointer base)).Pointing := by
  obtain ⟨old, hold⟩ := isPointer_iff.1 hu
  have hrecord {t} (ht : s.isRecord t) :
      (s.setForm u (.pointer base)).isRecord t := by
    refine isRecord_setForm (fun r hr => ?_) ht
    rw [hold] at hr
    cases hr
  intro t b ht hf
  rw [form?_setForm] at hf
  split at hf
  · obtain ⟨_, _, heq⟩ := map_eq_some_iff.1 hf
    exact hrecord (hb b (by cases heq; rfl))
  · exact hrecord (h t b ht hf)

lemma Builds.pointing {strict : Prop} (h : s.Builds module low strict s') (hs : s.Pointing) :
    s'.Pointing := by
  induction h with
  | refl => exact hs
  | addDecl _ _ ih => exact ih
  | addArray _ _ _ ih | addRecord _ _ _ _ _ _ ih | addPointer _ ih
  | addProcedure _ _ _ _ ih => exact ih.addType (by simp)
  | setBase _ _ hp hb _ ih => exact ih.setBase hp (by simpa using hb)
  | setNaming _ _ _ _ _ ih =>
    exact ih.of_forms (fun _ => isRecord_of_forms fun _ => form?_setNaming _ _ _ _)
      fun t base hf => by rwa [form?_setNaming] at hf
  | sign _ _ _ _ _ ih => exact ih.addType (by simp)

end Store

/-- Fields and parameters. -/
lemma Store.Concrete.typeOf_member (h : s.Concrete) (hm : s.HasMembers ids) (hs : s.Sourced ids)
    {id : DeclId} (hid : id ∈ ids) : (s.typeOf id).Concrete := by
  obtain ⟨hlt, hmember⟩ := hm id hid
  have hd := h.decls id hlt
  unfold Declaration.Concrete at hd
  unfold Declaration.isMember at hmember
  cases hrole : (s.decl id).role with
  | field index =>
    rw [hrole] at hd
    exact hd
  | parameter byReference index =>
    rw [hrole] at hd
    exact hd (hs id hid).2
  | _ =>
    rw [hrole] at hmember
    cases hmember

/-! ## What is predefined -/

namespace Universe

/-- Is this a type with a basic type, a parameter or a procedure with a predefined signature? -/
def isPlain (s : Store) (d : Declaration) : Bool :=
  match d.role with
  | .type => match d.type with
    | .basic _ => true
    | _ => false
  | .parameter _ _ => d.module.isNone
  | .procedure (.predefined _) => s.isProcedure d.type
  | _ => false

lemma standard_plain :
    (standard.store.decls.toList.all (isPlain standard.store)) ∧
      (standard.store.types.toList.all fun e => match e.form with
        | .pointer none => false
        | _ => true) := by
  decide +kernel

lemma concrete_of_isPlain (h : isPlain standard.store d) : d.Concrete := by
  unfold isPlain at h
  unfold Declaration.Concrete
  split at h
  · next hrole =>
    rw [hrole]
    split at h
    · next hbasic =>
      rw [hbasic]
      trivial
    · cases h
  · next hrole =>
    rw [hrole]
    intro hm
    rw [isNone_iff_eq_none.1 h] at hm
    cases hm
  · next hrole =>
    rw [hrole]
    exact h
  · cases h

lemma standard_whole : standard.store.Whole := by
  obtain ⟨hdecls, htypes⟩ := standard_plain
  have hnone {t : Ty} {f} (ht : t.Concrete) (hf : standard.store.form? t = some f) : False := by
    cases t with
    | composite k => exact absurd (lt_of_form? hf) (Nat.not_lt_of_le ht)
    | _ => cases hf
  refine ⟨⟨Nat.le_refl _, fun _ _ h => h, fun id hid => ?_, fun t f ht hf => (hnone ht hf).elim⟩,
    fun t ht => ?_, fun t base ht hf => (hnone ht hf).elim⟩
  · refine concrete_of_isPlain (List.all_eq_true.1 hdecls _ ?_)
    rw [decl, Array.getElem?_eq_getElem hid]
    exact mem_toList_iff.2 (getElem_mem hid)
  · unfold Store.Baseless form? at ht
    obtain ⟨entry, hentry, hform⟩ := map_eq_some_iff.1 ht
    cases t with
    | composite k =>
      have hmem : entry ∈ standard.store.types.toList :=
        mem_toList_iff.2 (mem_of_getElem? hentry)
      have hfound := all_eq_true.1 htypes entry hmem
      simp [hform] at hfound
    | _ => cases hentry

end Universe

/-- Only predefined procedures have predefined types. -/
lemma Ty.Concrete.signature?_eq_none (h : t.Concrete) : Universe.standard.store.signature? t =
    none := by
  cases t with
  | composite k =>
    by_contra hne
    obtain ⟨sig, hsig⟩ := ne_none_iff_exists'.1 hne
    exact absurd (lt_of_form? (signature?_eq_some.1 hsig)) (Nat.not_lt_of_le h)
  | _ => rfl

/-! ## What an interface shows -/

namespace Interface

variable {s0 : Store} {table : Table} {i : Interface}

/-- The type of an interface stands for a concrete one. -/
def Table.ShowsConcrete (table : Table) (v : Ty) : Prop := ∃ u : Ty, u.Concrete ∧ table.Stands u v

lemma Depicts.shape (hd : Depicts s0 ids0 table i) (hv : table.ShowsConcrete (.composite place))
    (hi : i.types[place]? = some item) : ∃ t f, t.Concrete ∧ s0.form? t = some f ∧
    Shows s0 table.Stands f item.shape := by
  obtain ⟨u, hu, hstands⟩ := hv
  cases u with
  | composite id =>
    obtain ⟨place', hlookup, heq⟩ := hstands
    cases heq
    obtain ⟨entry, item', hentry, hitem, _, hshows⟩ := hd.filled id place hlookup
    rw [← hd.types, hi] at hitem
    cases hitem
    exact ⟨_, entry.form, hu, by simp [form?, entry?, hentry], hshows⟩
  | _ => cases hstands

lemma Table.showsConcrete_of_rel (h : Option.Rel table.Stands base base')
    (hb : ∀ t ∈ base, t.Concrete) : ∀ v ∈ base', table.ShowsConcrete v := by
  cases h with
  | some h =>
    intro v hv
    cases hv
    exact ⟨_, hb _ rfl, h⟩
  | none => simp

lemma Table.showsConcrete_of_forall₂ {α : Type} {R : DeclId → α → Prop} {type : α → Ty}
    {xs : List α} (h : List.Forall₂ R ids xs)
    (hr : ∀ id x, R id x → table.Stands (s0.typeOf id) (type x))
    (hids : ∀ id ∈ ids, (s0.typeOf id).Concrete) : ∀ x ∈ xs, table.ShowsConcrete (type x) := by
  induction h with
  | nil => simp
  | cons h _ ih =>
    rw [forall_mem_cons] at hids ⊢
    exact ⟨⟨_, hids.1, hr _ _ h⟩, ih hids.2⟩

/-- What is to be built stands for concrete types. -/
def BuildPhrase.Shown (table : Table) : BuildPhrase → Prop
  | .type v _ => table.ShowsConcrete v
  | .option v _ => ∀ u ∈ v, table.ShowsConcrete u
  | .members _ ms _ => ∀ m ∈ ms, table.ShowsConcrete m.type

/-- What was built is concrete. -/
def BuildPhrase.Concrete (s : Store) : BuildPhrase → Prop
  | .type _ t => t.Concrete
  | .option _ t => ∀ u ∈ t, u.Concrete
  | .members _ _ ids => s.Sourced ids

lemma Member.concrete_declared {m : Member} (ht : t.Concrete) (module index) :
    (m.declared module index t).Concrete := by
  obtain ⟨name, mode, type, exported⟩ := m
  cases mode with
  | none => exact ht
  | some byReference => exact fun _ => ht

/-- The parts of a shape that stands for a concrete form. -/
lemma Depicts.shown (hd : Depicts s0 ids0 table i) (hs : s0.Closed) (hw : s0.Whole) (hv : table.ShowsConcrete (.composite place)) (hi : i.types[place]? = some item) :
    match item.shape with
    | .array _ member => table.ShowsConcrete member
    | .record base fields =>
      (∀ u ∈ base, table.ShowsConcrete u) ∧ ∀ f ∈ fields, table.ShowsConcrete f.type
    | .pointer base => base.isSome ∧ ∀ u ∈ base, table.ShowsConcrete u
    | .procedure params result _ =>
      (∀ p ∈ params, table.ShowsConcrete p.type) ∧ ∀ u ∈ result, table.ShowsConcrete u := by
  obtain ⟨t, f, ht, hf, hshows⟩ := hd.shape hv hi
  have hform := hw.concrete.forms t f ht hf
  have hmembers := (hs.fits t f hf).members
  generalize item.shape = shape at hshows
  cases hshows with
  | array _ hm => exact ⟨_, hw.concrete.member ht (array?_eq_some.2 hf), hm⟩
  | record hb hfields =>
    exact ⟨showsConcrete_of_rel hb hform.1, showsConcrete_of_forall₂ hfields
      (fun _ _ h => h.2.2) fun id hid => hw.concrete.typeOf_member hmembers hform.2 hid⟩
  | pointer hb =>
    refine ⟨?_, showsConcrete_of_rel hb hform⟩
    cases hb with
    | some _ => rfl
    | none => exact absurd hf (hw.based t)
  | procedure hp hr _ =>
    exact ⟨showsConcrete_of_forall₂ hp (fun _ _ h => h.2.2) fun id hid =>
      hw.concrete.typeOf_member hmembers hform.2 hid, showsConcrete_of_rel hr hform.1⟩

/-! ## Rebuilding -/

/-- The store and the types that have their place are concrete. -/
structure Rebuilding.Concrete (r : Rebuilding) : Prop where
  store : r.store.Concrete
  placed : ∀ index t, r.placed? index = some t → t.Concrete

variable {r r' : Rebuilding}

lemma attributes_of_widens (h : s.Widens s') : s.Attributes s' :=
  ⟨h.decls_le, fun id hid => by rw [h.decl id hid]⟩

lemma sourced_addDecl {d : Declaration} (hd : d.module.isSome) (h : (s.addDecl d).2.Widens s')
    (hids : s'.Sourced ids) : s'.Sourced (⟨s.decls.size⟩ :: ids) := by
  refine forall_mem_cons.2 ⟨⟨h.lt (by simp), ?_⟩, hids⟩
  rw [h.decl _ (by simp), decl_addDecl_self]
  exact hd

lemma concrete_nameType (h : s.Concrete) (ht : t.Concrete) (name) :
    (nameType s t name).Concrete := by
  cases name with
  | none => exact h
  | some n => exact Store.Concrete.setNaming (h.addDecl (d := importedDecl _ _ .type t false) ht) t _

namespace Rebuilding

lemma Concrete.setPlace (h : r.Concrete) (ht : t.Concrete) (index) :
    (r.setPlace index t).Concrete := by
  refine ⟨h.store, fun other u hu => ?_⟩
  rw [placed?_setPlace] at hu
  split at hu
  · cases hu
    exact ht
  · exact h.placed other u hu

lemma Concrete.start (h : r.Concrete) (hf : f.Concrete r.store) (index) :
    (r.start index f).Concrete :=
  Concrete.setPlace (r := r.withStore _) ⟨h.store.addType hf, h.placed⟩
    (h.store.composite (Nat.le_refl _)) index

lemma Concrete.finish (h : r.Concrete) (hs : s.Concrete) (ht : t.Concrete) (index name) :
    ((r.withStore s).finish index t name).Concrete :=
  Concrete.setPlace (r := r.withStore _) ⟨concrete_nameType hs ht name, h.placed⟩ ht index

end Rebuilding

lemma baseless_of_finish {name : Option TypeName}
    (h : ((r.withStore s).finish index t name).store.Baseless u) : s.Baseless u :=
  h.of_forms fun v => form?_nameType s t v name

lemma baseless_of_start (h : (r.start index f).store.Baseless t)
    (hne : t ≠ .composite r.store.types.size) : r.store.Baseless t := by
  have h : (r.store.addType f).2.form? t = _ := h
  rwa [form?_addType, if_neg hne] at h

/-- Rebuilding what stands for concrete types gives concrete ones, and no pointer without a base. -/
lemma Builds.concrete (h : Builds i False r p r') (hd : Depicts s0 ids0 table i) (hs : s0.Closed)
    (hw : s0.Whole) (hp : p.Shown table) (hr : r.Concrete) : r'.Concrete ∧ p.Concrete r'.store ∧
    ∀ t, r'.store.Baseless t → r.store.Baseless t := by
  induction h with
  | basic r b => exact ⟨hr, trivial, fun _ h => h⟩
  | pseudo r p =>
    obtain ⟨u, hu, hstands⟩ := hp
    cases u with
    | pseudo q => exact hu.elim
    | basic b => cases hstands
    | composite k =>
      obtain ⟨_, _, heq⟩ := hstands
      cases heq
  | known h => exact ⟨hr, hr.placed _ _ h, fun _ h => h⟩
  | lost r index h => exact h.elim
  | @array r r1 index name lengths member m hplaced hi hm ih =>
    obtain ⟨hr1, hmember, hbase⟩ := ih (hd.shown hs hw hp hi) hr
    have hnew := (hr1.store.addRows hmember lengths.tail).1.composite (Nat.le_refl _)
    refine ⟨hr1.finish (hr1.store.addArray hmember lengths) hnew index name, hnew, fun t ht => ?_⟩
    exact hbase t (Store.Baseless.of_addArray (baseless_of_finish ht))
  | @pointer r r1 index name base b hplaced hi hb ih =>
    obtain ⟨hsome, hshown⟩ := hd.shown hs hw hp hi
    obtain ⟨hr1, hconcrete, hbase⟩ := ih hshown (hr.start (by simp [Form.Concrete]) index)
    have hnew := hr.store.composite (Nat.le_refl _)
    refine ⟨hr1.finish (hr1.store.setForm (f := .pointer b) hnew.signature?_eq_none hconcrete) hnew
      index name, hnew, fun t ht => ?_⟩
    have hb : b ≠ Option.none := by
      cases hb with
      | none => cases hsome
      | some _ => simp
    obtain ⟨ht, hne⟩ := Store.Baseless.of_setForm (by simp [hb]) (baseless_of_finish ht)
    exact baseless_of_start (hbase t ht) hne
  | @record r r1 r2 index name base b fields ids hplaced hi hb hf ihb ihf =>
    obtain ⟨hshown, hfields⟩ := hd.shown hs hw hp hi
    obtain ⟨hr1, hconcrete, hbase⟩ := ihb hshown
      (hr.start (by simp [Form.Concrete, Store.Sourced]) index)
    obtain ⟨hr2, hids, hbase'⟩ := ihf (forall_mem_map.2 hfields) hr1
    have hnew := hr.store.composite (Nat.le_refl _)
    refine ⟨hr2.finish (hr2.store.setForm (f := .record ⟨ids, b, _⟩) hnew.signature?_eq_none
      ⟨hconcrete, hids⟩) hnew index name, hnew, fun t ht => ?_⟩
    obtain ⟨ht, hne⟩ := Store.Baseless.of_setForm (by simp) (baseless_of_finish ht)
    exact baseless_of_start (hbase t (hbase' t ht)) hne
  | @procedure r r1 r2 index name params result t variadic ids hplaced hi hps hres ihs ihr =>
    obtain ⟨hparams, hresult⟩ := hd.shown hs hw hp hi
    obtain ⟨hr1, hids, hbase⟩ := ihs (forall_mem_map.2 hparams) hr
    obtain ⟨hr2, hconcrete, hbase'⟩ := ihr hresult hr1
    have hids := (attributes_of_widens hres.preserves.toWidens).sourced hids
    have hnew := hr2.store.composite (Nat.le_refl _)
    refine ⟨hr2.finish (hr2.store.addType (f := .procedure ⟨ids, t, variadic⟩) ⟨hconcrete, hids⟩)
      hnew index name, hnew, fun t ht => ?_⟩
    exact hbase t (hbase' t (Store.Baseless.of_addType (by simp) (baseless_of_finish ht)))
  | none r => exact ⟨hr, by simp [BuildPhrase.Concrete], fun _ h => h⟩
  | some h ih =>
    obtain ⟨hr1, ht, hbase⟩ := ih (hp _ rfl) hr
    exact ⟨hr1, by simpa [BuildPhrase.Concrete] using ht, hbase⟩
  | noMembers r index => exact ⟨hr, by simp [BuildPhrase.Concrete, Store.Sourced], fun _ h => h⟩
  | @member r r1 r2 index m rest t ids ht hrest iht ihr =>
    rw [BuildPhrase.Shown, forall_mem_cons] at hp
    obtain ⟨hr1, ht, hbase⟩ := iht hp.1 hr
    have hd := m.concrete_declared ht i.name index
    obtain ⟨hr2, hids, hbase'⟩ := ihr hp.2 ⟨hr1.store.addDecl hd, hr1.placed⟩
    exact ⟨hr2, sourced_addDecl rfl hrest.preserves.toWidens hids, fun t ht => hbase t (hbase' t ht)⟩

/-! ## Pointers in interfaces -/

/-- Is a record to be built? -/
def isRecordAt (i : Interface) : Ty → Bool
  | .composite index => i.types[index]?.any fun item => match item.shape with
    | .record _ _ => true
    | _ => false
  | _ => false

lemma not_isRecordAt (hi : i.types[index]? = some item)
    (hne : ∀ base fields, item.shape ≠ .record base fields) :
    ¬ i.isRecordAt (.composite index) := by
  intro h
  cases hshape : item.shape with
  | record base fields => exact hne base fields hshape
  | _ => simp [isRecordAt, hi, hshape] at h

/-- Pointers lead to records, and what has its place is a record if it is to be one. -/
structure Rebuilding.Pointing (i : Interface) (r : Rebuilding) : Prop where
  store : r.store.Pointing
  placed : ∀ index t, r.placed? index = some t → i.isRecordAt (.composite index) = true →
    r.store.isRecord t = true

/-- What was built is a record if it is to be one. -/
def BuildPhrase.Records (i : Interface) (s : Store) : BuildPhrase → Prop
  | .type v t => i.isRecordAt v = true → s.isRecord t = true
  | .option v t => ∀ u ∈ v, ∀ w ∈ t, i.isRecordAt u = true → s.isRecord w = true
  | _ => True

namespace Rebuilding.Pointing

lemma finish (h : r.Pointing i) (hs : s.Pointing) (hr : ∀ t, r.store.isRecord t → s.isRecord t)
    (ht : i.isRecordAt (.composite index) → s.isRecord t) (name) :
    ((r.withStore s).finish index t name).Pointing i := by
  have hforms := fun u => form?_nameType s t u name
  refine ⟨hs.of_forms (fun _ => isRecord_of_forms hforms) fun u base hf => (hforms u).symm.trans hf,
    fun other u hu hrecord => isRecord_of_forms hforms ?_⟩
  rw [placed?_finish] at hu
  split at hu
  · next heq =>
    cases hu
    exact ht (by rw [heq.1]; exact hrecord)
  · exact hr u (h.placed other u hu hrecord)

lemma start (h : r.Pointing i) (hf : ∀ base, f ≠ .pointer (some base))
    (ht : i.isRecordAt (.composite index) → ∃ form, f = .record form) :
    (r.start index f).Pointing i := by
  refine ⟨h.store.addType hf, fun other u hu hrecord => ?_⟩
  rw [Rebuilding.start, placed?_setPlace] at hu
  split at hu
  · next heq =>
    cases hu
    rw [heq.1] at ht
    obtain ⟨form, rfl⟩ := ht hrecord
    exact isRecord_iff.2 ⟨form, form?_addType_self _ _⟩
  · exact isRecord_addType (h.placed other u hu hrecord)

end Rebuilding.Pointing

/-- What is being built keeps its place. -/
lemma form?_of_start (h : (r.start index f).store.Preserves s) :
    s.form? (.composite r.store.types.size) = some f :=
  (h.form? (has_addType r.store f)).trans (form?_addType_self r.store f)

/-- The base of a pointer that is shown by an interface is to be a record. -/
lemma Depicts.isRecordAt (hd : Depicts s0 ids0 table i) (hw : s0.Whole) {name : Option TypeName}
    (hv : table.ShowsConcrete (.composite place))
    (hi : i.types[place]? = some ⟨name, .pointer (some base)⟩) : i.isRecordAt base := by
  obtain ⟨t, f, ht, hf, hshows⟩ := hd.shape hv hi
  cases hshows with
  | pointer hb =>
    cases hb with
    | @some u _ hstands =>
      obtain ⟨form, hform⟩ := isRecord_iff.1 (hw.pointing t u ht hf)
      cases u with
      | composite k =>
        obtain ⟨p, hlookup, rfl⟩ := hstands
        obtain ⟨entry, item, hentry, hitem, _, hshows⟩ := hd.filled k p hlookup
        rw [← hd.types] at hitem
        have hentry : entry.form = .record form := by
          simpa [form?, entry?, hentry] using hform
        rw [hentry] at hshows
        generalize hshape : item.shape = shape at hshows
        cases hshows
        simp [Interface.isRecordAt, hitem, hshape]
      | _ => cases hform

/-- Rebuilding keeps pointers leading to records. -/
lemma Builds.pointing (h : Builds i False r p r') (hd : Depicts s0 ids0 table i) (hs : s0.Closed)
    (hw : s0.Whole) (hp : p.Shown table) (hr : r.Pointing i) : r'.Pointing i ∧
    p.Records i r'.store := by
  induction h with
  | basic | pseudo => exact ⟨hr, fun h => by cases h⟩
  | known h => exact ⟨hr, hr.placed _ _ h⟩
  | lost r index h => exact h.elim
  | @array r r1 index name lengths member m hplaced hi hm ih =>
    obtain ⟨hr1, _⟩ := ih (hd.shown hs hw hp hi) hr
    have hno := not_isRecordAt hi (by simp)
    refine ⟨hr1.finish (hr1.store.addArray lengths m) (fun t ht => ?_) (fun h => (hno h).elim) name,
      fun h => (hno h).elim⟩
    rwa [isRecord, record?_addArray]
  | @pointer r r1 index name base b hplaced hi hb ih =>
    obtain ⟨_, hshown⟩ := hd.shown hs hw hp hi
    have hno := not_isRecordAt hi (by simp)
    obtain ⟨hr1, hrecords⟩ := ih hshown (hr.start (by simp) fun h => (hno h).elim)
    -- The place of the pointer is kept while its base is built.
    have hpointer : r1.store.Baseless (.composite r.store.types.size) := form?_of_start hb.preserves
    have hbase : ∀ u ∈ b, r1.store.isRecord u := by
      intro u hu
      cases hb with
      | none => cases hu
      | some h => exact hrecords _ rfl u hu (hd.isRecordAt hw hp hi)
    refine ⟨hr1.finish (hr1.store.setBase (isPointer_iff.2 ⟨_, hpointer⟩) hbase)
      (fun t ht => isRecord_setForm (fun r hr => ?_) ht) (fun h => (hno h).elim) name,
      fun h => (hno h).elim⟩
    rw [hpointer] at hr
    cases hr
  | @record r r1 r2 index name base b fields ids hplaced hi hb hf ihb ihf =>
    obtain ⟨hshown, hfields⟩ := hd.shown hs hw hp hi
    obtain ⟨hr1, _⟩ := ihb hshown (hr.start (by simp) fun _ => ⟨_, rfl⟩)
    obtain ⟨hr2, _⟩ := ihf (forall_mem_map.2 hfields) hr1
    have hold : r2.store.isRecord (.composite r.store.types.size) :=
      isRecord_iff.2 ⟨_, form?_of_start (hb.preserves.trans hf.preserves)⟩
    have hkept {t} (ht : r2.store.isRecord t) := isRecord_setForm
      (f := .record ⟨ids, b, recordLevel r1.store b⟩) (u := .composite r.store.types.size)
      (fun _ _ => ⟨_, rfl⟩) ht
    have hnew := hkept hold
    have hpointing : (r2.store.setForm (.composite r.store.types.size)
        (.record ⟨ids, b, recordLevel r1.store b⟩)).Pointing := by
      refine hr2.store.of_forms (fun _ => hkept) fun t base hf => ?_
      rw [form?_setForm] at hf
      split at hf
      · obtain ⟨_, _, heq⟩ := map_eq_some_iff.1 hf
        cases heq
      · exact hf
    exact ⟨hr2.finish hpointing (fun _ => hkept) (fun _ => hnew) name,
      fun _ => isRecord_of_forms (fun u => form?_nameType _ _ u name) hnew⟩
  | @procedure r r1 r2 index name params result t variadic ids hplaced hi hps hres ihs ihr =>
    obtain ⟨hparams, hresult⟩ := hd.shown hs hw hp hi
    obtain ⟨hr1, _⟩ := ihs (forall_mem_map.2 hparams) hr
    obtain ⟨hr2, _⟩ := ihr hresult hr1
    have hno := not_isRecordAt hi (by simp)
    exact ⟨hr2.finish (hr2.store.addType (by simp)) (fun _ => isRecord_addType)
      (fun h => (hno h).elim) name, fun h => (hno h).elim⟩
  | none r => exact ⟨hr, by simp [BuildPhrase.Records]⟩
  | some h ih =>
    obtain ⟨hr1, hrecords⟩ := ih (hp _ rfl) hr
    refine ⟨hr1, fun u hu w hw => ?_⟩
    cases hu
    cases hw
    exact hrecords
  | noMembers r index => exact ⟨hr, trivial⟩
  | member ht hrest iht ihr =>
    rw [BuildPhrase.Shown, forall_mem_cons] at hp
    obtain ⟨hr1, _⟩ := iht hp.1 hr
    exact ⟨(ihr hp.2 ⟨hr1.store, hr1.placed⟩).1, trivial⟩

/-! ## Exports -/

/-- What an export of this kind can have as its type. -/
def Kind.Allows : Kind → Ty → Prop
  | .constant _, t => t.Simple
  | .procedure, t => t = .undefined ∨ t.Concrete
  | _, t => t.Concrete

/-- The interface of a whole store. -/
structure Shown (s0 : Store) (ids0 : List DeclId) (table : Table) (i : Interface) : Prop where
  closed : s0.Closed
  whole : s0.Whole
  depicts : Depicts s0 ids0 table i
  exports : ∀ e ∈ i.exports, ∃ u, table.Stands u e.type ∧ e.kind.Allows u

def Whole (i : Interface) : Prop := ∃ s0 ids0 table, Shown s0 ids0 table i

/-- A type that is no composite one is itself again. -/
lemma Builds.eq_of_simple {lost : Prop} (h : Builds i lost r (.type v t) r')
    (hv : ∀ k, v ≠ .composite k) : t = v ∧ r' = r := by
  cases h with
  | basic | pseudo => exact ⟨rfl, rfl⟩
  | _ => exact absurd rfl (hv _)

lemma Table.Stands.eq_of_simple (h : table.Stands u v) (hu : ∀ k, u ≠ .composite k) : v = u := by
  cases u with
  | composite k => exact absurd rfl (hu k)
  | _ => exact h

/-- Rebuilding can go on, and no pointer is left without a base. -/
def Keeps (i : Interface) (r r' : Rebuilding) : Prop :=
  r'.Concrete ∧ r'.Pointing i ∧ ∀ t, r'.store.Baseless t → r.store.Baseless t

/-- The type of an export is rebuilt. -/
lemma Builds.allows (h : Builds i False r (.type v t) r') (hi : Shown s0 ids0 table i)
    (hu : table.Stands u v) (hk : kind.Allows u) (hr : r.Concrete) (hp : r.Pointing i) :
    Keeps i r r' ∧ kind.Allows t := by
  have hsame (hne : ∀ k, u ≠ .composite k) : Keeps i r r' ∧ kind.Allows t := by
    have hv := hu.eq_of_simple hne
    obtain ⟨rfl, rfl⟩ := h.eq_of_simple (by rwa [hv])
    rw [hv]
    exact ⟨⟨hr, hp, fun _ h => h⟩, hk⟩
  have hbuilt (hu' : u.Concrete) : Keeps i r r' ∧ t.Concrete := by
    obtain ⟨hr', ht, hbase⟩ := h.concrete hi.depicts hi.closed hi.whole ⟨u, hu', hu⟩ hr
    exact ⟨⟨hr', (h.pointing hi.depicts hi.closed hi.whole ⟨u, hu', hu⟩ hp).1, hbase⟩, ht⟩
  cases kind with
  | constant value =>
    refine hsame fun k hcomposite => ?_
    rw [hcomposite] at hk
    rcases hk with hk | ⟨b, hk⟩ <;> cases hk
  | procedure =>
    rcases hk with hundefined | hu'
    · exact hsame (by rw [hundefined]; simp [Ty.undefined])
    · exact (hbuilt hu').imp_right .inr
  | _ => exact hbuilt hk

lemma Kind.Allows.decl {e : Export} (h : e.kind.Allows t) (module) :
    (importedDecl module e.name (e.role module) t true).Concrete := by
  cases hk : e.kind <;> rw [hk] at h <;>
    simpa [Declaration.Concrete, importedDecl, Export.role, hk, Allows] using h

lemma Brings.keeps {exports : List Export} (h : Brings i False r exports ids r')
    (hi : Shown s0 ids0 table i) (he : ∀ e ∈ exports, ∃ u, table.Stands u e.type ∧ e.kind.Allows u)
    (hr : r.Concrete) (hp : r.Pointing i) : Keeps i r r' := by
  induction h with
  | nil r => exact ⟨hr, hp, fun _ h => h⟩
  | named ht _ _ _ _ ih =>
    rw [forall_mem_cons] at he
    obtain ⟨⟨u, hu, hk⟩, he⟩ := he
    obtain ⟨⟨hr1, hp1, hbase⟩, _⟩ := ht.allows hi hu hk hr hp
    obtain ⟨hr2, hp2, hbase'⟩ := ih he hr1 hp1
    exact ⟨hr2, hp2, fun t ht => hbase t (hbase' t ht)⟩
  | added ht _ ih =>
    rw [forall_mem_cons] at he
    obtain ⟨⟨u, hu, hk⟩, he⟩ := he
    obtain ⟨⟨hr1, hp1, hbase⟩, hallows⟩ := ht.allows hi hu hk hr hp
    obtain ⟨hr2, hp2, hbase'⟩ := ih he ⟨hr1.store.addDecl (hallows.decl i.name), hr1.placed⟩
      ⟨hp1.store, hp1.placed⟩
    exact ⟨hr2, hp2, fun t ht => hbase t (hbase' t ht)⟩

/-- An import keeps a store whole. -/
lemma Whole.importInto (hi : i.Whole) (hs : s.Whole) (scopes : Scopes) :
    (i.importInto s scopes).1.Whole := by
  obtain ⟨s0, ids0, table, hi⟩ := hi
  obtain ⟨ids, _, r, hrun, hbrings, _⟩ := hi.depicts.copies hi.closed s scopes
  obtain ⟨hr, hpointing, hbase⟩ := hbrings.keeps hi hi.exports
    ⟨hs.concrete, by simp [placed?_opening]⟩ ⟨hs.pointing, by simp [placed?_opening]⟩
  rw [hrun]
  exact ⟨hr.store, fun t ht => hs.based t (hbase t ht), hpointing.store⟩

end Interface

lemma Analysis.Imports.whole {a b : Analysis} (h : a.Imports b) (ha : a.store.Whole)
    (hl : ∀ i ∈ a.library.interfaces, i.Whole) : b.store.Whole :=
  h.store_induction ha fun i hi _ scopes hs => (hl i hi).importInto hs scopes

namespace Outcome

section

variable (h : (ofSource features library source).Accepts m)
include h

/-- A module that imports whole interfaces only ends with a whole store. -/
lemma Accepts.whole (hl : ∀ i ∈ library.interfaces, i.Whole) :
    (ofSource features library source).store.Whole := by
  obtain ⟨b, c, d, hb, hi, hblock, hd⟩ := h.reads.phases
  have hopened := hi.opened ((Analysis.opened_start features library).begins hb)
  have hwhole : c.store.Whole :=
    hi.whole (by rw [hb.store]; exact Universe.standard_whole) (by rw [hb.library]; exact hl)
  have hsound : c.Sound c.store.types.size True := hopened.sound fun _ => hwhole.concrete
  have hbuilds := hblock.builds hsound
  obtain ⟨_, hbase⟩ := hblock.completes hsound hopened.forwards
  have hstore : (ofSource features library source).store = d.store := hd.store
  rw [hstore]
  exact ⟨hbuilds.sound.concrete trivial, fun t ht => hwhole.based t (hbase t ht),
    hbuilds.store.pointing hwhole.pointing⟩

lemma Accepts.exported_allows (hw : (ofSource features library source).store.Whole) {id : DeclId}
    (hid : id ∈ exportedIds (ofSource features library source).store m.block)
    (hk : kind? ((ofSource features library source).store.decl id) = some kind) :
    kind.Allows ((ofSource features library source).store.typeOf id) := by
  generalize hs : (ofSource features library source).store = s at *
  obtain ⟨hmem, hexported⟩ := mem_exportedIds.1 hid
  have hlt : id.In s := by
    by_contra hlt
    rw [decl, Array.getElem?_eq_none (by omega)] at hexported
    cases hexported
  have hd := hw.concrete.decls id hlt
  unfold Declaration.Concrete at hd
  unfold kind? at hk
  split at hk
  case h_1 hrole | h_2 hrole | h_3 hrole =>
    cases hk
    rw [hrole] at hd
    exact hd
  · next hrole =>
    cases hk
    have hdeclared := (h.member_kind hmem).2
    rw [hs] at hdeclared
    rw [hrole] at hd hdeclared
    split at hd
    · next heq => cases heq
    · next heq => cases heq
    · next b heq => exact absurd heq (hdeclared b)
    · exact hd
    · next hne => exact absurd rfl (hne _)
  · cases hk

lemma Accepts.interface_whole (hl : ∀ i ∈ library.interfaces, i.Whole) :
    (ofModule (ofSource features library source).store m).Whole := by
  have hw := h.whole hl
  obtain ⟨table, hdep⟩ := h.depicts
  refine ⟨_, _, table, h.closed, hw, hdep, fun e he => ?_⟩
  obtain ⟨id, hid, hshows⟩ := exists_of_forall₂ hdep.exports he
  exact ⟨_, hshows.type, h.exported_allows hw hid hshows.kind⟩

end

end Outcome

lemma Library.Built.whole {library : Library} (h : library.Built) : ∀ i ∈ library.interfaces,
    i.Whole :=
  h.all fun _ _ _ _ _ hl h => h.interface_whole hl

end Oberon
