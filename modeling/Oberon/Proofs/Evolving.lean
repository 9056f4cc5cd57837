import Oberon.Lifting.Procedure
import Oberon.Proofs.Growth

/-!
# Oberon.Proofs.Evolving

How lifting changes a store. Nested procedures get other names and levels and one more parameter,
and the variables of their parents move up by one; types of declarations, names of all else and the
forms of records stay. `l.Changes ids ks types l'` says in addition which declarations and types
may differ at all, which declarations have been given a field or a hidden parameter, and that the
types that were added are not exported.
-/

namespace Oberon

open List Store

variable {id : DeclId}

/-! ## Declarations -/

/-- What lifting leaves of a declaration. -/
structure Declaration.Becomes (d d' : Declaration) : Prop where
  type : d'.type = d.type
  name : d.isProcedure = false → d'.name = d.name
  role : d'.role = d.role ∨ ∃ i j, d.role = .variable i ∧ d'.role = .variable j
  imported : d'.imported = d.imported
  exported : d'.exported = d.exported
  module : d'.module = d.module

namespace Declaration.Becomes

variable {d d' : Declaration}

protected lemma refl (d : Declaration) : d.Becomes d :=
  ⟨rfl, fun _ => rfl, .inl rfl, rfl, rfl, rfl⟩

section

variable (h : d.Becomes d')
include h

lemma isProcedure : d'.isProcedure = d.isProcedure := by
  rcases h.role with hr | ⟨i, j, hi, hj⟩
  · simp only [Declaration.isProcedure, hr]
  · simp only [Declaration.isProcedure, hi, hj]

lemma isVariable : d'.isVariable = d.isVariable := by
  rcases h.role with hr | ⟨i, j, hi, hj⟩
  · simp only [Declaration.isVariable, hr]
  · simp only [Declaration.isVariable, hi, hj]

lemma isParameter : d'.isParameter = d.isParameter := by
  rcases h.role with hr | ⟨i, j, hi, hj⟩
  · simp only [Declaration.isParameter, hr]
  · simp only [Declaration.isParameter, hi, hj]

lemma isVarParameter : d'.isVarParameter = d.isVarParameter := by
  rcases h.role with hr | ⟨i, j, hi, hj⟩
  · simp only [Declaration.isVarParameter, hr]
  · simp only [Declaration.isVarParameter, hi, hj]

lemma parameter (hd : d.role = .parameter byReference i) : d'.role =
    .parameter byReference i := by
  rcases h.role with hr | ⟨_, _, hi, _⟩
  · rw [hr, hd]
  · rw [hd] at hi
    cases hi

protected lemma trans (h' : d'.Becomes d'') : d.Becomes d'' where
  type := h'.type.trans h.type
  name hp := (h'.name (h.isProcedure.trans hp)).trans (h.name hp)
  role := by
    rcases h.role with hr | ⟨i, j, hi, hj⟩
    · rcases h'.role with hr' | ⟨i, j, hi, hj⟩
      · exact .inl (hr'.trans hr)
      · exact .inr ⟨i, j, hr.symm.trans hi, hj⟩
    · rcases h'.role with hr' | ⟨_, k, _, hk⟩
      · exact .inr ⟨i, j, hi, hr'.trans hj⟩
      · exact .inr ⟨i, k, hi, hk⟩
  imported := h'.imported.trans h.imported
  exported := h'.exported.trans h.exported
  module := h'.module.trans h.module

end

lemma shiftIndex (d : Declaration) : d.Becomes (Lifting.shiftIndex d) := by
  unfold Lifting.shiftIndex
  split
  · next i hi => exact ⟨rfl, fun _ => rfl, .inr ⟨i, i + 1, hi, rfl⟩, rfl, rfl, rfl⟩
  · exact .refl d

lemma level (d : Declaration) (level) : d.Becomes { d with level } :=
  ⟨rfl, fun _ => rfl, .inl rfl, rfl, rfl, rfl⟩

lemma rename (h : d.isProcedure) (name) : d.Becomes { d with name } :=
  ⟨rfl, fun hp => absurd (h.symm.trans hp) nofun, .inl rfl, rfl, rfl, rfl⟩

end Declaration.Becomes

/-! ## Stores -/

namespace Store

variable {s s' : Store}

structure Evolves (s s' : Store) : Prop where
  decls_le : s.decls.size ≤ s'.decls.size
  types_le : s.types.size ≤ s'.types.size
  decl : ∀ id : DeclId, id.index < s.decls.size → (s.decl id).Becomes (s'.decl id)
  record? : ∀ t r, s.record? t = some r → s'.record? t = some r
  naming? : ∀ t : Ty, t.place < s.types.size → s'.naming? t = s.naming? t
  numbered : s.Numbered → s'.Numbered

namespace Evolves

protected lemma refl (s : Store) : s.Evolves s :=
  ⟨Nat.le_refl _, Nat.le_refl _, fun _ _ => .refl _, fun _ _ h => h, fun _ _ => rfl, fun h => h⟩

lemma lt (h : s.Evolves s') (hid : id.In s) :
    id.In s' := Nat.lt_of_lt_of_le hid h.decls_le

lemma typeOf (h : s.Evolves s') (hid : id.In s) :
    s'.typeOf id = s.typeOf id := (h.decl id hid).type

protected lemma trans (h : s.Evolves s') (h' : s'.Evolves s'') : s.Evolves s'' where
  decls_le := Nat.le_trans h.decls_le h'.decls_le
  types_le := Nat.le_trans h.types_le h'.types_le
  decl id hid := (h.decl id hid).trans (h'.decl id (h.lt hid))
  record? t r hr := h'.record? t r (h.record? t r hr)
  naming? t ht := (h'.naming? t (Nat.lt_of_lt_of_le ht h.types_le)).trans (h.naming? t ht)
  numbered hn := h'.numbered (h.numbered hn)

/-- Changes of declarations alone. -/
lemma of_types (ht : s'.types = s.types) (hd : s.decls.size ≤ s'.decls.size)
    (hdecl : ∀ id : DeclId, id.In s → (s.decl id).Becomes (s'.decl id)) : s.Evolves s' := by
  have hform := form?_eq_of_types ht
  refine ⟨hd, Nat.le_of_eq (by rw [ht]), hdecl, fun t r hr => ?_,
    fun t _ => naming?_eq_of_types ht t, fun hn t sig hs => ?_⟩
  · rw [record?_eq_some, hform, ← record?_eq_some]
    exact hr
  · intro i id hi
    obtain ⟨hlt, byReference, hr⟩ := hn t sig (signature?_of_forms hform hs) i id hi
    exact ⟨Nat.lt_of_lt_of_le hlt hd, byReference, (hdecl id hlt).parameter hr⟩

lemma addDecl (s : Store) (d) : s.Evolves (s.addDecl d).2 :=
  of_types rfl (by simp) fun id hid => by rw [decl_addDecl_of_lt d hid]; exact .refl _

lemma modifyDecl (id) (hf : (s.decl id).Becomes (f (s.decl id))) :
    s.Evolves (s.modifyDecl id f) := by
  refine of_types rfl (by simp) fun other _ => ?_
  rw [decl_modifyDecl]
  split
  · next h =>
    rw [← h.1]
    exact hf
  · exact .refl _

/-- Changes of types alone. -/
lemma of_decls (hd : s'.decls = s.decls) (ht : s.types.size ≤ s'.types.size)
    (hr : ∀ t r, s.record? t = some r → s'.record? t = some r)
    (hn : ∀ t : Ty, t.place < s.types.size → s'.naming? t = s.naming? t)
    (hs : ∀ t sig, s'.signature? t = some sig → s.signature? t = some sig ∨ (s.Numbered →
     s.Parameters sig.params)) : s.Evolves s' := by
  have hdecl := decl_eq_of_decls hd
  refine ⟨Nat.le_of_eq (by rw [hd]), ht, fun id _ => by rw [hdecl]; exact .refl _, hr, hn,
    fun hn t sig ht i id hi => ?_⟩
  rw [hd, hdecl]
  rcases hs t sig ht with h | h
  · exact hn t sig h i id hi
  · exact h hn i id hi

lemma addRecord (s : Store) (r) : s.Evolves (s.addType (.record r)).2 := by
  refine of_decls rfl (by simp) (fun t r hr => (grows_addType s _).record? hr)
    (fun t => naming?_addType_of_lt _) fun t sig hs => ?_
  rcases signature?_of_addType hs with h | h
  · exact .inl h
  · cases h

/-- A new type gets a name. -/
lemma setNaming (h : s.Evolves s') (ht : s.types.size ≤ t.place) (id) :
    s.Evolves (s'.setNaming t id) where
  decls_le := by simpa [Store.setNaming] using h.decls_le
  types_le := by simpa [Store.setNaming] using h.types_le
  decl x hx := by
    rw [Store.setNaming, decl_eq_of_decls (decls_modifyType ..)]
    exact h.decl x hx
  record? u r hr := (grows_setNaming s' t id).record? (h.record? u r hr)
  naming? u hu := by
    rw [naming?_setNaming_of_ne, h.naming? u hu]
    rintro rfl
    exact absurd hu (Nat.not_lt.2 ht)
  numbered hn u sig hs i x hi := by
    have hs := signature?_of_forms (fun t' => form?_setNaming s' t t' id) hs
    rw [Store.setNaming, decl_eq_of_decls (decls_modifyType ..), decls_modifyType]
    exact h.numbered hn u sig hs i x hi

/-- A procedure type gets one more parameter. -/
lemma appendParam {param : DeclId} (hs : s.signature? t = some sig) (hlt : param.In s)
    (hr : (s.decl param).role = .parameter byReference sig.params.length) :
    s.Evolves (s.setForm t (.procedure { sig with params := sig.params ++ [param] })) := by
  have hform := signature?_eq_some.1 hs
  refine of_decls (by simp [setForm]) (by simp [setForm]) (fun t' r hr => ?_)
    (fun t' _ => naming?_setForm s t t' _) fun t' sig' ht => ?_
  · rw [record?_eq_some] at hr ⊢
    rw [form?_setForm_of_ne, hr]
    rintro rfl
    rw [hform] at hr
    cases hr
  · rw [signature?_eq_some, form?_setForm] at ht
    split at ht
    · next heq =>
      subst heq
      rw [hform] at ht
      cases ht
      refine .inr fun hn i id hi => ?_
      rcases Nat.lt_trichotomy i sig.params.length with hi' | rfl | hi'
      · rw [getElem?_append_left hi'] at hi
        exact hn t sig hs i id hi
      · rw [getElem?_append_right (Nat.le_refl _), Nat.sub_self] at hi
        cases hi
        exact ⟨hlt, byReference, hr⟩
      · rw [getElem?_eq_none (by simp only [length_append, length_singleton]; omega)]
          at hi
        cases hi
    · exact .inl (signature?_eq_some.2 ht)

end Evolves
end Store

/-! ## The state of lifting -/

namespace Lifting

variable {types : Ty → Prop}

/-- A declaration with neither a field nor a hidden parameter. -/
structure Unkeyed (l : Lifting) (id : DeclId) : Prop where
  field : l.fields.lookup id = none
  hidden : l.hidden.lookup id = none

structure Changes (ids ks : DeclId → Prop) (types : Ty → Prop) (l l' : Lifting) : Prop where
  evolves : l.store.Evolves l'.store
  decl : ∀ id : DeclId, id.index < l.store.decls.size → ¬ ids id →
    l'.store.decl id = l.store.decl id
  form : ∀ t : Ty, t.place < l.store.types.size → ¬ types t → l'.store.form? t = l.store.form? t
  fields : ∃ new, l'.fields = new ++ l.fields ∧
    ∀ e ∈ new, ks e.1 ∧ e.1.index < l'.store.decls.size
  hidden : ∃ new, l'.hidden = new ++ l.hidden ∧
    ∀ e ∈ new, ks e.1 ∧ e.1.index < l'.store.decls.size
  records : ∃ new, l'.types = l.types ++ new ∧
    ∀ x ∈ new, x.index < l'.store.decls.size ∧ (l'.store.decl x).exported = false
  module : l'.module = l.module

lemma lookup_append_of_not (ks : DeclId → Prop) {new old : List (DeclId × DeclId)}
    (hn : ∀ e ∈ new, ks e.1) (hid : ¬ ks id) : (new ++ old).lookup id = old.lookup id := by
  rw [lookup_append, lookup_eq_none_iff.2, Option.none_or]
  intro e he
  simp only [bne_iff_ne, ne_eq]
  rintro rfl
  exact hid (hn e he)

namespace Changes

section

variable (h : Changes ids ks types l l')
include h

lemma field_lookup (hid : ¬ ks id) : l'.fields.lookup id = l.fields.lookup id := by
  obtain ⟨new, hf, hn⟩ := h.fields
  rw [hf, lookup_append_of_not _ (fun e he => (hn e he).1) hid]

lemma hidden_lookup (hid : ¬ ks id) : l'.hidden.lookup id = l.hidden.lookup id := by
  obtain ⟨new, hf, hn⟩ := h.hidden
  rw [hf, lookup_append_of_not _ (fun e he => (hn e he).1) hid]

lemma unkeyed (hid : ¬ ks id) (hu : l.Unkeyed id) : l'.Unkeyed id :=
  ⟨(h.field_lookup hid).trans hu.field, (h.hidden_lookup hid).trans hu.hidden⟩

end

protected lemma refl (ids ks types l) : Changes ids ks types l l :=
  ⟨.refl _, fun _ _ _ => rfl, fun _ _ _ => rfl, ⟨[], rfl, nofun⟩, ⟨[], rfl, nofun⟩,
    ⟨[], (append_nil _).symm, nofun⟩, rfl⟩

section

variable (h : Changes ids ks types l l')
include h

lemma mono (hi : ∀ id, ids id → ids' id) (hk : ∀ id, ks id → ks' id)
    (ht : ∀ t, types t → types' t) : Changes ids' ks' types' l l' where
  evolves := h.evolves
  decl id hid hn := h.decl id hid fun hc => hn (hi id hc)
  form t hlt hn := h.form t hlt fun hc => hn (ht t hc)
  fields := by
    obtain ⟨new, hf, hn⟩ := h.fields
    exact ⟨new, hf, fun e he => ⟨hk _ (hn e he).1, (hn e he).2⟩⟩
  hidden := by
    obtain ⟨new, hf, hn⟩ := h.hidden
    exact ⟨new, hf, fun e he => ⟨hk _ (hn e he).1, (hn e he).2⟩⟩
  records := h.records
  module := h.module

protected lemma trans (h' : Changes ids ks types l' l'') : Changes ids ks types l l'' where
  evolves := h.evolves.trans h'.evolves
  decl id hid hn := (h'.decl id (h.evolves.lt hid) hn).trans (h.decl id hid hn)
  form t hlt hn :=
    (h'.form t (Nat.lt_of_lt_of_le hlt h.evolves.types_le) hn).trans (h.form t hlt hn)
  fields := by
    obtain ⟨new, hf, hn⟩ := h.fields
    obtain ⟨new', hf', hn'⟩ := h'.fields
    exact ⟨new' ++ new, by rw [hf', hf, append_assoc], forall_mem_append.2
      ⟨hn', fun e he => ⟨(hn e he).1, h'.evolves.lt (hn e he).2⟩⟩⟩
  hidden := by
    obtain ⟨new, hf, hn⟩ := h.hidden
    obtain ⟨new', hf', hn'⟩ := h'.hidden
    exact ⟨new' ++ new, by rw [hf', hf, append_assoc], forall_mem_append.2
      ⟨hn', fun e he => ⟨(hn e he).1, h'.evolves.lt (hn e he).2⟩⟩⟩
  records := by
    obtain ⟨new, hf, hn⟩ := h.records
    obtain ⟨new', hf', hn'⟩ := h'.records
    refine ⟨new ++ new', by rw [hf', hf, append_assoc], forall_mem_append.2
      ⟨fun x hx => ?_, hn'⟩⟩
    obtain ⟨hlt, he⟩ := hn x hx
    exact ⟨h'.evolves.lt hlt, (h'.evolves.decl x hlt).exported.trans he⟩
  module := h'.module.trans h.module

/-- What is not declared yet has neither a field nor a hidden parameter. -/
lemma fresh (hl : ∀ id : DeclId, l.store.decls.size ≤ id.index → l.Unkeyed id) (id : DeclId)
    (hid : l'.store.decls.size ≤ id.index) : l'.Unkeyed id := by
  have hold := hl id (Nat.le_trans h.evolves.decls_le hid)
  have hnew (new : List (DeclId × DeclId))
      (hn : ∀ e ∈ new, ks e.1 ∧ e.1.In l'.store)
      (old : List (DeclId × DeclId)) : (new ++ old).lookup id = old.lookup id := by
    refine lookup_append_of_not (fun x => x.In l'.store)
      (fun e he => (hn e he).2) (Nat.not_lt.2 hid)
  obtain ⟨new, hf, hn⟩ := h.fields
  obtain ⟨new', hf', hn'⟩ := h.hidden
  exact ⟨by rw [hf, hnew new hn, hold.field], by rw [hf', hnew new' hn', hold.hidden]⟩

/-- The type of a procedure stays as it is unless it is one of `types`. -/
lemma signature? (hid : id.In l.store) (hs : l.store.signature? (l.store.typeOf id) = some sig)
    (ht : ¬ types (l.store.typeOf id)) : l'.store.signature? (l'.store.typeOf id) = some sig := by
  have hf := signature?_eq_some.1 hs
  rw [h.evolves.typeOf hid, signature?_eq_some, h.form _ (place_lt hf) ht, hf]

end

/-- Only the store changes. -/
lemma of_store {store : Store} (he : l.store.Evolves store)
    (hd : ∀ id : DeclId, id.In l.store → ¬ ids id → store.decl id = l.store.decl id)
    (hf : ∀ t : Ty, t.place < l.store.types.size → ¬ types t → store.form? t = l.store.form? t) :
    Changes ids ks types l { l with store } :=
  ⟨he, hd, hf, ⟨[], rfl, nofun⟩, ⟨[], rfl, nofun⟩, ⟨[], (append_nil _).symm, nofun⟩, rfl⟩

lemma addDecl (l d) :
    Changes ids ks types l { l with store := (l.store.addDecl d).2 } :=
  of_store (.addDecl _ d) (fun _ hid _ => decl_addDecl_of_lt d hid)
    fun t _ _ => form?_eq_of_types rfl t

lemma addRecord (l r) :
    Changes ids ks types l { l with store := (l.store.addType (.record r)).2 } := by
  refine of_store (.addRecord _ r) (fun _ _ _ => rfl) fun t ht _ => ?_
  rw [form?_addType, if_neg]
  rintro rfl
  exact Nat.lt_irrefl _ ht

lemma setNaming (h : Changes ids ks types l l') (ht : l.store.types.size ≤ t.place)
    (id) : Changes ids ks types l { l' with store := l'.store.setNaming t id } := by
  have hdecls : (l'.store.setNaming t id).decls = l'.store.decls := by simp [Store.setNaming]
  have hdecl := decl_eq_of_decls hdecls
  refine ⟨h.evolves.setNaming ht id, fun x hx hn => ?_, fun u hu hn => ?_, ?_, ?_, ?_, h.module⟩
  · rw [hdecl]
    exact h.decl x hx hn
  · rw [form?_setNaming]
    exact h.form u hu hn
  · rw [hdecls]
    exact h.fields
  · rw [hdecls]
    exact h.hidden
  · simp only [hdecls, hdecl]
    exact h.records

lemma modifyDecl (l : Lifting) (hid : ids id)
    (hf : (l.store.decl id).Becomes (f (l.store.decl id))) :
    Changes ids ks types l { l with store := l.store.modifyDecl id f } := by
  refine of_store (.modifyDecl id hf) (fun other _ hn => ?_) fun t _ _ =>
    form?_eq_of_types rfl t
  refine decl_modifyDecl_of_ne f ?_
  rintro rfl
  exact hn hid

lemma foldl_modifyDecl (hf : ∀ d : Declaration, d.Becomes (f d))
    (xs : List DeclId) : ∀ l, (∀ x ∈ xs, ids x) → Changes ids ks types l
      { l with store := xs.foldl (fun (s : Store) x => s.modifyDecl x f) l.store } := by
  induction xs with
  | nil => exact fun l _ => .refl ..
  | cons x xs ih =>
    intro l hx
    rw [forall_mem_cons] at hx
    exact (modifyDecl l hx.1 (hf _)).trans (ih _ hx.2)

/-- A declaration gets a field. -/
lemma addField (l : Lifting) (hid : ks id)
    (hlt : id.In l.store) (field) :
    Changes ids ks types l { l with fields := (id, field) :: l.fields } :=
  ⟨.refl _, fun _ _ _ => rfl, fun _ _ _ => rfl,
    ⟨[(id, field)], rfl, forall_mem_singleton.2 ⟨hid, hlt⟩⟩, ⟨[], rfl, nofun⟩,
    ⟨[], (append_nil _).symm, nofun⟩, rfl⟩

/-- A procedure gets a hidden parameter. -/
lemma addHidden (l : Lifting) (hid : ks id)
    (hlt : id.In l.store) (param) :
    Changes ids ks types l { l with hidden := (id, param) :: l.hidden } :=
  ⟨.refl _, fun _ _ _ => rfl, fun _ _ _ => rfl, ⟨[], rfl, nofun⟩,
    ⟨[(id, param)], rfl, forall_mem_singleton.2 ⟨hid, hlt⟩⟩,
    ⟨[], (append_nil _).symm, nofun⟩, rfl⟩

lemma addTypeDecl (l : Lifting) (hlt : id.In l.store)
    (he : (l.store.decl id).exported = false) :
    Changes ids ks types l { l with types := l.types ++ [id] } :=
  ⟨.refl _, fun _ _ _ => rfl, fun _ _ _ => rfl, ⟨[], rfl, nofun⟩, ⟨[], rfl, nofun⟩,
    ⟨[id], rfl, forall_mem_singleton.2 ⟨hlt, he⟩⟩, rfl⟩

end Changes
end Lifting
end Oberon
