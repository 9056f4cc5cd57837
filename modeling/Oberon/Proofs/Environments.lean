import Oberon.Proofs.Evolving

/-!
# Oberon.Proofs.Environments

What is made for a procedure that has nested ones: a record with a field for each of its parameters
and variables, a hidden parameter for each of the nested procedures, and a variable that holds the
record.
-/

namespace Oberon

open List Store
namespace Lifting

lemma bind_ok {x : Lift α} {f : α → Lift β} {v : α} (h : x l = .ok (v, l')) : (x >>= f) l =
    f v l' := by
  show (x l).bind _ = _
  rw [h]
  rfl

/-! ## Declared types -/

/-- From `l` to `l'` types of the given names were declared. -/
def Gains (names : List String) (l l' : Lifting) : Prop :=
  ∃ new, l'.types = l.types ++ new ∧ new.map (fun x => (l'.store.decl x).name) = names ∧
    ∀ x ∈ new, x.index < l'.store.decls.size ∧ (l'.store.decl x).isProcedure = false

lemma Gains.of_eq (h : l'.types = l.types) : Gains [] l l' :=
  ⟨[], by rw [h, append_nil], rfl, nofun⟩

/-- Only procedures get another name. -/
lemma Gains.trans (h : Gains names l l1) (h' : Gains names' l1 l')
    (he : l1.store.Evolves l'.store) : Gains (names ++ names') l l' := by
  obtain ⟨new, htypes, rfl, hnew⟩ := h
  obtain ⟨new', htypes', rfl, hnew'⟩ := h'
  have hkeep (x) (hx : x ∈ new) := he.decl x (hnew x hx).1
  refine ⟨new ++ new', by rw [htypes', htypes, append_assoc], ?_,
    forall_mem_append.2 ⟨fun x hx => ?_, hnew'⟩⟩
  · rw [map_append, map_congr_left fun x hx => (hkeep x hx).name (hnew x hx).2]
  · exact ⟨he.lt (hnew x hx).1, (hkeep x hx).isProcedure.trans (hnew x hx).2⟩

/-! ## Fields -/

/-- The field of an environment that stands for a declaration. -/
def mirror (module : String) (d : Declaration) (index : Nat) : Declaration :=
  { name := d.name, role := .field index, type := d.type, span := .none,
    level := Scopes.moduleLevel + 1, module := some module }

/-- From `l` to `l'` the `origins` got the fields `mirrors`, numbered from `index` on. -/
structure Mirrors (index : Nat) (origins mirrors : List DeclId) (l l' : Lifting) : Prop where
  length : mirrors.length = origins.length
  fresh : ∀ f ∈ mirrors, l.store.decls.size ≤ f.index ∧ f.index < l'.store.decls.size
  field : ∀ i x f, origins[i]? = some x → mirrors[i]? = some f → l'.fields.lookup x = some f ∧
      l'.store.decl f = mirror l.module (l.store.decl x) (index + i)
  hidden : l'.hidden = l.hidden
  declared : l'.types = l.types
  forms : l'.store.types = l.store.types
  changes : Changes (fun _ => False) (· ∈ origins) (fun _ => False) l l'

lemma addFields_ok (origins : List DeclId) : ∀ index (l : Lifting), origins.Nodup →
    (∀ x ∈ origins, x.In l.store) → ∃ mirrors l', addFields index origins l = .ok (mirrors, l') ∧
    Mirrors index origins mirrors l l' := by
  induction origins with
  | nil =>
    intro index l _ _
    exact ⟨[], l, rfl, rfl, nofun, nofun, rfl, rfl, rfl, .refl ..⟩
  | cons x rest ih =>
    intro index l hn hlt
    rw [nodup_cons] at hn
    rw [forall_mem_cons] at hlt
    let d := mirror l.module (l.store.decl x) index
    let l1 : Lifting := { l with store := (l.store.addDecl d).2 }
    let l2 : Lifting := { l1 with fields := (x, ⟨l.store.decls.size⟩) :: l.fields }
    have h2 : Changes (fun _ => False) (· ∈ x :: rest) (fun _ => False) l l2 :=
      (Changes.addDecl l d).trans (.addField l1 mem_cons_self
        ((Store.Evolves.addDecl l.store d).lt hlt.1) _)
    have hsize : l2.store.decls.size = l.store.decls.size + 1 := size_addDecl ..
    obtain ⟨mirrors, l', hrun, hm⟩ := ih (index + 1) l2 hn.2 fun y hy =>
      h2.evolves.lt (hlt.2 y hy)
    refine ⟨⟨l.store.decls.size⟩ :: mirrors, l', ?_, ?_, ?_, ?_, hm.hidden, hm.declared, hm.forms, ?_⟩
    · show (addFields (index + 1) rest l2 >>= fun r => .ok (⟨l.store.decls.size⟩ :: r.1, r.2)) = _
      rw [hrun]
      rfl
    · simp only [length_cons, hm.length]
    · rw [forall_mem_cons]
      refine ⟨⟨Nat.le_refl _, ?_⟩, fun f hf => ⟨?_, (hm.fresh f hf).2⟩⟩
      · exact hm.changes.evolves.lt (by simp [DeclId.In, hsize])
      · have := (hm.fresh f hf).1
        omega
    · intro i y f hy hf
      cases i with
      | zero =>
        cases hy
        cases hf
        refine ⟨?_, ?_⟩
        · rw [hm.changes.field_lookup hn.1]
          simp [l2]
        · rw [hm.changes.decl _ (by rw [hsize]; exact Nat.lt_succ_self _) id]
          exact decl_addDecl_self ..
      | succ i =>
        obtain ⟨hl, hd⟩ := hm.field i y f hy hf
        have hdecl : l2.store.decl y = l.store.decl y :=
          decl_addDecl_of_lt d (hlt.2 y (mem_of_getElem? hy))
        refine ⟨hl, ?_⟩
        rw [hd, hdecl, Nat.add_right_comm]
        rfl
    · exact h2.trans (hm.changes.mono (fun _ h => h) (fun _ h => mem_cons_of_mem _ h)
        fun _ h => h)

/-! ## Records -/

/-- From `l` to `l'` the record `record` of the fields `mirrors` was made and declared. -/
structure Records (name : String) (origins mirrors : List DeclId) (record : Ty) (l l' : Lifting) :
    Prop where
  place : record = .composite l.store.types.size
  form : l'.store.record? record = some ⟨mirrors, none, 0⟩
  length : mirrors.length = origins.length
  fresh : ∀ f ∈ mirrors, l.store.decls.size ≤ f.index ∧ f.index < l'.store.decls.size
  field : ∀ i x f, origins[i]? = some x → mirrors[i]? = some f →
    l'.fields.lookup x = some f ∧ l'.store.decl f = mirror l.module (l.store.decl x) i
  hidden : l'.hidden = l.hidden
  gains : Gains ["_T" ++ name] l l'
  changes : Changes (fun _ => False) (· ∈ origins) (fun _ => False) l l'

lemma addRecord_ok (name) {origins : List DeclId} (l : Lifting) (hn : origins.Nodup)
    (hlt : ∀ x ∈ origins, x.index < l.store.decls.size) : ∃ record mirrors l',
    addRecord name origins l = .ok (record, l') ∧ Records name origins mirrors record l l' := by
  obtain ⟨mirrors, l1, hrun, hm⟩ := addFields_ok origins 0 l hn hlt
  let record : Ty := .composite l1.store.types.size
  let l2 : Lifting := { l1 with store := (l1.store.addType (.record ⟨mirrors, none, 0⟩)).2 }
  let d : Declaration :=
    { name := "_T" ++ name, role := .type, type := record,
      span := .none, level := Scopes.moduleLevel, module := some l2.module }
  let decl : DeclId := ⟨l2.store.decls.size⟩
  let l3 : Lifting := { l2 with store := (l2.store.addDecl d).2 }
  let l4 : Lifting := { l3 with store := l3.store.setNaming record decl }
  let l5 : Lifting := { l4 with types := l4.types ++ [decl] }
  have h13 : Changes (fun _ => False) (· ∈ origins) (fun _ => False) l1 l3 :=
    (Changes.addRecord l1 _).trans (.addDecl l2 d)
  have hdecls : l4.store.decls = (l2.store.addDecl d).2.decls := by simp [l3, l4, setNaming]
  have hlt4 : decl.index < l4.store.decls.size := by
    rw [hdecls, size_addDecl]
    exact Nat.lt_succ_self _
  have hdecl4 : l4.store.decl decl = d := by
    rw [decl_eq_of_decls hdecls]
    exact decl_addDecl_self ..
  have h15 : Changes (fun _ => False) (· ∈ origins) (fun _ => False) l1 l5 :=
    (h13.setNaming (Nat.le_refl _) decl).trans (.addTypeDecl l4 hlt4 (by rw [hdecl4]))
  refine ⟨record, mirrors, l5, ?_, ?_, ?_, hm.length, ?_, ?_, hm.hidden, ?_, hm.changes.trans h15⟩
  · show (addFields 0 origins l >>= _) = _
    rw [hrun]
    rfl
  · show record = _
    rw [← hm.forms]
  · have hform : l4.store.form? record = l3.store.form? record :=
      form?_setNaming l3.store record record decl
    exact record?_eq_some.2 (hform.trans (form?_addType_self ..))
  · exact fun f hf => ⟨(hm.fresh f hf).1, h15.evolves.lt (hm.fresh f hf).2⟩
  · intro i x f hx hf
    obtain ⟨hl, hd⟩ := hm.field i x f hx hf
    refine ⟨hl, ?_⟩
    rw [h15.decl f (hm.fresh f (mem_of_getElem? hf)).2 id, hd, Nat.zero_add]
  · refine ⟨[decl], ?_, ?_, forall_mem_singleton.2 ⟨hlt4, ?_⟩⟩
    · show l1.types ++ [decl] = _
      rw [hm.declared]
    · show [(l4.store.decl decl).name] = _
      rw [hdecl4]
    · show (l4.store.decl decl).isProcedure = false
      rw [hdecl4]
      rfl

/-! ## Hidden parameters -/

/-- From `l` to `l'` the procedures `children` got the parameters `hiddens` for an environment. -/
structure Hides (record : Ty) (children hiddens : List DeclId) (l l' : Lifting) : Prop where
  length : hiddens.length = children.length
  fresh : ∀ h ∈ hiddens, l.store.decls.size ≤ h.index ∧ h.index < l'.store.decls.size
  nodup : hiddens.Nodup
  param : ∀ (i : Nat) (c h : DeclId), children[i]? = some c → hiddens[i]? = some h →
    l'.hidden.lookup c = some h ∧ ∃ sig : Signature,
      l.store.signature? (l.store.typeOf c) = some sig ∧
      l'.store.signature? (l.store.typeOf c) =
        some { sig with params := sig.params ++ [h] } ∧
      l'.store.decl h =
        { name := superName, role := .parameter true sig.params.length, type := record,
          span := .none, level := (l.store.decl c).level + 1, module := some l.module }
  fields : l'.fields = l.fields
  declared : l'.types = l.types
  changes : Changes (fun _ => False) (· ∈ children) (· ∈ children.map l.store.typeOf) l l'

lemma Hides.cons {c h : DeclId} (hc : Hides record [c] [h] l l')
    (hr : Hides record children hiddens l' l'') (hn : (c :: children).Nodup)
    (ht : ((c :: children).map l.store.typeOf).Nodup) (hlt : ∀ y ∈ children, y.In l.store)
    (hsigs : ∀ y ∈ children, l'.store.signature? (l'.store.typeOf y) =
     l.store.signature? (l.store.typeOf y)) :
    Hides record (c :: children) (h :: hiddens) l l'' := by
  rw [nodup_cons] at hn
  rw [map_cons, nodup_cons] at ht
  have htype (y) (hy : y ∈ children) : l'.store.typeOf y = l.store.typeOf y :=
    hc.changes.evolves.typeOf (hlt y hy)
  have hrest := hr.changes
  rw [map_congr_left htype] at hrest
  have hh := hc.fresh h mem_cons_self
  refine ⟨?_, ?_, ?_, fun i y g hy hg => ?_, hr.fields.trans hc.fields,
    hr.declared.trans hc.declared, ?_⟩
  · simp only [length_cons, hr.length]
  · rw [forall_mem_cons]
    refine ⟨⟨hh.1, hrest.evolves.lt hh.2⟩, fun g hg => ⟨?_, (hr.fresh g hg).2⟩⟩
    exact Nat.le_trans hc.changes.evolves.decls_le (hr.fresh g hg).1
  · rw [nodup_cons]
    refine ⟨fun hmem => ?_, hr.nodup⟩
    exact Nat.lt_irrefl _ (Nat.lt_of_lt_of_le hh.2 (hr.fresh h hmem).1)
  · cases i with
    | zero =>
      cases hy
      cases hg
      obtain ⟨hl, sig, hs, hs', hd⟩ := hc.param 0 c h rfl rfl
      refine ⟨by rw [hrest.hidden_lookup hn.1, hl], sig, hs, ?_, by rw [hrest.decl h hh.2 id, hd]⟩
      have hf := signature?_eq_some.1 hs'
      rw [signature?_eq_some, hrest.form _ (place_lt hf) ht.1, hf]
    | succ i =>
      have hmem : y ∈ children := mem_of_getElem? (getElem?_cons_succ ▸ hy)
      obtain ⟨hl, sig, hs, hs', hd⟩ := hr.param i y g hy hg
      rw [hsigs y hmem] at hs
      rw [htype y hmem] at hs'
      rw [hc.changes.decl y (hlt y hmem) id, hc.changes.module] at hd
      exact ⟨hl, sig, hs, hs', hd⟩
  · refine (hc.changes.mono (fun _ h => h) ?_ ?_).trans (hrest.mono (fun _ h => h) ?_ ?_)
    iterate 2
      · exact fun x hx => mem_singleton.1 hx ▸ mem_cons_self
    · exact fun x hx => mem_cons_of_mem _ hx
    · exact fun x hx => mem_cons_of_mem _ hx

/-- One procedure gets its hidden parameter. -/
lemma addHidden_cons (record) {c : DeclId} (rest) (hlt : c.index < l.store.decls.size)
    (hsig : l.store.signature? (l.store.typeOf c) = some sig) : ∃ h l',
    addHidden record (c :: rest) l = addHidden record rest l' ∧ Hides record [c] [h] l l' := by
  let t := l.store.typeOf c
  let h : DeclId := ⟨l.store.decls.size⟩
  let d : Declaration :=
    { name := superName, role := .parameter true sig.params.length, type := record,
      span := .none, level := (l.store.decl c).level + 1, module := some l.module }
  let s1 := (l.store.addDecl d).2
  let s2 := s1.setForm t (.procedure { sig with params := sig.params ++ [h] })
  have hs1 : s1.signature? t = some sig := by
    rw [signature?_eq_some, form?_eq_of_types rfl, ← signature?_eq_some]
    exact hsig
  have hh : h.index < s1.decls.size := by
    rw [size_addDecl]
    exact Nat.lt_succ_self _
  have hdecls : s2.decls = s1.decls := by simp [s2, setForm]
  have hdecl : s1.decl h = d := decl_addDecl_self ..
  let l1 : Lifting := { l with store := s1 }
  let l2 : Lifting := { l1 with store := s2 }
  have h12 : Changes (fun _ => False) (· ∈ [c]) (· ∈ [c].map l.store.typeOf) l1 l2 := by
    refine .of_store (.appendParam hs1 hh (congrArg Declaration.role hdecl))
      (fun id _ _ => decl_eq_of_decls hdecls id) fun t' _ hne => ?_
    refine form?_setForm_of_ne ?_ _
    rintro rfl
    exact hne mem_cons_self
  refine ⟨h, { l2 with hidden := (c, h) :: l.hidden }, ?_, rfl, ?_, pairwise_singleton ..,
    ?_, rfl, rfl, ?_⟩
  · have hparams : params l.store c = sig.params := by
      simp only [params, hsig]
    have hstore : appendParam s1 c h = s2 := by
      have htype1 : s1.typeOf c = t := (Store.Evolves.addDecl l.store d).typeOf hlt
      simp only [appendParam, htype1, hs1]
      rfl
    have hstep : addHidden record (c :: rest) l = addHidden record rest
        { l with
          store := appendParam (l.store.addDecl { d with
            role := .parameter true (params l.store c).length }).2 c h
          hidden := (c, h) :: l.hidden } := rfl
    rw [hstep, hparams, hstore]
  · rw [forall_mem_singleton]
    exact ⟨Nat.le_refl _, by rw [hdecls]; exact hh⟩
  · intro i y g hy hg
    cases i with
    | succ i => cases hy
    | zero =>
      cases hy
      cases hg
      refine ⟨by simp, sig, hsig, ?_, ?_⟩
      · rw [signature?_eq_some, form?_setForm, if_pos rfl,
          signature?_eq_some.1 hs1]
        rfl
      · rw [decl_eq_of_decls hdecls]
        exact hdecl
  · exact (Changes.addDecl l d).trans (h12.trans (.addHidden l2 mem_cons_self
      (h12.evolves.lt ((Store.Evolves.addDecl l.store d).lt hlt)) h))

lemma addHidden_ok (record) (children : List DeclId) : ∀ l : Lifting, children.Nodup →
    (children.map l.store.typeOf).Nodup → (∀ c ∈ children, c.In l.store) →
    (∀ c ∈ children, ∃ sig, l.store.signature? (l.store.typeOf c) = some sig) → ∃ hiddens l',
    addHidden record children l = .ok ((), l') ∧ Hides record children hiddens l l' := by
  induction children with
  | nil =>
    intro l _ _ _ _
    exact ⟨[], l, rfl, rfl, nofun, .nil, nofun, rfl, rfl, .refl ..⟩
  | cons c rest ih =>
    intro l hn htypes hlt hsigs
    rw [forall_mem_cons] at hlt hsigs
    obtain ⟨⟨sig, hsig⟩, hsigs⟩ := hsigs
    obtain ⟨h, l1, hrun, hc⟩ := addHidden_cons record rest hlt.1 hsig
    have hsigs1 (y) (hy : y ∈ rest) : l1.store.signature? (l1.store.typeOf y) =
        l.store.signature? (l.store.typeOf y) := by
      obtain ⟨sig', hs⟩ := hsigs y hy
      refine (hc.changes.signature? (hlt.2 y hy) hs fun hmem => ?_).trans hs.symm
      rw [map_singleton, mem_singleton] at hmem
      rw [map_cons, nodup_cons] at htypes
      exact htypes.1 (hmem ▸ mem_map_of_mem hy)
    have hmap : rest.map l1.store.typeOf = rest.map l.store.typeOf :=
      map_congr_left fun y hy => hc.changes.evolves.typeOf (hlt.2 y hy)
    obtain ⟨hiddens, l', hrun', hr⟩ := ih l1 hn.of_cons (by rw [hmap]; exact htypes.of_cons)
      (fun y hy => hc.changes.evolves.lt (hlt.2 y hy))
      fun y hy => by rw [hsigs1 y hy]; exact hsigs y hy
    exact ⟨h :: hiddens, l', hrun.trans hrun', hc.cons hr hn htypes hlt.2 hsigs1⟩

/-! ## Variables and levels -/

/-- From `l` to `l'` the variable `this` was put in front of `vars`. -/
structure Holds (vars : List DeclId) (record : Ty) (this : DeclId) (l l' : Lifting) : Prop where
  place : this = ⟨l.store.decls.size⟩
  lt : this.index < l'.store.decls.size
  decl : ∃ level, l'.store.decl this =
    { name := thisName, role := .variable 0, type := record, span := .none, level,
      module := some l.module }
  shifted : ∀ v ∈ vars, l'.store.decl v = shiftIndex (l.store.decl v)
  fields : l'.fields = l.fields
  hidden : l'.hidden = l.hidden
  declared : l'.types = l.types
  forms : l'.store.types = l.store.types
  changes : Changes (· ∈ vars) (fun _ => False) (fun _ => False) l l'

lemma addThis_ok {vars : List DeclId} (record level) (l : Lifting) (hn : vars.Nodup)
    (hlt : ∀ v ∈ vars, v.In l.store) : ∃ this l', addThis vars record level l =
    .ok (⟨this, record⟩, l') ∧ Holds vars record this l l' := by
  let s1 := vars.foldl (fun s id => s.modifyDecl id shiftIndex) l.store
  let l1 : Lifting := { l with store := s1 }
  let d : Declaration :=
    { name := thisName, role := .variable 0, type := record, span := .none, level,
      module := some l.module }
  have h1 : Changes (· ∈ vars) (fun _ => False) (fun _ => False) l l1 :=
    .foldl_modifyDecl .shiftIndex vars l fun _ h => h
  have hsize : s1.decls.size = l.store.decls.size := size_foldl_modifyDecl ..
  refine ⟨⟨s1.decls.size⟩, { l with store := (s1.addDecl d).2 }, rfl, by rw [hsize], ?_, ?_, ?_, rfl,
    rfl, rfl, types_foldl_modifyDecl .., h1.trans (.addDecl l1 d)⟩
  · rw [size_addDecl]
    exact Nat.lt_succ_self _
  · exact ⟨level, decl_addDecl_self ..⟩
  · intro v hv
    rw [decl_addDecl_of_lt d (h1.evolves.lt (hlt v hv)),
      decl_foldl_modifyDecl shiftIndex vars l.store hn hlt, if_pos hv]

/-! ## Environments -/

/-- From `l` to `l'` a procedure with the given name, parameters, variables and nested procedures got
the environment `env`. -/
structure Builds (name : String) (params vars children : List DeclId) (env : Environment)
    (mirrors hiddens : List DeclId) (l l' : Lifting) : Prop where
  place : env.record = .composite l.store.types.size
  form : l'.store.record? env.record = some ⟨mirrors, none, 0⟩
  mirrored : mirrors.length = (params ++ vars).length
  field : ∀ (i : Nat) (x f : DeclId), (params ++ vars)[i]? = some x → mirrors[i]? = some f →
    l'.fields.lookup x = some f ∧ l'.store.decl f = mirror l.module (l.store.decl x) i
  fieldBounds : ∀ f ∈ mirrors, l.store.decls.size ≤ f.index ∧ f.index < l'.store.decls.size
  paired : hiddens.length = children.length
  param : ∀ (i : Nat) (c h : DeclId), children[i]? = some c → hiddens[i]? = some h →
    l'.hidden.lookup c = some h ∧ ∃ sig : Signature,
      l.store.signature? (l.store.typeOf c) = some sig ∧
      l'.store.signature? (l.store.typeOf c) =
        some { sig with params := sig.params ++ [h] } ∧
      l'.store.decl h =
        { name := superName, role := .parameter true sig.params.length, type := env.record,
          span := .none, level := (l.store.decl c).level + 1, module := some l.module }
  paramBounds : ∀ h ∈ hiddens, l.store.decls.size ≤ h.index ∧ h.index < env.decl.index
  distinct : hiddens.Nodup
  thisBounds : l.store.decls.size ≤ env.decl.index ∧ env.decl.index < l'.store.decls.size
  this : ∃ level, l'.store.decl env.decl =
    { name := thisName, role := .variable 0, type := env.record, span := .none, level,
      module := some l.module }
  shifted : ∀ v ∈ vars, l'.store.decl v = shiftIndex (l.store.decl v)
  fields : ∀ x, x ∉ params ++ vars → l'.fields.lookup x = l.fields.lookup x
  hidden : ∀ x, x ∉ children → l'.hidden.lookup x = l.hidden.lookup x
  gains : Gains ["_T" ++ name] l l'
  changes : Changes (· ∈ vars) (fun x => x ∈ params ++ vars ∨ x ∈ children)
    (· ∈ children.map l.store.typeOf) l l'

lemma liftParent_ok {id : DeclId} {vars children : List DeclId} (body) (l : Lifting)
    (hshared : params l.store id ++ vars ≠ []) (hn : (params l.store id ++ vars).Nodup)
    (hlt : ∀ x ∈ params l.store id ++ vars, x.In l.store) (hc : children.Nodup)
    (ht : (children.map l.store.typeOf).Nodup) (hclt : ∀ c ∈ children, c.In l.store)
    (hsigs : ∀ c ∈ children, ∃ sig, l.store.signature? (l.store.typeOf c) = some sig) :
    ∃ env mirrors hiddens l',
    Builds (l.store.decl id).name (params l.store id) vars children env mirrors hiddens l l' ∧
    liftParent id vars children body l =
    (routeStatements l' env body).bind fun body => .ok ((env.decl :: vars,
     frame (copyIn l' env (params l.store id)) (copyOut l' env (params l.store id)) body), l') := by
  let ps := params l.store id
  obtain ⟨record, mirrors, l1, hrun1, hr⟩ := addRecord_ok (l.store.decl id).name l hn hlt
  have htypes : children.map l1.store.typeOf = children.map l.store.typeOf :=
    map_congr_left fun c hc => hr.changes.evolves.typeOf (hclt c hc)
  have hsigs1 (c) (hc : c ∈ children) : l1.store.signature? (l1.store.typeOf c) =
      l.store.signature? (l.store.typeOf c) := by
    obtain ⟨sig, hs⟩ := hsigs c hc
    exact (hr.changes.signature? (hclt c hc) hs False.elim).trans hs.symm
  obtain ⟨hiddens, l2, hrun2, hh⟩ := addHidden_ok record children l1 hc (by rw [htypes]; exact ht)
    (fun c hc => hr.changes.evolves.lt (hclt c hc))
    fun c hc => by rw [hsigs1 c hc]; exact hsigs c hc
  have h12 := hr.changes.evolves.trans hh.changes.evolves
  have hvars (v) (hv : v ∈ vars) : v.In l.store :=
    hlt v (mem_append_right _ hv)
  obtain ⟨this, l3, hrun3, ht⟩ := addThis_ok record ((l.store.decl id).level + 1) l2
    (nodup_append.1 hn).2.1 fun v hv => h12.lt (hvars v hv)
  have h23 := ht.changes.evolves
  have hhidden (h) (hm : h ∈ hiddens) : h.index < this.index := by
    rw [ht.place]
    exact (hh.fresh h hm).2
  -- what was made after `l` is not among the variables, which are all that changes from here on
  have hkeep (x : DeclId) (hx : l.store.decls.size ≤ x.index) : x ∉ vars := fun hv =>
    Nat.lt_irrefl _ (Nat.lt_of_lt_of_le (hvars x hv) hx)
  refine ⟨⟨this, record⟩, mirrors, hiddens, l3, ⟨hr.place, ?_, hr.length, ?_, ?_, hh.length, ?_, ?_,
    hh.nodup, ?_, ?_, ?_, ?_, ?_, ?_, ?_⟩, ?_⟩
  · exact h23.record? _ _ (hh.changes.evolves.record? _ _ hr.form)
  · intro i x f hx hf
    obtain ⟨hl, hd⟩ := hr.field i x f hx hf
    have hfresh := hr.fresh f (mem_of_getElem? hf)
    refine ⟨by rw [ht.fields, hh.fields, hl], ?_⟩
    rw [ht.changes.decl f (hh.changes.evolves.lt hfresh.2) (hkeep f hfresh.1),
      hh.changes.decl f hfresh.2 False.elim, hd]
  · exact fun f hf => ⟨(hr.fresh f hf).1, (hh.changes.evolves.trans h23).lt (hr.fresh f hf).2⟩
  · intro i c h hc hi
    obtain ⟨hl, sig, hs, hs', hd⟩ := hh.param i c h hc hi
    have hmem := mem_of_getElem? hc
    have hfresh := hh.fresh h (mem_of_getElem? hi)
    have hclt := hclt c hmem
    rw [hsigs1 c hmem] at hs
    rw [hr.changes.evolves.typeOf hclt] at hs'
    rw [hr.changes.decl c hclt False.elim, hr.changes.module] at hd
    refine ⟨by rw [ht.hidden, hl], sig, hs, ?_, ?_⟩
    · rw [signature?_eq_some, form?_eq_of_types ht.forms, ← signature?_eq_some]
      exact hs'
    · rw [ht.changes.decl h hfresh.2
        (hkeep h (Nat.le_trans hr.changes.evolves.decls_le hfresh.1)), hd]
  · exact fun h hm =>
      ⟨Nat.le_trans hr.changes.evolves.decls_le (hh.fresh h hm).1, hhidden h hm⟩
  · refine ⟨?_, ht.lt⟩
    rw [ht.place]
    exact h12.decls_le
  · obtain ⟨level, hd⟩ := ht.decl
    exact ⟨level, by rw [hd, hh.changes.module, hr.changes.module]⟩
  · intro v hv
    rw [ht.shifted v hv, hh.changes.decl v (hr.changes.evolves.lt (hvars v hv)) False.elim,
      hr.changes.decl v (hvars v hv) False.elim]
  · intro x hx
    rw [ht.fields, hh.fields, hr.changes.field_lookup hx]
  · intro x hx
    rw [ht.hidden, hh.changes.hidden_lookup hx, hr.hidden]
  · exact hr.gains.trans (.of_eq (ht.declared.trans hh.declared)) (hh.changes.evolves.trans h23)
  · refine (hr.changes.mono ?_ ?_ ?_).trans ((hh.changes.mono ?_ ?_ ?_).trans
      (ht.changes.mono ?_ ?_ ?_))
    · exact fun _ h => h.elim
    · exact fun _ h => .inl h
    · exact fun _ h => h.elim
    · exact fun _ h => h.elim
    · exact fun _ h => .inr h
    · exact fun _ h => by rwa [htypes] at h
    · exact fun _ h => h
    · exact fun _ h => h.elim
    · exact fun _ h => h.elim
  · have hcond : ¬ (ps.isEmpty && vars.isEmpty) := by
      simpa [ps, append_eq_nil_iff] using hshared
    have hif : liftParent id vars children body l =
        (if (ps.isEmpty && vars.isEmpty) = true then pure (vars, body)
        else do
          let record ← addRecord (l.store.decl id).name (ps ++ vars)
          addHidden record children
          let env ← addThis vars record ((l.store.decl id).level + 1)
          let l ← get
          let body ← routeStatements l env body
          return (env.decl :: vars, frame (copyIn l env ps) (copyOut l env ps) body)) l := rfl
    rw [hif, if_neg hcond, bind_ok hrun1, bind_ok hrun2, bind_ok hrun3]
    show ((routeStatements l3 ⟨this, record⟩ body).bind _).bind _ = _
    cases routeStatements l3 ⟨this, record⟩ body <;> rfl

/-- From `l` to `l'` only levels were set, that of a procedure to that of the module. -/
structure Relevels (id : DeclId) (locals : List DeclId) (l l' : Lifting) : Prop where
  level : (l'.store.decl id).level = Scopes.moduleLevel
  decl : ∀ x, ∃ level, l'.store.decl x = { l.store.decl x with level }
  fields : l'.fields = l.fields
  hidden : l'.hidden = l.hidden
  declared : l'.types = l.types
  forms : l'.store.types = l.store.types
  changes : Changes (fun x => x ∈ params l.store id ++ locals ∨
    x = id ∧ Scopes.moduleLevel < (l.store.decl id).level) (fun _ => False) (fun _ => False) l l'

lemma decl_setLevel (level s id x) :
    ∃ level', (setLevel level s id).decl x = { s.decl x with level := level' } := by
  simp only [setLevel, decl_modifyDecl]
  split
  · next h => exact ⟨level, by rw [h.1]⟩
  · exact ⟨_, rfl⟩

lemma decl_setLevels (level) (ids : List DeclId) (x) : ∀ s,
    ∃ level', (ids.foldl (setLevel level) s).decl x = { s.decl x with level := level' } := by
  induction ids with
  | nil => exact fun s => ⟨_, rfl⟩
  | cons id rest ih =>
    intro s
    obtain ⟨level1, h1⟩ := decl_setLevel level s id x
    obtain ⟨level2, h2⟩ := ih (setLevel level s id)
    exact ⟨level2, by rw [foldl_cons, h2, h1]⟩

lemma resetLevels_ok {id : DeclId} (l : Lifting) (hlt : id.In l.store)
    (hlevel : Scopes.moduleLevel ≤ (l.store.decl id).level)
    (hid : id ∉ params l.store id ++ locals) : ∃ l', resetLevels id locals l = .ok ((), l') ∧
    Relevels id locals l l' := by
  by_cases hnested : Scopes.moduleLevel < (l.store.decl id).level
  · let others := params l.store id ++ locals
    let top (d : Declaration) : Declaration := { d with level := Scopes.moduleLevel }
    let inner (d : Declaration) : Declaration := { d with level := Scopes.moduleLevel + 1 }
    let s1 := l.store.modifyDecl id top
    let s2 := others.foldl (fun s x => s.modifyDecl x inner) s1
    let l1 : Lifting := { l with store := s1 }
    have h1 : Changes (fun x => x ∈ others ∨ x = id ∧ Scopes.moduleLevel < (l.store.decl id).level)
        (fun _ => False) (fun _ => False) l l1 :=
      .modifyDecl l (.inr ⟨rfl, hnested⟩) (.level _ _)
    have h2 : Changes (· ∈ others) (fun _ => False) (fun _ => False) l1 { l1 with store := s2 } :=
      .foldl_modifyDecl (fun d => .level d _) others l1 fun _ h => h
    refine ⟨{ l with store := s2 }, ?_, ?_, fun x => ?_, rfl, rfl, rfl,
      types_foldl_modifyDecl .., h1.trans (h2.mono ?_ (fun _ h => h) fun _ h => h)⟩
    · show Except.ok ((), { l with store := if _ then _ else _ }) = _
      rw [if_pos hnested]
      rfl
    · rw [h2.decl id (h1.evolves.lt hlt) hid]
      exact congrArg Declaration.level (decl_modifyDecl_self top hlt)
    · obtain ⟨level1, h1⟩ := decl_setLevel Scopes.moduleLevel l.store id x
      obtain ⟨level2, h2⟩ := decl_setLevels (Scopes.moduleLevel + 1) others x s1
      exact ⟨level2, h2.trans (by rw [show s1.decl x = _ from h1])⟩
    · exact fun _ h => .inl h
  · refine ⟨l, ?_, ?_, fun x => ⟨_, rfl⟩, rfl, rfl, rfl, rfl, .refl ..⟩
    · show Except.ok ((), { l with store := if _ then _ else _ }) = _
      rw [if_neg hnested]
    · exact Nat.le_antisymm (Nat.le_of_not_lt hnested) hlevel

end Lifting
end Oberon
