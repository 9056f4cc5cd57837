import Mathlib.Data.List.Nodup
import Oberon.Proofs.Lifted

/-!
# Oberon.Proofs.Pending

The state in which a procedure is lifted. `Context` says what has been made for the procedures
around it, and `Pending` that nothing has been done to the procedure itself, its hidden parameter
apart. Both survive the lifting of other procedures.
-/

namespace Oberon

open Procedure (decl idsOf params_eq typesOf)

open List Store

variable {s s' : Store}

/-! ## Parts that are apart -/

section Apart

variable {f : α → List β} {head : α → β} {xs : List α}

section

variable (h : (xs.flatMap f).Nodup)
include h

lemma eq_of_mem_flatMap {a b : α} (ha : a ∈ xs) (hb : b ∈ xs) {y : β} (hya : y ∈ f a)
    (hyb : y ∈ f b) : a = b := by
  induction xs with
  | nil => cases ha
  | cons c xs ih =>
    rw [flatMap_cons, nodup_append] at h
    have hapart (d : α) (hd : d ∈ xs) (hc : y ∈ f c) (hy : y ∈ f d) : False :=
      h.2.2 y hc y (mem_flatMap.2 ⟨d, hd, hy⟩) rfl
    rcases mem_cons.1 ha with rfl | ha' <;> rcases mem_cons.1 hb with rfl | hb'
    · rfl
    · exact (hapart b hb' hya hyb).elim
    · exact (hapart a ha' hyb hya).elim
    · exact ih h.2.1 ha' hb'

lemma nodup_of_mem_flatMap {a : α} (ha : a ∈ xs) : (f a).Nodup :=
  (nodup_flatMap.1 h).1 a ha

lemma not_mem_map_of_mem_tail (hf : ∀ a, f a = head a :: (f a).tail) {a : α} (ha : a ∈ xs) {y : β}
    (hy : y ∈ (f a).tail) : y ∉ xs.map head := by
  intro hm
  obtain ⟨b, hb, rfl⟩ := mem_map.1 hm
  have hab : a = b := eq_of_mem_flatMap h ha hb (mem_of_mem_tail hy) (by rw [hf b]; simp)
  subst hab
  have hn := nodup_of_mem_flatMap h ha
  rw [hf a, nodup_cons] at hn
  exact hn.1 hy

lemma nodup_map_of_flatMap (hf : ∀ a, f a = head a :: (f a).tail) : (xs.map head).Nodup := by
  refine h.sublist ?_
  clear h
  induction xs with
  | nil => exact .slnil
  | cons a xs ih =>
    rw [map_cons, flatMap_cons, hf a, cons_append]
    exact .cons_cons _ (ih.trans (sublist_append_right ..))

end

end Apart

/-! ## Trees in a changed store -/

namespace Procedure

variable {p : Procedure}

lemma idsOf_eq_flatMap (s ps) : idsOf s ps = ps.flatMap (ids s) := by
  induction ps with
  | nil => rfl
  | cons p ps ih => rw [idsOf, ih, flatMap_cons]

lemma typesOf_eq_flatMap (s ps) : typesOf s ps = ps.flatMap (types s) := by
  induction ps with
  | nil => rfl
  | cons p ps ih => rw [typesOf, ih, flatMap_cons]

lemma mem_idsOf : x ∈ idsOf s ps ↔ ∃ q ∈ ps, x ∈ q.ids s := by
  rw [idsOf_eq_flatMap, mem_flatMap]

lemma mem_typesOf : t ∈ typesOf s ps ↔ ∃ q ∈ ps, t ∈ q.types s := by
  rw [typesOf_eq_flatMap, mem_flatMap]

lemma decl_mem_ids (s) (p : Procedure) : p.decl ∈ p.ids s := by
  obtain ⟨id, ⟨constants, types, vars, procedures, body⟩⟩ := p
  simp [ids, decl]

lemma type_mem_types (s : Store) (p : Procedure) : s.typeOf p.decl ∈ p.types s := by
  obtain ⟨id, ⟨constants, names, vars, procedures, body⟩⟩ := p
  simp [types, decl]

lemma ids_eq_cons (s) (p : Procedure) : p.ids s = p.decl :: (p.ids s).tail := by
  obtain ⟨id, ⟨constants, names, vars, procedures, body⟩⟩ := p
  rfl

lemma types_eq_cons (s) (p : Procedure) : p.types s = s.typeOf p.decl :: (p.types s).tail := by
  obtain ⟨id, ⟨constants, names, vars, procedures, body⟩⟩ := p
  rfl

lemma ids_eq (hr : (s.decl p.decl).role = .procedure .defined) : p.ids s =
    p.decl :: (Lifting.params s p.decl ++ p.block.constants ++ p.block.types ++ p.block.vars ++
     idsOf s p.block.procedures) := by
  obtain ⟨id, ⟨constants, types, vars, procedures, body⟩⟩ := p
  simp only [decl] at hr
  simp only [ids, isExternal_of_defined hr]
  rfl

lemma ids_mk {id : DeclId} (hr : (s.decl id).role = .procedure .defined)
    (hs : s.signature? (s.typeOf id) = some ⟨params, result, variadic⟩) :
    ids s (.mk id (.mk constants names vars procedures body)) =
    id :: (params ++ constants ++ names ++ vars ++ idsOf s procedures) := by
  simp only [ids, isExternal_of_defined hr, params_eq hs]
  rfl

lemma types_eq : p.types s = s.typeOf p.decl :: typesOf s p.block.procedures := by
  obtain ⟨id, ⟨constants, types, vars, procedures, body⟩⟩ := p
  rfl

/-- A tree whose declarations and procedure types are left alone. -/
structure Left (s s' : Store) (p : Procedure) : Prop where
  decls_le : s.decls.size ≤ s'.decls.size
  decl : ∀ x ∈ p.ids s, s'.decl x = s.decl x
  form : ∀ t ∈ p.types s, s'.form? t = s.form? t

lemma Left.nested (h : Left s s' p) (hr : (s.decl p.decl).role = .procedure .defined)
    (hq : q ∈ p.block.procedures) : Left s s' q := by
  refine ⟨h.decls_le, fun x hx => h.decl x ?_, fun t ht => h.form t ?_⟩
  · rw [ids_eq hr]
    exact mem_cons_of_mem _ (mem_append_right _ (mem_idsOf.2 ⟨q, hq, hx⟩))
  · rw [types_eq]
    exact mem_cons_of_mem _ (mem_typesOf.2 ⟨q, hq, ht⟩)

lemma Left.signature? {id : DeclId} (hd : s'.decl id = s.decl id)
    (hf : s'.form? (s.typeOf id) = s.form? (s.typeOf id))
    (hs : s.signature? (s.typeOf id) = some sig) : s'.signature? (s'.typeOf id) = some sig := by
  rw [typeOf, hd, ← typeOf, signature?_eq_some, hf, ← signature?_eq_some]
  exact hs

end Procedure

lemma Store.wordParameters_of (h : s.WordParameters params) (hle : s.decls.size ≤ s'.decls.size)
    (hd : ∀ x ∈ params, s'.decl x = s.decl x) : s'.WordParameters params := by
  refine ⟨fun i x hi => ?_, fun x hx => by rw [hd x hx]; exact h.2 x hx⟩
  obtain ⟨hlt, r, hr⟩ := h.1 i x hi
  exact ⟨Nat.lt_of_lt_of_le hlt hle, r, by rw [hd x (mem_of_getElem? hi), hr]⟩

lemma Store.constants_of (h : s.Constants ids) (hle : s.decls.size ≤ s'.decls.size)
    (hd : ∀ x ∈ ids, s'.decl x = s.decl x) : s'.Constants ids := by
  intro x hx
  rw [hd x hx]
  exact ⟨Nat.lt_of_lt_of_le (h x hx).1 hle, (h x hx).2⟩

lemma Store.typeNames_of (h : s.TypeNames ids) (hle : s.decls.size ≤ s'.decls.size)
    (hd : ∀ x ∈ ids, s'.decl x = s.decl x) : s'.TypeNames ids := by
  intro x hx
  rw [hd x hx]
  exact ⟨Nat.lt_of_lt_of_le (h x hx).1 hle, (h x hx).2⟩

lemma Store.variables_of (h : s.Variables ids) (hle : s.decls.size ≤ s'.decls.size)
    (hd : ∀ x ∈ ids, s'.decl x = s.decl x) : s'.Variables ids := by
  intro i x hi
  rw [hd x (mem_of_getElem? hi)]
  exact ⟨Nat.lt_of_lt_of_le (h i x hi).1 hle, (h i x hi).2⟩

namespace Procedure

variable {p : Procedure}
 

/-- A procedure that is not external. -/
structure Defined (s : Store) (level : Nat) (known : DeclId → Prop) (params : List DeclId)
    (p : Procedure) : Prop where
  lt : p.decl.index < s.decls.size
  role : (s.decl p.decl).role = .procedure .defined
  depth : (s.decl p.decl).level = level
  signature : ∃ result variadic, s.signature? (s.typeOf p.decl) = some ⟨params, result, variadic⟩
  words : s.WordParameters params
  constants : s.Constants p.block.constants
  typeNames : s.TypeNames p.block.types
  vars : s.Variables p.block.vars
  uses : ∀ u ∈ Statement.usesOf p.block.body, ∀ r ∈ u.2.roots, known r ∨ r ∈ p.block.members params
  nested : ∀ q ∈ p.block.procedures, q.Scoped s (level + 1)
    fun r => known r ∨ r ∈ p.block.members params

lemma Scoped.isExternal_or (h : p.Scoped s level known) :
    (Lifting.isExternal (s.decl p.decl) ∧ p.block = .empty ∧ level = Scopes.moduleLevel) ∨ ∃ params,
    p.Defined s level known params := by
  cases h with
  | external hlt hr hlev hs htop => exact .inl ⟨hr, rfl, htop⟩
  | defined hlt hr hlev hs hp hc ht hv hb hn =>
    exact .inr ⟨_, hlt, hr, hlev, hs, hp, hc, ht, hv, hb, hn⟩

lemma Defined.ids (h : p.Defined s level known params) : p.ids s =
    p.decl :: (params ++ p.block.constants ++ p.block.types ++ p.block.vars ++ idsOf s
     p.block.procedures) := by
  obtain ⟨result, variadic, hs⟩ := h.signature
  rw [ids_eq h.role, params_eq hs]

section

variable (h : p.Scoped s level known)
include h

lemma Scoped.signature : ∃ sig, s.signature? (s.typeOf p.decl) = some sig := by
  cases h with
  | external _ _ _ hs _ => exact hs
  | defined _ _ _ hs =>
    obtain ⟨result, variadic, hs⟩ := hs
    exact ⟨_, hs⟩

lemma Scoped.level_eq : (s.decl p.decl).level = level := by
  cases h with
  | external _ _ hlev _ _ | defined _ _ hlev => exact hlev

lemma Scoped.place_lt : ∀ t ∈ p.types s, t.place < s.types.size := by
  have hplace {id sig} (hs : s.signature? (s.typeOf id) = some sig) :
      (s.typeOf id).place < s.types.size := Store.place_lt (Store.signature?_eq_some.1 hs)
  induction h with
  | external hlt hr hlev hs htop =>
    obtain ⟨sig, hs⟩ := hs
    intro t ht
    rw [types_eq] at ht
    cases mem_singleton.1 ht
    exact hplace hs
  | defined hlt hr hlev hs hp hc ht hv hb hn ih =>
    obtain ⟨result, variadic, hs⟩ := hs
    intro t ht
    rw [types_eq] at ht
    rcases mem_cons.1 ht with rfl | ht
    · exact hplace hs
    · obtain ⟨q, hq, ht⟩ := mem_typesOf.1 ht
      exact ih q hq t ht

lemma Scoped.left (hl : Left s s' p) : p.Scoped s' level known ∧ p.ids s' = p.ids s ∧ p.types s' =
    p.types s := by
  induction h with
  | @external level known id hlt hr hlev hs htop =>
    have hd := hl.decl id (by simp [ids, Block.empty])
    have hf := hl.form (s.typeOf id) (by simp [types, Block.empty])
    obtain ⟨sig, hs⟩ := hs
    refine ⟨.external (Nat.lt_of_lt_of_le hlt hl.decls_le) (by rw [hd]; exact hr)
      (by rw [hd]; exact hlev) ⟨sig, Left.signature? hd hf hs⟩ htop, ?_, ?_⟩
    · simp only [ids, Block.empty, hd, hr]
      rfl
    · simp only [types, Block.empty, typeOf, hd]
      rfl
  | @defined level known id params constants types vars procedures body hlt hr hlev hs hp hc ht hv hb
      hn ih =>
    obtain ⟨result, variadic, hs⟩ := hs
    let p : Procedure := .mk id (.mk constants types vars procedures body)
    have hids : p.ids s = id :: (params ++ constants ++ types ++ vars ++ idsOf s procedures) :=
      ids_mk hr hs
    have hmem (x) (hx : x ∈ params ++ constants ++ types ++ vars) :
        s'.decl x = s.decl x := by
      refine hl.decl x ?_
      rw [hids]
      exact mem_cons_of_mem _ (mem_append_left _ hx)
    have hd := hl.decl id (decl_mem_ids s p)
    have hs' := Left.signature? hd (hl.form _ (type_mem_types s p)) hs
    have hr' : (s'.decl id).role = .procedure .defined := by rw [hd]; exact hr
    have hn' (q : Procedure) (hq : q ∈ procedures) := ih q hq (hl.nested (p := p) hr hq)
    refine ⟨.defined (Nat.lt_of_lt_of_le hlt hl.decls_le) hr' (by rw [hd]; exact hlev)
      ⟨result, variadic, hs'⟩ (wordParameters_of hp hl.decls_le fun x hx => hmem x ?_)
      (constants_of hc hl.decls_le fun x hx => hmem x ?_)
      (typeNames_of ht hl.decls_le fun x hx => hmem x ?_)
      (variables_of hv hl.decls_le fun x hx => hmem x ?_) hb fun q hq => (hn' q hq).1, ?_, ?_⟩
    · simp [hx]
    · simp [hx]
    · simp [hx]
    · simp [hx]
    · rw [ids_mk hr hs, ids_mk hr' hs', idsOf_congr fun q hq => (hn' q hq).2.1]
    · simp only [Procedure.types, typeOf, hd, typesOf_congr fun q hq => (hn' q hq).2.2]

end

end Procedure

namespace Lifting

variable {types : Ty → Prop}
 

/-! ## What has been made so far -/

/-- The procedures around the one to be lifted have been lifted. -/
structure Context (l : Lifting) (global : DeclId → Prop) (levels : List Level) (up : Option Ty)
    (bound : Nat) : Prop where
  linked : Linked l.store levels up bound
  bound_le : bound ≤ l.store.decls.size
  place : ∀ record, up = some record → record.place < l.store.types.size
  keyed : ∀ L ∈ levels, Keyed l L
  globals : ∀ x, global x → l.Unkeyed x
  visible : ∀ x, Visible global levels x → x.index < l.store.decls.size
  fresh : ∀ x : DeclId, l.store.decls.size ≤ x.index → l.Unkeyed x

lemma Keyed.changes {L : Level} {k : Nat} (h : Keyed l L) (hc : Changes ids ks types l l')
    (hl : Linked l.store levels up bound) (hk : levels[k]? = some L)
    (hv : ∀ x, x ∈ L.origins ∨ x ∈ L.procedure.block.members L.declared → ¬ ks x) :
    Keyed l' L := by
  have hmember (x) (hx : x ∈ L.procedure.block.constants ++ L.procedure.block.types ∨
      x ∈ L.children) : ¬ ks x := by
    refine hv x (.inr ?_)
    revert hx
    simp only [Level.children]
    cases L.procedure.block
    simp only [Block.members, Block.constants, Block.types, Block.procedures, mem_append]
    tauto
  refine ⟨fun x hx => hc.unkeyed (hmember x (.inl hx)) (h.plain x hx),
    fun env mirrors hf i x f hx hi => ?_, fun env he c hcm => ?_,
    fun he c hcm => hc.unkeyed (hmember c (.inr hcm)) (h.alone he c hcm)⟩
  · obtain ⟨_, mirrors', _, hf', _, _⟩ := hl.level hk hf.held
    have hform := hf.form
    rw [hc.evolves.record? _ _ hf'.form] at hform
    cases hform
    have hnot := hv x (.inl (mem_of_getElem? hx))
    rw [hc.field_lookup hnot, hc.hidden_lookup hnot]
    exact h.origin env _ hf' i x f hx hi
  · obtain ⟨p, hp, hlt, ht⟩ := h.child env he c hcm
    exact ⟨p, by rw [hc.hidden_lookup (hmember c (.inr hcm)), hp], hc.evolves.lt hlt,
      by rw [hc.evolves.typeOf hlt, ht]⟩

/-- Changes elsewhere do not matter to the context. -/
lemma Context.changes (h : Context l global levels up bound) (hc : Changes ids ks types l l')
    (hv : ∀ x, Visible global levels x → ¬ ks x) : Context l' global levels up bound where
  linked := h.linked.evolves hc.evolves
  bound_le := Nat.le_trans h.bound_le hc.evolves.decls_le
  place record hr := Nat.lt_of_lt_of_le (h.place record hr) hc.evolves.types_le
  keyed L hL := by
    obtain ⟨k, hk⟩ := getElem?_of_mem hL
    exact (h.keyed L hL).changes hc h.linked hk fun x hx => hv x (.inr ⟨L, hL, hx⟩)
  globals x hx := hc.unkeyed (hv x (.inl hx)) (h.globals x hx)
  visible x hx := hc.evolves.lt (h.visible x hx)
  fresh := hc.fresh h.fresh

/-! ## What is still to be lifted -/

/-- The procedure has not been lifted. `up` is the environment its hidden parameter is for. -/
structure Pending (l : Lifting) (visible : DeclId → Prop) (up : Option Ty) (declared : List DeclId)
    (p : Procedure) : Prop where
  role : (l.store.decl p.decl).role = .procedure .defined
  level : Scopes.moduleLevel ≤ (l.store.decl p.decl).level
  signature : ∃ result variadic, l.store.signature? (l.store.typeOf p.decl) =
    some ⟨declared ++ (l.hidden.lookup p.decl).toList, result, variadic⟩
  words : l.store.WordParameters declared
  constants : l.store.Constants p.block.constants
  typeNames : l.store.TypeNames p.block.types
  vars : l.store.Variables p.block.vars
  uses : ∀ u ∈ Statement.usesOf p.block.body, ∀ r ∈ u.2.roots,
    visible r ∨ r ∈ p.block.members declared
  nested : ∀ q ∈ p.block.procedures, q.Scoped l.store ((l.store.decl p.decl).level + 1)
    fun r => visible r ∨ r ∈ p.block.members declared
  hidden : ∀ h, l.hidden.lookup p.decl = some h → (l.store.decl h).name = superName ∧
    (l.store.decl h).role = .parameter true declared.length ∧ up = some (l.store.typeOf h)
  top : l.hidden.lookup p.decl = none → up = none
  nodup : (p.ids l.store).Nodup
  lt : ∀ x ∈ p.ids l.store, x.index < l.store.decls.size
  unkeyed : ∀ x ∈ (p.ids l.store).tail, l.Unkeyed x
  field : l.fields.lookup p.decl = none
  types : (p.types l.store).Nodup
  apart : ∀ r, visible r → r ∉ (p.ids l.store).tail

section

variable (h : Pending l visible up declared p)
include h

lemma Pending.params : params l.store p.decl = declared ++ (l.hidden.lookup p.decl).toList := by
  obtain ⟨result, variadic, hs⟩ := h.signature
  exact params_eq hs

/-- The declarations of a procedure other than itself. -/
lemma Pending.tail_ids : (p.ids l.store).tail =
    declared ++ (l.hidden.lookup p.decl).toList ++ p.block.constants ++ p.block.types ++
     p.block.vars ++ idsOf l.store p.block.procedures := by
  rw [Procedure.ids_eq h.role, tail_cons, h.params]

lemma Pending.idsOf_tail (hx : x ∈ Procedure.idsOf l.store p.block.procedures) :
    x ∈ (p.ids l.store).tail := by
  rw [h.tail_ids]
  exact mem_append_right _ hx

lemma Pending.nested_tail (hq : q ∈ p.block.procedures) (hx : x ∈ q.ids l.store) :
    x ∈ (p.ids l.store).tail :=
  h.idsOf_tail (Procedure.mem_idsOf.2 ⟨q, hq, hx⟩)

lemma Pending.nested_left {l' : Lifting} (hle : l.store.decls.size ≤ l'.store.decls.size)
    (hd : ∀ x ∈ (p.ids l.store).tail, l'.store.decl x = l.store.decl x)
    (hf : ∀ t ∈ p.types l.store, l'.store.form? t = l.store.form? t) (hq : q ∈ p.block.procedures) :
    Procedure.Left l.store l'.store q := by
  refine ⟨hle, fun x hx => hd x (h.nested_tail hq hx), fun t ht => hf t ?_⟩
  rw [Procedure.types_eq]
  exact mem_cons_of_mem _ (Procedure.mem_typesOf.2 ⟨q, hq, ht⟩)

/-- The declarations of a nested procedure are none of those of the procedure around it. -/
lemma Pending.idsOf : (idsOf l.store p.block.procedures).Nodup ∧
    ∀ x ∈ p.decl :: (declared ++ (l.hidden.lookup p.decl).toList ++ p.block.constants ++
     p.block.types ++ p.block.vars), x ∉ idsOf l.store p.block.procedures := by
  have hn := h.nodup
  rw [Procedure.ids_eq_cons, h.tail_ids, ← cons_append, nodup_append] at hn
  exact ⟨hn.2.1, fun x hx hm => hn.2.2 x hx x hm rfl⟩

lemma Pending.typesOf : (typesOf l.store p.block.procedures).Nodup ∧
    l.store.typeOf p.decl ∉ typesOf l.store p.block.procedures := by
  have hn := h.types
  rw [Procedure.types_eq, nodup_cons] at hn
  exact ⟨hn.2, hn.1⟩

/-- The procedure is still pending where nothing but its own name has changed. -/
lemma Pending.agrees (hle : l.store.decls.size ≤ l'.store.decls.size)
    (hrole : (l'.store.decl p.decl).role = (l.store.decl p.decl).role)
    (hlevel : (l'.store.decl p.decl).level = (l.store.decl p.decl).level)
    (htype : l'.store.typeOf p.decl = l.store.typeOf p.decl)
    (hd : ∀ x ∈ (p.ids l.store).tail, l'.store.decl x = l.store.decl x)
    (hf : ∀ t ∈ p.types l.store, l'.store.form? t = l.store.form? t)
    (hfields : ∀ x ∈ p.ids l.store, l'.fields.lookup x = l.fields.lookup x)
    (hhidden : ∀ x ∈ p.ids l.store, l'.hidden.lookup x = l.hidden.lookup x) :
    Pending l' visible up declared p ∧ p.ids l'.store = p.ids l.store ∧ p.types l'.store =
    p.types l.store := by
  have hself := Procedure.decl_mem_ids l.store p
  have htail := h.tail_ids
  have hcons : p.ids l.store = p.decl :: (p.ids l.store).tail := by rw [Procedure.ids_eq h.role]; rfl
  have hmem (x) (hx : x ∈ declared ++ (l.hidden.lookup p.decl).toList ++
      p.block.constants ++ p.block.types ++ p.block.vars) : l'.store.decl x = l.store.decl x := by
    refine hd x ?_
    rw [htail]
    exact mem_append_left _ hx
  have hnested (q) (hq : q ∈ p.block.procedures) := h.nested_left hle hd hf hq
  have hleft (q) (hq : q ∈ p.block.procedures) := (h.nested q hq).left (hnested q hq)
  obtain ⟨result, variadic, hs⟩ := h.signature
  have hs' : l'.store.signature? (l'.store.typeOf p.decl) =
      some ⟨declared ++ (l'.hidden.lookup p.decl).toList, result, variadic⟩ := by
    rw [hhidden p.decl hself, htype, signature?_eq_some,
      hf _ (Procedure.type_mem_types l.store p), ← signature?_eq_some]
    exact hs
  have hids : p.ids l'.store = p.ids l.store := by
    rw [Procedure.ids_eq (hrole.trans h.role), Procedure.ids_eq h.role, params_eq hs',
      params_eq hs, hhidden p.decl hself, Procedure.idsOf_congr fun q hq => (hleft q hq).2.1]
  have htypes : p.types l'.store = p.types l.store := by
    rw [Procedure.types_eq, Procedure.types_eq, htype,
      Procedure.typesOf_congr fun q hq => (hleft q hq).2.2]
  have hhid (x) (hx : l.hidden.lookup p.decl = some x) :
      l'.store.decl x = l.store.decl x := hmem x (by simp [hx])
  refine ⟨⟨hrole.trans h.role, by rw [hlevel]; exact h.level, ⟨result, variadic, hs'⟩, ?_, ?_, ?_, ?_,
    h.uses, fun q hq => ?_, fun x hx => ?_, fun hn => ?_, ?_, ?_, ?_, ?_, ?_, ?_⟩, hids, htypes⟩
  · exact wordParameters_of h.words hle fun x hx => hmem x (by simp [hx])
  · exact constants_of h.constants hle fun x hx => hmem x (by simp [hx])
  · exact typeNames_of h.typeNames hle fun x hx => hmem x (by simp [hx])
  · exact variables_of h.vars hle fun x hx => hmem x (by simp [hx])
  · rw [hlevel]
    exact (hleft q hq).1
  · rw [hhidden p.decl hself] at hx
    rw [typeOf, hhid x hx]
    exact h.hidden x hx
  · rw [hhidden p.decl hself] at hn
    exact h.top hn
  · rw [hids]
    exact h.nodup
  · rw [hids]
    exact fun x hx => Nat.lt_of_lt_of_le (h.lt x hx) hle
  · rw [hids]
    intro x hx
    have hx' : x ∈ p.ids l.store := mem_of_mem_tail hx
    exact ⟨(hfields x hx').trans (h.unkeyed x hx).field, (hhidden x hx').trans (h.unkeyed x hx).hidden⟩
  · rw [hfields p.decl hself]
    exact h.field
  · rw [htypes]
    exact h.types
  · rw [hids]
    exact h.apart

/-- Changes elsewhere do not matter to a procedure that is still to be lifted. -/
lemma Pending.changes (hc : Changes ids ks types l l') (hi : ∀ x ∈ p.ids l.store, ¬ ids x)
    (hk : ∀ x ∈ p.ids l.store, ¬ ks x) (ht : ∀ t ∈ p.types l.store, ¬ types t) :
    Pending l' visible up declared p ∧ p.ids l'.store = p.ids l.store ∧ p.types l'.store =
    p.types l.store := by
  have hdecl (x) (hx : x ∈ p.ids l.store) := hc.decl x (h.lt x hx) (hi x hx)
  have hself := hdecl p.decl (Procedure.decl_mem_ids l.store p)
  refine h.agrees hc.evolves.decls_le (by rw [hself]) (by rw [hself])
    (by rw [typeOf, hself, typeOf]) (fun x hx => hdecl x (mem_of_mem_tail hx))
    (fun t htm => ?_) (fun x hx => hc.field_lookup (hk x hx)) fun x hx => hc.hidden_lookup (hk x hx)
  have hplace : t.place < l.store.types.size := by
    rw [Procedure.types_eq] at htm
    rcases mem_cons.1 htm with rfl | htm
    · obtain ⟨result, variadic, hs⟩ := h.signature
      exact place_lt (signature?_eq_some.1 hs)
    · obtain ⟨q, hq, htm⟩ := Procedure.mem_typesOf.1 htm
      exact (h.nested q hq).place_lt t htm
  exact hc.form t hplace (ht t htm)

end

end Lifting
end Oberon
