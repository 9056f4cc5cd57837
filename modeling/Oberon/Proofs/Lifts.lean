import Oberon.Proofs.Outlines

/-!
# Oberon.Proofs.Lifts

Lifting a tree of procedures, by induction on the tree. A procedure is lifted in a context made by
those around it, and makes the context of those nested in it.
-/

namespace Oberon

open List

open Procedure (Left decl decl_mem_ids idsOf_congr idsOf_eq_flatMap ids_eq ids_eq_cons mem_idsOf
  mem_typesOf outlineOf params_eq typesOf typesOf_congr typesOf_eq_flatMap types_eq types_eq_cons)

variable {ps : List Procedure}
namespace Lifting

variable {p q : Procedure}

/-! ## Procedures without nested ones -/

lemma Pending.mem_tail (h : Pending l visible up declared p) (hx : x ∈ p.block.members declared) :
    x ∈ (p.ids l.store).tail := by
  have hchild (c) (hc : c ∈ p.block.procedures.map decl) :
      c ∈ Procedure.idsOf l.store p.block.procedures := by
    obtain ⟨q, hq, rfl⟩ := mem_map.1 hc
    exact mem_idsOf.2 ⟨q, hq, decl_mem_ids _ q⟩
  rw [h.tail_ids]
  revert hx hchild
  cases p.block
  simp only [Block.members, Block.constants, Block.types, Block.vars, Block.procedures,
    mem_append]
  intro hx hchild
  have := hchild x
  tauto

lemma liftBody_nil (id vars body l) :
    liftBody id vars [] body l =
      match l.hidden.lookup id with
      | none => .ok ((vars, body), l)
      | some param => (routeStatements l ⟨param, l.store.typeOf param⟩ body).bind fun body =>
        .ok ((vars, body), l) := by
  have hrun : liftBody id vars [] body l =
      ((match l.hidden.lookup id with
      | none => pure (vars, body)
      | some param => do
        let body ← routeStatements l ⟨param, l.store.typeOf param⟩ body
        return (vars, body)) : Lift (List DeclId × List Statement)) l := rfl
  rw [hrun]
  cases l.hidden.lookup id with
  | none => rfl
  | some param =>
    show ((routeStatements l ⟨param, l.store.typeOf param⟩ body).bind _).bind _ = _
    cases hr : routeStatements l ⟨param, l.store.typeOf param⟩ body with
    | error e | ok body => simp only [hr]; rfl

lemma routableAll_leaf (hctx : Context l global levels up bound)
    (hp : Pending l (Visible global levels) up declared p) (hh : l.hidden.lookup p.decl = some h) :
    RoutableAll l ⟨h, l.store.typeOf h⟩ (Reference l.store ⟨h,
     l.store.typeOf h⟩ levels) (Statement.usesOf p.block.body) := by
  obtain ⟨_, _, rfl⟩ := hp.hidden h hh
  intro u hu _ r hr
  rcases hp.uses u hu r hr with hv | hm
  · exact routable_of_visible hctx.linked (hctx.place _ rfl) hctx.keyed hctx.globals hv
  · exact routable_of_unkeyed hctx.keyed hctx.linked (hp.unkeyed r (hp.mem_tail hm))

/-- A procedure without nested ones reaches what is around it through its hidden parameter. -/
lemma liftBody_leaf (hctx : Context l global levels up bound)
    (hp : Pending l (Visible global levels) up declared p) : ∃ body,
    liftBody p.decl p.block.vars [] p.block.body l = .ok ((p.block.vars, body), l) ∧
    Lifted l.store ⟨p, declared, l.hidden.lookup p.decl,
     none⟩ levels (.mk p.decl (.mk p.block.constants p.block.types p.block.vars [] body)) := by
  cases hh : l.hidden.lookup p.decl with
  | none =>
    have hlinked := hctx.linked
    rw [hp.top hh] at hlinked
    refine ⟨p.block.body, ?_, .alone hlinked rfl rfl⟩
    rw [liftBody_nil, hh]
  | some h =>
    obtain ⟨hname, hrole, hup⟩ := hp.hidden h hh
    have hlinked := hctx.linked
    rw [hup] at hlinked
    have hlt : h.In l.store := by
      refine hp.lt h (mem_of_mem_tail ?_)
      rw [hp.tail_ids, hh]
      simp
    obtain ⟨body, hrun, hb⟩ := routeStatements_ok p.block.body
      (List.forall_mem_flatMap.1 (routableAll_leaf hctx hp hh))
    refine ⟨body, ?_, .leaf hlinked rfl rfl hlt ?_ hname rfl hb⟩
    · rw [liftBody_nil, hh]
      dsimp only
      rw [hrun]
      rfl
    · simp only [Declaration.isParameter, hrole]

/-! ## Nested procedures -/

/-- What a procedure becomes for those nested in it: `q` is left alone but for its hidden parameter,
which is new. -/
structure Passed (l l1 : Lifting) (up1 : Option Ty) (q : Procedure) : Prop where
  decls_le : l.store.decls.size ≤ l1.store.decls.size
  decl : ∀ x ∈ q.ids l.store, l1.store.decl x = l.store.decl x
  form : ∀ t ∈ (q.types l.store).tail, l1.store.form? t = l.store.form? t
  signature : ∀ sig, l.store.signature? (l.store.typeOf q.decl) = some sig →
    l1.store.signature? (l.store.typeOf q.decl) =
      some { sig with params := sig.params ++ (l1.hidden.lookup q.decl).toList }
  bounds : ∀ h, l1.hidden.lookup q.decl = some h →
    l.store.decls.size ≤ h.index ∧ h.index < l1.store.decls.size
  hidden : ∀ h sig, l1.hidden.lookup q.decl = some h →
    l.store.signature? (l.store.typeOf q.decl) = some sig → (l1.store.decl h).name = superName ∧
      (l1.store.decl h).role = .parameter true sig.params.length ∧
      up1 = some (l1.store.typeOf h)
  top : l1.hidden.lookup q.decl = none → up1 = none
  unkeyed : ∀ x ∈ (q.ids l.store).tail, l1.Unkeyed x
  hiddenUnkeyed : ∀ h, l1.hidden.lookup q.decl = some h → l1.Unkeyed h
  field : l1.fields.lookup q.decl = none

lemma Pending.child (hp : Pending l visible up declared p) (hq : q ∈ p.block.procedures)
    (hpass : Passed l l1 up1 q) (hn : (q.ids l.store).Nodup) (ht : (q.types l.store).Nodup)
    (hlt : ∀ x ∈ q.ids l.store, x.In l.store)
    (hv : ∀ r, visible r ∨ r ∈ p.block.members declared → visible1 r)
    (hapart : ∀ r, visible1 r → r ∉ (q.ids l.store).tail ∧ l1.hidden.lookup q.decl ≠ some r) :
    ∃ declared1, Pending l1 visible1 up1 declared1 q ∧
    (∀ x, x ∈ q.ids l1.store ↔ x ∈ q.ids l.store ∨ l1.hidden.lookup q.decl = some x) ∧
    q.types l1.store = q.types l.store := by
  have hself := hpass.decl q.decl (decl_mem_ids l.store q)
  have htype : l1.store.typeOf q.decl = l.store.typeOf q.decl := by
    rw [Store.typeOf, hself, Store.typeOf]
  rcases (hp.nested q hq).isExternal_or with ⟨_, _, htop⟩ | ⟨params, hdef⟩
  · have := hp.level
    omega
  · obtain ⟨result, variadic, hs⟩ := hdef.signature
    have hle := hpass.decls_le
    have hids := hdef.ids
    have hmem (x) (hx : x ∈ params ++ q.block.constants ++ q.block.types ++
        q.block.vars) : l1.store.decl x = l.store.decl x := by
      refine hpass.decl x ?_
      rw [hids]
      exact mem_cons_of_mem _ (mem_append_left _ hx)
    have hleft (r) (hr : r ∈ q.block.procedures) := by
      refine (hdef.nested r hr).left ⟨hle, fun x hx => hpass.decl x ?_, fun t ht => hpass.form t ?_⟩
      · rw [hids]
        exact mem_cons_of_mem _ (mem_append_right _ (mem_idsOf.2 ⟨r, hr, hx⟩))
      · rw [types_eq, tail_cons]
        exact mem_typesOf.2 ⟨r, hr, ht⟩
    have hs1 : l1.store.signature? (l1.store.typeOf q.decl) =
        some ⟨params ++ (l1.hidden.lookup q.decl).toList, result, variadic⟩ := by
      rw [htype]
      exact hpass.signature _ hs
    have hrole1 : (l1.store.decl q.decl).role = .procedure .defined := by rw [hself, hdef.role]
    have hids1 : q.ids l1.store = q.decl :: (params ++ (l1.hidden.lookup q.decl).toList ++
        q.block.constants ++ q.block.types ++ q.block.vars ++
        Procedure.idsOf l.store q.block.procedures) := by
      rw [ids_eq hrole1, params_eq hs1, idsOf_congr fun r hr => (hleft r hr).2.1]
    have htypes1 : q.types l1.store = q.types l.store := by
      rw [types_eq, types_eq, htype, typesOf_congr fun r hr => (hleft r hr).2.2]
    have hmem1 (x) : x ∈ q.ids l1.store ↔
        x ∈ q.ids l.store ∨ l1.hidden.lookup q.decl = some x := by
      rw [hids1, hids]
      simp only [mem_cons, mem_append, Option.mem_toList]
      tauto
    have htail1 (x) (hx : x ∈ (q.ids l1.store).tail) :
        x ∈ (q.ids l.store).tail ∨ l1.hidden.lookup q.decl = some x := by
      rw [hids1, tail_cons] at hx
      rw [hids, tail_cons]
      simp only [mem_append, Option.mem_toList] at hx ⊢
      tauto
    refine ⟨params, ⟨hrole1, ?_, ⟨result, variadic, hs1⟩, ?_, ?_, ?_, ?_, ?_, ?_, ?_, hpass.top, ?_, ?_,
      ?_, hpass.field, ?_, ?_⟩, hmem1, htypes1⟩
    · rw [hself, hdef.depth]
      exact Nat.le_succ_of_le hp.level
    · exact Store.wordParameters_of hdef.words hle fun x hx => hmem x (by simp [hx])
    · exact Store.constants_of hdef.constants hle fun x hx => hmem x (by simp [hx])
    · exact Store.typeNames_of hdef.typeNames hle fun x hx => hmem x (by simp [hx])
    · exact Store.variables_of hdef.vars hle fun x hx => hmem x (by simp [hx])
    · exact fun u hu r hr => (hdef.uses u hu r hr).imp_left (hv r)
    · intro r hr
      rw [hself, hdef.depth]
      exact (hleft r hr).1.mono fun x => Or.imp_left (hv x)
    · exact fun h hh => hpass.hidden h _ hh hs
    · have hperm : (q.ids l1.store).Perm ((l1.hidden.lookup q.decl).toList ++ q.ids l.store) := by
        rw [hids1, hids]
        simp only [append_assoc]
        exact perm_append_comm_assoc (q.decl :: params) _ _
      rw [hperm.nodup_iff, nodup_append]
      refine ⟨by cases l1.hidden.lookup q.decl <;> simp, hn, fun x hx y hy heq => ?_⟩
      subst heq
      have hb := (hpass.bounds x (by simpa using hx)).1
      exact Nat.lt_irrefl _ (Nat.lt_of_lt_of_le (hlt x hy) hb)
    · intro x hx
      rcases (hmem1 x).1 hx with hx | hx
      · exact Nat.lt_of_lt_of_le (hlt x hx) hle
      · exact (hpass.bounds x hx).2
    · intro x hx
      rcases htail1 x hx with hx | hx
      · exact hpass.unkeyed x hx
      · exact hpass.hiddenUnkeyed x hx
    · rw [htypes1]
      exact ht
    · intro r hr hx
      rcases htail1 r hx with hx | hx
      · exact (hapart r hr).1 hx
      · exact (hapart r hr).2 hx

/-! ## Procedures with an environment -/

/-- The level of a procedure that is about to be lifted. -/
def levelOf (l : Lifting) (p : Procedure) (declared : List DeclId) (env : Option Environment) :
    Level :=
  ⟨p, declared, l.hidden.lookup p.decl, env⟩

section

variable (hp : Pending l visible up declared p)
include hp

lemma Pending.params_levelOf (env) : (levelOf l p declared env).params =
    Lifting.params l.store p.decl :=
  hp.params.symm

lemma Pending.origins_levelOf (env) : (levelOf l p declared env).origins =
    Lifting.params l.store p.decl ++ p.block.vars := by
  rw [Level.origins, hp.params_levelOf]
  rfl

lemma Pending.origin (hx : x ∈ Lifting.params l.store p.decl ++ p.block.vars) :
    x ∈ (p.ids l.store).tail ∧ x.In l.store ∧ (l.store.decl x).isProcedure = false := by
  have htail : x ∈ (p.ids l.store).tail := by
    rw [hp.tail_ids]
    rw [hp.params] at hx
    simp only [mem_append] at hx ⊢
    tauto
  refine ⟨htail, hp.lt x (mem_of_mem_tail htail), ?_⟩
  rw [hp.params, mem_append, mem_append] at hx
  rcases hx with (hx | hx) | hx
  · obtain ⟨i, hi⟩ := getElem?_of_mem hx
    obtain ⟨_, r, hr⟩ := hp.words.1 i x hi
    simp only [Declaration.isProcedure, hr]
  · have hr := (hp.hidden x (by simpa using hx)).2.1
    simp only [Declaration.isProcedure, hr]
  · obtain ⟨i, hi⟩ := getElem?_of_mem hx
    have hr := (hp.vars i x hi).2
    simp only [Declaration.isProcedure, hr]

end

lemma ne_superName_of_isWord (h : IsWord name) : name ≠ superName := by
  rintro rfl
  obtain ⟨c, cs, heq, hc⟩ := h
  have hhead : c = '_' := by
    have := congrArg head? heq
    exact (Option.some.inj this).symm
  subst hhead
  exact absurd hc (by decide)

/-- What is shared with nested procedures is none of the rest. -/
lemma Pending.origins_apart (hp : Pending l visible up declared p) :
    (Lifting.params l.store p.decl ++ p.block.vars).Nodup ∧
    ∀ x ∈ Lifting.params l.store p.decl ++ p.block.vars, x ∉ p.block.constants ++ p.block.types ∧
    x ∉ p.block.procedures.map decl := by
  have hn := hp.nodup
  rw [ids_eq_cons, nodup_cons, hp.tail_ids, ← hp.params, nodup_append] at hn
  obtain ⟨_, hown, _, hnested⟩ := hn
  have hperm : (Lifting.params l.store p.decl ++ p.block.constants ++ p.block.types ++
      p.block.vars).Perm ((Lifting.params l.store p.decl ++ p.block.vars) ++
        (p.block.constants ++ p.block.types)) := by
    simp only [append_assoc, perm_append_left_iff]
    rw [← append_assoc]
    exact perm_append_comm
  rw [hperm.nodup_iff, nodup_append] at hown
  refine ⟨hown.1, fun x hx => ⟨fun hx' => hown.2.2 x hx x hx' rfl, fun hx' => ?_⟩⟩
  obtain ⟨q, hq, rfl⟩ := mem_map.1 hx'
  refine hnested q.decl (hperm.mem_iff.2 (mem_append_left _ hx)) q.decl ?_ rfl
  exact mem_idsOf.2 ⟨q, hq, decl_mem_ids _ q⟩

/-- From `l` to `l'` the procedure `p` got the environment `env`. -/
abbrev Built (p : Procedure) (env : Environment) (mirrors hiddens : List DeclId) (l l' : Lifting) :
    Prop :=
  Builds (l.store.decl p.decl).name (params l.store p.decl) p.block.vars
    (p.block.procedures.map decl) env mirrors hiddens l l'

section Framed

section

variable (hB : Built p env mirrors hiddens l l1)
include hB

lemma Built.frames (hp : Pending l visible up declared p) :
    Frames l1.store (levelOf l p declared (some env)) env mirrors := by
  have ho := hp.origins_levelOf (some env)
  refine ⟨rfl, hB.form, by rw [hB.mirrored, ho], fun i x f hx hf => ?_, fun x hx => ?_, fun f hf => ?_⟩
  · rw [ho] at hx
    obtain ⟨_, hlt, hproc⟩ := hp.origin (mem_of_getElem? hx)
    have hd := (hB.field i x f hx hf).2
    rw [Store.typeOf, hd, (hB.changes.evolves.decl x hlt).name hproc, hB.changes.evolves.typeOf hlt]
    exact ⟨rfl, rfl⟩
  · rw [ho] at hx
    obtain ⟨_, hlt, hproc⟩ := hp.origin hx
    exact ⟨hB.changes.evolves.lt hlt, (hB.changes.evolves.decl x hlt).isProcedure.trans hproc⟩
  · obtain ⟨i, x, hi, hx⟩ := exists_pair hB.mirrored.symm hf
    exact ⟨i, by rw [(hB.field i x f hx hi).2]; rfl⟩

/-- The field for the hidden parameter is the first of its name. -/
lemma Built.superField? (hp : Pending l visible up declared p)
    (hh : l.hidden.lookup p.decl = some h) : ∃ link, superField? l1.store mirrors = some link ∧
    l1.store.typeOf link = l.store.typeOf h := by
  have hparams := hp.params
  rw [hh, Option.toList_some] at hparams
  have hget (i) (hi : i ≤ declared.length) :
      (Lifting.params l.store p.decl ++ p.block.vars)[i]? = (declared ++ [h])[i]? := by
    rw [hparams, getElem?_append_left]
    simp only [length_append, length_singleton]
    omega
  have hlen : declared.length < mirrors.length := by
    rw [hB.mirrored, hparams]
    simp only [length_append, length_singleton]
    omega
  have hmirror (i x) (hi : i ≤ declared.length) (hx : (declared ++ [h])[i]? = some x) :
      l1.store.decl (mirrors[i]) = mirror l.module (l.store.decl x) i :=
    (hB.field i x _ (by rw [hget i hi, hx]) (getElem?_eq_getElem (by omega))).2
  have hlast := hmirror declared.length h (Nat.le_refl _) (by simp)
  refine ⟨mirrors[declared.length], ?_, by rw [Store.typeOf, hlast]; rfl⟩
  refine find?_eq_some_iff_getElem.2 ⟨?_, declared.length, hlen, rfl, fun j hj => ?_⟩
  · rw [hlast]
    exact beq_iff_eq.2 (hp.hidden h hh).1
  · have hx : (declared ++ [h])[j]? = some declared[j] := by
      rw [getElem?_append_left hj, getElem?_eq_getElem]
    rw [hmirror j _ (Nat.le_of_lt hj) hx]
    have hword := hp.words.2 declared[j] (getElem_mem hj)
    show (!(l.store.decl declared[j]).name == superName)
    simpa using ne_superName_of_isWord hword

lemma Built.linked (hp : Pending l visible up declared p)
    (hctx : Context l global levels up bound) :
    Linked l1.store (levelOf l p declared (some env) :: levels) (some env.record)
     l1.store.decls.size := by
  have hle := hB.changes.evolves.decls_le
  refine .framed (hctx.linked.evolves hB.changes.evolves) (hB.frames hp)
    (Nat.le_trans hctx.bound_le hle) (fun f hf => ?_) fun record hr => ?_
  · exact ⟨Nat.le_trans hctx.bound_le (hB.fieldBounds f hf).1, (hB.fieldBounds f hf).2⟩
  · refine ⟨by rw [hB.place]; exact hctx.place record hr, ?_⟩
    cases hh : l.hidden.lookup p.decl with
    | none =>
      rw [hp.top hh] at hr
      cases hr
    | some h =>
      have hup := (hp.hidden h hh).2.2
      rw [hup] at hr
      cases hr
      exact hB.superField? hp hh

end

/-- What the environment is made of is declared in the procedure. -/
lemma Built.keys_tail (hp : Pending l visible up declared p)
    (hx : x ∈ params l.store p.decl ++ p.block.vars ∨ x ∈ p.block.procedures.map decl) :
    x ∈ (p.ids l.store).tail := by
  rcases hx with hx | hx
  · exact (hp.origin hx).1
  · obtain ⟨q, hq, rfl⟩ := mem_map.1 hx
    exact hp.nested_tail hq (decl_mem_ids _ q)

lemma Built.keyed (hB : Built p env mirrors hiddens l l1) (hp : Pending l visible up declared p) :
    Keyed l1 (levelOf l p declared (some env)) := by
  refine ⟨fun x hx => ?_, fun env' mirrors' hf i x f hx hi => ?_, fun env' he c hc => ?_, nofun⟩
  · have hx : x ∈ p.block.constants ++ p.block.types := hx
    have hmem : x ∈ (p.ids l.store).tail := by
      rw [hp.tail_ids]
      simp only [mem_append] at hx ⊢
      tauto
    refine hB.changes.unkeyed (fun hk => ?_) (hp.unkeyed x hmem)
    rcases hk with hk | hk
    · exact (hp.origins_apart.2 x hk).1 hx
    · obtain ⟨q, hq, rfl⟩ := mem_map.1 hk
      refine hp.idsOf.2 q.decl ?_ (mem_idsOf.2 ⟨q, hq, decl_mem_ids _ q⟩)
      simp only [mem_cons, mem_append] at hx ⊢
      tauto
  · cases hf.held
    have hform := hf.form
    rw [hB.form] at hform
    cases hform
    rw [hp.origins_levelOf] at hx
    have ho := hp.origin (mem_of_getElem? hx)
    refine ⟨(hB.field i x f hx hi).1, ?_⟩
    rw [hB.hidden x (hp.origins_apart.2 x (mem_of_getElem? hx)).2]
    exact (hp.unkeyed x ho.1).hidden
  · cases he
    have hc : c ∈ p.block.procedures.map decl := hc
    obtain ⟨i, h, hi, hmi⟩ := exists_pair hB.paired hc
    obtain ⟨hl, sig, _, _, hd⟩ := hB.param i c _ hi hmi
    refine ⟨_, hl, ?_, by rw [Store.typeOf, hd]⟩
    exact Nat.lt_trans (hB.paramBounds _ (mem_of_getElem? hmi)).2 hB.thisBounds.2

end Framed

/-! ## From a procedure to those nested in it -/

lemma Context.cons (h : Context l global levels up bound)
    (hl : Linked l.store (L :: levels) up1 bound1) (hb : bound1 ≤ l.store.decls.size)
    (hplace : ∀ record, up1 = some record → record.place < l.store.types.size) (hk : Keyed l L)
    (hv : ∀ x, x ∈ L.origins ∨ x ∈ L.procedure.block.members L.declared → x.In l.store) :
    Context l global (L :: levels) up1 bound1 where
  linked := hl
  bound_le := hb
  place := hplace
  keyed := forall_mem_cons.2 ⟨hk, h.keyed⟩
  globals := h.globals
  visible x hx := by
    rcases hx with hx | ⟨L', hL, hx⟩
    · exact h.visible x (.inl hx)
    · rcases mem_cons.1 hL with rfl | hL
      · exact hv x hx
      · exact h.visible x (.inr ⟨L', hL, hx⟩)
  fresh := h.fresh

section

variable (hp : Pending l (Visible global levels) up declared p)
include hp

/-- What is visible in a procedure is declared around it or by it. -/
lemma Pending.visible_levelOf (env) (hx : Visible global (levelOf l p declared env :: levels) x) :
    Visible global levels x ∨
    x ∈ declared ++ (l.hidden.lookup p.decl).toList ++ p.block.constants ++ p.block.types ++
     p.block.vars ∨ x ∈ p.block.procedures.map decl := by
  rcases hx with hx | ⟨L, hL, hx⟩
  · exact .inl (.inl hx)
  · rcases mem_cons.1 hL with rfl | hL
    · have horigin (hx : x ∈ (levelOf l p declared env).origins) :
          x ∈ declared ++ (l.hidden.lookup p.decl).toList ++ p.block.constants ++
            p.block.types ++ p.block.vars := by
        rw [hp.origins_levelOf, hp.params] at hx
        simp only [mem_append] at hx ⊢
        tauto
      rcases hx with hx | hx
      · exact .inr (.inl (horigin hx))
      · rcases Level.mem_members hx with hx | hx | hx
        · exact .inr (.inl (horigin hx))
        · have hx : x ∈ p.block.constants ++ p.block.types := hx
          refine .inr (.inl ?_)
          simp only [mem_append] at hx ⊢
          tauto
        · exact .inr (.inr hx)
    · exact .inl (.inr ⟨L, hL, hx⟩)

lemma Pending.visible_apart (env) (hx : Visible global (levelOf l p declared env :: levels) x)
    (hq : q ∈ p.block.procedures) : x ∉ (q.ids l.store).tail := by
  intro hm
  have hmem : x ∈ Procedure.idsOf l.store p.block.procedures := mem_idsOf.2 ⟨q, hq, mem_of_mem_tail hm⟩
  have hids := hp.idsOf
  rcases hp.visible_levelOf env hx with hx | hx | hx
  · exact hp.apart x hx (hp.idsOf_tail hmem)
  · exact hids.2 x (mem_cons_of_mem _ hx) hmem
  · rw [idsOf_eq_flatMap] at hids
    exact not_mem_map_of_mem_tail hids.1 (ids_eq_cons l.store) hq hm hx

lemma Pending.lt_levelOf (env)
    (hx : x ∈ (levelOf l p declared env).origins ∨ x ∈ p.block.members declared) :
    x.In l.store := by
  refine hp.lt x (mem_of_mem_tail ?_)
  rcases hx with hx | hx
  · rw [hp.origins_levelOf] at hx
    exact (hp.origin hx).1
  · exact hp.mem_tail hx

end

/-- Those nested in a procedure once it is done with. -/
structure Ready (l : Lifting) (visible : DeclId → Prop) (up : Option Ty) (ps : List Procedure) :
    Prop where
  pending : ∀ q ∈ ps, ∃ declared, Pending l visible up declared q
  ids : (Procedure.idsOf l.store ps).Nodup
  types : (typesOf l.store ps).Nodup

lemma Pending.ready (hp : Pending l (Visible global levels) up declared p) (env)
    (hctx : Context l global levels up bound) (hpass : ∀ q ∈ p.block.procedures, Passed l l1 up1 q)
    (hinj : ∀ q ∈ p.block.procedures, ∀ q' ∈ p.block.procedures, ∀ h, l1.hidden.lookup q.decl =
     some h → l1.hidden.lookup q'.decl = some h → q.decl = q'.decl) :
    Ready l1 (Visible global (levelOf l p declared env :: levels)) up1 p.block.procedures ∧
    (∀ x ∈ Procedure.idsOf l1.store p.block.procedures,
     x ∈ Procedure.idsOf l.store p.block.procedures ∨ ∃ q ∈ p.block.procedures,
     l1.hidden.lookup q.decl = some x) ∧ Procedure.typesOf l1.store p.block.procedures =
    Procedure.typesOf l.store p.block.procedures := by
  obtain ⟨hids, _⟩ := hp.idsOf
  obtain ⟨htypes, _⟩ := hp.typesOf
  rw [idsOf_eq_flatMap] at hids
  have hlt (q) (hq : q ∈ p.block.procedures) (x) (hx : x ∈ q.ids l.store) :
      x.In l.store :=
    hp.lt x (mem_of_mem_tail (hp.nested_tail hq hx))
  have hvalid (x) (hx : Visible global (levelOf l p declared env :: levels) x) :
      x.In l.store := by
    rcases hp.visible_levelOf env hx with hx | hx | hx
    · exact hctx.visible x hx
    · refine hp.lt x (mem_of_mem_tail ?_)
      rw [hp.tail_ids]
      exact mem_append_left _ hx
    · obtain ⟨q, hq, rfl⟩ := mem_map.1 hx
      exact hlt q hq _ (decl_mem_ids _ q)
  have hchild (q) (hq : q ∈ p.block.procedures) :
      ∃ declared1,
        Pending l1 (Visible global (levelOf l p declared env :: levels)) up1 declared1 q ∧
          (∀ x, x ∈ q.ids l1.store ↔ x ∈ q.ids l.store ∨ l1.hidden.lookup q.decl = some x) ∧
          q.types l1.store = q.types l.store := by
    refine hp.child hq (hpass q hq) (nodup_of_mem_flatMap hids hq)
      (nodup_of_mem_flatMap (typesOf_eq_flatMap l.store _ ▸ htypes) hq) (hlt q hq)
      (fun r hr => ?_) fun r hr => ⟨hp.visible_apart env hr hq, fun hh => ?_⟩
    · rcases hr with (hr | ⟨L, hL, hr⟩) | hr
      · exact .inl hr
      · exact .inr ⟨L, mem_cons_of_mem _ hL, hr⟩
      · exact .inr ⟨_, mem_cons_self, .inr hr⟩
    · exact Nat.lt_irrefl _ (Nat.lt_of_lt_of_le (hvalid r hr) ((hpass q hq).bounds r hh).1)
  have htypes1 : Procedure.typesOf l1.store p.block.procedures =
      Procedure.typesOf l.store p.block.procedures := by
    refine typesOf_congr fun q hq => ?_
    obtain ⟨_, _, _, ht⟩ := hchild q hq
    exact ht
  refine ⟨⟨fun q hq => ?_, ?_, by rw [htypes1]; exact htypes⟩, fun x hx => ?_, htypes1⟩
  · obtain ⟨declared1, h, _⟩ := hchild q hq
    exact ⟨declared1, h⟩
  · have hprocs : p.block.procedures.Nodup :=
      .of_map _ (nodup_map_of_flatMap hids (ids_eq_cons l.store))
    rw [idsOf_eq_flatMap, nodup_flatMap]
    refine ⟨fun q hq => ?_, hprocs.pairwise_of_forall_ne fun q hq q' hq' hne x hx hx' => hne ?_⟩
    · obtain ⟨_, h, _⟩ := hchild q hq
      exact h.nodup
    · obtain ⟨_, _, hm, _⟩ := hchild q hq
      obtain ⟨_, _, hm', _⟩ := hchild q' hq'
      -- a hidden parameter is new, so it is no declaration of the other procedure
      rcases (hm x).1 hx with hx | hx <;> rcases (hm' x).1 hx' with hx' | hx'
      · exact eq_of_mem_flatMap hids hq hq' hx hx'
      · have := (hpass q' hq').bounds x hx'
        exact (Nat.lt_irrefl _ (Nat.lt_of_lt_of_le (hlt q hq x hx) this.1)).elim
      · have := (hpass q hq).bounds x hx
        exact (Nat.lt_irrefl _ (Nat.lt_of_lt_of_le (hlt q' hq' x hx') this.1)).elim
      · have heq := hinj q hq q' hq' x hx hx'
        refine eq_of_mem_flatMap hids hq hq' (decl_mem_ids _ q) ?_
        rw [heq]
        exact decl_mem_ids _ q'
  · obtain ⟨q, hq, hx⟩ := mem_idsOf.1 hx
    obtain ⟨_, _, hm, _⟩ := hchild q hq
    rcases (hm x).1 hx with hx | hx
    · exact .inl (mem_idsOf.2 ⟨q, hq, hx⟩)
    · exact .inr ⟨q, hq, hx⟩

section Framed

section

variable (hB : Built p env mirrors hiddens l l1)
include hB

lemma Built.hidden_of_mem (hc : c ∈ p.block.procedures.map decl) : ∃ (i : Nat) (h : DeclId),
    (p.block.procedures.map decl)[i]? = some c ∧ hiddens[i]? = some h ∧ l1.hidden.lookup c =
    some h := by
  obtain ⟨i, h, hi, hmi⟩ := exists_pair hB.paired hc
  exact ⟨i, h, hi, hmi, (hB.param i c _ hi hmi).1⟩

lemma Built.hidden_inj (hc : c ∈ p.block.procedures.map decl)
    (hc' : c' ∈ p.block.procedures.map decl) (hh : l1.hidden.lookup c = some h)
    (hh' : l1.hidden.lookup c' = some h) : c = c' := by
  obtain ⟨i, g, hi, hg, hl⟩ := hB.hidden_of_mem hc
  obtain ⟨i', g', hi', hg', hl'⟩ := hB.hidden_of_mem hc'
  rw [hh] at hl
  rw [hh'] at hl'
  cases hl
  cases hl'
  have hii : i = i' := by
    obtain ⟨hlt, hge⟩ := List.getElem?_eq_some_iff.1 hg
    obtain ⟨hlt', hge'⟩ := List.getElem?_eq_some_iff.1 hg'
    exact (List.Nodup.getElem_inj_iff hB.distinct).1 (hge.trans hge'.symm)
  subst hii
  exact Option.some.inj (hi.symm.trans hi')

lemma Built.passed (hp : Pending l visible up declared p)
    (hctx : Context l global levels up bound) (hq : q ∈ p.block.procedures) :
    Passed l l1 (some env.record) q := by
  obtain ⟨hids, hown⟩ := hp.idsOf
  obtain ⟨htypes, _⟩ := hp.typesOf
  rw [idsOf_eq_flatMap] at hids
  rw [typesOf_eq_flatMap] at htypes
  have hmem (x : DeclId) (hx : x ∈ q.ids l.store) :
      x ∉ params l.store p.decl ++ p.block.vars := by
    intro hx'
    refine hown x ?_ (mem_idsOf.2 ⟨q, hq, hx⟩)
    rw [hp.params] at hx'
    simp only [mem_cons, mem_append] at hx' ⊢
    tauto
  have hlt (x : DeclId) (hx : x ∈ q.ids l.store) : x.In l.store :=
    hp.lt x (mem_of_mem_tail (hp.nested_tail hq hx))
  have htail (x : DeclId) (hx : x ∈ (q.ids l.store).tail) :
      x ∉ p.block.procedures.map decl :=
    not_mem_map_of_mem_tail hids (ids_eq_cons l.store) hq hx
  obtain ⟨i, h, hi, hh, hl⟩ := hB.hidden_of_mem (mem_map_of_mem (f := decl) hq)
  obtain ⟨_, sig, hs, hs', hd⟩ := hB.param i _ h hi hh
  have hbounds := hB.paramBounds h (mem_of_getElem? hh)
  refine ⟨hB.changes.evolves.decls_le, fun x hx => ?_, fun t ht => ?_, fun sig' hsig' => ?_,
    fun h' hh' => ?_, fun h' sig' hh' hsig' => ?_, fun hn => ?_, fun x hx => ?_, fun h' hh' => ?_, ?_⟩
  · exact hB.changes.decl x (hlt x hx) fun hv => hmem x hx (mem_append_right _ hv)
  · refine hB.changes.form t ((hp.nested q hq).place_lt t (mem_of_mem_tail ht)) ?_
    rw [map_map]
    exact not_mem_map_of_mem_tail (f := Procedure.types l.store) htypes
      (types_eq_cons l.store) hq ht
  · rw [hs] at hsig'
    cases hsig'
    rw [hs', hl, Option.toList_some]
  · rw [hl] at hh'
    cases hh'
    exact ⟨hbounds.1, Nat.lt_trans hbounds.2 hB.thisBounds.2⟩
  · rw [hl] at hh'
    cases hh'
    rw [hs] at hsig'
    cases hsig'
    rw [Store.typeOf, hd]
    exact ⟨rfl, rfl, rfl⟩
  · rw [hl] at hn
    cases hn
  · refine hB.changes.unkeyed ?_ (hp.unkeyed x (hp.nested_tail hq (mem_of_mem_tail hx)))
    rintro (hk | hk)
    · exact hmem x (mem_of_mem_tail hx) hk
    · exact htail x hx hk
  · rw [hl] at hh'
    cases hh'
    refine hB.changes.unkeyed (fun hk => ?_) (hctx.fresh h hbounds.1)
    have := hp.lt h (mem_of_mem_tail (Built.keys_tail hp hk))
    omega
  · rw [hB.fields q.decl (hmem _ (decl_mem_ids _ q))]
    exact (hp.unkeyed q.decl (hp.nested_tail hq (decl_mem_ids _ q))).field

end

end Framed

/-- Without an environment nothing changes for nested procedures. -/
lemma Pending.passed (hp : Pending l visible up declared p) (hq : q ∈ p.block.procedures) :
    Passed l l none q := by
  have htail (x) (hx : x ∈ q.ids l.store) : l.Unkeyed x := hp.unkeyed x (hp.nested_tail hq hx)
  have hself := htail q.decl (decl_mem_ids _ q)
  have hnone (h) (hh : l.hidden.lookup q.decl = some h) : False := by
    rw [hself.hidden] at hh
    cases hh
  refine ⟨Nat.le_refl _, fun _ _ => rfl, fun _ _ => rfl, fun sig hs => ?_, fun h hh => (hnone h hh).elim,
    fun h _ hh => (hnone h hh).elim, fun _ => rfl, fun x hx => htail x (mem_of_mem_tail hx),
    fun h hh => (hnone h hh).elim, hself.field⟩
  rw [hs, hself.hidden, Option.toList_none, append_nil]

lemma Ready.changes {ids ks : DeclId → Prop} {types : Ty → Prop} (h : Ready l visible up ps)
    (hc : Changes ids ks types l l') (hi : ∀ x ∈ Procedure.idsOf l.store ps, ¬ ids x)
    (hk : ∀ x ∈ Procedure.idsOf l.store ps, ¬ ks x) (ht : ∀ t ∈ typesOf l.store ps, ¬ types t) :
    Ready l' visible up ps ∧ Procedure.idsOf l'.store ps = Procedure.idsOf l.store ps ∧
    typesOf l'.store ps = typesOf l.store ps := by
  have hstep (q) (hq : q ∈ ps) : (∃ declared, Pending l' visible up declared q) ∧
      q.ids l'.store = q.ids l.store ∧ q.types l'.store = q.types l.store := by
    obtain ⟨declared, hp⟩ := h.pending q hq
    obtain ⟨hp', hids, htypes⟩ := hp.changes hc
      (fun x hx => hi x (mem_idsOf.2 ⟨q, hq, hx⟩))
      (fun x hx => hk x (mem_idsOf.2 ⟨q, hq, hx⟩))
      fun t htm => ht t (mem_typesOf.2 ⟨q, hq, htm⟩)
    exact ⟨⟨declared, hp'⟩, hids, htypes⟩
  have hids := idsOf_congr fun q hq => (hstep q hq).2.1
  have htypes := typesOf_congr fun q hq => (hstep q hq).2.2
  exact ⟨⟨fun q hq => (hstep q hq).1, by rw [hids]; exact h.ids, by rw [htypes]; exact h.types⟩,
    hids, htypes⟩

lemma Ready.outlineOf_changes {ids ks : DeclId → Prop} {types : Ty → Prop}
    (h : Ready l visible up ps) (hc : Changes ids ks types l l')
    (hi : ∀ x ∈ Procedure.idsOf l.store ps, ¬ ids x) (ht : ∀ t ∈ typesOf l.store ps, ¬ types t)
    (parent inner) : outlineOf l'.store parent inner ps = outlineOf l.store parent inner ps := by
  refine Procedure.outlineOf_congr fun q hq => ?_
  obtain ⟨_, hp⟩ := h.pending q hq
  have hself := decl_mem_ids l.store q
  refine ⟨?_, fun name => hp.outline_changes hc (fun x hx => ?_) fun t htm => ?_⟩
  · rw [hc.decl _ (hp.lt _ hself) (hi _ (mem_idsOf.2 ⟨q, hq, hself⟩))]
  · exact hi x (mem_idsOf.2 ⟨q, hq, hx⟩)
  · exact ht t (mem_typesOf.2 ⟨q, hq, htm⟩)

/-- What opening a procedure means for names. It keeps its own, and the outlines of those nested in it
stay the same. If it has an environment, a type is declared that is named after it. -/
structure Sketches (p : Procedure) (up : Option Ty) (l l' : Lifting) : Prop where
  name : (l'.store.decl p.decl).name = (l.store.decl p.decl).name
  framed : up.isSome =
    (!p.block.procedures.isEmpty && !(params l.store p.decl ++ p.block.vars).isEmpty)
  outline : ∀ q ∈ p.block.procedures, (l'.store.decl q.decl).name = (l.store.decl q.decl).name ∧
    ∀ name, q.outline l'.store name up.isSome = q.outline l.store name up.isSome
  gains : Gains (if up.isSome then ["_T" ++ (l.store.decl p.decl).name] else []) l l'

/-- From `l` to `l'` the procedure `p` became `r`, and its level is `L`. Those nested in it are
still to be lifted, with the environment `up`. Of the older declarations only those of `changed`
are not as they were. -/
structure Opens (changed global : DeclId → Prop) (levels : List Level) (declared : List DeclId)
    (p : Procedure) (L : Level) (r : Procedure) (up : Option Ty) (l l' : Lifting) : Prop where
  level : ∃ env, L = levelOf l p declared env
  shape : ∃ vars body, r = .mk p.decl (.mk p.block.constants p.block.types vars [] body)
  lifted : Lifted l'.store L levels r
  numbered : ∀ (i : Nat) (v : DeclId), r.block.vars[i]? = some v →
    v.index < l'.store.decls.size ∧ (l'.store.decl v).role = .variable i
  vars : ∀ v ∈ r.block.vars, v ∈ p.block.vars ∨ l.store.decls.size ≤ v.index
  context : p.block.procedures ≠ [] → ∃ bound, Context l' global (L :: levels) up bound
  ready : Ready l' (Visible global (L :: levels)) up p.block.procedures
  ids : ∀ x ∈ Procedure.idsOf l'.store p.block.procedures,
    x ∈ Procedure.idsOf l.store p.block.procedures ∨ l.store.decls.size ≤ x.index
  fresh : ∀ x ∈ Procedure.idsOf l'.store p.block.procedures, x ∉ r.block.vars
  types : typesOf l'.store p.block.procedures =
    typesOf l.store p.block.procedures
  names : Sketches p up l l'
  changes : Changes changed (· ∈ (p.ids l.store).tail)
    (· ∈ typesOf l.store p.block.procedures) l l'

/-- Without an environment nothing changes. -/
lemma Sketches.refl (h : p.block.procedures = [] ∨ params l.store p.decl ++ p.block.vars = []) :
    Sketches p none l l := by
  refine ⟨rfl, ?_, fun q _ => ⟨rfl, fun _ => rfl⟩, .of_eq rfl⟩
  rcases h with h | h <;> simp [h]

lemma Pending.numbered (hp : Pending l visible up declared p) (i v)
    (hi : p.block.vars[i]? = some v) : v.In l.store ∧ (l.store.decl v).role = .variable i :=
  ⟨(hp.vars i v hi).1, (hp.vars i v hi).2.1⟩

lemma liftBody_parent (hn : ps ≠ []) (id vars body) : liftBody id vars (ps.map decl) body =
    liftParent id vars (ps.map decl) body := by
  have hne : (!(ps.map decl).isEmpty) := by simpa using hn
  unfold liftBody
  rw [if_pos hne]

/-- The body of a procedure is lifted. -/
abbrev Opened (l : Lifting) (global : DeclId → Prop) (levels : List Level) (declared : List DeclId)
    (p : Procedure) : Prop :=
  ∃ L up' vars body l',
    liftBody p.decl p.block.vars (p.block.procedures.map decl) p.block.body l =
      .ok ((vars, body), l') ∧
    Opens (· ∈ p.block.vars) global levels declared p L
      (.mk p.decl (.mk p.block.constants p.block.types vars [] body)) up' l l'

section

variable (hctx : Context l global levels up bound)
  (hp : Pending l (Visible global levels) up declared p)
include hctx hp

lemma opens_leaf (hn : p.block.procedures = []) : Opened l global levels declared p := by
  obtain ⟨body, hrun, hl⟩ := liftBody_leaf hctx hp
  refine ⟨levelOf l p declared none, none, p.block.vars, body, l, by rw [hn]; exact hrun, ⟨none, rfl⟩, ⟨_, _, rfl⟩, hl, hp.numbered,
    fun v hv => .inl hv, fun hne => absurd hn hne, ⟨?_, ?_, ?_⟩, fun x hx => .inl hx, ?_, rfl,
    .refl (.inl hn), .refl ..⟩
  all_goals rw [hn]
  · nofun
  · exact .nil
  · exact .nil
  · nofun

lemma opens_bare (hn : p.block.procedures ≠ [])
    (hbare : params l.store p.decl ++ p.block.vars = []) : Opened l global levels declared p := by
  obtain ⟨hps, hvars⟩ := append_eq_nil_iff.1 hbare
  have hhidden : l.hidden.lookup p.decl = none := by
    have := hp.params
    rw [hps] at this
    cases h : l.hidden.lookup p.decl with
    | none => rfl
    | some x =>
      rw [h] at this
      simp at this
  have hlinked := hctx.linked
  rw [hp.top hhidden] at hlinked
  have hlevel : Context l global (levelOf l p declared none :: levels) none bound := by
    refine hctx.cons (.bare hlinked rfl (by rw [hp.origins_levelOf, hbare])) hctx.bound_le nofun
      ⟨fun x hx => hp.unkeyed x ?_, fun env _ hf => ?_, nofun, fun _ c hc => hp.unkeyed c ?_⟩
      fun x hx => hp.lt_levelOf none hx
    · have hx : x ∈ p.block.constants ++ p.block.types := hx
      rw [hp.tail_ids]
      simp only [mem_append] at hx ⊢
      tauto
    · cases hf.held
    · exact Built.keys_tail hp (.inr hc)
  have hready := hp.ready none hctx (fun q hq => hp.passed hq) fun q hq q' _ h hh _ => ?_
  · refine ⟨levelOf l p declared none, none, p.block.vars, p.block.body, l, ?_, ⟨none, rfl⟩, ⟨_, _, rfl⟩, .alone hlinked rfl hhidden,
      hp.numbered, fun v hv => .inl hv, fun _ => ⟨bound, hlevel⟩, hready.1, fun x hx => .inl hx, ?_, rfl,
      .refl (.inr hbare), .refl ..⟩
    · rw [liftBody_parent hn]
      have hif : liftParent p.decl p.block.vars (p.block.procedures.map decl)
          p.block.body l = ((if ((params l.store p.decl).isEmpty && p.block.vars.isEmpty)
            then pure (p.block.vars, p.block.body) else _) : Lift _) l := rfl
      rw [hif, if_pos (by rw [hps, hvars]; rfl)]
      rfl
    · intro x _ hx
      have hx : x ∈ p.block.vars := hx
      rw [hvars] at hx
      cases hx
  · have hself := Built.keys_tail hp (.inr (mem_map_of_mem hq))
    rw [(hp.unkeyed q.decl hself).hidden] at hh
    cases hh

end

section Framed

section

variable (hB : Built p env mirrors hiddens l l1)
include hB

lemma Built.footprint (hp : Pending l visible up declared p) :
    Changes (· ∈ p.block.vars) (· ∈ (p.ids l.store).tail) (· ∈ typesOf l.store p.block.procedures) l
     l1 := by
  refine hB.changes.mono (fun _ h => h) (fun _ h => Built.keys_tail hp h) fun t ht => ?_
  obtain ⟨c, hc, rfl⟩ := mem_map.1 ht
  obtain ⟨q, hq, rfl⟩ := mem_map.1 hc
  exact mem_typesOf.2 ⟨q, hq, Procedure.type_mem_types _ q⟩

lemma Built.context (hp : Pending l (Visible global levels) up declared p)
    (hctx : Context l global levels up bound) :
    Context l1 global (levelOf l p declared (some env) :: levels) (some env.record)
     l1.store.decls.size := by
  refine (hctx.changes (hB.footprint hp) hp.apart).cons (hB.linked hp hctx) (Nat.le_refl _)
    (fun record hr => ?_) (hB.keyed hp) fun x hx => ?_
  · cases hr
    exact Store.place_lt (Store.record?_eq_some.1 hB.form)
  · exact hB.changes.evolves.lt (hp.lt_levelOf (some env) hx)

/-- The body is routed through the environment. -/
lemma Built.lifted (hp : Pending l (Visible global levels) up declared p)
    (hctx : Context l global levels up bound) : ∃ body, routeStatements l1 env p.block.body =
    .ok body ∧
    Lifted l1.store (levelOf l p declared (some env)) levels (.mk p.decl (.mk p.block.constants
     p.block.types (env.decl :: p.block.vars) [] (frame (copyIn l1 env (params l.store p.decl))
     (copyOut l1 env (params l.store p.decl)) body))) := by
  have hctx1 := hB.context hp hctx
  have hframes := hB.frames hp
  obtain ⟨level, hthis⟩ := hB.this
  have hall : RoutableAll l1 env
      (Reference l1.store env (levelOf l p declared (some env) :: levels))
      (Statement.usesOf p.block.body) := by
    intro u hu _ r hr
    refine routable_of_visible hctx1.linked (hctx1.place _ rfl) hctx1.keyed hctx1.globals ?_
    rcases hp.uses u hu r hr with (hv | ⟨L, hL, hv⟩) | hm
    · exact .inl hv
    · exact .inr ⟨L, mem_cons_of_mem _ hL, hv⟩
    · exact .inr ⟨_, mem_cons_self, .inr hm⟩
  obtain ⟨body, hrun, hb⟩ := routeStatements_ok p.block.body (List.forall_mem_flatMap.1 hall)
  have hlen : (params l.store p.decl).length ≤ mirrors.length := by
    rw [hB.mirrored, length_append]
    exact Nat.le_add_right ..
  have hzip : ∀ e ∈ (params l.store p.decl).zip mirrors, l1.fields.lookup e.1 = some e.2 := by
    intro e he
    obtain ⟨i, hi⟩ := getElem?_of_mem he
    obtain ⟨hx, hf⟩ := getElem?_zip_eq_some.1 hi
    refine (hB.field i e.1 e.2 ?_ hf).1
    rw [List.getElem?_append_left (List.getElem?_eq_some_iff.1 hx).1, hx]
  refine ⟨body, hrun, ?_⟩
  obtain ⟨hin, hout⟩ := copies_eq hlen hzip
  rw [hin, hout, ← hp.params_levelOf (some env)]
  exact .framed hctx1.linked hframes hB.thisBounds.2 (by rw [hthis]; rfl) (by rw [hthis])
    (by rw [Store.typeOf, hthis]) hb

lemma Built.sketches (hp : Pending l visible up declared p)
    (hctx : Context l global levels up bound) (hn : p.block.procedures ≠ [])
    (hshared : params l.store p.decl ++ p.block.vars ≠ []) : Sketches p (some env.record) l l1 := by
  have hself := hp.lt p.decl (decl_mem_ids _ p)
  refine ⟨?_, ?_, fun q hq => ?_, hB.gains⟩
  · have hnodup := hp.nodup
    rw [ids_eq_cons, nodup_cons] at hnodup
    rw [hB.changes.decl p.decl hself fun hv => hnodup.1 (hp.origin (mem_append_right _ hv)).1]
  · simpa [hn] using hshared
  · have hpass := hB.passed hp hctx hq
    refine ⟨by rw [hpass.decl _ (decl_mem_ids _ q)], fun name => ?_⟩
    refine Procedure.outline_congr (.inl rfl) fun r hr => ?_
    rcases (hp.nested q hq).isExternal_or with ⟨_, hblock, _⟩ | ⟨declared', hdef⟩
    · rw [hblock] at hr
      cases hr
    have hleft : Left l.store l1.store r := by
      refine ⟨hpass.decls_le, fun x hx => hpass.decl x ?_, fun t ht => hpass.form t ?_⟩
      · rw [hdef.ids]
        exact mem_cons_of_mem _ (mem_append_right _ (mem_idsOf.2 ⟨r, hr, hx⟩))
      · rw [types_eq, tail_cons]
        exact mem_typesOf.2 ⟨r, hr, ht⟩
    exact ⟨by rw [hleft.decl _ (decl_mem_ids _ r)],
      fun name inner => (hdef.nested r hr).outline_left hleft name inner⟩

lemma Built.opens (hp : Pending l (Visible global levels) up declared p)
    (hctx : Context l global levels up bound) (hn : p.block.procedures ≠ [])
    (hshared : params l.store p.decl ++ p.block.vars ≠ [])
    (hr : r = .mk p.decl (.mk p.block.constants p.block.types (env.decl :: p.block.vars) [] body))
    (hl : Lifted l1.store (levelOf l p declared (some env)) levels r) :
    Opens (· ∈ p.block.vars) global levels declared p (levelOf l p declared (some env)) r (some
     env.record) l l1 := by
  obtain ⟨hready, hids, htypes⟩ := hp.ready (some env) hctx (fun q hq => hB.passed hp hctx hq)
    fun q hq q' hq' h hh hh' =>
      hB.hidden_inj (mem_map_of_mem hq) (mem_map_of_mem hq') hh hh'
  have hfresh (x : DeclId) (hx : x ∈ Procedure.idsOf l1.store p.block.procedures) :
      x ∈ Procedure.idsOf l.store p.block.procedures ∨
        l.store.decls.size ≤ x.index ∧ x.index < env.decl.index := by
    rcases hids x hx with hx | ⟨q, hq, hh⟩
    · exact .inl hx
    · obtain ⟨i, h, _, hi, hl⟩ := hB.hidden_of_mem (mem_map_of_mem hq)
      rw [hh] at hl
      cases hl
      exact .inr (hB.paramBounds x (mem_of_getElem? hi))
  have hvalid (x : DeclId) (hx : x ∈ Procedure.idsOf l.store p.block.procedures) :
      x.In l.store :=
    hp.lt x (mem_of_mem_tail (hp.idsOf_tail hx))
  obtain ⟨level, hthis⟩ := hB.this
  subst hr
  refine ⟨⟨_, rfl⟩, ⟨_, _, rfl⟩, hl, fun i v hi => ?_, fun v hv => ?_,
    fun _ => ⟨_, hB.context hp hctx⟩, hready, fun x hx => (hfresh x hx).imp_right And.left,
    fun x hx hv => ?_, htypes, hB.sketches hp hctx hn hshared, hB.footprint hp⟩
  · have hi : (env.decl :: p.block.vars)[i]? = some v := hi
    cases i with
    | zero =>
      cases hi
      exact ⟨hB.thisBounds.2, by rw [hthis]⟩
    | succ i =>
      have hi : p.block.vars[i]? = some v := hi
      obtain ⟨hlt, hrole⟩ := hp.numbered i v hi
      refine ⟨hB.changes.evolves.lt hlt, ?_⟩
      rw [hB.shifted v (mem_of_getElem? hi)]
      simp only [shiftIndex, hrole]
  · rcases mem_cons.1 hv with rfl | hv
    · exact .inr hB.thisBounds.1
    · exact .inl hv
  · have hthis := hB.thisBounds.1
    rcases mem_cons.1 hv with rfl | hv <;> rcases hfresh _ hx with hx | hx
    · have := hvalid _ hx
      omega
    · omega
    · refine hp.idsOf.2 x ?_ hx
      exact mem_cons_of_mem _ (mem_append_right _ hv)
    · have := (hp.origin (mem_append_right _ hv)).2.1
      omega

end

end Framed

section

variable (hctx : Context l global levels up bound)
  (hp : Pending l (Visible global levels) up declared p)
include hctx hp

lemma opens_framed (hn : p.block.procedures ≠ [])
    (hshared : params l.store p.decl ++ p.block.vars ≠ []) : Opened l global levels declared p := by
  have hids := hp.idsOf.1
  have htypes := hp.typesOf.1
  rw [idsOf_eq_flatMap] at hids
  rw [typesOf_eq_flatMap] at htypes
  have hchild (c) (hc : c ∈ p.block.procedures.map decl) :
      c.In l.store ∧
        ∃ sig, l.store.signature? (l.store.typeOf c) = some sig := by
    refine ⟨hp.lt c (mem_of_mem_tail (Built.keys_tail hp (.inr hc))), ?_⟩
    obtain ⟨q, hq, rfl⟩ := mem_map.1 hc
    exact (hp.nested q hq).signature
  have htypes : ((p.block.procedures.map decl).map l.store.typeOf).Nodup := by
    rw [map_map]
    exact nodup_map_of_flatMap htypes (types_eq_cons l.store)
  obtain ⟨env, mirrors, hiddens, l', hB, hrun⟩ := liftParent_ok p.block.body l hshared
    hp.origins_apart.1 (fun x hx => (hp.origin hx).2.1)
    (nodup_map_of_flatMap hids (ids_eq_cons l.store)) htypes
    (fun c hc => (hchild c hc).1) fun c hc => (hchild c hc).2
  have hB : Built p env mirrors hiddens l l' := hB
  obtain ⟨body, hbody, hl⟩ := hB.lifted hp hctx
  refine ⟨_, _, _, _, l', ?_, hB.opens hp hctx hn hshared rfl hl⟩
  rw [liftBody_parent hn, hrun, hbody]
  rfl

lemma liftBody_ok : Opened l global levels declared p := by
  by_cases hn : p.block.procedures = []
  · exact opens_leaf hctx hp hn
  by_cases hbare : params l.store p.decl ++ p.block.vars = []
  · exact opens_bare hctx hp hn hbare
  · exact opens_framed hctx hp hn hbare

end

/-- What a step may touch: some declarations, and those made since `l`. -/
abbrev New (xs : List DeclId) (l : Lifting) (x : DeclId) : Prop :=
  x ∈ xs ∨ l.store.decls.size ≤ x.index

/-- What lifting a procedure may touch: what is declared in it, what is new, and its own declaration
if it is a nested one. -/
def Touched (p : Procedure) (l : Lifting) (x : DeclId) : Prop :=
  New (p.ids l.store).tail l x ∨ x = p.decl ∧ Scopes.moduleLevel < (l.store.decl p.decl).level

lemma Touched.new (h : Touched p l x) : New (p.ids l.store) l x := by
  rcases h with h | ⟨rfl, _⟩
  · exact h.imp_left mem_of_mem_tail
  · exact .inl (decl_mem_ids _ p)

lemma Opens.settle (ho : Opens (· ∈ p.block.vars) global levels declared p L r up1 l l1)
    (hp : Pending l visible up declared p) : ∃ l2,
    resetLevels p.decl (p.block.constants ++ p.block.types ++ r.block.vars) l1 = .ok ((), l2) ∧
    Opens (Touched p l) global levels declared p L r up1 l l2 ∧ Settled l2.store L r := by
  have hself := hp.lt p.decl (decl_mem_ids _ p)
  have hnodup := hp.nodup
  rw [ids_eq_cons, nodup_cons, hp.tail_ids] at hnodup
  obtain ⟨result, variadic, hs⟩ := hp.signature
  have hs1 := ho.changes.signature? hself hs hp.typesOf.2
  have hparams : params l1.store p.decl = declared ++ (l.hidden.lookup p.decl).toList :=
    params_eq hs1
  have hdecl : l1.store.decl p.decl = l.store.decl p.decl := by
    refine ho.changes.decl p.decl hself fun hv => hnodup.1 ?_
    simp only [mem_append]
    tauto
  -- the declarations whose level is set are those of the procedure itself
  have hown (x) (hx : x ∈ p.decl :: (params l1.store p.decl ++
      (p.block.constants ++ p.block.types ++ r.block.vars))) :
      x ∈ p.decl :: (declared ++ (l.hidden.lookup p.decl).toList ++ p.block.constants ++
        p.block.types ++ p.block.vars) ∨ x ∈ r.block.vars ∧ l.store.decls.size ≤ x.index := by
    rw [hparams] at hx
    simp only [mem_cons, mem_append] at hx ⊢
    have := ho.vars x
    tauto
  have hnew (x) (hx : x ∈ params l1.store p.decl ++
      (p.block.constants ++ p.block.types ++ r.block.vars)) : New (p.ids l.store).tail l x := by
    rw [hparams] at hx
    rw [hp.tail_ids]
    have := ho.vars x
    simp only [New, mem_append] at hx ⊢
    tauto
  have hid : p.decl ∉ params l1.store p.decl ++
      (p.block.constants ++ p.block.types ++ r.block.vars) := by
    intro hm
    rw [hparams] at hm
    simp only [mem_append] at hm hnodup
    have := ho.vars p.decl
    have : ¬ l.store.decls.size ≤ p.decl.index := Nat.not_le.2 hself
    tauto
  obtain ⟨l2, hrun, hr⟩ := resetLevels_ok l1 (ho.changes.evolves.lt hself)
    (by rw [hdecl]; exact hp.level) hid
  have hapart (x) (hx : x ∈ Procedure.idsOf l1.store p.block.procedures) :
      x ∉ p.decl :: (params l1.store p.decl ++
        (p.block.constants ++ p.block.types ++ r.block.vars)) := by
    intro hm
    rcases hown x hm with hm | hm
    · rcases ho.ids x hx with hx | hx
      · exact hp.idsOf.2 x hm hx
      · have := hp.lt x (by
          rw [ids_eq_cons, hp.tail_ids, ← cons_append]
          exact mem_append_left _ hm)
        omega
    · exact ho.fresh x hx hm.1
  have hset (x) (hx : x ∈ params l1.store p.decl ++
      (p.block.constants ++ p.block.types ++ r.block.vars) ∨
      x = p.decl ∧ Scopes.moduleLevel < (l1.store.decl p.decl).level) : x ∈ p.decl ::
        (params l1.store p.decl ++ (p.block.constants ++ p.block.types ++ r.block.vars)) := by
    rw [mem_cons]
    exact hx.symm.imp_left And.left
  obtain ⟨hready, hids, htypes⟩ := ho.ready.changes hr.changes
    (fun x hx hm => hapart x hx (hset x hm)) (fun _ _ => False.elim) fun _ _ => False.elim
  refine ⟨l2, hrun, ⟨ho.level, ho.shape, ho.lifted.evolves hr.changes.evolves, fun i v hi => ?_,
    ho.vars, fun hne => ?_, hready, ?_, ?_, htypes.trans ho.types, ?_, ?_⟩, ?_⟩
  · obtain ⟨hlt, hrole⟩ := ho.numbered i v hi
    obtain ⟨level, hd⟩ := hr.decl v
    exact ⟨hr.changes.evolves.lt hlt, by rw [hd]; exact hrole⟩
  · obtain ⟨bound, hctx⟩ := ho.context hne
    exact ⟨bound, hctx.changes hr.changes fun _ _ => False.elim⟩
  · rw [hids]
    exact ho.ids
  · rw [hids]
    exact ho.fresh
  · have hname (x : DeclId) : (l2.store.decl x).name = (l1.store.decl x).name := by
      obtain ⟨level, hd⟩ := hr.decl x
      rw [hd]
    refine ⟨by rw [hname, ho.names.name], ho.names.framed, fun q hq => ?_, ?_⟩
    · obtain ⟨hq1, hoq⟩ := ho.names.outline q hq
      refine ⟨by rw [hname, hq1], fun name => Eq.trans ?_ (hoq name)⟩
      obtain ⟨_, hpend⟩ := ho.ready.pending q hq
      refine hpend.outline_changes hr.changes (fun x hx hm => ?_) fun _ _ => False.elim
      exact hapart x (mem_idsOf.2 ⟨q, hq, hx⟩) (hset x hm)
    · have hgains := ho.names.gains.trans (.of_eq hr.declared) hr.changes.evolves
      rwa [append_nil] at hgains
  · refine (ho.changes.mono (fun x hx => ?_) (fun _ h => h) fun _ h => h).trans
      (hr.changes.mono (fun x hx => ?_) (fun _ h => h.elim) fun _ h => h.elim)
    · exact .inl (.inl (hp.origin (mem_append_right _ hx)).1)
    · rw [hdecl] at hx
      exact hx.imp_left (hnew x)
  · obtain ⟨vars, body, rfl⟩ := ho.shape
    obtain ⟨env, rfl⟩ := ho.level
    refine ⟨hr.changes.evolves.lt (ho.changes.evolves.lt hself), hr.level, ⟨result, variadic, ?_⟩,
      fun i v hi => ?_⟩
    · exact hr.changes.signature? (ho.changes.evolves.lt hself) hs1 False.elim
    · obtain ⟨hlt, hrole⟩ := ho.numbered i v hi
      obtain ⟨level, hd⟩ := hr.decl v
      exact ⟨hr.changes.evolves.lt hlt, by rw [hd]; exact hrole⟩

end Lifting
end Oberon
