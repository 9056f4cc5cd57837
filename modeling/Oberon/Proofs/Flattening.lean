import Mathlib.Data.List.Flatten
import Mathlib.Data.List.Perm.Basic
import Oberon.Proofs.Emerging
import Oberon.Proofs.Modules

/-!
# Oberon.Proofs.Flattening

Lifting whole modules. Every module that is accepted can be lifted: `liftModule` yields the
procedures of the module followed by those nested in them, parents first, all at module level and
without nested ones. A module that has none is left alone, so lifting twice is lifting once.
-/

namespace Oberon

open List (map_append map_map mem_append_right nodup_append)

open Procedure (decl decl_mem_ids ids idsOf idsOf_eq_flatMap ids_eq_cons ids_mk mem_idsOf nestings
  nestingsOf typesOf_eq_flatMap)

variable {p r : Procedure}

/-- The procedures of a module, and then those nested in them, parents first. -/
def Module.preorder (m : Module) : List Procedure := m.block.procedures ++
    (m.block.procedures.flatMap (nestings [])).map Nesting.procedure

/-- The module with other procedures, and more types for their environments. -/
def Module.flattened (m : Module) (records : List DeclId) (procedures : List Procedure) : Module :=
  let block := Block.mk m.block.constants (m.block.types ++ records) m.block.vars procedures
    m.block.body
  { m with block }

namespace Lifting

variable {m m' : Module}
 

/-! ## Before lifting -/

/-- Nothing has been lifted. -/
def start (s : Store) (m : Module) : Lifting := { store := s, module := m.name }

lemma unkeyed_start (s m x) : (start s m).Unkeyed x := ⟨rfl, rfl⟩

lemma mem_members_nil {m : Module} (h : x ∈ m.block.members []) :
    x ∈ m.block.constants ++ m.block.types ++ m.block.vars ∨ x ∈ m.block.procedures.map decl := by
  revert h
  cases m.block
  simp only [Block.members, Block.constants, Block.types, Block.vars, Block.procedures,
    List.mem_append, List.not_mem_nil]
  tauto

section

variable (h : m.Scoped s low)
include h

lemma global_lt (hx : m.Global s low x) : x.In s := by
  rcases hx with hx | hx
  · exact hx.2.lt
  · refine (h.spread.bounds x ?_).2
    rcases mem_members_nil hx with hx | hx
    · exact List.mem_append_left _ hx
    · obtain ⟨q, hq, rfl⟩ := List.mem_map.1 hx
      exact mem_append_right _ (mem_idsOf.2 ⟨q, hq, decl_mem_ids _ q⟩)

/-- What is global is declared outside of all procedures. -/
lemma global_apart (hx : m.Global s low x) (hp : p ∈ m.block.procedures) :
    x ∉ (p.ids s).tail := by
  intro hm
  have hmem : x ∈ idsOf s m.block.procedures := mem_idsOf.2 ⟨p, hp, List.mem_of_mem_tail hm⟩
  have hn := h.spread.nodup
  rw [nodup_append] at hn
  rcases hx with hx | hx
  · have := (h.spread.bounds x (mem_append_right _ hmem)).1
    omega
  · rcases mem_members_nil hx with hx | hx
    · exact hn.2.2 x hx x hmem rfl
    · have hids := hn.2.1
      rw [idsOf_eq_flatMap] at hids
      exact not_mem_map_of_mem_tail hids (ids_eq_cons s) hp hm hx

lemma context_start : Context (start s m) (m.Global s low) [] none 0 where
  linked := .nil
  bound_le := Nat.zero_le _
  place := nofun
  keyed := nofun
  globals x _ := unkeyed_start s m x
  visible x hx := by
    rcases hx with hx | ⟨L, hL, _⟩
    · exact global_lt h hx
    · cases hL
  fresh x _ := unkeyed_start s m x

lemma stands_start (hp : p ∈ m.block.procedures) : Stands (start s m) (m.Global s low) p := by
  have hscoped := h.trees p hp
  have hlt (x) (hx : x ∈ p.ids s) : x.In s :=
    (h.spread.bounds x (mem_append_right _ (mem_idsOf.2 ⟨p, hp, hx⟩))).2
  have hids := (nodup_append.1 h.spread.nodup).2.1
  rw [idsOf_eq_flatMap] at hids
  obtain ⟨_, htypes⟩ := h.types
  have htypes := htypes.nodup
  rw [typesOf_eq_flatMap] at htypes
  have hvisible (r) (hr : m.Global s low r) : Visible (m.Global s low) [] r := .inl hr
  have hself := decl_mem_ids s p
  rcases hscoped.isExternal_or with ⟨hrole, hblock, _⟩ | ⟨params, hdef⟩
  · exact .inl ⟨hlt _ hself, hrole, hscoped.level_eq, hscoped.signature, hblock⟩
  · obtain ⟨result, variadic, hs⟩ := hdef.signature
    refine .inr ⟨params, ⟨hdef.role, Nat.le_of_eq hdef.depth.symm, ⟨result, variadic, ?_⟩, hdef.words,
      hdef.constants, hdef.typeNames, hdef.vars, fun u hu r hr => ?_, fun q hq => ?_, nofun,
      fun _ => rfl, nodup_of_mem_flatMap hids hp, hlt, fun x _ => unkeyed_start s m x, rfl,
      nodup_of_mem_flatMap htypes hp, fun r hr => ?_⟩, hdef.depth⟩
    · show s.signature? (s.typeOf p.decl) = some ⟨params ++ [], result, variadic⟩
      rw [List.append_nil]
      exact hs
    · exact (hdef.uses u hu r hr).imp_left (hvisible r)
    · show q.Scoped s ((s.decl p.decl).level + 1) _
      rw [hdef.depth]
      exact (hdef.nested q hq).mono fun r hr => hr.imp_left (hvisible r)
    · rcases hr with hr | ⟨L, hL, _⟩
      · exact global_apart h hr hp
      · cases hL

lemma standing_start : Standing (start s m) (m.Global s low) m.block.procedures := by
  obtain ⟨_, htypes⟩ := h.types
  exact ⟨fun p hp => stands_start h hp, (nodup_append.1 h.spread.nodup).2.1, htypes.nodup⟩

end

/-! ## Lifting -/

lemma liftModule_eq (h : liftAll m.block.procedures (start s m) = .ok ((rs, others), l')) :
    liftModule s m = .ok (m.flattened l'.types (rs ++ others), l'.store) := by
  obtain ⟨name, span, imports, ⟨constants, types, vars, procedures, body⟩⟩ := m
  let m : Module := ⟨name, span, imports, .mk constants types vars procedures body⟩
  have hrun : liftModule s m = (liftAll procedures (start s m)).bind fun r =>
      .ok (m.flattened r.2.types (r.1.1 ++ r.1.2), r.2.store) := rfl
  rw [hrun, show liftAll procedures (start s m) = _ from h]
  rfl

/-- Every module that is a tree of scopes can be lifted. -/
lemma liftModule_ok (h : m.Scoped s low) : ∃ rs others l', liftModule s m =
    .ok (m.flattened l'.types (rs ++ others), l'.store) ∧
    Emerges m.block.procedures rs others (start s m) l' ∧
    Reworks m.block.procedures (start s m) l' := by
  obtain ⟨rs, others, l', hrun, he, hc⟩ :=
    liftAll_ok m.block.procedures (start s m) (context_start h) (standing_start h)
  exact ⟨rs, others, l', liftModule_eq hrun, he, hc⟩

lemma liftAll_plain (ps) (l : Lifting) (hh : l.hidden = [])
    (h : ∀ p ∈ ps, p.block.procedures = [] ∧ (l.store.decl p.decl).level = Scopes.moduleLevel) :
    liftAll ps l = .ok ((ps, []), l) := by
  induction ps with
  | nil => rfl
  | cons p ps ih =>
    rw [List.forall_mem_cons] at h
    have hp := liftProcedure_plain h.1.1 (by rw [hh]; rfl) h.1.2
    exact liftAll_cons hp (ih h.2)

/-- A module without nested procedures is lifted to itself. -/
lemma liftModule_plain
    (h : ∀ p ∈ m.block.procedures, p.block.procedures = [] ∧ (s.decl p.decl).level =
     Scopes.moduleLevel) : liftModule s m = .ok (m, s) := by
  rw [liftModule_eq (liftAll_plain m.block.procedures (start s m) rfl h)]
  obtain ⟨name, span, imports, ⟨constants, types, vars, procedures, body⟩⟩ := m
  simp only [Module.flattened, start, Block.constants, Block.types, Block.vars, Block.body,
    Block.procedures, List.append_nil]

/-! ## What a lifted module looks like -/

lemma Lifted.shape (h : Lifted s L outer r) : r.decl = L.procedure.decl ∧ r.block.procedures =
    [] := by
  cases h <;> exact ⟨rfl, rfl⟩

lemma Emerged.decl_eq (h : Emerged s all p r) : r.decl = p.decl := by
  rcases h with ⟨_, rfl⟩ | ⟨L, outer, hn, hp, _⟩
  · rfl
  · rw [hp.lifted.shape.1]
    exact congrArg (decl ∘ Nesting.procedure) hn.symm

lemma Emerges.decls_eq (h : Emerges m.block.procedures rs others l l') : (rs ++ others).map decl =
    m.preorder.map decl := by
  rw [Module.preorder, map_append, map_append, map_map,
    map_eq_of_forall₂ h.tops fun p r hr => hr.decl_eq,
    map_eq_of_forall₂ (f := decl ∘ Nesting.procedure) h.nested fun n r hr => ?_]
  obtain ⟨L, outer, rfl, hp, _⟩ := hr
  exact hp.lifted.shape.1

/-- Each lifted procedure is external, or was lifted to its final form. -/
lemma Emerges.placed (h : Emerges ps rs others l l') (hr : r ∈ rs ++ others) :
    External l'.store r ∨ ∃ n, Becomes l'.store [] (rs ++ others) n r := by
  rcases List.mem_append.1 hr with hr | hr
  · obtain ⟨p, _, ⟨he, rfl⟩ | hb⟩ := exists_of_forall₂ h.tops hr
    · exact .inl he
    · exact .inr ⟨_, hb⟩
  · obtain ⟨n, _, hb⟩ := exists_of_forall₂ h.nested hr
    exact .inr ⟨n, hb⟩

lemma Emerges.flat (h : Emerges ps rs others l l') (hr : r ∈ rs ++ others) : r.block.procedures =
    [] ∧ (l'.store.decl r.decl).level = Scopes.moduleLevel ∧ ∀ i v, r.block.vars[i]? = some v →
    (l'.store.decl v).role = .variable i := by
  rcases h.placed hr with he | ⟨n, L, outer, _, hp, _⟩
  · refine ⟨by rw [he.block]; rfl, he.level, fun i v hi => ?_⟩
    rw [he.block] at hi
    cases hi
  · exact ⟨hp.lifted.shape.2, hp.settled.level, fun i v hi => (hp.settled.vars i v hi).2⟩

/-! ## None lost and none twice -/

lemma nestingsOf_eq_flatMap (outer ps) : nestingsOf outer ps =
    ps.flatMap fun p => ⟨p, outer⟩ :: p.nestings outer := by
  induction ps with
  | nil => rfl
  | cons p ps ih => rw [nestingsOf, ih, List.flatMap_cons, List.cons_append]

/-- The declarations of the procedures of a tree are among all its declarations, in order. -/
lemma sublist_ids (h : p.Scoped s level known) (outer) :
    (p.decl :: (p.nestings outer).map fun n => n.procedure.decl).Sublist (p.ids s) := by
  induction h generalizing outer with
  | external hlt hr hlev hs htop =>
    rw [ids_eq_cons]
    exact .cons_cons _ (List.nil_sublist _)
  | @defined level known id params constants types vars procedures body hlt hr hlev hs hp hc ht hv hb
      hn ih =>
    obtain ⟨result, variadic, hs⟩ := hs
    rw [ids_mk hr hs, nestings, nestingsOf_eq_flatMap, idsOf_eq_flatMap, List.map_flatMap]
    refine .cons_cons _ (.trans (.flatMap_right _ fun q hq => ?_) (List.sublist_append_right ..))
    exact ih q hq _

lemma nodup_preorder (h : m.Scoped s low) : (m.preorder.map decl).Nodup := by
  have hids := (nodup_append.1 h.spread.nodup).2.1
  rw [idsOf_eq_flatMap] at hids
  have hsub : (m.block.procedures.flatMap fun p => p.decl :: (p.nestings []).map fun n =>
      n.procedure.decl).Sublist (m.block.procedures.flatMap (ids s)) :=
    .flatMap_right _ fun p hp => sublist_ids (h.trees p hp) []
  have hperm := List.map_append_flatMap_perm m.block.procedures decl
    fun p => (p.nestings []).map fun n => n.procedure.decl
  rw [Module.preorder, map_append, map_map, List.map_flatMap]
  exact hperm.nodup_iff.2 (hids.sublist hsub)

/-- A procedure of the module without nested ones is the same after lifting. -/
lemma plain_unchanged (h : m.Scoped s low) (hc : Reworks m.block.procedures (start s m) l')
    (hp : p ∈ m.block.procedures) (hn : p.block.procedures = []) :
    (∀ x ∈ p.ids s, l'.store.decl x = s.decl x) ∧ l'.store.form? (s.typeOf p.decl) =
    s.form? (s.typeOf p.decl) := by
  have hids := (nodup_append.1 h.spread.nodup).2.1
  rw [idsOf_eq_flatMap] at hids
  obtain ⟨_, htypes⟩ := h.types
  have htypes := htypes.nodup
  rw [typesOf_eq_flatMap] at htypes
  refine ⟨fun x hx => ?_, ?_⟩
  · have hlt := (h.spread.bounds x (mem_append_right _ (mem_idsOf.2 ⟨p, hp, hx⟩))).2
    refine hc.decl x hlt fun ht => ?_
    rcases ht with ⟨q, hq, hne, hm⟩ | hm
    · cases eq_of_mem_flatMap hids hp hq hx (List.mem_of_mem_tail hm)
      exact hne hn
    · exact absurd hlt (Nat.not_lt.2 hm)
  · have htype := Procedure.type_mem_types s p
    refine hc.form _ ((h.trees p hp).place_lt _ htype) fun ht => ?_
    obtain ⟨q, hq, hne, hm⟩ := ht
    cases eq_of_mem_flatMap htypes hp hq htype (List.mem_of_mem_tail hm)
    exact hne hn

/-- Lifting an accepted module yields its procedures and then those nested in them, parents first,
each of them once. They are all at module level, without nested ones, and with variables and
parameters numbered in order. What has no nested procedures is left alone, and so is a lifted
module. -/
theorem liftModule_flattens {features : Features} {library : Library} {source : String}
    {m : Module} (h : (Outcome.ofSource features library source).Accepts m) :
    let s := (Outcome.ofSource features library source).store
    ∃ m' s', liftModule s m = .ok (m', s') ∧
      m'.block.procedures.map decl = m.preorder.map decl ∧
      (m'.block.procedures.map decl).Nodup ∧
      (∀ p ∈ m'.block.procedures, p.block.procedures = [] ∧
        (s'.decl p.decl).level = Scopes.moduleLevel ∧
        ∀ (i : Nat) (v : DeclId), p.block.vars[i]? = some v → (s'.decl v).role = .variable i) ∧
      (∀ (t : Ty) (sig : Signature), s'.signature? t = some sig →
        ∀ (i : Nat) (x : DeclId), sig.params[i]? = some x →
          ∃ byReference, (s'.decl x).role = .parameter byReference i) ∧
      (∀ (i : Nat) (p : Procedure), m.block.procedures[i]? = some p → p.block.procedures = [] →
        m'.block.procedures[i]? = some p ∧ (∀ x ∈ p.ids s, s'.decl x = s.decl x) ∧
          s'.form? (s.typeOf p.decl) = s.form? (s.typeOf p.decl)) ∧
      m'.block.body = m.block.body ∧ liftModule s' m' = .ok (m', s') := by
  intro s
  obtain ⟨low, hm⟩ := h.scoped
  obtain ⟨rs, others, l', hrun, he, hc⟩ := liftModule_ok hm
  have hflat (p : Procedure) (hp : p ∈ rs ++ others) := he.flat hp
  refine ⟨m.flattened l'.types (rs ++ others), l'.store, hrun, he.decls_eq, ?_, hflat,
    fun t sig hs i x hi => ?_, fun i p hi hn => ?_, rfl, ?_⟩
  · rw [show (m.flattened l'.types (rs ++ others)).block.procedures = rs ++ others from rfl,
      he.decls_eq]
    exact nodup_preorder hm
  · exact (hc.evolves.numbered hm.numbered t sig hs i x hi).2
  · refine ⟨?_, plain_unchanged hm hc (List.mem_of_getElem? hi) hn⟩
    have hr := he.plain i p hi hn
    exact (List.getElem?_append_left (List.getElem?_eq_some_iff.1 hr).1).trans hr
  · exact liftModule_plain fun p hp => ⟨(hflat p hp).1, (hflat p hp).2.1⟩

/-- Procedures nested two deep, and one that has none. -/
def nestedSource : String :=
  "MODULE M; PROCEDURE A(x: INTEGER); PROCEDURE B; PROCEDURE C; BEGIN x := 1 END C; " ++
    "BEGIN C END B; BEGIN B END A; PROCEDURE D; END D; BEGIN A(1) END M."

theorem liftModule_flattens_nested : ∃ m, (Outcome.ofSource {} {} nestedSource).Accepts m ∧
    m.block.procedures.length = 2 ∧ ∃ m' s',
    liftModule (Outcome.ofSource {} {} nestedSource).store m = .ok (m', s') ∧
    m'.block.procedures.length = 4 ∧ liftModule s' m' = .ok (m', s') := by
  have heval : (Outcome.ofSource {} {} nestedSource).acceptsWith (fun _ m =>
      m.block.procedures.length == 2 && m.preorder.length == 4) = true := by decide +kernel
  obtain ⟨m, hacc, hlen⟩ := Outcome.exists_of_acceptsWith heval
  rw [Bool.and_eq_true, beq_iff_eq, beq_iff_eq] at hlen
  obtain ⟨m', s', hrun, hdecls, _, _, _, _, _, htwice⟩ := liftModule_flattens hacc
  have hfour := congrArg List.length hdecls
  rw [List.length_map, List.length_map] at hfour
  exact ⟨m, hacc, hlen.1, m', s', hrun, hfour.trans hlen.2, htwice⟩

end Lifting
end Oberon
