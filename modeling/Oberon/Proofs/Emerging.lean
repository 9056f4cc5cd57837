import Oberon.Proofs.Nestings

/-!
# Oberon.Proofs.Emerging

The procedures of a module, lifted one after the other. External procedures and those without
nested ones stay as they are; what emerges from the others follows behind all of them.
-/

namespace Oberon

open List hiding all

open Procedure (decl_mem_ids idsOf idsOf_congr isFramed mem_idsOf mem_typesOf outline_eq
  type_mem_types typesOf typesOf_congr types_eq)

/-- The outline of a procedure of a module. -/
def Procedure.plan (s : Store) (p : Procedure) : List (String × Bool) :=
  p.outline s (s.decl p.decl).name false

namespace Lifting

variable {s : Store}

/-- A procedure that is declared at module level and has no body. -/
structure External (s : Store) (p : Procedure) : Prop where
  lt : p.decl.index < s.decls.size
  role : isExternal (s.decl p.decl) = true
  level : (s.decl p.decl).level = Scopes.moduleLevel
  signature : ∃ sig, s.signature? (s.typeOf p.decl) = some sig
  block : p.block = .empty

lemma External.ids (h : External s p) : p.ids s = [p.decl] := by
  obtain ⟨id, block⟩ := p
  cases h.block
  simp only [Procedure.ids, show isExternal (s.decl id) = true from h.role, if_true]
  rfl

lemma External.types (h : External s p) : p.types s = [s.typeOf p.decl] := by
  rw [types_eq, h.block]
  rfl

lemma External.changes {ids : DeclId → Prop} {types : Ty → Prop} (h : External l.store p)
    (hc : Changes ids ks types l l') (hi : ¬ ids p.decl) (ht : ¬ types (l.store.typeOf p.decl)) :
    External l'.store p := by
  have hd := hc.decl p.decl h.lt hi
  obtain ⟨sig, hs⟩ := h.signature
  exact ⟨hc.evolves.lt h.lt, by rw [hd]; exact h.role, by rw [hd]; exact h.level,
    ⟨sig, hc.signature? h.lt hs ht⟩, h.block⟩

/-- A procedure of a module that has not been lifted. -/
def Stands (l : Lifting) (global : DeclId → Prop) (p : Procedure) : Prop :=
  External l.store p ∨ ∃ declared, Pending l (Visible global []) none declared p ∧
    (l.store.decl p.decl).level = Scopes.moduleLevel

lemma Stands.lt (h : Stands l global p) (hx : x ∈ p.ids l.store) : x.In l.store := by
  rcases h with h | ⟨_, h, _⟩
  · rw [h.ids, mem_singleton] at hx
    rw [hx]
    exact h.lt
  · exact h.lt x hx

lemma Stands.changes {types : Ty → Prop} (h : Stands l global p)
    (hc : Changes ids ks types l l') (hi : ∀ x ∈ p.ids l.store, ¬ ids x)
    (hk : ∀ x ∈ p.ids l.store, ¬ ks x) (ht : ∀ t ∈ p.types l.store, ¬ types t) :
    Stands l' global p ∧ p.ids l'.store = p.ids l.store ∧ p.types l'.store = p.types l.store := by
  have hself := hi _ (decl_mem_ids l.store p)
  rcases h with h | ⟨declared, h, hlevel⟩
  · have h' := h.changes hc hself (ht _ (type_mem_types l.store p))
    exact ⟨.inl h', by rw [h'.ids, h.ids], by rw [h'.types, h.types, hc.evolves.typeOf h.lt]⟩
  · obtain ⟨h', hids, htypes⟩ := h.changes hc hi hk ht
    have hlt := h.lt _ (decl_mem_ids l.store p)
    exact ⟨.inr ⟨declared, h', by rw [hc.decl _ hlt hself, hlevel]⟩, hids, htypes⟩

lemma Stands.plan_changes {types : Ty → Prop} (h : Stands l global p)
    (hc : Changes ids ks types l l') (hi : ∀ x ∈ p.ids l.store, ¬ ids x)
    (ht : ∀ t ∈ p.types l.store, ¬ types t) : (l'.store.decl p.decl).name =
    (l.store.decl p.decl).name ∧ p.plan l'.store = p.plan l.store := by
  have hself := decl_mem_ids l.store p
  have hname : (l'.store.decl p.decl).name = (l.store.decl p.decl).name := by
    rw [hc.decl _ (h.lt hself) (hi _ hself)]
  refine ⟨hname, ?_⟩
  unfold Procedure.plan
  rw [hname]
  rcases h with h | ⟨_, h, _⟩
  · have hn : p.block.procedures = [] := by
      rw [h.block]
      rfl
    simp only [outline_eq, isFramed, hn]
    rfl
  · exact h.outline_changes hc hi ht

/-- The procedures of a module before lifting. -/
structure Standing (l : Lifting) (global : DeclId → Prop) (ps : List Procedure) : Prop where
  each : ∀ p ∈ ps, Stands l global p
  ids : (idsOf l.store ps).Nodup
  types : (typesOf l.store ps).Nodup

lemma Standing.changes {ids : DeclId → Prop} {types : Ty → Prop} (h : Standing l global ps)
    (hc : Changes ids ks types l l') (hi : ∀ x ∈ idsOf l.store ps, ¬ ids x)
    (hk : ∀ x ∈ idsOf l.store ps, ¬ ks x) (ht : ∀ t ∈ typesOf l.store ps, ¬ types t) :
    Standing l' global ps ∧ (∀ p ∈ ps, p.ids l'.store = p.ids l.store) ∧ ∀ p ∈ ps,
    p.types l'.store = p.types l.store := by
  have hstep (p) (hp : p ∈ ps) := (h.each p hp).changes hc
    (fun x hx => hi x (mem_idsOf.2 ⟨p, hp, hx⟩))
    (fun x hx => hk x (mem_idsOf.2 ⟨p, hp, hx⟩))
    fun t htm => ht t (mem_typesOf.2 ⟨p, hp, htm⟩)
  refine ⟨⟨fun p hp => (hstep p hp).1, ?_, ?_⟩, fun p hp => (hstep p hp).2.1,
    fun p hp => (hstep p hp).2.2⟩
  · rw [idsOf_congr fun p hp => (hstep p hp).2.1]
    exact h.ids
  · rw [typesOf_congr fun p hp => (hstep p hp).2.2]
    exact h.types

/-! ## One procedure after the other -/

/-- What became of a procedure of the module. -/
def Emerged (s : Store) (all : List Procedure) (p r : Procedure) : Prop :=
  External s p ∧ r = p ∨ Becomes s [] all ⟨p, []⟩ r

/-- From `l` to `l'` the procedures `ps` of a module kept their names as `rs`, those that emerged from
them got the names of their plans, and types were declared for environments. -/
structure Titles (ps rs others : List Procedure) (l l' : Lifting) : Prop where
  tops : rs.map (fun r => (l'.store.decl r.decl).name) = ps.map fun p => (l.store.decl p.decl).name
  nested : others.map (fun r => (l'.store.decl r.decl).name) =
    (ps.flatMap fun p => (p.plan l.store).tail).map Prod.fst
  gains : Gains (((ps.flatMap (Procedure.plan l.store)).filter Prod.snd).map fun e => "_T" ++ e.1)
    l l'

lemma Titles.append (h1 : Titles ps1 rs1 os1 l l1) (h2 : Titles ps2 rs2 os2 l1 l2)
    (he : l1.store.Evolves l2.store)
    (hkeep : ∀ r ∈ rs1 ++ os1, l2.store.decl r.decl = l1.store.decl r.decl)
    (hplan : ∀ p ∈ ps2, (l1.store.decl p.decl).name = (l.store.decl p.decl).name ∧ p.plan l1.store =
     p.plan l.store) : Titles (ps1 ++ ps2) (rs1 ++ rs2) (os1 ++ os2) l l2 := by
  obtain ⟨htops, hnested, hgains⟩ := h2
  rw [map_congr_left fun p hp => (hplan p hp).1] at htops
  rw [flatMap_congr fun p hp => by rw [(hplan p hp).2]] at hnested
  rw [flatMap_congr fun p hp => (hplan p hp).2] at hgains
  rw [forall_mem_append] at hkeep
  refine ⟨?_, ?_, ?_⟩
  · rw [map_append, map_append, htops, ← h1.tops,
      map_congr_left fun r hr => congrArg Declaration.name (hkeep.1 r hr)]
  · rw [map_append, flatMap_append, map_append, hnested, ← h1.nested,
      map_congr_left fun r hr => congrArg Declaration.name (hkeep.2 r hr)]
  · rw [flatMap_append, filter_append, map_append]
    exact h1.gains.trans hgains he

/-- From `l` to `l'` the procedures `ps` of a module became `rs`, and `others` emerged from them. -/
structure Emerges (ps rs others : List Procedure) (l l' : Lifting) : Prop where
  tops : List.Forall₂ (Emerged l'.store (rs ++ others)) ps rs
  nested : List.Forall₂ (Becomes l'.store [] (rs ++ others))
    (ps.flatMap (Procedure.nestings [])) others
  decls : ∀ r ∈ rs ++ others, ∀ x ∈ r.decl :: r.block.vars,
    New (idsOf l.store ps) l x ∧ x.index < l'.store.decls.size
  typed : ∀ r ∈ rs ++ others, l'.store.typeOf r.decl ∈ typesOf l.store ps
  plain : ∀ (i : Nat) (p : Procedure), ps[i]? = some p → p.block.procedures = [] → rs[i]? = some p
  names : Titles ps rs others l l'

/-- Declarations in procedures with nested ones, and new ones. -/
def Touches (ps : List Procedure) (l : Lifting) (x : DeclId) : Prop :=
  (∃ p ∈ ps, p.block.procedures ≠ [] ∧ x ∈ (p.ids l.store).tail) ∨ l.store.decls.size ≤ x.index

/-- Types of nested procedures. -/
def Retypes (ps : List Procedure) (l : Lifting) (t : Ty) : Prop :=
  ∃ p ∈ ps, p.block.procedures ≠ [] ∧ t ∈ (p.types l.store).tail

/-- Lifting procedures changes what belongs to them. -/
abbrev Reworks (ps : List Procedure) (l l' : Lifting) : Prop :=
  Changes (Touches ps l) (Touches ps l) (Retypes ps l) l l'

lemma liftProcedure_external (h : External l.store p) : liftProcedure p l = .ok ((p, []), l) := by
  obtain ⟨id, block⟩ := p
  cases h.block
  rw [liftProcedure_eq, if_pos (show isExternal (l.store.decl id) = true from h.role)]
  rfl

/-- Without nested procedures and a hidden parameter there is nothing to do at module level. -/
lemma liftProcedure_plain (hn : p.block.procedures = []) (hh : l.hidden.lookup p.decl = none)
    (hlevel : (l.store.decl p.decl).level = Scopes.moduleLevel) : liftProcedure p l =
    .ok ((p, []), l) := by
  obtain ⟨id, ⟨constants, types, vars, procedures, body⟩⟩ := p
  cases hn
  have hbody : liftBody id vars [] body l = .ok ((vars, body), l) := by
    rw [liftBody_nil, show l.hidden.lookup id = none from hh]
  have hreset : resetLevels id (constants ++ types ++ vars) l = .ok ((), l) := by
    show Except.ok ((), { l with store := if _ then _ else _ }) = _
    rw [if_neg]
    rw [show (l.store.decl id).level = Scopes.moduleLevel from hlevel]
    exact Nat.lt_irrefl _
  cases he : isExternal (l.store.decl id) with
  | false => exact liftProcedure_mk he hbody hreset rfl
  | true =>
    rw [liftProcedure_eq, if_pos he]
    rfl

lemma Emerged.mono (h : Emerged s all p r) (hsub : ∀ r ∈ all, r ∈ all') : Emerged s all' p r :=
  h.imp_right fun h => h.mono hsub

/-- Lifting a procedure of the module. -/
lemma stands_ok (hctx : Context l global [] none bound) (h : Stands l global p) : ∃ r rs l',
    liftProcedure p l = .ok ((r, rs), l') ∧ Emerges [p] [r] rs l l' ∧ Reworks [p] l l' ∧ ∀ x,
    global x → x ∉ (p.ids l.store).tail := by
  have hidsOf : idsOf l.store [p] = p.ids l.store := by
    simp only [idsOf, append_nil]
  have htypesOf : typesOf l.store [p] = p.types l.store := by
    simp only [typesOf, append_nil]
  rcases h with h | ⟨declared, h, hlevel⟩
  · have hns : p.nestings [] = [] := by
      obtain ⟨id, block⟩ := p
      cases h.block
      rfl
    have hplan : p.plan l.store = [((l.store.decl p.decl).name, false)] := by
      simp only [Procedure.plan, outline_eq, isFramed, h.block]
      rfl
    refine ⟨p, [], l, liftProcedure_external h, ⟨.cons (.inl ⟨h, rfl⟩) .nil, ?_, ?_, ?_, ?_, ?_⟩,
      .refl .., fun x _ hx => ?_⟩
    · rw [flatMap_cons, hns]
      exact .nil
    · rw [append_nil, forall_mem_singleton, hidsOf, h.ids, h.block]
      rw [show Block.empty.vars = [] from rfl, forall_mem_singleton]
      exact ⟨.inl mem_cons_self, h.lt⟩
    · rw [append_nil, forall_mem_singleton, htypesOf]
      exact type_mem_types _ p
    · intro i q hi _
      exact hi
    · refine ⟨rfl, ?_, ?_⟩
      · rw [flatMap_cons, hplan]
        rfl
      · rw [flatMap_cons, hplan]
        exact .of_eq rfl
    · rw [h.ids] at hx
      cases hx
  · have hhidden : l.hidden.lookup p.decl = none := by
      cases hh : l.hidden.lookup p.decl with
      | none => rfl
      | some h' => cases (h.hidden h' hh).2.2
    obtain ⟨r, rs, l', hrun, hy, hc, hnames⟩ := liftProcedure_ok p hctx h
    have hplain (hn : p.block.procedures = []) : (r, rs, l') = (p, [], l) := by
      rw [liftProcedure_plain hn hhidden hlevel] at hrun
      cases hrun
      rfl
    obtain ⟨hbecomes, hdecls, htyped⟩ := hy
    obtain ⟨htop, hnested⟩ := forall₂_cons.1 hbecomes
    refine ⟨r, rs, l', hrun, ⟨.cons (.inr htop) .nil, ?_, by rw [hidsOf]; exact hdecls,
      by rw [htypesOf]; exact htyped, ?_, ?_⟩, ?_, fun x hx => h.apart x (.inl hx)⟩
    · rw [flatMap_cons, flatMap_nil, append_nil]
      exact hnested
    · intro i q hi hn
      cases i with
      | zero =>
        cases hi
        cases hplain hn
        rfl
      | succ i => cases hi
    · have hcons : p.plan l.store =
          ((l.store.decl p.decl).name, p.isFramed l.store false) :: (p.plan l.store).tail := by
        rw [Procedure.plan, outline_eq]
        rfl
      obtain ⟨hprocs, hgains⟩ := hnames
      have hprocs : (r :: rs).map (fun r => (l'.store.decl r.decl).name) =
          (p.plan l.store).map Prod.fst := hprocs
      rw [hcons, map_cons, map_cons, cons.injEq] at hprocs
      refine ⟨congrArg (fun name => [name]) hprocs.1, ?_, ?_⟩
      · rw [flatMap_cons, flatMap_nil, append_nil]
        exact hprocs.2
      · rw [flatMap_cons, flatMap_nil, append_nil]
        exact hgains
    · by_cases hn : p.block.procedures = []
      · cases hplain hn
        exact .refl ..
      · refine hc.mono (fun x hx => ?_) (fun x hx => ?_) fun t ht => ?_
        · rcases hx with hx | ⟨_, hx⟩
          · exact hx.imp_left fun hx => ⟨p, mem_cons_self, hn, hx⟩
          · rw [hlevel] at hx
            exact absurd hx (Nat.lt_irrefl _)
        · exact hx.imp_left fun hx => ⟨p, mem_cons_self, hn, hx⟩
        · exact ⟨p, mem_cons_self, hn, ht⟩

lemma Emerges.append (h1 : Emerges ps1 rs1 os1 l l1) (h2 : Emerges ps2 rs2 os2 l1 l2)
    (hle : l.store.decls.size ≤ l1.store.decls.size)
    (hc : Changes (Touches ps2 l1) ks (Retypes ps2 l1) l1 l2)
    (hids : ∀ p ∈ ps2, p.ids l1.store = p.ids l.store)
    (htypes : ∀ p ∈ ps2, p.types l1.store = p.types l.store)
    (hplan : ∀ p ∈ ps2, (l1.store.decl p.decl).name = (l.store.decl p.decl).name ∧ p.plan l1.store =
     p.plan l.store) (hlt : ∀ x ∈ idsOf l.store ps2, x.In l.store)
    (hapart : ∀ x ∈ idsOf l.store ps1, x ∉ idsOf l.store ps2)
    (htapart : ∀ t ∈ typesOf l.store ps1, t ∉ typesOf l.store ps2) :
    Emerges (ps1 ++ ps2) (rs1 ++ rs2) (os1 ++ os2) l l2 := by
  have htouch (r) (hr : r ∈ rs1 ++ os1) (x)
      (hx : x ∈ r.decl :: r.block.vars) : ¬ Touches ps2 l1 x := by
    obtain ⟨hn, hx⟩ := h1.decls r hr x hx
    rintro (⟨p, hp, _, hm⟩ | hm)
    · rw [hids p hp] at hm
      have hm := mem_idsOf.2 ⟨p, hp, mem_of_mem_tail hm⟩
      rcases hn with hn | hn
      · exact hapart x hn hm
      · exact absurd (hlt x hm) (Nat.not_lt.2 hn)
    · exact absurd hx (Nat.not_lt.2 hm)
  have hretype (r) (hr : r ∈ rs1 ++ os1) : ¬ Retypes ps2 l1 (l1.store.typeOf r.decl) := by
    rintro ⟨p, hp, _, hm⟩
    rw [htypes p hp] at hm
    exact htapart _ (h1.typed r hr) (mem_typesOf.2 ⟨p, hp, mem_of_mem_tail hm⟩)
  have hsub1 (r) (hr : r ∈ rs1 ++ os1) : r ∈ (rs1 ++ rs2) ++ (os1 ++ os2) := by
    simp only [mem_append] at hr ⊢
    tauto
  have hsub2 (r) (hr : r ∈ rs2 ++ os2) : r ∈ (rs1 ++ rs2) ++ (os1 ++ os2) := by
    simp only [mem_append] at hr ⊢
    tauto
  have hkeep (n r) (hr : r ∈ rs1 ++ os1)
      (h : Becomes l1.store [] (rs1 ++ os1) n r) :
      Becomes l2.store [] ((rs1 ++ rs2) ++ (os1 ++ os2)) n r :=
    (h.changes hc hr (fun r' hr' => htouch r' hr' _ mem_cons_self)
      (fun r' hr' v hv => htouch r' hr' v (mem_cons_of_mem _ hv)) hretype).mono hsub1
  have hsplit (r) (hr : r ∈ (rs1 ++ rs2) ++ (os1 ++ os2)) :
      r ∈ rs1 ++ os1 ∨ r ∈ rs2 ++ os2 := by
    simp only [mem_append] at hr ⊢
    tauto
  have hidsOf : idsOf l1.store ps2 = idsOf l.store ps2 := idsOf_congr hids
  have htypesOf : typesOf l1.store ps2 = typesOf l.store ps2 := typesOf_congr htypes
  refine ⟨rel_append ?_ ?_, ?_, fun r hr x hx => ?_, fun r hr => ?_, fun i p hi hn => ?_,
    h1.names.append h2.names hc.evolves (fun r hr => ?_) hplan⟩
  · refine forall₂_imp_of_mem h1.tops fun p r hr h => ?_
    have hmem : r ∈ rs1 ++ os1 := mem_append_left _ hr
    rcases h with ⟨h, rfl⟩ | h
    · exact .inl ⟨h.changes hc (htouch r hmem _ mem_cons_self) (hretype r hmem), rfl⟩
    · exact .inr (hkeep _ r hmem h)
  · exact h2.tops.imp fun p r h => h.mono hsub2
  · rw [flatMap_append]
    refine rel_append (forall₂_imp_of_mem h1.nested fun n r hr h => ?_) ?_
    · exact hkeep n r (mem_append_right _ hr) h
    · exact h2.nested.imp fun n r h => h.mono hsub2
  · rw [Procedure.idsOf_append]
    rcases hsplit r hr with hr | hr
    · obtain ⟨hn, hlt⟩ := h1.decls r hr x hx
      exact ⟨hn.imp_left (mem_append_left _), hc.evolves.lt hlt⟩
    · obtain ⟨hn, hlt⟩ := h2.decls r hr x hx
      rw [hidsOf] at hn
      exact ⟨hn.imp (mem_append_right _) (Nat.le_trans hle), hlt⟩
  · rw [Procedure.typesOf_append]
    rcases hsplit r hr with hr | hr
    · rw [hc.evolves.typeOf (h1.decls r hr _ mem_cons_self).2]
      exact mem_append_left _ (h1.typed r hr)
    · have := h2.typed r hr
      rw [htypesOf] at this
      exact mem_append_right _ this
  · have hlen := h1.tops.length_eq
    rcases Nat.lt_or_ge i ps1.length with hlt | hge
    · rw [getElem?_append_left hlt] at hi
      rw [getElem?_append_left (hlen ▸ hlt)]
      exact h1.plain i p hi hn
    · rw [getElem?_append_right hge] at hi
      rw [getElem?_append_right (hlen ▸ hge), ← hlen]
      exact h2.plain _ p hi hn
  · exact hc.decl _ (h1.decls r hr _ mem_cons_self).2 (htouch r hr _ mem_cons_self)

lemma liftAll_cons (hp : liftProcedure p l = .ok ((r, nested), l1))
    (hps : liftAll ps l1 = .ok ((rs, others), l2)) : liftAll (p :: ps) l =
    .ok ((r :: rs, nested ++ others), l2) := by
  have hrun : liftAll (p :: ps) l = ((do
      let r ← liftProcedure p
      let rest ← liftAll ps
      return (r.1 :: rest.1, r.2 ++ rest.2)) : Lift (List Procedure × List Procedure)) l := by
    simp only [liftAll]
  rw [hrun, bind_ok hp, bind_ok hps]
  rfl

lemma liftAll_ok (ps) : ∀ l, Context l global [] none bound → Standing l global ps →
    ∃ rs others l', liftAll ps l = .ok ((rs, others), l') ∧ Emerges ps rs others l l' ∧
    Reworks ps l l' := by
  induction ps with
  | nil =>
    intro l _ _
    refine ⟨[], [], l, rfl, ⟨.nil, .nil, nofun, nofun, fun i p hi _ => hi, rfl, rfl, .of_eq rfl⟩,
      .refl ..⟩
  | cons p ps ih =>
    intro l hctx hs
    have hnodup := hs.ids
    rw [idsOf, nodup_append] at hnodup
    have htnodup := hs.types
    rw [typesOf, nodup_append] at htnodup
    have hrest : Standing l global ps :=
      ⟨fun q hq => hs.each q (mem_cons_of_mem _ hq), hnodup.2.1, htnodup.2.1⟩
    have hlt (x) (hx : x ∈ idsOf l.store ps) : x.In l.store := by
      obtain ⟨q, hq, hx⟩ := mem_idsOf.1 hx
      exact (hrest.each q hq).lt hx
    obtain ⟨r, nested, l1, hrun, he, hc, hglobal⟩ := stands_ok hctx (hs.each p mem_cons_self)
    have hctx1 := hctx.changes hc fun x hx hk => by
      rcases hk with ⟨q, hq, _, hk⟩ | hk
      · cases mem_singleton.1 hq
        rcases hx with hx | ⟨L, hL, _⟩
        · exact hglobal x hx hk
        · cases hL
      · exact absurd (hctx.visible x hx) (Nat.not_lt.2 hk)
    have hmem (x) (hx : x ∈ idsOf l.store ps) : x ∉ p.ids l.store :=
      fun hm => hnodup.2.2 x hm x hx rfl
    have huntouched (x) (hx : x ∈ idsOf l.store ps) : ¬ Touches [p] l x := by
      rintro (⟨q, hq, _, hm⟩ | hm)
      · cases mem_singleton.1 hq
        exact hmem x hx (mem_of_mem_tail hm)
      · exact absurd (hlt x hx) (Nat.not_lt.2 hm)
    have huntyped (t) (ht : t ∈ typesOf l.store ps) : ¬ Retypes [p] l t := by
      rintro ⟨q, hq, _, hm⟩
      cases mem_singleton.1 hq
      exact htnodup.2.2 t (mem_of_mem_tail hm) t ht rfl
    obtain ⟨hrest1, hids, htypes⟩ := hrest.changes hc huntouched huntouched huntyped
    have hplan (q) (hq : q ∈ ps) := (hrest.each q hq).plan_changes hc
      (fun x hx => huntouched x (mem_idsOf.2 ⟨q, hq, hx⟩))
      fun t ht => huntyped t (mem_typesOf.2 ⟨q, hq, ht⟩)
    obtain ⟨rs, others, l2, hrun2, he2, hc2⟩ := ih l1 hctx1 hrest1
    refine ⟨r :: rs, nested ++ others, l2, liftAll_cons hrun hrun2, ?_, ?_⟩
    · refine he.append he2 hc.evolves.decls_le hc2 hids htypes hplan hlt (fun x hx hm => ?_) fun t ht hm => ?_
      · simp only [idsOf, append_nil] at hx
        exact hmem x hm hx
      · simp only [typesOf, append_nil] at ht
        exact htnodup.2.2 t ht t hm rfl
    · have hlater (x : DeclId) (hx : Touches ps l1 x) : Touches (p :: ps) l x := by
        rcases hx with ⟨q, hq, hn, hx⟩ | hx
        · rw [hids q hq] at hx
          exact .inl ⟨q, mem_cons_of_mem _ hq, hn, hx⟩
        · exact .inr (Nat.le_trans hc.evolves.decls_le hx)
      have hfirst (x) (hx : Touches [p] l x) : Touches (p :: ps) l x := by
        rcases hx with ⟨q, hq, hn, hx⟩ | hx
        · cases mem_singleton.1 hq
          exact .inl ⟨_, mem_cons_self, hn, hx⟩
        · exact .inr hx
      refine (hc.mono hfirst hfirst ?_).trans (hc2.mono hlater hlater ?_)
      · rintro t ⟨q, hq, hn, ht⟩
        cases mem_singleton.1 hq
        exact ⟨_, mem_cons_self, hn, ht⟩
      · rintro t ⟨q, hq, hn, ht⟩
        rw [htypes q hq] at ht
        exact ⟨q, mem_cons_of_mem _ hq, hn, ht⟩

end Lifting
end Oberon
