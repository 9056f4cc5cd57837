import Oberon.Proofs.Lifts

/-!
# Oberon.Proofs.Nestings

The procedures of a tree in the order in which lifting yields them, each with those around it, and
what lifting a whole tree makes of them. The induction is on the tree: a procedure is opened, and
then those nested in it are lifted one after the other, each in the context that the first step
made.
-/

namespace Oberon

open List (map_append mem_append_left mem_append_right mem_cons mem_cons_of_mem mem_cons_self
  mem_of_mem_tail)

open Procedure (decl_mem_ids idsOf outlineOf typesOf types_eq)

/-- A procedure and those around it, the innermost first. -/
structure Nesting where
  procedure : Procedure
  outer : List Procedure

mutual

/-- The procedures nested in a procedure, parents first. -/
def Procedure.nestings (outer : List Procedure) : Procedure → List Nesting
  | .mk id (.mk constants types vars procedures body) =>
    Procedure.nestingsOf (.mk id (.mk constants types vars procedures body) :: outer) procedures

def Procedure.nestingsOf (outer : List Procedure) : List Procedure → List Nesting
  | [] => []
  | p :: rest => ⟨p, outer⟩ :: (p.nestings outer ++ Procedure.nestingsOf outer rest)

end

namespace Lifting

variable {p : Procedure}

/-- A lifted procedure, not changed any more. -/
structure Placed (s : Store) (L : Level) (outer : List Level) (r : Procedure) : Prop where
  lifted : Lifted s L outer r
  settled : Settled s L r

/-- What became of a procedure inside `levels`. Those around it are among them, or are lifted to
procedures of `rs`. -/
def Becomes (s : Store) (levels : List Level) (rs : List Procedure) (n : Nesting) (r : Procedure) :
    Prop :=
  ∃ L outer, n = ⟨L.procedure, outer.map Level.procedure⟩ ∧ Placed s L outer r ∧
    ∀ L' ∈ outer, L' ∈ levels ∨ ∃ r' ∈ rs, ∃ outer', Placed s L' outer' r'

lemma Placed.changes {types : Ty → Prop} (h : Placed l.store L outer r) (hc : Changes ids ks types l l')
    (hd : ¬ ids r.decl) (hv : ∀ v ∈ r.block.vars, ¬ ids v) (ht : ¬ types (l.store.typeOf r.decl)) :
    Placed l'.store L outer r :=
  ⟨h.lifted.evolves hc.evolves, h.settled.changes hc hd hv ht⟩

lemma Becomes.changes {types : Ty → Prop} (h : Becomes l.store levels rs n r) (hc : Changes ids ks types l l') (hr : r ∈ rs)
    (hd : ∀ r ∈ rs, ¬ ids r.decl) (hv : ∀ r ∈ rs, ∀ v ∈ r.block.vars, ¬ ids v)
    (ht : ∀ r ∈ rs, ¬ types (l.store.typeOf r.decl)) : Becomes l'.store levels rs n r := by
  obtain ⟨L, outer, hn, hp, ho⟩ := h
  refine ⟨L, outer, hn, hp.changes hc (hd r hr) (hv r hr) (ht r hr), fun L' hL => ?_⟩
  rcases ho L' hL with h | ⟨r', hr', outer', hp'⟩
  · exact .inl h
  · exact .inr ⟨r', hr', outer', hp'.changes hc (hd r' hr') (hv r' hr') (ht r' hr')⟩

lemma Becomes.mono (h : Becomes s levels rs n r) (hsub : ∀ r ∈ rs, r ∈ rs') :
    Becomes s levels rs' n r := by
  obtain ⟨L, outer, hn, hp, ho⟩ := h
  refine ⟨L, outer, hn, hp, fun L' hL => (ho L' hL).imp_right ?_⟩
  rintro ⟨r', hr', h⟩
  exact ⟨r', hsub r' hr', h⟩

/-- From `l` to `l'` the procedures of `ns` became those of `rs`, whose declarations are all of
`ids` or new, and whose types are of `types`. -/
structure Yields (levels : List Level) (ids : List DeclId) (types : List Ty) (ns : List Nesting)
    (rs : List Procedure) (l l' : Lifting) : Prop where
  becomes : List.Forall₂ (Becomes l'.store levels rs) ns rs
  decls : ∀ r ∈ rs, ∀ x ∈ r.decl :: r.block.vars, New ids l x ∧ x.index < l'.store.decls.size
  typed : ∀ r ∈ rs, l'.store.typeOf r.decl ∈ types

variable {types : List Ty}


lemma forall₂_imp_of_mem {α β : Type} {R S : α → β → Prop} {xs : List α} {ys : List β}
    (h : List.Forall₂ R xs ys) (H : ∀ a, ∀ b ∈ ys, R a b → S a b) : List.Forall₂ S xs ys := by
  induction h with
  | nil => exact .nil
  | cons hr _ ih =>
    exact .cons (H _ _ mem_cons_self hr)
      (ih fun a b hb => H a b (mem_cons_of_mem _ hb))

lemma Yields.append (h1 : Yields levels ids1 types1 ns1 rs1 l l1)
    (h2 : Yields levels ids2 types2 ns2 rs2 l1 l2) (he : l.store.decls.size ≤ l1.store.decls.size)
    (hc : Changes (New ids2 l1) ks (· ∈ types2) l1 l2)
    (hapart : ∀ r ∈ rs1, ∀ x ∈ r.decl :: r.block.vars, x ∉ ids2)
    (htypes : ∀ t ∈ types1, t ∉ types2) :
    Yields levels (ids1 ++ ids2) (types1 ++ types2) (ns1 ++ ns2) (rs1 ++ rs2) l l2 := by
  have htouch (r) (hr : r ∈ rs1) (x) (hx : x ∈ r.decl :: r.block.vars) :
      ¬ New ids2 l1 x := by
    rintro (hn | hn)
    · exact hapart r hr x hx hn
    · exact absurd (h1.decls r hr x hx).2 (Nat.not_lt.2 hn)
  refine ⟨List.rel_append ?_ ?_, fun r hr x hx => ?_, fun r hr => ?_⟩
  · refine forall₂_imp_of_mem h1.becomes fun n r hr h => ?_
    refine (h.changes hc hr (fun r' hr' => htouch r' hr' _ mem_cons_self)
      (fun r' hr' v hv => htouch r' hr' v (mem_cons_of_mem _ hv))
      fun r' hr' => htypes _ (h1.typed r' hr')).mono fun r' hr' => mem_append_left _ hr'
  · exact h2.becomes.imp fun n r h => h.mono fun r' hr' => mem_append_right _ hr'
  · rcases List.mem_append.1 hr with hr | hr
    · obtain ⟨hn, hlt⟩ := h1.decls r hr x hx
      exact ⟨hn.imp_left (mem_append_left _), hc.evolves.lt hlt⟩
    · obtain ⟨hn, hlt⟩ := h2.decls r hr x hx
      exact ⟨hn.imp (mem_append_right _) (Nat.le_trans he), hlt⟩
  · rcases List.mem_append.1 hr with hr | hr
    · rw [hc.evolves.typeOf (h1.decls r hr _ mem_cons_self).2]
      exact mem_append_left _ (h1.typed r hr)
    · exact mem_append_right _ (h2.typed r hr)

/-- A lifted procedure followed by those that were nested in it. -/
lemma Yields.cons (hp : Placed l1.store L levels r)
    (h : Yields (L :: levels) ids1 types1 ns rs l1 l2)
    (hc : Changes (New ids1 l1) ks (· ∈ types1) l1 l2)
    (hr : ∀ x ∈ r.decl :: r.block.vars, New ids l x ∧ x ∉ ids1)
    (hids : ∀ x, New ids1 l1 x → New ids l x) (ht : l1.store.typeOf r.decl ∉ types1)
    (htypes : ∀ t, t = l1.store.typeOf r.decl ∨ t ∈ types1 → t ∈ types) :
    Yields levels ids types (⟨L.procedure, levels.map Level.procedure⟩ :: ns) (r :: rs) l l2 := by
  have hlt (x) (hx : x ∈ r.decl :: r.block.vars) : x.In l1.store := by
    rcases mem_cons.1 hx with rfl | hx
    · exact hp.settled.lt
    · obtain ⟨i, hi⟩ := List.getElem?_of_mem hx
      exact (hp.settled.vars i x hi).1
  have htouch (x) (hx : x ∈ r.decl :: r.block.vars) : ¬ New ids1 l1 x := by
    rintro (hn | hn)
    · exact (hr x hx).2 hn
    · exact absurd (hlt x hx) (Nat.not_lt.2 hn)
  have hp2 := hp.changes hc (htouch _ mem_cons_self)
    (fun v hv => htouch v (mem_cons_of_mem _ hv)) ht
  refine ⟨.cons ⟨L, levels, rfl, hp2, fun L' hL => .inl hL⟩ (h.becomes.imp fun n r' h => ?_),
    List.forall_mem_cons.2 ⟨fun x hx => ⟨(hr x hx).1, hc.evolves.lt (hlt x hx)⟩, fun r' hr' x hx => ?_⟩,
    List.forall_mem_cons.2 ⟨?_, fun r' hr' => htypes _ (.inr (h.typed r' hr'))⟩⟩
  · obtain ⟨L', outer, hn, hp', ho⟩ := h
    refine ⟨L', outer, hn, hp', fun L'' hL => ?_⟩
    rcases ho L'' hL with hL | ⟨r'', hr'', h⟩
    · rcases mem_cons.1 hL with rfl | hL
      · exact .inr ⟨r, mem_cons_self, levels, hp2⟩
      · exact .inl hL
    · exact .inr ⟨r'', mem_cons_of_mem _ hr'', h⟩
  · obtain ⟨hn, hx⟩ := h.decls r' hr' x hx
    exact ⟨hids x hn, hx⟩
  · rw [hc.evolves.typeOf hp.settled.lt]
    exact htypes _ (.inl rfl)

/-! ## Names -/

/-- From `l` to `l'` the procedures `rs` got the names of an outline, and types were declared for those
that have an environment. -/
structure Names (outline : List (String × Bool)) (rs : List Procedure) (l l' : Lifting) : Prop where
  procedures : rs.map (fun r => (l'.store.decl r.decl).name) = outline.map Prod.fst
  gains : Gains ((outline.filter Prod.snd).map fun e => "_T" ++ e.1) l l'

lemma Names.append (h1 : Names outline1 rs1 l l1) (h2 : Names outline2 rs2 l1 l2)
    (he : l1.store.Evolves l2.store)
    (hkeep : ∀ r ∈ rs1, (l2.store.decl r.decl).name = (l1.store.decl r.decl).name) :
    Names (outline1 ++ outline2) (rs1 ++ rs2) l l2 := by
  refine ⟨?_, ?_⟩
  · rw [map_append, map_append, List.map_congr_left hkeep, h1.procedures, h2.procedures]
  · rw [List.filter_append, map_append]
    exact h1.gains.trans h2.gains he

/-! ## The induction -/

lemma liftProcedure_eq (id constants types vars procedures body l) :
    liftProcedure (.mk id (.mk constants types vars procedures body)) l =
      ((if isExternal (l.store.decl id) = true then
        return (.mk id (.mk constants types vars procedures body), [])
      else do
        let r ← liftBody id vars (procedures.map Procedure.decl) body
        resetLevels id (constants ++ types ++ r.1)
        let nested ← liftNested id procedures
        return (.mk id (.mk constants types r.1 [] r.2), nested)) :
        Lift (Procedure × List Procedure)) l := by
  simp only [liftProcedure]
  rfl

lemma liftProcedure_mk {id : DeclId} {constants types vars vars' : List DeclId}
    {procedures : List Procedure} (he : isExternal (l.store.decl id) = false)
    (hb : liftBody id vars (procedures.map Procedure.decl) body l = .ok ((vars', body'), l1))
    (hr : resetLevels id (constants ++ types ++ vars') l1 = .ok ((), l2))
    (hn : liftNested id procedures l2 = .ok (rs, l3)) :
    liftProcedure (.mk id (.mk constants types vars procedures body)) l =
    .ok ((.mk id (.mk constants types vars' [] body'), rs), l3) := by
  rw [liftProcedure_eq, he, if_neg Bool.false_ne_true, bind_ok hb, bind_ok hr, bind_ok hn]
  rfl

/-- From `l` to `l'` only the name of a procedure was changed. -/
structure Renames (name : String) (id : DeclId) (l l' : Lifting) : Prop where
  decl : l'.store.decl id = { l.store.decl id with name }
  size : l'.store.decls.size = l.store.decls.size
  forms : l'.store.types = l.store.types
  fields : l'.fields = l.fields
  hidden : l'.hidden = l.hidden
  declared : l'.types = l.types
  changes : Changes (· = id) (fun _ => False) (fun _ => False) l l'

lemma rename_ok (parent) {id : DeclId} (l : Lifting) (hr : (l.store.decl id).isProcedure) : ∃ l',
    rename parent id l = .ok ((), l') ∧
    Renames (liftedName (l.store.decl parent).name (l.store.decl id).name) id l l' := by
  let name := liftedName (l.store.decl parent).name (l.store.decl id).name
  have hlt : id.In l.store := by
    refine Nat.lt_of_not_le fun hle => ?_
    rw [Store.decl, Array.getElem?_eq_none hle] at hr
    cases hr
  refine ⟨{ l with store := l.store.modifyDecl id fun d => { d with name } }, rfl, ?_, ?_,
    rfl, rfl, rfl, rfl, .modifyDecl l rfl (.rename hr name)⟩
  · exact Store.decl_modifyDecl_self _ hlt
  · exact Store.size_modifyDecl ..

lemma Pending.renames (h : Pending l visible up declared p) (hr : Renames name p.decl l l') :
    Pending l' visible up declared p ∧ p.ids l'.store = p.ids l.store ∧ p.types l'.store =
    p.types l.store ∧ ∀ name inner, p.outline l'.store name inner =
    p.outline l.store name inner := by
  have hd := hr.decl
  have hn := h.nodup
  rw [Procedure.ids_eq_cons, List.nodup_cons] at hn
  have htype : l'.store.typeOf p.decl = l.store.typeOf p.decl := by
    rw [Store.typeOf, hd, Store.typeOf]
  have htail (x) (hx : x ∈ (p.ids l.store).tail) : l'.store.decl x = l.store.decl x := by
    refine hr.changes.decl x (h.lt x (mem_of_mem_tail hx)) ?_
    rintro rfl
    exact hn.1 hx
  have hforms (t) : l'.store.form? t = l.store.form? t := Store.form?_eq_of_types hr.forms t
  have hle := Nat.le_of_eq hr.size.symm
  obtain ⟨hp, hids, htypes⟩ := h.agrees hle (by rw [hd]) (by rw [hd]) htype htail
    (fun t _ => hforms t) (fun x _ => by rw [hr.fields]) fun x _ => by rw [hr.hidden]
  exact ⟨hp, hids, htypes, fun _ _ => h.outline_agrees hle htype htail fun t _ => hforms t⟩

/-- The names of a procedure and of those with the same parent behind it. -/
lemma Names.siblings {inner : Bool}
    (hr : Renames (liftedName (l.store.decl parent).name (l.store.decl p.decl).name) p.decl l l1)
    (ho : ∀ name inner, p.outline l1.store name inner = p.outline l.store name inner)
    (h1 : Names (p.outline l1.store (l1.store.decl p.decl).name inner) (r :: rs1) l1 l2)
    (h2 : Names (outlineOf l2.store (l2.store.decl parent).name inner ps) rs2 l2 l3)
    (hd : l2.store.decl parent = l.store.decl parent)
    (hos : outlineOf l2.store (l.store.decl parent).name inner ps =
     outlineOf l.store (l.store.decl parent).name inner ps) (he : l1.store.Evolves l2.store)
    (he' : l2.store.Evolves l3.store)
    (hkeep : ∀ r' ∈ r :: rs1, l3.store.decl r'.decl = l2.store.decl r'.decl) :
    Names (outlineOf l.store (l.store.decl parent).name inner (p :: ps)) (r :: rs1 ++ rs2) l l3 := by
  rw [hr.decl, ho] at h1
  rw [hd, hos] at h2
  have hfirst : Names _ (r :: rs1) l l2 :=
    ⟨h1.procedures, (Gains.of_eq hr.declared).trans h1.gains he⟩
  exact hfirst.append h2 he' fun r' hr' => congrArg Declaration.name (hkeep r' hr')

lemma liftNested_cons (hr : rename parent p.decl l = .ok ((), l1))
    (hp : liftProcedure p l1 = .ok ((r, rs1), l2)) (hn : liftNested parent ps l2 = .ok (rs2, l3)) :
    liftNested parent (p :: ps) l = .ok (r :: rs1 ++ rs2, l3) := by
  have hrun : liftNested parent (p :: ps) l = ((do
      rename parent p.decl
      let r ← liftProcedure p
      let rest ← liftNested parent ps
      return r.1 :: r.2 ++ rest) : Lift (List Procedure)) l := by
    simp only [liftNested]
  rw [hrun, bind_ok hr, bind_ok hp, bind_ok hn]
  rfl

lemma Yields.of_size (h : Yields levels ids types ns rs l1 l')
    (hle : l.store.decls.size ≤ l1.store.decls.size) : Yields levels ids types ns rs l l' :=
  ⟨h.becomes, fun r hr x hx => (h.decls r hr x hx).imp_left (.imp_right (Nat.le_trans hle)), h.typed⟩

/-- Lifting a procedure goes well, and so says what it makes of the tree. -/
def Lifts (l : Lifting) (levels : List Level) (up : Option Ty) (p : Procedure) : Prop :=
  ∃ r rs l', liftProcedure p l = .ok ((r, rs), l') ∧ Yields levels (p.ids l.store) (p.types l.store)
      (⟨p, levels.map Level.procedure⟩ :: p.nestings (levels.map Level.procedure)) (r :: rs) l l' ∧
    Changes (Touched p l) (New (p.ids l.store).tail l) (· ∈ (p.types l.store).tail) l l' ∧
    Names (p.outline l.store (l.store.decl p.decl).name up.isSome) (r :: rs) l l'

/-- Lifting procedures with the same parent goes well. -/
def LiftsAll (l : Lifting) (levels : List Level) (up : Option Ty) (parent : DeclId)
    (ps : List Procedure) : Prop :=
  ∃ rs l', liftNested parent ps l = .ok (rs, l') ∧
    Yields levels (idsOf l.store ps) (typesOf l.store ps)
      (Procedure.nestingsOf (levels.map Level.procedure) ps) rs l l' ∧
    Changes (New (idsOf l.store ps) l) (New (idsOf l.store ps) l)
      (· ∈ typesOf l.store ps) l l' ∧
    (¬ New (idsOf l.store ps) l parent →
      Names (outlineOf l.store (l.store.decl parent).name up.isSome ps) rs l l')

/-- One step: a procedure whose nested ones can be lifted in the context it makes. -/
lemma lifts_of_nested (hctx : Context l global levels up bound)
    (hp : Pending l (Visible global levels) up declared p)
    (hn : ∀ l2 L up2, L.procedure = p → (p.block.procedures ≠ [] → ∃ bound,
     Context l2 global (L :: levels) up2 bound) →
     Ready l2 (Visible global (L :: levels)) up2 p.block.procedures →
     LiftsAll l2 (L :: levels) up2 p.decl p.block.procedures) : Lifts l levels up p := by
  obtain ⟨L, up1, vars, body, l1, hbody, ho⟩ := liftBody_ok hctx hp
  obtain ⟨l2, hreset, ho, hs⟩ := ho.settle hp
  have hL : L.procedure = p := by
    obtain ⟨env, rfl⟩ := ho.level
    rfl
  obtain ⟨rs, l3, hrun, hy, hc, hnames⟩ := hn l2 L up1 hL ho.context ho.ready
  have hself := hp.lt p.decl (decl_mem_ids _ p)
  have htype : l2.store.typeOf p.decl = l.store.typeOf p.decl := ho.changes.evolves.typeOf hself
  have hids (x) (hx : New (idsOf l2.store p.block.procedures) l2 x) :
      New (idsOf l.store p.block.procedures) l x := by
    rcases hx with hx | hx
    · exact ho.ids x hx
    · exact .inr (Nat.le_trans ho.changes.evolves.decls_le hx)
  have htail (x) (hx : New (idsOf l.store p.block.procedures) l x) :
      New (p.ids l.store).tail l x := hx.imp_left hp.idsOf_tail
  have hmem (x) (hx : New (p.ids l.store).tail l x) : New (p.ids l.store) l x :=
    hx.imp_left mem_of_mem_tail
  have htypes : (p.types l.store).tail = typesOf l.store p.block.procedures := by
    rw [types_eq, List.tail_cons]
  have hapart : ¬ New (idsOf l2.store p.block.procedures) l2 p.decl := by
    rintro (hm | hm)
    · rcases ho.ids _ hm with hm | hm
      · exact hp.idsOf.2 p.decl mem_cons_self hm
      · exact absurd hself (Nat.not_lt.2 hm)
    · exact absurd (ho.changes.evolves.lt hself) (Nat.not_lt.2 hm)
  refine ⟨.mk p.decl (.mk p.block.constants p.block.types vars [] body), rs, l3, ?_, ?_, ?_, ?_⟩
  · obtain ⟨id, ⟨constants, types, vars, procedures, body⟩⟩ := p
    exact liftProcedure_mk (Procedure.isExternal_of_defined hp.role) hbody hreset hrun
  · have hns : p.nestings (levels.map Level.procedure) =
        Procedure.nestingsOf ((L :: levels).map Level.procedure) p.block.procedures := by
      rw [List.map_cons, hL]
      obtain ⟨id, ⟨constants, types, vars, procedures, body⟩⟩ := p
      rfl
    have hhead : (⟨p, levels.map Level.procedure⟩ : Nesting) =
        ⟨L.procedure, levels.map Level.procedure⟩ := by rw [hL]
    rw [hns, hhead]
    refine .cons ⟨ho.lifted, hs⟩ hy hc (fun x hx => ?_) (fun x hx => hmem x (htail x (hids x hx))) ?_
      fun t ht => ?_
    · rcases mem_cons.1 hx with rfl | hx
      · exact ⟨.inl (decl_mem_ids _ p), fun hm => hapart (.inl hm)⟩
      · refine ⟨?_, fun hm => ho.fresh x hm hx⟩
        refine (ho.vars x hx).imp_left fun hx => ?_
        exact mem_of_mem_tail (hp.origin (mem_append_right _ hx)).1
    · rw [ho.types]
      show l2.store.typeOf p.decl ∉ _
      rw [htype]
      exact hp.typesOf.2
    · rw [ho.types] at ht
      rw [types_eq]
      rcases ht with rfl | ht
      · show l2.store.typeOf p.decl ∈ _
        rw [htype]
        exact mem_cons_self
      · exact mem_cons_of_mem _ ht
  · rw [htypes]
    refine (ho.changes.mono (fun _ h => h) (fun _ h => .inl h) fun _ h => h).trans
      (hc.mono (fun x hx => .inl (htail x (hids x hx))) (fun x hx => htail x (hids x hx))
        fun t ht => ?_)
    rwa [ho.types] at ht
  · have hframed : p.isFramed l.store up.isSome = up1.isSome :=
      hp.isFramed_up.trans ho.names.framed.symm
    have hrest := hnames hapart
    rw [ho.names.name, Procedure.outlineOf_congr ho.names.outline] at hrest
    rw [Procedure.outline_eq, hframed]
    have hfirst : Names [((l.store.decl p.decl).name, up1.isSome)]
        [.mk p.decl (.mk p.block.constants p.block.types vars [] body)] l l2 := by
      refine ⟨congrArg (fun name => [name]) ho.names.name, ?_⟩
      have hgains := ho.names.gains
      cases up1 <;> exact hgains
    refine hfirst.append hrest hc.evolves (List.forall_mem_singleton.2 ?_)
    exact congrArg Declaration.name
      (hc.decl p.decl (ho.changes.evolves.lt hself) hapart)

/-- One step: the first of several procedures, where the rest can be lifted after it. -/
lemma liftsAll_cons (hctx : Context l global levels up bound)
    (hready : Ready l (Visible global levels) up (p :: ps))
    (hp : ∀ l1 declared, Context l1 global levels up bound →
     Pending l1 (Visible global levels) up declared p → Lifts l1 levels up p)
    (hps : ∀ l2, Context l2 global levels up bound → Ready l2 (Visible global levels) up ps →
     LiftsAll l2 levels up parent ps) : LiftsAll l levels up parent (p :: ps) := by
  obtain ⟨declared, hpend⟩ := hready.pending p mem_cons_self
  have hnodup := hready.ids
  rw [idsOf, List.nodup_append] at hnodup
  have htnodup := hready.types
  rw [typesOf, List.nodup_append] at htnodup
  have hrest : Ready l (Visible global levels) up ps :=
    ⟨fun q hq => hready.pending q (mem_cons_of_mem _ hq), hnodup.2.1, htnodup.2.1⟩
  have hlt (x) (hx : x ∈ idsOf l.store ps) : x.index < l.store.decls.size := by
    obtain ⟨q, hq, hx⟩ := Procedure.mem_idsOf.1 hx
    obtain ⟨_, hq⟩ := hrest.pending q hq
    exact hq.lt x hx
  -- the procedure takes its new name
  have hproc : (l.store.decl p.decl).isProcedure := by
    simp only [Declaration.isProcedure, hpend.role]
  obtain ⟨l1, hrename, hr⟩ := rename_ok parent l hproc
  obtain ⟨hpend1, hids1, htypes1, houtline1⟩ := hpend.renames hr
  have hctx1 := hctx.changes hr.changes fun _ _ => False.elim
  have hself (x) (hx : x ∈ idsOf l.store ps) : ¬ x = p.decl :=
    fun heq => hnodup.2.2 x (heq ▸ decl_mem_ids l.store p) x hx rfl
  obtain ⟨hrest1, hidsOf1, htypesOf1⟩ := hrest.changes hr.changes hself (fun _ _ => False.elim)
    fun _ _ => False.elim
  have houtlineOf1 := hrest.outlineOf_changes hr.changes hself fun _ _ => False.elim
  -- it is lifted, which the others do not notice
  obtain ⟨r, rs1, l2, hrun1, hy1, hc1, hnames1⟩ := hp l1 declared hctx1 hpend1
  replace hc1 := hc1.mono (fun _ h => h.new) (fun _ h => h) fun _ h => h
  rw [hids1, htypes1] at hy1 hc1
  have hother (x) (hx : x ∈ idsOf l1.store ps) : ¬ New (p.ids l.store) l1 x := by
    rw [hidsOf1] at hx
    rintro (hn | hn)
    · exact hnodup.2.2 x hn x hx rfl
    · rw [hr.size] at hn
      exact absurd (hlt x hx) (Nat.not_lt.2 hn)
  have htother (t) (ht : t ∈ typesOf l1.store ps) : t ∉ (p.types l.store).tail := by
    intro hm
    rw [htypesOf1] at ht
    exact htnodup.2.2 t (mem_of_mem_tail hm) t ht rfl
  obtain ⟨hrest2, hidsOf2, htypesOf2⟩ := hrest1.changes hc1 hother
    (fun x hx hn => hother x hx (hn.imp_left mem_of_mem_tail)) htother
  have houtline2 := hrest1.outlineOf_changes hc1 hother htother
  have hctx2 := hctx1.changes hc1 fun x hx hn => by
    rcases hn with hn | hn
    · exact hpend.apart x hx hn
    · exact absurd (hctx1.visible x hx) (Nat.not_lt.2 hn)
  obtain ⟨rs2, l3, hrun2, hy2, hc2, hnames2⟩ := hps l2 hctx2 hrest2
  rw [hidsOf2, hidsOf1] at hy2 hc2 hnames2
  rw [htypesOf2, htypesOf1] at hy2 hc2
  have hle : l.store.decls.size ≤ l2.store.decls.size := by
    rw [← hr.size]
    exact hc1.evolves.decls_le
  have hfirst (x) (hx : New (p.ids l.store) l1 x) :
      New (idsOf l.store (p :: ps)) l x :=
    hx.imp (mem_append_left _) fun hn => by rwa [hr.size] at hn
  have hlater (x) (hx : New (idsOf l.store ps) l2 x) :
      New (idsOf l.store (p :: ps)) l x :=
    hx.imp (mem_append_right _) (Nat.le_trans hle)
  refine ⟨r :: rs1 ++ rs2, l3, liftNested_cons hrename hrun1 hrun2, ?_, ?_, fun hparent => ?_⟩
  · refine (hy1.append hy2 hc1.evolves.decls_le hc2 (fun r' hr' x hx hm => ?_)
      fun t ht hm => htnodup.2.2 t ht t hm rfl).of_size (Nat.le_of_eq hr.size.symm)
    exact hother x (by rw [hidsOf1]; exact hm) (hy1.decls r' hr' x hx).1
  · refine (hr.changes.mono ?_ ?_ ?_).trans ((hc1.mono ?_ ?_ ?_).trans (hc2.mono ?_ ?_ ?_))
    · rintro x rfl
      exact .inl (mem_append_left _ (decl_mem_ids _ p))
    · exact fun _ h => h.elim
    · exact fun _ h => h.elim
    · exact hfirst
    · exact fun x hx => hfirst x (hx.imp_left mem_of_mem_tail)
    · exact fun t ht => mem_append_left _ (mem_of_mem_tail ht)
    · exact hlater
    · exact hlater
    · exact fun t ht => mem_append_right _ ht
  · have hlt' : parent.index < l1.store.decls.size := by
      rw [hr.size]
      exact Nat.lt_of_not_le fun h => hparent (.inr h)
    have hparent1 : parent ≠ p.decl := by
      rintro rfl
      exact hparent (hfirst _ (.inl (decl_mem_ids _ p)))
    have hdecl : l2.store.decl parent = l.store.decl parent :=
      (hc1.decl parent hlt' fun h => hparent (hfirst _ h)).trans
        (hr.changes.decl parent (hr.size ▸ hlt') hparent1)
    refine .siblings hr houtline1 hnames1 (hnames2 fun h => hparent (hlater _ h)) hdecl
      ((houtline2 _ _).trans (houtlineOf1 _ _)) hc1.evolves hc2.evolves fun r' hr' => ?_
    obtain ⟨hnew, hlt⟩ := hy1.decls r' hr' _ mem_cons_self
    refine hc2.decl r'.decl hlt fun h => ?_
    rcases h with h | h
    · exact hother _ (by rw [hidsOf1]; exact h) hnew
    · exact absurd hlt (Nat.not_lt.2 h)

mutual

lemma liftProcedure_ok : ∀ p {l : Lifting} {levels : List Level} {up : Option Ty}
    {bound : Nat} {declared : List DeclId}, Context l global levels up bound →
    Pending l (Visible global levels) up declared p → Lifts l levels up p
  | .mk id (.mk _ _ _ procedures _), _, _, _, _, _, hctx, hp =>
    lifts_of_nested hctx hp fun _ _ _ _ hctx2 hready => liftNested_ok id procedures hctx2 hready

lemma liftNested_ok (parent) : ∀ ps {l : Lifting}
    {levels : List Level} {up : Option Ty},
    (ps ≠ [] → ∃ bound, Context l global levels up bound) →
    Ready l (Visible global levels) up ps → LiftsAll l levels up parent ps
  | [], l, _, _, _, _ => ⟨[], l, rfl, ⟨.nil, nofun, nofun⟩, .refl .., fun _ => ⟨rfl, .of_eq rfl⟩⟩
  | p :: rest, _, _, _, hctx, hready => by
    obtain ⟨bound, hctx⟩ := hctx (List.cons_ne_nil _ _)
    exact liftsAll_cons hctx hready (fun _ _ h hp => liftProcedure_ok p h hp)
      fun _ h hr => liftNested_ok parent rest (fun _ => ⟨bound, h⟩) hr

end

end Lifting
end Oberon
