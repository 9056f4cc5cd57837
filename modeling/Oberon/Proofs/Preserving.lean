import Oberon.Proofs.Flattening
import Oberon.Proofs.Interfaces

/-!
# Oberon.Proofs.Preserving

The interface of a module after lifting. Lifting changes what is declared in procedures and the types
of nested procedures. No exported declaration leads to any of it, since a nested procedure is not
exported and has its type for itself. So the same types are visited in the same order, and
`ofModule` yields what it yields before.
-/

namespace Oberon

open List Procedure
namespace Interface

/-! ## Visiting two stores -/

/-- Not a composite type, or one at a place of `P`. -/
def Within (P : Nat → Prop) (t : Ty) : Prop := ∀ i, t = .composite i → P i

/-- A declaration that looks the same as a field or a parameter. -/
structure SameMember (s s' : Store) (id : DeclId) : Prop where
  name : (s'.decl id).name = (s.decl id).name
  exported : (s'.decl id).exported = (s.decl id).exported
  isVarParameter : (s'.decl id).isVarParameter = (s.decl id).isVarParameter
  type : s'.typeOf id = s.typeOf id

/-- The types at the places of `P` lead to each other only, and are the same in both stores. -/
structure Alike (P : Nat → Prop) (s s' : Store) : Prop where
  size_le : s.types.size ≤ s'.types.size
  entry : ∀ i e, P i → s.types[i]? = some e → s'.types[i]? = some e
  name : ∀ i e, P i → s.types[i]? = some e → typeName? s' e = typeName? s e
  member : ∀ i e, P i → s.types[i]? = some e → ∀ id ∈ e.form.members, SameMember s s' id
  parts : ∀ i e, P i → s.types[i]? = some e → ∀ t ∈ s.parts e.form, Within P t

/-- Visits of types of `P` agree, if at least `n` types are in the table already. -/
def Agrees (P : Nat → Prop) (s : Store) (n : Nat) (visit visit' : Ty → StateM Table Ty) : Prop :=
  ∀ (u : Ty) (t : Table), t.Sound s → n ≤ t.places.length → s.Has u → Within P u →
    visit' u t = visit u t

section Visit

variable {visit : Ty → StateM Table Ty}

lemma visitOption_congr (ha : Agrees P s n visit visit') {t : Table} (ht : t.Sound s)
    (hn : n ≤ t.places.length) (hu : ∀ x ∈ u, s.Has x ∧ Within P x) : visitOption visit' u t =
    visitOption visit u t := by
  cases u with
  | none => rfl
  | some u =>
    obtain ⟨hhas, hin⟩ := hu u rfl
    show (some (visit' u t).1, (visit' u t).2) = (some (visit u t).1, (visit u t).2)
    rw [ha u t ht hn hhas hin]

lemma visitMembers_cons (s visit) (member : Declaration → Ty → α)
    (id rest t) : visitMembers s visit member (id :: rest) t =
      (member (s.decl id) (visit (s.typeOf id) t).1 ::
        (visitMembers s visit member rest (visit (s.typeOf id) t).2).1,
        (visitMembers s visit member rest (visit (s.typeOf id) t).2).2) := rfl

lemma visitMembers_congr (hv : Visits s n visit) (ha : Agrees P s n visit visit') (hs : s.Closed)
    {member : Declaration → Ty → α}
    (hmember : ∀ id, SameMember s s' id → member (s'.decl id) = member (s.decl id)) (ids) :
    ∀ t : Table, t.Sound s → n ≤ t.places.length →
    (∀ id ∈ ids, SameMember s s' id ∧ Within P (s.typeOf id)) →
    visitMembers s' visit' member ids t = visitMembers s visit member ids t := by
  induction ids with
  | nil => exact fun _ _ _ _ => rfl
  | cons id rest ih =>
    intro t ht hn hids
    obtain ⟨⟨hsame, hin⟩, hrest⟩ := forall_mem_cons.1 hids
    obtain ⟨hext, _⟩ := hv (s.typeOf id) t ht hn (hs.typeOf id)
    have hfirst := ha (s.typeOf id) t ht hn (hs.typeOf id) hin
    rw [visitMembers_cons, visitMembers_cons, hmember id hsame, hsame.type, hfirst,
      ih _ hext.sound (Nat.le_trans hn hext.length_le) hrest]

lemma SameMember.field {id : DeclId} (h : SameMember s s' id) : Field.of (s'.decl id) =
    Field.of (s.decl id) := by
  funext _
  simp only [Field.of, h.name, h.exported]

lemma SameMember.param {id : DeclId} (h : SameMember s s' id) : Param.of (s'.decl id) =
    Param.of (s.decl id) := by
  funext _
  simp only [Param.of, h.name, h.isVarParameter]

lemma visitForm_congr (hv : Visits s n visit) (ha : Agrees P s n visit visit') (hs : s.Closed)
    (hf : s.Fits f) (hm : ∀ id ∈ f.members, SameMember s s' id) (hp : ∀ t ∈ s.parts f, Within P t)
    (ht : t.Sound s) (hn : n ≤ t.places.length) : visitForm s' visit' f t =
    visitForm s visit f t := by
  cases f with
  | array a =>
    have hin : Within P a.member := by
      unfold ArrayForm.member
      cases hlast : a.types.getLast? with
      | none => exact fun i h => by cases h
      | some u => exact hp u (mem_of_getLast? hlast)
    show (Shape.array a.lengths (visit' a.member t).1, (visit' a.member t).2) = _
    rw [ha a.member t ht hn (has_member hf) hin]
    rfl
  | record r =>
    have hbase (x) (hx : x ∈ r.base) : s.Has x ∧ Within P x := by
      have hmem : x ∈ s.parts (.record r) := mem_append_left _ (Option.mem_toList.2 hx)
      exact ⟨hf.parts x hmem, hp x hmem⟩
    obtain ⟨hext, _⟩ := visitOption_spec hv ht hn fun x hx => (hbase x hx).1
    have hfields := visitMembers_congr hv ha hs (fun _ => SameMember.field) r.fields _ hext.sound
      (Nat.le_trans hn hext.length_le) fun id hid =>
        ⟨hm id hid, hp _ (mem_append_right _ (mem_map_of_mem hid))⟩
    show (Shape.record (visitOption visit' r.base t).1
      (visitMembers s' visit' Field.of r.fields (visitOption visit' r.base t).2).1,
      (visitMembers s' visit' Field.of r.fields (visitOption visit' r.base t).2).2) = _
    rw [visitOption_congr ha ht hn hbase, hfields]
    rfl
  | pointer base =>
    show (Shape.pointer (visitOption visit' base t).1, (visitOption visit' base t).2) = _
    rw [visitOption_congr ha ht hn fun x hx =>
      ⟨hf.parts x (Option.mem_toList.2 hx), hp x (Option.mem_toList.2 hx)⟩]
    rfl
  | procedure sig =>
    obtain ⟨hext, _⟩ := visitMembers_spec hv hs Param.of sig.params t ht hn
    have hparams := visitMembers_congr hv ha hs (fun _ => SameMember.param) sig.params t ht hn fun id hid =>
      ⟨hm id hid, hp _ (mem_append_left _ (mem_map_of_mem hid))⟩
    have hresult := visitOption_congr ha (u := sig.result) hext.sound
      (Nat.le_trans hn hext.length_le) fun x hx => by
        have hmem : x ∈ s.parts (.procedure sig) := mem_append_right _ (Option.mem_toList.2 hx)
        exact ⟨hf.parts x hmem, hp x hmem⟩
    show (Shape.procedure (visitMembers s' visit' Param.of sig.params t).1
      (visitOption visit' sig.result (visitMembers s' visit' Param.of sig.params t).2).1 sig.variadic,
      (visitOption visit' sig.result (visitMembers s' visit' Param.of sig.params t).2).2) = _
    rw [hparams, hresult]
    rfl

end Visit

/-- The store that has more types also has more fuel, which makes no difference. -/
lemma visit_congr (hs : s.Closed) (h : Alike P s s') (fuel) : ∀ fuel', fuel ≤ fuel' →
    Agrees P s (s.types.size + 1 - fuel) (visit s fuel) (visit s' fuel') := by
  induction fuel with
  | zero =>
    intro _ _ u t ht hn
    have := ht.length_le
    omega
  | succ fuel ih =>
    intro fuel' hle u t ht hn hu hin
    obtain ⟨fuel', rfl⟩ : ∃ k, fuel' = k + 1 := ⟨fuel' - 1, by omega⟩
    cases u with
    | composite id =>
      cases hl : t.places.lookup id with
      | some place => rw [visit_known hl, visit_known hl]
      | none =>
        have hid : id < s.types.size := hu id rfl
        have hentry : s.types[id]? = some s.types[id] := Array.getElem?_eq_getElem hid
        have hfits := hs.fits (.composite id) s.types[id].form
          (by simp [Store.form?, Store.entry?, hentry])
        have hlength : (t.reserve id (typeName? s s.types[id])).places.length =
            t.places.length + 1 := rfl
        rw [visit_entry hl hentry, visit_entry hl (h.entry id _ (hin id rfl) hentry),
          h.name id _ (hin id rfl) hentry,
          visitForm_congr (visit_spec hs fuel) (ih fuel' (by omega)) hs hfits
            (h.member id _ (hin id rfl) hentry) (h.parts id _ (hin id rfl) hentry)
            (ht.reserve hid hl _) (by omega)]
    | _ => rfl

/-! ## Interfaces of two stores -/

lemma visitExports_congr (hs : s.Closed) (h : Alike P s s') (ids) : ∀ t : Table, t.Sound s →
    (∀ id ∈ ids, s'.decl id = s.decl id ∧ Within P (s.typeOf id)) → visitExports s' ids t =
    visitExports s ids t := by
  induction ids with
  | nil => exact fun _ _ _ => rfl
  | cons id rest ih =>
    intro t ht hids
    obtain ⟨⟨hdecl, hin⟩, hrest⟩ := forall_mem_cons.1 hids
    have htype : s'.typeOf id = s.typeOf id := by rw [Store.typeOf, hdecl, Store.typeOf]
    simp only [visitExports, hdecl]
    cases kind? (s.decl id) with
    | none => exact ih t ht hrest
    | some kind =>
      have hfuel : s.types.size + 1 ≤ s'.types.size + 1 := Nat.succ_le_succ h.size_le
      have hfirst := visit_congr hs h (s.types.size + 1) _ hfuel (s.typeOf id) t ht (by omega)
        (hs.typeOf id) hin
      obtain ⟨hext, _⟩ := visit_spec hs (s.types.size + 1) (s.typeOf id) t ht (by omega)
        (hs.typeOf id)
      show (_ :: (visitExports s' rest (visit s' _ (s'.typeOf id) t).2).1,
        (visitExports s' rest (visit s' _ (s'.typeOf id) t).2).2) = _
      rw [htype, hfirst, ih _ hext.sound hrest]
      rfl

lemma ofModule_congr (hs : s.Closed) (h : Alike P s s') {m m' : Module} (hname : m'.name = m.name)
    (hids : exportedIds s' m'.block = exportedIds s m.block)
    (hsame : ∀ id ∈ exportedIds s m.block, s'.decl id = s.decl id ∧ Within P (s.typeOf id)) :
    ofModule s' m' = ofModule s m := by
  have hrun := visitExports_congr hs h _ {} (Table.sound_empty s) hsame
  unfold ofModule
  simp only [StateT.run, hids, hrun, hname]

end Interface

/-! ## Nested procedures -/

namespace Procedure

open Lifting

variable {p : Procedure}

/-- The types of a tree are those of its root and of the procedures nested in it. -/
lemma Scoped.tail_types (h : p.Scoped s level known) (outer) : (p.types s).tail =
    (p.nestings outer).map fun n => s.typeOf n.procedure.decl := by
  induction h generalizing outer with
  | external hlt hr hlev hs htop => rfl
  | @defined level known id params constants types vars procedures body hlt hr hlev hs hp hc ht hv hb
      hn ih =>
    rw [Procedure.types, tail_cons, nestings, nestingsOf_eq_flatMap, map_flatMap,
      typesOf_eq_flatMap]
    refine flatMap_congr fun q hq => ?_
    rw [map_cons, ← ih q hq]
    obtain ⟨id, ⟨_, _, _, _, _⟩⟩ := q
    rfl

/-- A procedure nested in a tree is declared in it, and deeper than its root. -/
lemma Scoped.nested (h : p.Scoped s level known) (hl : Scopes.moduleLevel ≤ level)
    (hn : n ∈ p.nestings outer) : (s.decl n.procedure.decl).role = .procedure .defined ∧
    level < (s.decl n.procedure.decl).level := by
  induction h generalizing outer with
  | external hlt hr hlev hs htop => cases hn
  | @defined level known id params constants types vars procedures body hlt hr hlev hs hp hc ht hv hb
      hq ih =>
    rw [nestings, nestingsOf_eq_flatMap] at hn
    obtain ⟨q, hmem, hn⟩ := mem_flatMap.1 hn
    rcases mem_cons.1 hn with rfl | hn
    · rcases (hq q hmem).isExternal_or with ⟨_, _, htop⟩ | ⟨_, hdef⟩
      · omega
      · exact ⟨hdef.role, by rw [hdef.depth]; exact Nat.lt_succ_self _⟩
    · obtain ⟨hrole, hlt⟩ := ih q hmem (by omega) hn
      exact ⟨hrole, by omega⟩

lemma Scoped.nested_mem (h : p.Scoped s level known) (hn : n ∈ p.nestings outer) :
    n.procedure.decl ∈ (p.ids s).tail := by
  have hsub := sublist_ids h outer
  rw [ids_eq_cons] at hsub
  exact (cons_sublist_cons.1 hsub).subset (mem_map_of_mem hn)

end Procedure

namespace Lifting

open Interface

variable {m : Module}

/-- The types at these places are not those of nested procedures. -/
def Kept (s : Store) (m : Module) (i : Nat) : Prop :=
  ¬ Retypes m.block.procedures (start s m) (.composite i)

/-- A nested procedure owns its type. -/
lemma owner_of_retypes (h : m.Scoped s low)
    (hf : ∀ t ∈ typesOf s m.block.procedures, first ≤ t.place)
    (hi : Retypes m.block.procedures (start s m) (.composite i)) : ∃ p ∈ m.block.procedures,
    ∃ id ∈ (p.ids s).tail, s.Owned first i ∧ s.typeOf id = .composite i := by
  obtain ⟨p, hp, _, ht⟩ := hi
  have hp' := h.trees p hp
  have hmem := ht
  rw [show (start s m).store = s from rfl, hp'.tail_types []] at hmem
  obtain ⟨n, hn, htype⟩ := mem_map.1 hmem
  obtain ⟨hrole, _⟩ := hp'.nested (Nat.le_refl _) hn
  refine ⟨p, hp, n.procedure.decl, hp'.nested_mem hn, ⟨?_, _, hrole, htype⟩, htype⟩
  exact hf (.composite i) (mem_typesOf.2 ⟨p, hp, mem_of_mem_tail ht⟩)

section Kept

variable (hm : m.Scoped s low)
  (hf : ∀ t ∈ typesOf s m.block.procedures, first ≤ t.place) (hu : s.Unshared first)
include hm hf hu

lemma within_parts (h : s.form? t = some f) (hmem : u ∈ s.parts f) : Within (Kept s m) u := by
  intro i hi hr
  obtain ⟨_, _, _, _, ho, _⟩ := owner_of_retypes hm hf hr
  exact hu.parts t f h u hmem i hi ho

lemma within_members {id : DeclId} (hid : id ∈ m.block.members []) :
    Within (Kept s m) (s.typeOf id) := by
  intro i hi hr
  obtain ⟨p, hp, id', hid', ho, ht⟩ := owner_of_retypes hm hf hr
  cases hu.only i ho id id' hi ht
  exact global_apart hm (.inr hid) hp hid'

end Kept

lemma not_touches (h : m.Scoped s low) {id : DeclId} (hid : id ∈ m.block.members []) :
    ¬ Touches m.block.procedures (start s m) id := by
  rintro (⟨p, hp, _, hmem⟩ | hle)
  · exact global_apart h (.inr hid) hp hmem
  · exact absurd (global_lt h (.inr hid)) (Nat.not_lt.2 hle)

/-- What is visited from kept types is as it was. -/
lemma alike_of_changes (hm : m.Scoped s low) (hs : s.Closed)
    (hf : ∀ t ∈ typesOf s m.block.procedures, first ≤ t.place) (hu : s.Unshared first)
    (hc : Reworks m.block.procedures (start s m) l') : Alike (Kept s m) s l'.store := by
  have hform {i} {e : TypeEntry} (he : s.types[i]? = some e) :
      s.form? (.composite i) = some e.form := by simp [Store.form?, Store.entry?, he]
  have hmember {id : DeclId} (hlt : id.In s)
      (hp : (s.decl id).isProcedure = false) : SameMember s l'.store id := by
    have hd := hc.evolves.decl id hlt
    exact ⟨hd.name hp, hd.exported, hd.isVarParameter, hd.type⟩
  refine ⟨hc.evolves.types_le, fun i e hi he => ?_, fun i e _ he => ?_, fun i e _ he id hid => ?_,
    fun i e _ he t ht => within_parts hm hf hu (hform he) ht⟩
  · have hlt : i < s.types.size := (Array.getElem?_eq_some_iff.1 he).1
    have hforms := hc.form (.composite i) hlt hi
    have hnames := hc.evolves.naming? (.composite i) hlt
    obtain ⟨e', he'⟩ : ∃ e', l'.store.types[i]? = some e' :=
      ⟨_, Array.getElem?_eq_getElem (Nat.lt_of_lt_of_le hlt hc.evolves.types_le)⟩
    simp only [start, Store.form?, Store.naming?, Store.entry?, he, he', Option.map_some,
      Option.bind_some, Option.some.injEq] at hforms hnames
    obtain ⟨form, naming⟩ := e
    obtain ⟨form', naming'⟩ := e'
    rw [he']
    cases hforms
    cases hnames
    rfl
  · cases hn : e.naming with
    | none => simp only [typeName?, hn]
    | some id =>
      obtain ⟨hlt, hrole, _⟩ := hs.named (.composite i) id
        (by simp [Store.naming?, Store.entry?, he, hn])
      have hd := hc.evolves.decl id hlt
      simp only [typeName?, hn]
      rw [hd.module, hd.name (by simp [Declaration.isProcedure, start, hrole])]
      rfl
  · obtain ⟨hlt, hmem⟩ := (hs.fits _ _ (hform he)).members id hid
    refine hmember hlt ?_
    unfold Declaration.isMember at hmem
    unfold Declaration.isProcedure
    split at hmem <;> simp_all

lemma exportedIds_flattened (hm : m.Scoped s low)
    (hn : ∀ p ∈ m.block.procedures, ∀ n ∈ p.nestings [], (s.decl n.procedure.decl).exported = false)
    (he : Emerges m.block.procedures rs others (start s m) l')
    (hc : Reworks m.block.procedures (start s m) l') :
    exportedIds l'.store (m.flattened l'.types (rs ++ others)).block = exportedIds s m.block := by
  have hsame {ids : List DeclId} (h : ∀ id ∈ ids, id ∈ m.block.members []) :
      ids.filter (fun id => (l'.store.decl id).exported) =
        ids.filter fun id => (s.decl id).exported := by
    refine filter_congr fun id hid => ?_
    rw [hc.decl id (global_lt hm (.inr (h id hid))) (not_touches hm (h id hid))]
    rfl
  have hrecords : l'.types.filter (fun id => (l'.store.decl id).exported) = [] := by
    obtain ⟨new, hnew, hhidden⟩ := hc.records
    rw [filter_eq_nil_iff, hnew]
    intro id hid
    simp [(hhidden id hid).2]
  have hnested : ((m.block.procedures.flatMap (nestings [])).map
      fun n => n.procedure.decl).filter (fun id => (l'.store.decl id).exported) = [] := by
    rw [filter_eq_nil_iff]
    intro id hid
    obtain ⟨n, hmem, rfl⟩ := mem_map.1 hid
    obtain ⟨p, hp, hmem⟩ := mem_flatMap.1 hmem
    have hin := (hm.trees p hp).nested_mem hmem
    have hlt := (hm.spread.bounds _ (mem_append_right _
      (mem_idsOf.2 ⟨p, hp, mem_of_mem_tail hin⟩))).2
    rw [(hc.evolves.decl _ hlt).exported]
    simp [start, hn p hp n hmem]
  have hdecls : (rs ++ others).map decl = m.block.procedures.map decl ++
      (m.block.procedures.flatMap (nestings [])).map fun n => n.procedure.decl := by
    rw [he.decls_eq, Module.preorder, map_append, map_map]
    rfl
  refine congrArg (fun ids : List DeclId => ids.mergeSort fun a b => a.index ≤ b.index) ?_
  show (m.block.constants ++ (m.block.types ++ l'.types) ++ m.block.vars ++
    (rs ++ others).map decl).filter _ = _
  simp only [hdecls, filter_append, hrecords, hnested, append_nil]
  rw [hsame, hsame, hsame, hsame]
  all_goals
    intro id hid
    rw [members_eq]
    simp only [mem_append]
    tauto

/-- Lifting an accepted module leaves its interface as it is: the same exports in the same order, and
the same table of types. -/
theorem liftModule_keeps_interface {features : Features} {library : Library} {source : String}
    {m : Module} (h : (Outcome.ofSource features library source).Accepts m) : ∃ m' s',
    liftModule (Outcome.ofSource features library source).store m = .ok (m', s') ∧ ofModule s' m' =
    ofModule (Outcome.ofSource features library source).store m := by
  obtain ⟨low, hm⟩ := h.scoped
  obtain ⟨rs, others, l', hrun, he, hc⟩ := liftModule_ok hm
  obtain ⟨_, c, _, _, hopened, hreads, hbuilds⟩ := h.phases
  have hbuilds := hbuilds False False.elim
  have hfirst (t : Ty) (ht : t ∈ typesOf (Outcome.ofSource features library source).store
      m.block.procedures) : c.store.types.size ≤ t.place := (hreads.types.bounds t ht).1
  have hunshared := hbuilds.sound.unshared
  have hclosed := h.closed
  refine ⟨_, _, hrun, ofModule_congr hclosed (alike_of_changes hm hclosed hfirst hunshared hc) rfl
    (exportedIds_flattened hm (fun p hp n hn => ?_) he hc) fun id hid => ?_⟩
  · have hp' := hm.trees p hp
    obtain ⟨hrole, hlevel⟩ := hp'.nested (Nat.le_refl _) hn
    have hlow := (hreads.spread.bounds _ (mem_append_right _
      (mem_idsOf.2 ⟨p, hp, mem_of_mem_tail (hp'.nested_mem hn)⟩))).1
    refine Bool.eq_false_iff.2 fun hexp => ?_
    have := hbuilds.store.level_of_exported hlow hrole hexp
    exact absurd (this ▸ hlevel) (Nat.lt_irrefl _)
  · have hmem := (mem_exportedIds.1 hid).1
    exact ⟨hc.decl id (global_lt hm (.inr hmem)) (not_touches hm hmem),
      within_members hm hfirst hunshared hmem⟩

/-- An exported procedure that has a nested one. -/
def publishedSource : String :=
  "MODULE M; VAR v*: INTEGER; PROCEDURE A*(i: INTEGER); PROCEDURE B; BEGIN v := i END B; " ++
    "BEGIN B END A; END M."

theorem liftModule_keeps_interface_nested : ∃ m,
    (Outcome.ofSource {} {} publishedSource).Accepts m ∧
    (exportedIds (Outcome.ofSource {} {} publishedSource).store m.block).length = 2 ∧ ∃ m' s',
    liftModule (Outcome.ofSource {} {} publishedSource).store m = .ok (m', s') ∧
    m'.block.procedures.length = 2 ∧ ofModule s' m' =
    ofModule (Outcome.ofSource {} {} publishedSource).store m := by
  have heval : (Outcome.ofSource {} {} publishedSource).acceptsWith (fun o m =>
      ((m.block.members []).filter fun id => (o.store.decl id).exported).length == 2 &&
        (liftModule o.store m).toOption.any fun r => r.1.block.procedures.length == 2) = true := by
    decide +kernel
  obtain ⟨m, hacc, htest⟩ := Outcome.exists_of_acceptsWith heval
  rw [Bool.and_eq_true, beq_iff_eq] at htest
  obtain ⟨hexports, hlifted⟩ := htest
  obtain ⟨m', s', hrun, hsame⟩ := liftModule_keeps_interface hacc
  rw [hrun] at hlifted
  refine ⟨m, hacc, ?_, m', s', hrun, eq_of_beq hlifted, hsame⟩
  rw [(exportedIds_perm _ m.block).length_eq]
  exact hexports

end Lifting
end Oberon
