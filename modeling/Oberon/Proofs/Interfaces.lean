import Mathlib.Tactic.Choose
import Oberon.Proofs.Accepted
import Oberon.Proofs.Realizing

/-!
# Oberon.Proofs.Interfaces

Exporting a module and importing it again keeps the structure of its types. Two types in two stores are
bisimilar if they are made in the same way, have the same name, and their parts are bisimilar again;
this says that unfolding both gives the same, possibly infinite, tree.
-/

namespace Oberon

open List

variable {id : DeclId}

/-! ## Bisimilar types -/

namespace Store

/-- Two forms are made in the same way, their parts being related by `R`. -/
inductive Alike (s s' : Store) (R : Ty → Ty → Prop) : Form → Form → Prop
  | array {a a' : ArrayForm} (hl : a.lengths = a'.lengths) (hm : R a.member a'.member) :
      Alike s s' R (.array a) (.array a')
  | record {r r' : RecordForm} (hb : Option.Rel R r.base r'.base)
      (hf : List.Forall₂ (fun id id' => (s.decl id).name = (s'.decl id').name ∧
        (s.decl id).exported = (s'.decl id').exported ∧ R (s.typeOf id) (s'.typeOf id'))
        r.fields r'.fields) : Alike s s' R (.record r) (.record r')
  | pointer {base base' : Option Ty} (hb : Option.Rel R base base') :
      Alike s s' R (.pointer base) (.pointer base')
  | procedure {sig sig' : Signature}
      (hp : List.Forall₂ (fun id id' => (s.decl id).name = (s'.decl id').name ∧
        (s.decl id).isVarParameter = (s'.decl id').isVarParameter ∧
        R (s.typeOf id) (s'.typeOf id')) sig.params sig'.params)
      (hr : Option.Rel R sig.result sig'.result) (hv : sig.variadic = sig'.variadic) :
      Alike s s' R (.procedure sig) (.procedure sig')

/-- Related types are the same basic type, or composite types with the same name whose forms are
alike. -/
def Bisimulation (s s' : Store) (R : Ty → Ty → Prop) : Prop :=
  ∀ u u', R u u' → (u = u' ∧ ∀ id, u ≠ .composite id) ∨
    ∃ entry entry', s.entry? u = some entry ∧ s'.entry? u' = some entry' ∧
      Interface.typeName? s entry = Interface.typeName? s' entry' ∧
      s.Alike s' R entry.form entry'.form

/-- The types unfold to the same tree. -/
def Bisimilar (s s' : Store) (u u' : Ty) : Prop := ∃ R, s.Bisimulation s' R ∧ R u u'

end Store

namespace Interface

/-! ## Two stores that show the same interface -/

lemma join_option (h : Option.Rel R u v) (h' : Option.Rel S u' v) :
    Option.Rel (fun x y => ∃ z, R x z ∧ S y z) u u' := by
  cases h with
  | some h =>
    cases h' with
    | some h' => exact .some ⟨_, h, h'⟩
  | none =>
    cases h'
    exact .none

lemma join_forall₂ {α β γ : Type} {R : α → γ → Prop} {S : β → γ → Prop} {xs : List α}
    {zs : List γ} (h : List.Forall₂ R xs zs) : ∀ {ys : List β}, List.Forall₂ S ys zs →
    List.Forall₂ (fun x y => ∃ z, R x z ∧ S y z) xs ys := by
  induction h with
  | nil =>
    intro ys h'
    cases h'
    exact .nil
  | cons hx _ ih =>
    intro ys h'
    cases h' with
    | cons hy hys => exact .cons ⟨_, hx, hy⟩ (ih hys)

/-- Forms that show the same shape are alike. -/
lemma Shows.alike (h : Shows s part f shape) (h' : Shows s' part' f' shape) :
    s.Alike s' (fun u u' => ∃ v, part u v ∧ part' u' v) f f' := by
  cases h with
  | array hl hm =>
    cases h' with
    | array hl' hm' => exact .array (hl.trans hl'.symm) ⟨_, hm, hm'⟩
  | record hb hf =>
    cases h' with
    | record hb' hf' =>
      refine .record (join_option hb hb') ((join_forall₂ hf hf').imp ?_)
      rintro id id' ⟨f, h, h'⟩
      exact ⟨h.1.trans h'.1.symm, h.2.1.trans h'.2.1.symm, f.type, h.2.2, h'.2.2⟩
  | pointer h =>
    cases h' with
    | pointer h' => exact .pointer (join_option h h')
  | procedure hp hr hv =>
    cases h' with
    | procedure hp' hr' hv' =>
      refine .procedure ((join_forall₂ hp hp').imp ?_) (join_option hr hr') (hv.trans hv'.symm)
      rintro id id' ⟨p, h, h'⟩
      exact ⟨h.1.trans h'.1.symm, h.2.1.trans h'.2.1.symm, p.type, h.2.2, h'.2.2⟩

/-- What stands at a place and what is copied from it are bisimilar. -/
lemma Depicts.bisimulation (h : Depicts s ids t i)
    (hf : ∀ p k, copied p k → IsFinished i s' copied p k) : s.Bisimulation s' fun u u' => ∃ v,
    t.Stands u v ∧ Copies copied u' v := by
  rintro u u' ⟨v, huv, huv'⟩
  cases u with
  | composite id =>
    obtain ⟨place, hl, rfl⟩ := huv
    obtain ⟨k, hk, rfl⟩ := huv'
    obtain ⟨entry, item, he, hitem, hname, hshows⟩ := h.filled id place hl
    obtain ⟨item', entry', hfin⟩ := hf place k hk
    rw [← h.types, hfin.item_eq] at hitem
    cases hitem
    exact .inr ⟨entry, entry', he, hfin.entry_eq, hname.symm.trans hfin.name.symm,
      hshows.alike hfin.shows⟩
  | basic b | pseudo p =>
    cases huv
    cases huv'
    exact .inl ⟨rfl, fun id h => by cases h⟩

/-! ## Layers -/

lemma Shows.isLate (h : Shows s part f shape) : shape.isLate = f.isLate := by
  cases h <;> rfl

/-- The parts of a shape are those of the form. -/
lemma Shows.part {part : Ty → Ty → Prop} (h : Shows s part f shape) (hv : v ∈ shape.parts) : (∃ u ∈ s.parts f, part u v) ∨ part .undefined v := by
  have hoption {u v' : Option Ty} (h : Option.Rel part u v') (hv : v ∈ v'.toList) :
      ∃ x ∈ u.toList, part x v := by
    cases h with
    | some h =>
      cases mem_singleton.1 hv
      exact ⟨_, mem_singleton_self _, h⟩
    | none => cases hv
  cases h with
  | @array a _ _ _ hm =>
    cases mem_singleton.1 hv
    unfold ArrayForm.member at hm
    cases hlast : a.types.getLast? with
    | none =>
      rw [hlast] at hm
      exact .inr hm
    | some u =>
      rw [hlast] at hm
      exact .inl ⟨u, mem_of_getLast? hlast, hm⟩
  | record hb hf =>
    refine .inl ?_
    rcases mem_append.1 hv with hv | hv
    · obtain ⟨u, hu, h⟩ := hoption hb hv
      exact ⟨u, mem_append_left _ hu, h⟩
    · obtain ⟨g, hg, rfl⟩ := mem_map.1 hv
      obtain ⟨id, hid, h⟩ := exists_of_forall₂ hf hg
      exact ⟨_, mem_append_right _ (mem_map_of_mem hid), h.2.2⟩
  | pointer hb => exact .inl (hoption hb hv)
  | procedure hp hr =>
    refine .inl ?_
    rcases mem_append.1 hv with hv | hv
    · obtain ⟨p, hp', rfl⟩ := mem_map.1 hv
      obtain ⟨id, hid, h⟩ := exists_of_forall₂ hp hp'
      exact ⟨_, mem_append_left _ (mem_map_of_mem hid), h.2.2⟩
    · obtain ⟨u, hu, h⟩ := hoption hr hv
      exact ⟨u, mem_append_right _ hu, h⟩

variable {i : Interface}

/-- The parts of a place stand for the parts of its type. -/
lemma Depicts.part (h : Depicts s ids t i) {id place : Nat} (hl : t.places.lookup id = some place)
    (hi : i.types[place]? = some item) : ∃ f, s.form? (.composite id) = some f ∧ item.shape.isLate =
    f.isLate ∧ ∀ j, .composite j ∈ item.shape.parts → ∃ id', .composite id' ∈ s.parts f ∧
    t.places.lookup id' = some j := by
  obtain ⟨entry, item', he, hitem, _, hshows⟩ := h.filled id place hl
  rw [← h.types, hi] at hitem
  cases hitem
  refine ⟨entry.form, by simp [Store.form?, Store.entry?, he], hshows.isLate, fun j hj => ?_⟩
  rcases hshows.part hj with ⟨u, hu, hstands⟩ | hstands
  · cases u with
    | composite id' =>
      obtain ⟨place', hl', heq⟩ := hstands
      cases heq
      exact ⟨id', hu, hl'⟩
    | _ => cases hstands
  · cases hstands

/-- Arrays and procedure types come behind their parts in the store, so that they can be ranked. -/
lemma Depicts.layered (h : Depicts s ids t i) (hs : s.Closed) : ∃ rank, Layered i rank := by
  classical
  have hsize : i.types.size = t.items.size := by rw [h.types]
  choose! source hsource using h.sound.onto
  let below (p : Nat) : Finset Nat :=
    {q ∈ Finset.range i.types.size | isEarly i q = false ∧ source q ≤ source p}
  have hrank (p) : (if isEarly i p = true then 0 else (below p).card) ≤ i.types.size := by
    split
    · exact Nat.zero_le _
    · simpa using Finset.card_filter_le (Finset.range i.types.size)
        fun q => isEarly i q = false ∧ source q ≤ source p
  refine ⟨fun p => if isEarly i p = true then 0 else (below p).card, fun index item hi j hj => ?_,
    hrank, fun j hj => if_pos hj, fun index item hi hlate j hj => ?_⟩
  · have hlt := (Array.getElem?_eq_some_iff.1 hi).1
    obtain ⟨f, _, _, hparts⟩ := h.part (hsource index (hsize ▸ hlt)) hi
    obtain ⟨id', _, hl⟩ := hparts j hj
    rw [hsize]
    exact (h.sound.inside id' j hl).1
  · have hlt := (Array.getElem?_eq_some_iff.1 hi).1
    have hplace := hsource index (hsize ▸ hlt)
    obtain ⟨f, hf, hl, hparts⟩ := h.part hplace hi
    obtain ⟨id', hmem, hl'⟩ := hparts j hj
    have hj' := (h.sound.inside id' j hl').1
    have hid' : source j = id' := h.sound.distinct _ _ j (hsource j hj') hl'
    -- the part is older
    have hold : source j < source index := by
      rw [hid']
      exact hs.earlier _ f hf (hl ▸ hlate) _ hmem id' rfl
    have hindex : isEarly i index = false := by simp [isEarly, hi, hlate]
    have hself : index ∈ below index := by simp [below, hlt, hindex]
    rw [if_neg (by simp [hindex] : ¬ isEarly i index)]
    split
    · exact Finset.card_pos.2 ⟨index, hself⟩
    · refine Finset.card_lt_card (Finset.ssubset_iff_subset_ne.2 ⟨fun q hq => ?_, fun heq => ?_⟩)
      · simp only [below, Finset.mem_filter] at hq ⊢
        exact ⟨hq.1, hq.2.1, Nat.le_trans hq.2.2 (Nat.le_of_lt hold)⟩
      · rw [← heq] at hself
        exact absurd (Finset.mem_filter.1 hself).2.2 (Nat.not_le_of_lt hold)

/-! ## Scopes -/

section Scopes

lemma exports_addExport (scopes : Scopes) (module name id) :
    (scopes.addExport module name id).exports = ((module, name), id) :: scopes.exports := by
  simp only [Scopes.addExport, Scopes.addModule]
  split <;> rfl

lemma hasModule_addModule_of {scopes : Scopes} (h : scopes.hasModule other) (module) :
    (scopes.addModule module).hasModule other := by
  unfold Scopes.addModule
  split
  · exact h
  · simp only [Scopes.hasModule, contains_cons] at h ⊢
    rw [h, Bool.or_true]

/-- Names that are not exported mean what they meant before. -/
lemma lookup_enterExports_of_notMem {name : String} (exports : List Export) : ∀ ids scopes,
    name ∉ exports.map Export.name →
    (enterExports module scopes exports ids).exports.lookup (module, name) =
    scopes.exports.lookup (module, name) := by
  induction exports with
  | nil => exact fun ids scopes _ => rfl
  | cons e rest ih =>
    intro ids scopes hname
    rw [map_cons, mem_cons, not_or] at hname
    cases ids with
    | nil => rfl
    | cons id ids =>
      refine (ih ids _ hname.2).trans ?_
      have hne : ((module, name) == (module, e.name)) = false := by simp [hname.1]
      rw [exports_addExport, lookup_cons, hne]

lemma exports_addModule (scopes : Scopes) (module) : (scopes.addModule module).exports =
    scopes.exports := by
  unfold Scopes.addModule
  split <;> rfl

/-- Exports with different names are all found. -/
lemma lookup_enterExports (module) {R : DeclId → Export → Prop} {exports : List Export}
    (h : List.Forall₂ R ids exports) : ∀ scopes, (exports.map Export.name).Nodup →
    List.Forall₂ (fun id e => R id e ∧ (enterExports module scopes exports ids).exports.lookup
     (module, e.name) = some id) ids exports := by
  induction h with
  | nil => exact fun _ _ => .nil
  | @cons id e ids exports hr _ ih =>
    intro scopes hnodup
    rw [map_cons, nodup_cons] at hnodup
    refine .cons ⟨hr, ?_⟩ (ih _ hnodup.2)
    refine (lookup_enterExports_of_notMem _ _ _ hnodup.1).trans ?_
    rw [exports_addExport, lookup_cons, beq_self_eq_true]

end Scopes

/-! ## Exported declarations -/

lemma members_eq (block : Block) : block.members [] =
    block.constants ++ block.types ++ block.vars ++ block.procedures.map Procedure.decl := by
  obtain ⟨constants, types, vars, procedures, body⟩ := block
  rfl

lemma exportedIds_perm (s block) :
    (exportedIds s block).Perm ((block.members []).filter fun id => (s.decl id).exported) := by
  rw [members_eq]
  exact mergeSort_perm _ _

lemma mem_exportedIds : id ∈ exportedIds s block ↔ id ∈ block.members [] ∧ (s.decl id).exported := by
  rw [(exportedIds_perm s block).mem_iff, mem_filter]

/-! ## Round trips -/

/-- A declaration of one store and the one made for it in another. -/
structure SameExport (s s' : Store) (id id' : DeclId) : Prop where
  name : (s'.decl id').name = (s.decl id).name
  kind : kind? (s'.decl id') = kind? (s.decl id)
  type : s.Bisimilar s' (s.typeOf id) (s'.typeOf id')

lemma lookupInModule_importInto {name : String} (hname : name ∉ i.exports.map Export.name) (store)
    {scopes : Scopes} (hfresh : ∀ e ∈ scopes.exports, e.1.1 ≠ i.name) :
    (i.importInto store scopes).2.lookupInModule i.name name = none := by
  obtain ⟨ids, r, _, hrun⟩ := i.importInto_brings store scopes
  rw [hrun]
  unfold Scopes.lookupInModule
  split
  · rw [lookup_enterExports_of_notMem _ _ _ hname, lookup_eq_none_iff]
    intro e he
    rw [exports_addModule] at he
    rw [bne_iff_ne]
    exact fun heq => hfresh e he (congrArg Prod.fst heq).symm
  · rfl

/-- Importing an interface copies all the types it shows. -/
lemma Depicts.copies (h : Depicts s ids t i) (hs : s.Closed) (store scopes) : ∃ ids' copied r,
    i.importInto store scopes =
    (r.store, enterExports i.name (scopes.addModule i.name) i.exports ids') ∧
    Brings i False (opening i store) i.exports ids' r ∧
    Advances i (fun _ _ => False) (opening i store) copied r ∧
    (∀ p k, copied p k → IsFinished i r.store copied p k) ∧
    List.Forall₂ (CopiesExport copied r.store) ids' i.exports := by
  obtain ⟨rank, hl⟩ := h.layered hs
  have hexports (e) (he : e ∈ i.exports) (index) (hi : e.type = .composite index) :
      index < i.types.size := by
    obtain ⟨id, _, hid⟩ := exists_of_forall₂ h.exports he
    have hstands := hid.type
    rw [hi] at hstands
    cases hty : s.typeOf id with
    | composite k =>
      rw [hty] at hstands
      obtain ⟨place, hplace, heq⟩ := hstands
      cases heq
      rw [h.types]
      exact (h.sound.inside k _ hplace).1
    | _ =>
      rw [hty] at hstands
      cases hstands
  obtain ⟨ids', r, hb, hrun⟩ := importInto_brings_all hl hexports store scopes
  have hopening : (opening i store).Holds fun _ _ => False := by
    refine ⟨fun p u hp => ?_, fun _ _ h => h.elim⟩
    rw [placed?_opening] at hp
    cases hp
  obtain ⟨copied, hadv, hfinished, hcopies⟩ := hb.advances _ hopening fun _ _ h => h.elim
  exact ⟨ids', copied, r, hrun, hb, hadv, hfinished, hcopies⟩

/-- What an interface shows is there again once it is imported. -/
lemma Depicts.importInto (h : Depicts s ids t i) (hs : s.Closed)
    (hnodup : (i.exports.map Export.name).Nodup) (store scopes) : ∃ ids',
    List.Forall₂ (fun id id' => (i.importInto store scopes).2.lookupInModule i.name (s.decl id).name
     = some id' ∧ SameExport s (i.importInto store scopes).1 id id') ids ids' := by
  obtain ⟨ids', copied, r, hrun, _, _, hfinished, hcopies⟩ := h.copies hs store scopes
  have hbisim := h.bisimulation hfinished
  have hlookup := lookup_enterExports i.name hcopies (scopes.addModule i.name) hnodup
  refine ⟨ids', (join_forall₂ h.exports hlookup).imp ?_⟩
  rintro id id' ⟨e, hshows, hcopies, hl⟩
  rw [hrun]
  refine ⟨?_, hcopies.name.trans hshows.name, hcopies.kind.trans hshows.kind.symm, _, hbisim, e.type,
    hshows.type, hcopies.type⟩
  rw [Scopes.lookupInModule, if_pos (by rw [enterExports_eq _ _ _ (hasModule_addModule _ _)]; exact hasModule_addModule _ _),
    ← hshows.name]
  exact hl

end Interface

namespace Outcome

open Interface

section

variable (h : (ofSource features library source).Accepts m)
include h

lemma Accepts.closed : (ofSource features library source).store.Closed := by
  obtain ⟨_, _, _, _, _, _, hphase⟩ := h.phases
  exact (hphase False False.elim).sound.closed

/-- No two declarations of a module have the same name. -/
lemma Accepts.nodup_names :
    ((m.block.members []).map fun id => ((ofSource features library source).store.decl
     id).name).Nodup := by
  obtain ⟨_, c, _, _, hopened, hreads, hphase⟩ := h.phases
  have hbuilds := hphase False False.elim
  obtain ⟨new, hscopes, hnew⟩ := hreads.continues.scopes
  have hinner : (ofSource features library source).analysis.scopes.inner = new := by
    rw [hscopes, hopened.inner, append_nil]
  have hlists := hbuilds.sound.names new (by rw [hinner]; exact mem_cons_self)
  have hnames : new.map (fun e => ((ofSource features library source).store.decl e.2).name) =
      new.map Prod.fst := map_congr_left fun e he => (hlists.names e he).2
  rw [← nodup_reverse, ← map_reverse, ← hnew, map_map]
  exact hnames ▸ hlists.nodup

/-- Whatever a module declares can be exported, and nothing of it is predefined. -/
lemma Accepts.member_kind (hid : id ∈ m.block.members []) :
    (kind? ((ofSource features library source).store.decl id)).isSome ∧ ∀ b,
    ((ofSource features library source).store.decl id).role ≠ .procedure (.predefined b) := by
  obtain ⟨low, hm⟩ := h.scoped
  rw [members_eq] at hid
  simp only [mem_append, mem_map] at hid
  unfold kind?
  rcases hid with ((hid | hid) | hid) | ⟨p, hp, rfl⟩
  · obtain ⟨_, value, hrole⟩ := hm.constants id hid
    rw [hrole]
    exact ⟨rfl, by simp⟩
  · have htype := (hm.typeNames id hid).2
    unfold Declaration.isType at htype
    split at htype
    · next hrole =>
      rw [hrole]
      exact ⟨rfl, by simp⟩
    · cases htype
  · obtain ⟨k, hk⟩ := getElem?_of_mem hid
    rw [(hm.vars k id hk).2.1]
    exact ⟨rfl, by simp⟩
  · cases hm.trees p hp with
    | external _ hr =>
      simp only [Procedure.decl]
      unfold Lifting.isExternal at hr
      split at hr
      · next hrole =>
        rw [hrole]
        exact ⟨rfl, by simp⟩
      · cases hr
    | defined _ hr =>
      simp only [Procedure.decl]
      rw [hr]
      exact ⟨rfl, by simp⟩

lemma Accepts.isSome_kind? (hid : id ∈ m.block.members []) :
    (kind? ((ofSource features library source).store.decl id)).isSome :=
  (h.member_kind hid).1

/-- The interface of an accepted module shows what it exports. -/
lemma Accepts.depicts : ∃ t,
    Depicts (ofSource features library source).store (exportedIds (ofSource features library
     source).store m.block) t (ofModule (ofSource features library source).store m) :=
  ofModule_depicts h.closed fun _ hid => h.isSome_kind? (mem_exportedIds.1 hid).1

end

/-- Importing what a module exports makes its exported declarations known, and no others. Each is of
the same kind, and its type is bisimilar to the type it has in the module itself. -/
theorem exports_survive_import (h : (ofSource features library source).Accepts m) (store : Store)
    (scopes : Scopes) (hfresh : ∀ e ∈ scopes.exports, e.1.1 ≠ m.name) :
    let s := (ofSource features library source).store
    let imported := (ofModule s m).importInto store scopes
    (∀ name, (imported.2.lookupInModule m.name name).isSome = true ↔
      ∃ id ∈ m.block.members [], (s.decl id).exported = true ∧ (s.decl id).name = name) ∧
    ∀ id ∈ m.block.members [], (s.decl id).exported = true →
      ∃ id', imported.2.lookupInModule m.name (s.decl id).name = some id' ∧
        (imported.1.decl id').name = (s.decl id).name ∧
        kind? (imported.1.decl id') = kind? (s.decl id) ∧ (kind? (s.decl id)).isSome = true ∧
        s.Bisimilar imported.1 (s.typeOf id) (imported.1.typeOf id') := by
  intro s imported
  obtain ⟨t, hdep⟩ := h.depicts
  have hnames : (ofModule s m).exports.map Export.name =
      (exportedIds s m.block).map fun id => (s.decl id).name :=
    map_eq_of_forall₂ hdep.exports fun _ _ he => he.name
  have hnodup : ((ofModule s m).exports.map Export.name).Nodup := by
    rw [hnames, ((exportedIds_perm s m.block).map _).nodup_iff]
    exact h.nodup_names.sublist (filter_sublist.map _)
  obtain ⟨ids', hids⟩ := hdep.importInto h.closed hnodup store scopes
  have hfound (id : DeclId) (hid : id ∈ m.block.members []) (he : (s.decl id).exported = true) :
      ∃ id', imported.2.lookupInModule m.name (s.decl id).name = some id' ∧
        SameExport s imported.1 id id' := by
    obtain ⟨id', _, h⟩ := exists_of_forall₂ hids.flip (mem_exportedIds.2 ⟨hid, he⟩)
    exact ⟨id', h⟩
  refine ⟨fun name => ⟨fun hsome => ?_, ?_⟩, fun id hid he => ?_⟩
  · by_contra hnone
    have hname : name ∉ (ofModule s m).exports.map Export.name := by
      rw [hnames]
      intro hmem
      obtain ⟨id, hid, rfl⟩ := mem_map.1 hmem
      exact hnone ⟨id, (mem_exportedIds.1 hid).1, (mem_exportedIds.1 hid).2, rfl⟩
    have := lookupInModule_importInto hname store hfresh
    rw [show imported.2.lookupInModule m.name name = none from this] at hsome
    cases hsome
  · rintro ⟨id, hid, he, rfl⟩
    obtain ⟨id', hl, _⟩ := hfound id hid he
    rw [hl]
    rfl
  · obtain ⟨id', hl, hsame⟩ := hfound id hid he
    exact ⟨id', hl, hsame.name, hsame.kind, h.isSome_kind? hid, hsame.type⟩

/-- A list, whose nodes refer to themselves through a pointer, an array and a procedure type. -/
def listSource : String := "MODULE A; TYPE List* = POINTER TO Node; Node* = RECORD next*: List; " ++
    "rest*: ARRAY 3 OF List; visit*: PROCEDURE (VAR l: List): List END; END A."

theorem exports_survive_import_list :
    ∃ m, (ofSource {} {} listSource).Accepts m ∧
      let s := (ofSource {} {} listSource).store
      let imported := (ofModule s m).importInto {} {}
      ∃ id ∈ m.block.members [], (s.decl id).exported = true ∧ (s.decl id).name = "List" ∧
        s.isPointer (s.typeOf id) = true ∧
        ∃ id', imported.2.lookupInModule m.name "List" = some id' ∧
          s.Bisimilar imported.1 (s.typeOf id) (imported.1.typeOf id') := by
  have heval : (ofSource {} {} listSource).acceptsWith (fun o m =>
      (m.block.members []).any fun id => (o.store.decl id).exported &&
        (o.store.decl id).name == "List" && o.store.isPointer (o.store.typeOf id)) = true := by
    decide +kernel
  obtain ⟨m, hacc, hany⟩ := exists_of_acceptsWith heval
  obtain ⟨id, hid, hlist⟩ := any_eq_true.1 hany
  simp only [Bool.and_eq_true, beq_iff_eq] at hlist
  obtain ⟨⟨hexported, hname⟩, hpointer⟩ := hlist
  obtain ⟨id', hl, _, _, _, htype⟩ :=
    (exports_survive_import hacc {} {} fun e he => by cases he).2 id hid hexported
  exact ⟨m, hacc, id, hid, hexported, hname, hpointer, id', hname ▸ hl, htype⟩

end Outcome
end Oberon
