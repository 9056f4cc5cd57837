import Mathlib.Data.List.Perm.Subperm
import Oberon.Interface.Export
import Oberon.Proofs.Closed

/-!
# Oberon.Proofs.Exporting

Taking an interface follows the types of the store. A place of the table, once it is filled, has the
name of its type and the same shape, with places for the parts; the bound on the depth never cuts a
type off in a closed store. `Shows` compares a form with a shape up to a relation between their parts,
so that it serves for importing as well.
-/

namespace Oberon

variable {t : Table} {id : Nat}
namespace Interface

/-! ## Forms and shapes -/

/-- A form and a shape agree, their parts being related by `part`. -/
inductive Shows (s : Store) (part : Ty → Ty → Prop) : Form → Shape → Prop
  | array {a : ArrayForm} {lengths : List Nat} {member : Ty} (hl : a.lengths = lengths)
      (hm : part a.member member) : Shows s part (.array a) (.array lengths member)
  | record {r : RecordForm} {base : Option Ty} {fields : List Field}
      (hb : Option.Rel part r.base base)
      (hf : List.Forall₂ (fun id f => (s.decl id).name = f.name ∧
        (s.decl id).exported = f.exported ∧ part (s.typeOf id) f.type) r.fields fields) :
      Shows s part (.record r) (.record base fields)
  | pointer {base base' : Option Ty} (h : Option.Rel part base base') :
      Shows s part (.pointer base) (.pointer base')
  | procedure {sig : Signature} {params : List Param} {result : Option Ty} {variadic : Bool}
      (hp : List.Forall₂ (fun id p => (s.decl id).name = p.name ∧
        (s.decl id).isVarParameter = p.byReference ∧ part (s.typeOf id) p.type) sig.params params)
      (hr : Option.Rel part sig.result result) (hv : sig.variadic = variadic) :
      Shows s part (.procedure sig) (.procedure params result variadic)

variable {s : Store}

lemma optionRel_mono (hp : ∀ u v, part u v → part' u v) (h : Option.Rel part u v) :
    Option.Rel part' u v := by
  cases h with
  | some h => exact .some (hp _ _ h)
  | none => exact .none

lemma Shows.mono (h : Shows s part f shape) (hp : ∀ u v, part u v → part' u v) : Shows s part' f shape := by
  cases h with
  | array hl hm => exact .array hl (hp _ _ hm)
  | record hb hf =>
    exact .record (optionRel_mono hp hb) (hf.imp fun _ _ h => ⟨h.1, h.2.1, hp _ _ h.2.2⟩)
  | pointer h => exact .pointer (optionRel_mono hp h)
  | procedure hs hr hv =>
    exact .procedure (hs.imp fun _ _ h => ⟨h.1, h.2.1, hp _ _ h.2.2⟩) (optionRel_mono hp hr) hv

/-! ## Tables -/

namespace Table

/-- What stands for a type of the store in the interface. -/
def Stands (t : Table) (u v : Ty) : Prop :=
  match u with
  | .composite id => ∃ place, t.places.lookup id = some place ∧ v = .composite place
  | u => v = u

/-- A place that has got its name and its shape. -/
def Filled (s : Store) (t : Table) (id place : Nat) : Prop :=
  ∃ entry item, s.types[id]? = some entry ∧ t.items[place]? = some item ∧
    item.name = typeName? s entry ∧ Shows s t.Stands entry.form item.shape

/-- Each type has one place and each place is that of one type. -/
structure Sound (s : Store) (t : Table) : Prop where
  inside : ∀ id place, t.places.lookup id = some place → place < t.items.size ∧ id < s.types.size
  distinct : ∀ id id' place, t.places.lookup id = some place →
    t.places.lookup id' = some place → id = id'
  onto : ∀ place < t.items.size, ∃ id, t.places.lookup id = some place
  nodup : (t.places.map Prod.fst).Nodup
  keys : ∀ id ∈ t.places.map Prod.fst, id < s.types.size

lemma sound_empty (s) : Sound s {} where
  inside _ _ h := by cases h
  distinct _ _ _ h := by cases h
  onto _ h := absurd h (Nat.not_lt_zero _)
  nodup := .nil
  keys _ h := by cases h

lemma Sound.length_le (h : t.Sound s) : t.places.length ≤ s.types.size := by
  have hsub : t.places.map Prod.fst ⊆ List.range s.types.size :=
    fun id hid => List.mem_range.2 (h.keys id hid)
  simpa using (List.Nodup.subperm h.nodup hsub).length_le

/-- The table after more types were visited; what is new is filled. -/
structure Extends (s : Store) (t t' : Table) : Prop where
  sound : t'.Sound s
  lookup : ∀ id place, t.places.lookup id = some place → t'.places.lookup id = some place
  size_le : t.items.size ≤ t'.items.size
  length_le : t.places.length ≤ t'.places.length
  items : ∀ place < t.items.size, t'.items[place]? = t.items[place]?
  fresh : ∀ id place, t'.places.lookup id = some place →
    t.places.lookup id = some place ∨ t'.Filled s id place

variable {t t' : Table}

lemma Extends.stands (h : t.Extends s t') (huv : t.Stands u v) : t'.Stands u v := by
  cases u with
  | composite id =>
    obtain ⟨place, hl, rfl⟩ := huv
    exact ⟨place, h.lookup id place hl, rfl⟩
  | _ => exact huv

lemma Extends.refl (h : t.Sound s) : t.Extends s t :=
  ⟨h, fun _ _ h => h, Nat.le_refl _, Nat.le_refl _, fun _ _ => rfl, fun _ _ h => .inl h⟩

/-- A filled place stays as it is. -/
lemma Filled.of_items (h : t.Filled s id place) (hi : t'.items[place]? = t.items[place]?)
    (hs : ∀ u v, t.Stands u v → t'.Stands u v) : t'.Filled s id place := by
  obtain ⟨entry, item, he, hitem, hname, hshows⟩ := h
  exact ⟨entry, item, he, hi.trans hitem, hname, hshows.mono hs⟩

lemma Filled.lt (h : t.Filled s id place) : place < t.items.size := by
  obtain ⟨_, item, _, hitem, _⟩ := h
  exact (Array.getElem?_eq_some_iff.1 hitem).1

lemma Extends.trans (h : t.Extends s t') (h' : t'.Extends s t'') : t.Extends s t'' where
  sound := h'.sound
  lookup id place hl := h'.lookup id place (h.lookup id place hl)
  size_le := Nat.le_trans h.size_le h'.size_le
  length_le := Nat.le_trans h.length_le h'.length_le
  items place hp := (h'.items place (Nat.lt_of_lt_of_le hp h.size_le)).trans (h.items place hp)
  fresh id place hl := by
    rcases h'.fresh id place hl with hl | hl
    · refine (h.fresh id place hl).imp_right fun hfilled => ?_
      exact hfilled.of_items (h'.items place hfilled.lt) fun _ _ => h'.stands
    · exact .inr hl

lemma lookup_reserve (t : Table) (id other name) :
    (t.reserve id name).places.lookup other =
      if other = id then some t.items.size else t.places.lookup other := by
  simp only [reserve, List.lookup_cons]
  by_cases h : other = id
  · simp [h]
  · simp [h, beq_eq_false_iff_ne.2 h]

lemma Sound.reserve (h : t.Sound s) (hid : id < s.types.size) (hnew : t.places.lookup id = none)
    (name) : (t.reserve id name).Sound s := by
  have hsize : (t.reserve id name).items.size = t.items.size + 1 := by simp [Table.reserve]
  have hkey : id ∉ t.places.map Prod.fst := by
    intro hmem
    obtain ⟨e, he, rfl⟩ := List.mem_map.1 hmem
    rw [List.lookup_eq_none_iff] at hnew
    simpa using hnew e he
  refine ⟨fun id' place hl => ?_, fun id' id'' place hl hl' => ?_, fun place hp => ?_,
    List.nodup_cons.2 ⟨hkey, h.nodup⟩, List.forall_mem_cons.2 ⟨hid, h.keys⟩⟩
  · rw [lookup_reserve] at hl
    rw [hsize]
    split at hl
    · next heq =>
      cases hl
      exact ⟨Nat.lt_succ_self _, heq ▸ hid⟩
    · obtain ⟨hplace, hlt⟩ := h.inside id' place hl
      exact ⟨Nat.lt_succ_of_lt hplace, hlt⟩
  · -- the new place is behind all others
    rw [lookup_reserve] at hl hl'
    split at hl <;> split at hl'
    · next h1 h2 => rw [h1, h2]
    · cases hl
      exact absurd (h.inside _ _ hl').1 (Nat.lt_irrefl _)
    · cases hl'
      exact absurd (h.inside _ _ hl).1 (Nat.lt_irrefl _)
    · exact h.distinct id' id'' place hl hl'
  · rw [hsize] at hp
    rcases Nat.lt_succ_iff_lt_or_eq.1 hp with hp | rfl
    · obtain ⟨id', hl⟩ := h.onto place hp
      refine ⟨id', ?_⟩
      rw [lookup_reserve, if_neg, hl]
      rintro rfl
      rw [hnew] at hl
      cases hl
    · exact ⟨id, by rw [lookup_reserve, if_pos rfl]⟩

lemma items_setShape (t : Table) (place other shape) :
    (t.setShape place shape).items[other]? =
      if place = other then t.items[other]?.map fun item => { item with shape }
      else t.items[other]? := by
  simp only [setShape, Array.getElem?_modify]

/-- A new place that is filled once its parts have been visited. -/
lemma Extends.setShape (he : s.types[id]? = some entry) (hnew : t.places.lookup id = none)
    (h' : (t.reserve id (typeName? s entry)).Extends s t')
    (hs : Shows s t'.Stands entry.form shape) : t.Extends s (t'.setShape t.items.size shape) := by
  have hlt : t.items.size < (t.reserve id (typeName? s entry)).items.size := by simp [Table.reserve]
  have hsize : (t'.setShape t.items.size shape).items.size = t'.items.size := by
    simp [Table.setShape]
  have hplace : t'.places.lookup id = some t.items.size :=
    h'.lookup _ _ (by rw [lookup_reserve, if_pos rfl])
  have hold {place} (hp : place ≠ t.items.size) :
      (t'.setShape t.items.size shape).items[place]? = t'.items[place]? := by
    rw [items_setShape, if_neg (Ne.symm hp)]
  have hitem : (t'.setShape t.items.size shape).items[t.items.size]? =
      some ⟨typeName? s entry, shape⟩ := by
    rw [items_setShape, if_pos rfl, h'.items _ hlt]
    simp [Table.reserve]
  refine ⟨⟨fun id' place hl => ?_, h'.sound.distinct, ?_, h'.sound.nodup, h'.sound.keys⟩,
    fun id' place hl => ?_, ?_, ?_, fun place hp => ?_, fun id' place hl => ?_⟩
  · rw [hsize]
    exact h'.sound.inside id' place hl
  · rw [hsize]
    exact h'.sound.onto
  · refine h'.lookup _ _ ?_
    rw [lookup_reserve, if_neg, hl]
    rintro rfl
    rw [hnew] at hl
    cases hl
  · rw [hsize]
    exact Nat.le_of_lt (Nat.lt_of_lt_of_le hlt h'.size_le)
  · exact Nat.le_of_succ_le h'.length_le
  · rw [hold (Nat.ne_of_lt hp), h'.items _ (Nat.lt_trans hp hlt)]
    simp [Table.reserve, Array.getElem?_push, Nat.ne_of_lt hp]
  · -- the place itself is filled now, the others are filled or old
    by_cases hp : place = t.items.size
    · subst hp
      rw [h'.sound.distinct id' id _ hl hplace]
      exact .inr ⟨entry, _, he, hitem, rfl, hs⟩
    · rcases h'.fresh id' place hl with hl | hl
      · rw [lookup_reserve] at hl
        split at hl
        · cases hl
          exact absurd rfl hp
        · exact .inl hl
      · exact .inr (hl.of_items (hold hp) fun _ _ h => h)

end Table

/-! ## Visits -/

/-- Visiting a type fills what is new, if at least `n` types are in the table already. -/
def Visits (s : Store) (n : Nat) (visit : Ty → StateM Table Ty) : Prop :=
  ∀ (u : Ty) (t : Table), t.Sound s → n ≤ t.places.length → s.Has u →
    t.Extends s (visit u t).2 ∧ (visit u t).2.Stands u (visit u t).1

section Visit

variable {visit : Ty → StateM Table Ty}

lemma visitOption_spec (hv : Visits s n visit) (ht : t.Sound s) (hn : n ≤ t.places.length)
    (hu : ∀ x ∈ u, s.Has x) : t.Extends s (visitOption visit u t).2 ∧
    Option.Rel (visitOption visit u t).2.Stands u (visitOption visit u t).1 := by
  cases u with
  | none => exact ⟨.refl ht, .none⟩
  | some u =>
    obtain ⟨hext, hstands⟩ := hv u t ht hn (hu u rfl)
    exact ⟨hext, .some hstands⟩

lemma visitMembers_spec (hv : Visits s n visit) (hs : s.Closed) (member : Declaration → Ty → α)
    (ids) : ∀ t : Table, t.Sound s → n ≤ t.places.length →
    t.Extends s (visitMembers s visit member ids t).2 ∧
    List.Forall₂ (fun id x => ∃ u, member (s.decl id) u = x ∧ (visitMembers s visit member ids
     t).2.Stands (s.typeOf id) u) ids (visitMembers s visit member ids t).1 := by
  induction ids with
  | nil => exact fun t ht _ => ⟨.refl ht, .nil⟩
  | cons id rest ih =>
    intro t ht hn
    obtain ⟨hext, hstands⟩ := hv (s.typeOf id) t ht hn (hs.typeOf id)
    obtain ⟨hext', hrest⟩ := ih _ hext.sound (Nat.le_trans hn hext.length_le)
    exact ⟨hext.trans hext', .cons ⟨_, rfl, hext'.stands hstands⟩ hrest⟩

lemma has_member (h : s.Fits (.array a)) : s.Has a.member := by
  unfold ArrayForm.member
  cases hlast : a.types.getLast? with
  | none => exact .pseudo _ _
  | some t => exact h.parts t (List.mem_of_getLast? hlast)

lemma visitForm_spec (hv : Visits s n visit) (hs : s.Closed) (hf : s.Fits f) (ht : t.Sound s)
    (hn : n ≤ t.places.length) : t.Extends s (visitForm s visit f t).2 ∧
    Shows s (visitForm s visit f t).2.Stands f (visitForm s visit f t).1 := by
  cases f with
  | array a =>
    obtain ⟨hext, hmember⟩ := hv a.member t ht hn (has_member hf)
    exact ⟨hext, .array rfl hmember⟩
  | record r =>
    obtain ⟨hext, hbase⟩ := visitOption_spec hv ht hn fun x hx =>
      hf.parts x (List.mem_append_left _ (Option.mem_toList.2 hx))
    obtain ⟨hext', hfields⟩ := visitMembers_spec hv hs Field.of r.fields _ hext.sound
      (Nat.le_trans hn hext.length_le)
    refine ⟨hext.trans hext', .record (optionRel_mono (fun _ _ => hext'.stands) hbase) (hfields.imp ?_)⟩
    rintro _ _ ⟨_, rfl, hstands⟩
    exact ⟨rfl, rfl, hstands⟩
  | pointer base =>
    obtain ⟨hext, hbase⟩ := visitOption_spec hv ht hn fun x hx =>
      hf.parts x (Option.mem_toList.2 hx)
    exact ⟨hext, .pointer hbase⟩
  | procedure sig =>
    obtain ⟨hext, hparams⟩ := visitMembers_spec hv hs Param.of sig.params t ht hn
    obtain ⟨hext', hresult⟩ := visitOption_spec hv (u := sig.result) hext.sound
      (Nat.le_trans hn hext.length_le) fun x hx =>
        hf.parts x (List.mem_append_right _ (Option.mem_toList.2 hx))
    refine ⟨hext.trans hext', .procedure (hparams.imp ?_) hresult rfl⟩
    rintro _ _ ⟨_, rfl, hstands⟩
    exact ⟨rfl, rfl, hext'.stands hstands⟩

end Visit

lemma visit_known (h : t.places.lookup id = some place) : visit s (fuel + 1) (.composite id) t =
    (.composite place, t) := by
  simp only [visit, bind, StateT.bind, get, getThe, MonadStateOf.get, StateT.get, pure, h]
  rfl

lemma visit_entry (h : t.places.lookup id = none) (he : s.types[id]? = some entry) :
    visit s (fuel + 1) (.composite id) t =
    (.composite t.items.size, (visitForm s (visit s fuel) entry.form (t.reserve id (typeName? s
     entry))).2.setShape t.items.size (visitForm s (visit s fuel) entry.form (t.reserve id
     (typeName? s entry))).1) := by
  simp only [visit, bind, StateT.bind, get, getThe, MonadStateOf.get, StateT.get, pure, h, he]
  rfl

/-- The fuel is enough: each type on the way has a place of its own. -/
lemma visit_spec (hs : s.Closed) (fuel) : Visits s (s.types.size + 1 - fuel) (visit s fuel) := by
  induction fuel with
  | zero =>
    intro u t ht hn hu
    have := ht.length_le
    omega
  | succ fuel ih =>
    intro u t ht hn hu
    cases u with
    | composite id =>
      cases hl : t.places.lookup id with
      | some place =>
        rw [visit_known hl]
        exact ⟨.refl ht, place, hl, rfl⟩
      | none =>
        have hid : id < s.types.size := hu id rfl
        have he : s.types[id]? = some s.types[id] := Array.getElem?_eq_getElem hid
        have hfits := hs.fits (.composite id) s.types[id].form (by simp [Store.form?, Store.entry?, he])
        rw [visit_entry hl he]
        have hlength : (t.reserve id (typeName? s s.types[id])).places.length =
            t.places.length + 1 := rfl
        obtain ⟨hext, hshows⟩ := visitForm_spec ih hs hfits
          (ht.reserve hid hl (typeName? s s.types[id])) (by omega)
        refine ⟨.setShape he hl hext hshows, t.items.size, ?_, rfl⟩
        exact hext.lookup _ _ (by rw [Table.lookup_reserve, if_pos rfl])
    | _ => exact ⟨.refl ht, rfl⟩

/-! ## Interfaces -/

/-- An export shows a declaration. -/
structure ShowsExport (s : Store) (t : Table) (id : DeclId) (e : Export) : Prop where
  name : e.name = (s.decl id).name
  kind : kind? (s.decl id) = some e.kind
  type : t.Stands (s.typeOf id) e.type

lemma visitExports_spec (hs : s.Closed) (ids) : ∀ t : Table, t.Sound s →
    (∀ id ∈ ids, (kind? (s.decl id)).isSome) → t.Extends s (visitExports s ids t).2 ∧
    List.Forall₂ (ShowsExport s (visitExports s ids t).2) ids (visitExports s ids t).1 := by
  induction ids with
  | nil => exact fun t ht _ => ⟨.refl ht, .nil⟩
  | cons id rest ih =>
    intro t ht hk
    rw [List.forall_mem_cons] at hk
    obtain ⟨kind, hkind⟩ := Option.isSome_iff_exists.1 hk.1
    obtain ⟨hext, hstands⟩ := visit_spec hs (s.types.size + 1) (s.typeOf id) t ht (by omega)
      (hs.typeOf id)
    obtain ⟨hext', hrest⟩ := ih _ hext.sound hk.2
    simp only [visitExports, hkind]
    exact ⟨hext.trans hext', .cons ⟨rfl, hkind, hext'.stands hstands⟩ hrest⟩

/-- An interface shows the declarations `ids` of a store, whose types stand at the places of a
table. -/
structure Depicts (s : Store) (ids : List DeclId) (t : Table) (i : Interface) : Prop where
  sound : t.Sound s
  types : i.types = t.items
  filled : ∀ id place, t.places.lookup id = some place → t.Filled s id place
  exports : List.Forall₂ (ShowsExport s t) ids i.exports

lemma ofModule_depicts (hs : s.Closed) {m : Module}
    (hk : ∀ id ∈ exportedIds s m.block, (kind? (s.decl id)).isSome) : ∃ t,
    Depicts s (exportedIds s m.block) t (ofModule s m) := by
  obtain ⟨hext, hexports⟩ := visitExports_spec hs _ {} (Table.sound_empty s) hk
  refine ⟨(visitExports s (exportedIds s m.block) {}).2, hext.sound, rfl, fun id place hl => ?_,
    hexports⟩
  exact (hext.fresh id place hl).resolve_left nofun

end Interface
end Oberon
