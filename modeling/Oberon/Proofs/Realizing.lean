import Oberon.Proofs.Exporting
import Oberon.Proofs.Imported

/-!
# Oberon.Proofs.Realizing

Importing makes copies of the types of an interface. `copied p k` relates a place of the interface to
the type of the store that was made for it. While a record or a pointer is being built its copy is
known but not yet finished; every other copy has the shape that the interface gives for it, and its
parts are copies again.
-/

namespace Oberon

variable {s : Store}
namespace Interface

open Store (Preserves Widens addType decl_addDecl_self decls_modifyType modifyType record?_congr
  setNaming typeOf)

/-! ## Copies -/

section Copies

/-- A type of the store that is made for a type of the interface. -/
def Copies (copied : Nat → Nat → Prop) (u v : Ty) : Prop :=
  match v with
  | .composite place => ∃ k, copied place k ∧ u = .composite k
  | v => u = v

lemma Copies.mono (hle : ∀ p k, copied p k → copied' p k) (h : Copies copied u v) :
    Copies copied' u v := by
  cases v with
  | composite place =>
    obtain ⟨k, hk, rfl⟩ := h
    exact ⟨k, hle _ _ hk, rfl⟩
  | _ => exact h

/-- What a form shows depends on its members only. -/
lemma Shows.of_members (h : Shows s part f shape)
    (hd : ∀ id ∈ f.members, s'.decl id = s.decl id) : Shows s' part f shape := by
  cases h with
  | array hl hm => exact .array hl hm
  | record hb hf =>
    refine .record hb (((List.forall₂_and_left _ _).2 ⟨hd, hf⟩).imp fun id f hf => ?_)
    rw [typeOf, hf.1]
    exact hf.2
  | pointer h => exact .pointer h
  | procedure hp hr hv =>
    refine .procedure (((List.forall₂_and_left _ _).2 ⟨hd, hp⟩).imp fun id p hp => ?_) hr hv
    rw [typeOf, hp.1]
    exact hp.2

/-- The copy of a place has the name and the shape of the place. -/
structure Finished (i : Interface) (s : Store) (copied : Nat → Nat → Prop) (place k : Nat)
    (item : Item) (entry : TypeEntry) : Prop where
  item_eq : i.types[place]? = some item
  entry_eq : s.types[k]? = some entry
  name : typeName? s entry = item.name
  shows : Shows s (Copies copied) entry.form item.shape
  members : ∀ id ∈ entry.form.members, id.index < s.decls.size
  naming : ∀ id ∈ entry.naming, id.index < s.decls.size ∧ (s.decl id).role = .type ∧
    s.typeOf id = .composite k

/-- A finished copy stays finished. -/
lemma Finished.later (h : Finished i s copied place k item entry)
    (he : s'.types[k]? = s.types[k]?) (hw : s.Widens s') (hle : ∀ p k, copied p k → copied' p k) :
    Finished i s' copied' place k item entry where
  item_eq := h.item_eq
  entry_eq := he.trans h.entry_eq
  name := by
    rw [← h.name]
    cases hn : entry.naming with
    | none => simp only [typeName?, hn]
    | some id => simp only [typeName?, hn, hw.decl id (h.naming id hn).1]
  shows := (h.shows.mono fun _ _ => Copies.mono hle).of_members fun id hid =>
    hw.decl id (h.members id hid)
  members id hid := hw.lt (h.members id hid)
  naming id hid := by
    obtain ⟨hlt, hrole, htype⟩ := h.naming id hid
    rw [hw.typeOf hlt, hw.decl id hlt]
    exact ⟨hw.lt hlt, hrole, htype⟩

/-- A copy that is finished. -/
def IsFinished (i : Interface) (s : Store) (copied : Nat → Nat → Prop) (place k : Nat) : Prop :=
  ∃ item entry, Finished i s copied place k item entry

lemma IsFinished.later (h : IsFinished i s copied place k) (he : s'.types[k]? = s.types[k]?)
    (hw : s.Widens s') (hle : ∀ p k, copied p k → copied' p k) :
    IsFinished i s' copied' place k := by
  obtain ⟨item, entry, h⟩ := h
  exact ⟨item, entry, h.later he hw hle⟩

lemma IsFinished.lt (h : IsFinished i s copied place k) : k < s.types.size := by
  obtain ⟨item, entry, h⟩ := h
  exact (Array.getElem?_eq_some_iff.1 h.entry_eq).1

/-- Naming a type leaves the others alone. -/
lemma types_nameType (s k j name) :
    (nameType s (.composite k) name).types[j]? =
      if k = j then s.types[j]?.map fun entry =>
        { entry with naming := name.elim entry.naming fun _ => some ⟨s.decls.size⟩ }
      else s.types[j]? := by
  cases name with
  | none =>
    split
    · simp [nameType]
    · rfl
  | some n => simp [nameType, setNaming, modifyType, Array.getElem?_modify, Store.addDecl]

/-- With its name a type is complete. -/
lemma finished_nameType {name : Option TypeName}
    (hi : i.types[place]? = some ⟨name, shape⟩) (he : s.types[k]? = some { form := f })
    (hs : Shows s (Copies copied) f shape) (hm : ∀ id ∈ f.members, id.In s) :
    IsFinished i (nameType s (.composite k) name) copied place k := by
  have hw := widens_nameType s (.composite k) name
  have hentry := types_nameType s k k name
  rw [if_pos rfl, he] at hentry
  refine ⟨_, _, hi, hentry, ?_, hs.of_members fun id hid => hw.decl id (hm id hid),
    fun id hid => hw.lt (hm id hid), fun id hid => ?_⟩
  · cases name with
    | none => rfl
    | some n =>
      simp only [typeName?, Option.elim_some, nameType, setNaming]
      rw [Store.decl_eq_of_decls (decls_modifyType ..), decl_addDecl_self]
      rfl
  · cases name with
    | none => cases hid
    | some n =>
      cases hid
      simp only [typeOf, nameType, setNaming, decls_modifyType]
      rw [Store.decl_eq_of_decls (decls_modifyType ..), decl_addDecl_self]
      exact ⟨by simp, rfl, rfl⟩

/-- The member type is the last of the types an array lists. -/
lemma getLast?_addRows (s : Store) (member lengths) : (s.addRows member lengths).1.getLast? =
    some member := by
  induction lengths with
  | nil => rfl
  | cons n rest ih =>
    have hne : (s.addRows member rest).1 ≠ [] := by
      intro hnil
      rw [hnil] at ih
      cases ih
    simp only [Store.addRows, List.getLast?_cons_of_ne_nil hne, ih]

lemma entry_addArray (s : Store) (lengths member) :
    ∃ k types, (s.addArray lengths member).1 = .composite k ∧ s.types.size ≤ k ∧
      (s.addArray lengths member).2.types[k]? = some { form := .array ⟨lengths, types⟩ } ∧
      types.getLast? = some member :=
  ⟨_, (s.addRows member lengths.tail).1, rfl, (Widens.addRows s member lengths.tail).types_le,
    by simp [Store.addArray, addType], getLast?_addRows _ _ _⟩

end Copies

/-! ## Steps -/

/-- The places that are known are those of copies, and copies are in the store. -/
structure Rebuilding.Holds (copied : Nat → Nat → Prop) (r : Rebuilding) : Prop where
  placed : ∀ p t, r.placed? p = some t → ∃ k, copied p k ∧ t = .composite k
  made : ∀ p k, copied p k → k < r.store.types.size

/-- More was copied; the new copies are new types and finished, and all new records are copies. -/
structure Advances (i : Interface) (copied : Nat → Nat → Prop) (r : Rebuilding)
    (copied' : Nat → Nat → Prop) (r' : Rebuilding) : Prop where
  le : ∀ p k, copied p k → copied' p k
  holds : r'.Holds copied'
  preserves : r.store.Preserves r'.store
  fresh : ∀ p k, copied' p k → copied p k ∨
    r.store.types.size ≤ k ∧ IsFinished i r'.store copied' p k
  records : ∀ k f, r.store.types.size ≤ k → r'.store.record? (.composite k) = some f →
    ∃ p, copied' p k

variable {r r1 r2 : Rebuilding}

lemma Advances.refl (h : r.Holds copied) : Advances i copied r copied r :=
  ⟨fun _ _ h => h, h, .refl _, fun _ _ h => .inl h, fun _ _ hk hf =>
    absurd (Store.lt_of_form? (Store.record?_eq_some.1 hf)) (Nat.not_lt_of_le hk)⟩

lemma Advances.trans (h : Advances i copied r copied1 r1)
    (h' : Advances i copied1 r1 copied2 r2) : Advances i copied r copied2 r2 where
  le p k hk := h'.le p k (h.le p k hk)
  holds := h'.holds
  preserves := h.preserves.trans h'.preserves
  fresh p k hk := by
    rcases h'.fresh p k hk with hk | ⟨hlt, hf⟩
    · refine (h.fresh p k hk).imp_right fun hnew => ⟨hnew.1, ?_⟩
      exact hnew.2.later (h'.preserves.entry k hnew.2.lt) h'.preserves.toWidens h'.le
    · exact .inr ⟨Nat.le_trans h.preserves.types_le hlt, hf⟩
  records k f hk hf := by
    by_cases hlt : k < r1.store.types.size
    · rw [record?_congr (h'.preserves.form? (.composite hlt))] at hf
      obtain ⟨p, hp⟩ := h.records k f hk hf
      exact ⟨p, h'.le p k hp⟩
    · exact h'.records k f (Nat.le_of_not_lt hlt) hf

lemma Advances.addDecl (h : Advances i copied r copied1 r1) (d) :
    Advances i copied r copied1 (r1.withStore (r1.store.addDecl d).2) where
  le := h.le
  holds := ⟨h.holds.placed, h.holds.made⟩
  preserves := h.preserves.trans (.addDecl _ d)
  fresh p k hk := (h.fresh p k hk).imp_right fun hnew =>
    ⟨hnew.1, hnew.2.later rfl (.addDecl _ d) fun _ _ h => h⟩
  records k f hk hf := h.records k f hk (by
    rwa [record?_congr (Store.form?_eq_of_types rfl _)] at hf)

lemma Advances.added (h : Advances i copied (r1.withStore (r1.store.addDecl d).2) copied2 r2) :
    r1.store.decls.size < r2.store.decls.size ∧ r2.store.decl ⟨r1.store.decls.size⟩ = d := by
  have hlt : r1.store.decls.size < (r1.store.addDecl d).2.decls.size := by simp
  exact ⟨h.preserves.lt hlt,
    (h.preserves.decl ⟨r1.store.decls.size⟩ hlt).trans (decl_addDecl_self ..)⟩

/-- A type whose parts are copied gets its place and its name. -/
lemma Advances.finish {name : Option TypeName} (hle : ∀ p j, copied p j → copied1 p j) (hpair : copied1 index k)
    (hplaced : ∀ p t, r1.placed? p = some t → ∃ j, copied1 p j ∧ t = .composite j)
    (hmade : ∀ p j, copied1 p j → j < s.types.size) (hpres : r.store.Preserves s)
    (hk : r.store.types.size ≤ k) (hi : i.types[index]? = some ⟨name, shape⟩)
    (he : s.types[k]? = some { form := f }) (hs : Shows s (Copies copied1) f shape)
    (hm : ∀ id ∈ f.members, id.In s)
    (hfresh : ∀ p j, copied1 p j → copied p j ∨ (p = index ∧ j = k) ∨
      (r.store.types.size ≤ j ∧ j ≠ k ∧ IsFinished i s copied1 p j))
    (hrecords : ∀ j f, r.store.types.size ≤ j → s.record? (.composite j) = some f →
      ∃ p, copied1 p j) :
    Advances i copied r copied1 ((r1.withStore s).finish index (.composite k) name) := by
  have hw := widens_nameType s (.composite k) name
  refine ⟨hle, ⟨fun p t hp => ?_, fun p j hj => Nat.lt_of_lt_of_le (hmade p j hj) hw.types_le⟩,
    preserves_nameType hpres hk name, fun p j hj => ?_, fun j f hj hf => hrecords j f hj ?_⟩
  · rw [Rebuilding.placed?_finish] at hp
    split at hp
    · next heq =>
      cases hp
      exact ⟨k, heq.1 ▸ hpair, rfl⟩
    · exact hplaced p t hp
  · rcases hfresh p j hj with hold | ⟨rfl, rfl⟩ | ⟨hlt, hne, hf⟩
    · exact .inl hold
    · exact .inr ⟨hk, finished_nameType hi he hs hm⟩
    · refine .inr ⟨hlt, hf.later ?_ hw fun _ _ h => h⟩
      show (nameType s (.composite k) name).types[j]? = _
      rw [types_nameType, if_neg (Ne.symm hne)]
  · exact (record?_congr (form?_nameType s _ _ name)).symm.trans hf

/-! ## Runs -/

/-- What was built is a copy. -/
def BuildPhrase.Copies (copied : Nat → Nat → Prop) (s : Store) : BuildPhrase → Prop
  | .type v u => Interface.Copies copied u v
  | .option v u => Option.Rel (Interface.Copies copied) u v
  | .members _ ms ids => List.Forall₂ (fun id m => id.index < s.decls.size ∧
      ((s.decl id).name = m.name ∧ (s.decl id).exported = m.exported ∧
        (s.decl id).isVarParameter = m.mode.getD false) ∧
      Interface.Copies copied (s.typeOf id) m.type) ids ms

lemma BuildPhrase.Copies.later {p : BuildPhrase} (h : p.Copies copied s) (hw : s.Widens s')
    (hle : ∀ p k, copied p k → copied1 p k) : p.Copies copied1 s' := by
  cases p with
  | type v u => exact Interface.Copies.mono hle h
  | option v u => exact optionRel_mono (fun _ _ => Interface.Copies.mono hle) h
  | members index ms ids =>
    refine List.Forall₂.imp (fun id f hf => ?_) h
    rw [hw.typeOf hf.1, hw.decl id hf.1]
    exact ⟨hw.lt hf.1, hf.2.1, hf.2.2.mono hle⟩

/-- With one more copy. -/
def plus (copied : Nat → Nat → Prop) (place k : Nat) (p j : Nat) : Prop :=
  copied p j ∨ p = place ∧ j = k

lemma holds_start (h : r.Holds copied) (index f) :
    (r.start index f).Holds (plus copied index r.store.types.size) := by
  refine ⟨fun p t hp => ?_, fun p k hk => ?_⟩
  · rw [Rebuilding.start, Rebuilding.placed?_setPlace] at hp
    split at hp
    · next heq =>
      cases hp
      exact ⟨_, .inr ⟨heq.1.symm, rfl⟩, rfl⟩
    · obtain ⟨k, hk, rfl⟩ := h.placed p t hp
      exact ⟨k, .inl hk, rfl⟩
  · have hsize : (r.start index f).store.types.size = r.store.types.size + 1 := by
      simp [Rebuilding.start, Rebuilding.setPlace, Rebuilding.withStore]
    rw [hsize]
    rcases hk with hk | ⟨_, rfl⟩
    · exact Nat.lt_succ_of_lt (h.made p k hk)
    · exact Nat.lt_succ_self _

/-- A record or a pointer is finished once its parts have been built. -/
lemma Advances.finish_start {name : Option TypeName}
    (h : Advances i (plus copied index r.store.types.size) (r.start index g) copied1 r1)
    (hi : i.types[index]? = some ⟨name, shape⟩) (hs : Shows r1.store (Copies copied1) f shape)
    (hm : ∀ id ∈ f.members, id.In r1.store) :
    Advances i copied r copied1 ((r1.withStore (r1.store.setForm (.composite r.store.types.size)
     f)).finish index (.composite r.store.types.size) name) := by
  have hstart : r.store.Preserves (r.start index g).store := .addType _ g
  have hw : r1.store.Widens (r1.store.setForm (.composite r.store.types.size) f) :=
    .modifyType _ _ _
  have hsize : (r.start index g).store.types.size = r.store.types.size + 1 := by
    simp [Rebuilding.start, Rebuilding.setPlace, Rebuilding.withStore]
  have hentry (j) : (r1.store.setForm (.composite r.store.types.size) f).types[j]? =
      if r.store.types.size = j then r1.store.types[j]?.map fun e => { e with form := f }
      else r1.store.types[j]? := by
    simp [Store.setForm, modifyType, Array.getElem?_modify]
  refine .finish (fun p j hj => h.le p j (.inl hj)) (h.le _ _ (.inr ⟨rfl, rfl⟩)) h.holds.placed
    (fun p j hj => Nat.lt_of_lt_of_le (h.holds.made p j hj) hw.types_le)
    ((hstart.trans h.preserves).modifyType (Nat.le_refl _) _) (Nat.le_refl _) hi ?_
    (hs.of_members fun id hid => hw.decl id (hm id hid)) (fun id hid => hw.lt (hm id hid))
    (fun p j hj => ?_) fun j f' hj hf' => ?_
  · rw [hentry, if_pos rfl, h.preserves.entry _ (by rw [hsize]; exact Nat.lt_succ_self _)]
    simp [Rebuilding.start, Rebuilding.setPlace, Rebuilding.withStore, addType]
  · rcases h.fresh p j hj with hold | ⟨hlt, hf⟩
    · exact hold.imp_right .inl
    · rw [hsize] at hlt
      have hne : r.store.types.size ≠ j := Nat.ne_of_lt hlt
      refine .inr (.inr ⟨Nat.le_of_succ_le hlt, Ne.symm hne, hf.later ?_ hw fun _ _ h => h⟩)
      rw [hentry, if_neg hne]
  · by_cases heq : r.store.types.size = j
    · exact ⟨index, heq ▸ h.le _ _ (.inr ⟨rfl, rfl⟩)⟩
    · refine h.records j f' (by omega) ?_
      rwa [record?_congr (Store.form?_setForm_of_ne (fun h => heq (Ty.composite.inj h)) f)] at hf'

/-- An array or a procedure type is finished at once. -/
lemma Advances.finish_new {name : Option TypeName} (h : Advances i copied r copied1 r1) (hi : i.types[index]? = some ⟨name, shape⟩)
    (hpres : r1.store.Preserves s) (hk : r1.store.types.size ≤ k)
    (he : s.types[k]? = some { form := f })
    (hs : Shows s (Copies (plus copied1 index k)) f shape)
    (hm : ∀ id ∈ f.members, id.In s)
    (hrecord : ∀ t, s.record? t = r1.store.record? t) :
    Advances i copied r (plus copied1 index k)
      ((r1.withStore s).finish index (.composite k) name) := by
  have hlt : k < s.types.size := (Array.getElem?_eq_some_iff.1 he).1
  refine .finish (fun p j hj => .inl (h.le p j hj)) (.inr ⟨rfl, rfl⟩) (fun p t hp => ?_)
    (fun p j hj => ?_) (h.preserves.trans hpres) (Nat.le_trans h.preserves.types_le hk) hi he hs hm
    (fun p j hj => ?_) fun j f' hj hf' => ?_
  · obtain ⟨j, hj, rfl⟩ := h.holds.placed p t hp
    exact ⟨j, .inl hj, rfl⟩
  · rcases hj with hj | ⟨_, rfl⟩
    · exact Nat.lt_of_lt_of_le (h.holds.made p j hj) hpres.types_le
    · exact hlt
  · rcases hj with hj | hj
    · refine (h.fresh p j hj).imp_right fun hnew => .inr ⟨hnew.1, ?_, ?_⟩
      · exact Nat.ne_of_lt (Nat.lt_of_lt_of_le hnew.2.lt hk)
      · exact hnew.2.later (hpres.entry j hnew.2.lt) hpres.toWidens fun _ _ h => .inl h
    · exact .inr (.inl hj)
  · rw [hrecord] at hf'
    obtain ⟨p, hp⟩ := h.records j f' hj hf'
    exact ⟨p, .inl hp⟩

lemma Builds.advances {p : BuildPhrase} (h : Builds i False r p r') : ∀ copied, r.Holds copied →
    ∃ copied', Advances i copied r copied' r' ∧ p.Copies copied' r'.store := by
  induction h with
  | basic r b | pseudo r p => exact fun copied hr => ⟨copied, .refl hr, rfl⟩
  | known h =>
    intro copied hr
    obtain ⟨k, hk, rfl⟩ := hr.placed _ _ h
    exact ⟨copied, .refl hr, k, hk, rfl⟩
  | lost r index h => exact h.elim
  | @array r r1 index name lengths member m hp hi hm ih =>
    intro copied hr
    obtain ⟨copied1, hadv, hmember⟩ := ih copied hr
    obtain ⟨k, types, hk, hle, he, hlast⟩ := entry_addArray r1.store lengths m
    have hshows : Shows (r1.store.addArray lengths m).2 (Copies (plus copied1 index k))
        (.array ⟨lengths, types⟩) (.array lengths member) := by
      refine .array rfl ?_
      simp only [ArrayForm.member, hlast]
      exact Copies.mono (fun _ _ h => .inl h) hmember
    rw [hk]
    exact ⟨_, hadv.finish_new hi (.addArray _ _ _) hle he hshows (fun id hid => by cases hid)
      (Store.record?_addArray _ _ _), k, .inr ⟨rfl, rfl⟩, rfl⟩
  | @pointer r r1 index name base b hp hi hb ih =>
    intro copied hr
    obtain ⟨copied1, hadv, hbase⟩ := ih _ (holds_start hr index _)
    exact ⟨copied1, hadv.finish_start hi (.pointer hbase) (fun id hid => by cases hid),
      r.store.types.size, hadv.le _ _ (.inr ⟨rfl, rfl⟩), rfl⟩
  | @record r r1 r2 index name base b fields ids hp hi hb hf ihb ihf =>
    intro copied hr
    obtain ⟨copied1, hadv1, hbase⟩ := ihb _ (holds_start hr index _)
    obtain ⟨copied2, hadv2, hfields⟩ := ihf copied1 hadv1.holds
    have hadv := hadv1.trans hadv2
    have hbase := BuildPhrase.Copies.later hbase hadv2.preserves.toWidens hadv2.le
    have hshows : Shows r2.store (Copies copied2) (.record ⟨ids, b, recordLevel r1.store b⟩)
        (.record base fields) := .record hbase
      ((List.forall₂_map_right_iff.1 hfields).imp fun _ _ h => ⟨h.2.1.1, h.2.1.2.1, h.2.2⟩)
    refine ⟨copied2, hadv.finish_start hi hshows fun id hid => ?_, r.store.types.size,
      hadv.le _ _ (.inr ⟨rfl, rfl⟩), rfl⟩
    exact ((List.forall₂_and_left _ _).1 (hfields.imp fun _ _ h => ⟨h.1, trivial⟩)).1 id hid
  | @procedure r r1 r2 index name params result t variadic ids hp hi hs hr' ihs ihr =>
    intro copied hr
    obtain ⟨copied1, hadv1, hparams⟩ := ihs copied hr
    obtain ⟨copied2, hadv2, hresult⟩ := ihr copied1 hadv1.holds
    have hparams := BuildPhrase.Copies.later hparams hadv2.preserves.toWidens hadv2.le
    have hle (p j h) : plus copied2 index r2.store.types.size p j := .inl h
    have hshows : Shows r2.store (Copies (plus copied2 index r2.store.types.size))
        (.procedure ⟨ids, t, variadic⟩) (.procedure params result variadic) :=
      .procedure ((List.forall₂_map_right_iff.1 hparams).imp fun _ _ h =>
        ⟨h.2.1.1, h.2.1.2.2, h.2.2.mono hle⟩)
        (optionRel_mono (fun _ _ => Copies.mono hle) hresult) rfl
    refine ⟨_, (hadv1.trans hadv2).finish_new hi (.addType _ _) (Nat.le_refl _)
      (by simp [addType]) (hshows.of_members fun _ _ => rfl) (fun id hid => ?_)
      (Store.record?_addType_of_ne fun _ h => by cases h), r2.store.types.size, .inr ⟨rfl, rfl⟩, rfl⟩
    exact ((List.forall₂_and_left _ _).1 (hparams.imp fun _ _ h => ⟨h.1, trivial⟩)).1 id hid
  | none r => exact fun copied hr => ⟨copied, .refl hr, .none⟩
  | some h ih =>
    intro copied hr
    obtain ⟨copied1, hadv, ht⟩ := ih copied hr
    exact ⟨copied1, hadv, .some ht⟩
  | noMembers r index => exact fun copied hr => ⟨copied, .refl hr, .nil⟩
  | @member r r1 r2 index m rest t ids ht hrest iht ihr =>
    intro copied hr
    obtain ⟨copied1, hadv1, ht⟩ := iht copied hr
    have hadv := hadv1.addDecl (m.declared i.name index t)
    obtain ⟨copied2, hadv2, hids⟩ := ihr copied1 hadv.holds
    refine ⟨copied2, hadv.trans hadv2, .cons ?_ hids⟩
    obtain ⟨hlt, hdecl⟩ := hadv2.added
    rw [typeOf, hdecl]
    refine ⟨hlt, ⟨rfl, rfl, ?_⟩, Copies.mono hadv2.le ht⟩
    obtain ⟨name, mode, type, exported⟩ := m
    rcases mode with _ | _ | _ <;> rfl

/-! ## Exports -/

/-- A declaration that was made for an export. -/
structure CopiesExport (copied : Nat → Nat → Prop) (s : Store) (id : DeclId) (e : Export) :
    Prop where
  lt : id.index < s.decls.size
  name : (s.decl id).name = e.name
  kind : kind? (s.decl id) = some e.kind
  role : (s.decl id).role ≠ .procedure .defined
  type : Copies copied (s.typeOf id) e.type

lemma CopiesExport.later {id : DeclId} (h : CopiesExport copied s id e) (hw : s.Widens s')
    (hle : ∀ p k, copied p k → copied1 p k) : CopiesExport copied1 s' id e where
  lt := hw.lt h.lt
  name := by rw [hw.decl id h.lt]; exact h.name
  kind := by rw [hw.decl id h.lt]; exact h.kind
  role := by rw [hw.decl id h.lt]; exact h.role
  type := by rw [hw.typeOf h.lt]; exact h.type.mono hle

lemma kind?_importedDecl (module) (e : Export) (t exported) :
    kind? (importedDecl module e.name (e.role module) t exported) = some e.kind := by
  obtain ⟨name, kind, type⟩ := e
  cases kind <;> rfl

lemma Export.role_ne_defined (module) (e : Export) : e.role module ≠ .procedure .defined := by
  obtain ⟨name, kind, type⟩ := e
  cases kind <;> exact fun h => by cases h

/-- The declaration that names a finished copy serves as the export. -/
lemma copiesExport_of_naming (hf : ∀ p k, copied p k → IsFinished i s copied p k) {e : Export}
    {id : DeclId} (ht : Copies copied t e.type) (hk : e.kind = .type) (hn : s.naming? t = some id)
    (hname : (s.decl id).name = e.name) : CopiesExport copied s id e := by
  cases t with
  | composite k =>
    obtain ⟨place, hplace, hcopied⟩ : ∃ place, e.type = .composite place ∧ copied place k := by
      cases he : e.type with
      | composite place =>
        rw [he] at ht
        obtain ⟨j, hj, heq⟩ := ht
        cases heq
        exact ⟨place, rfl, hj⟩
      | _ =>
        rw [he] at ht
        cases ht
    obtain ⟨item, entry, h⟩ := hf place k hcopied
    have hid : entry.naming = some id := by simpa [Store.naming?, Store.entry?, h.entry_eq] using hn
    obtain ⟨hlt, hrole, htype⟩ := h.naming id hid
    refine ⟨hlt, hname, ?_, ?_, ?_⟩
    · rw [hk]
      simp only [kind?, hrole]
    · rw [hrole]
      exact fun h => by cases h
    · rw [htype]
      exact ht
  | _ => cases hn

/-- All copies are finished between two exports. -/
lemma Brings.advances {exports : List Export} (h : Brings i False r exports ids r') : ∀ copied,
    r.Holds copied → (∀ p k, copied p k → IsFinished i r.store copied p k) → ∃ copied',
    Advances i copied r copied' r' ∧ (∀ p k, copied' p k → IsFinished i r'.store copied' p k) ∧
    List.Forall₂ (CopiesExport copied' r'.store) ids exports := by
  have hall {copied copied' : Nat → Nat → Prop} {r r'}
      (hadv : Advances i copied r copied' r')
      (hf : ∀ p k, copied p k → IsFinished i r.store copied p k) (p k : Nat) (hk : copied' p k) :
      IsFinished i r'.store copied' p k := by
    rcases hadv.fresh p k hk with hold | hnew
    · have hold := hf p k hold
      exact hold.later (hadv.preserves.entry k hold.lt) hadv.preserves.toWidens hadv.le
    · exact hnew.2
  induction h with
  | nil r => exact fun copied hr hf => ⟨copied, .refl hr, hf, .nil⟩
  | @named r r1 r2 e t id rest ids ht hk hn hname hrest ih =>
    intro copied hr hf
    obtain ⟨copied1, hadv1, ht⟩ := ht.advances copied hr
    obtain ⟨copied2, hadv2, hf2, hids⟩ := ih copied1 hadv1.holds (hall hadv1 hf)
    have hexport := copiesExport_of_naming (hall hadv1 hf) ht hk hn hname
    exact ⟨copied2, hadv1.trans hadv2, hf2,
      .cons (hexport.later hadv2.preserves.toWidens hadv2.le) hids⟩
  | @added r r1 r2 e t rest ids ht hrest ih =>
    intro copied hr hf
    let d := importedDecl i.name e.name (e.role i.name) t true
    obtain ⟨copied1, hadv1, ht⟩ := ht.advances copied hr
    have hadv := hadv1.addDecl d
    obtain ⟨copied2, hadv2, hf2, hids⟩ := ih copied1 hadv.holds (hall hadv hf)
    have hexport : CopiesExport copied1 (r1.store.addDecl d).2 ⟨r1.store.decls.size⟩ e := by
      refine ⟨by simp, ?_, ?_, ?_, ?_⟩
      · rw [decl_addDecl_self]
        rfl
      · rw [decl_addDecl_self]
        exact kind?_importedDecl _ _ _ _
      · rw [decl_addDecl_self]
        exact Export.role_ne_defined _ _
      · rw [typeOf, decl_addDecl_self]
        exact ht
    exact ⟨copied2, hadv.trans hadv2, hf2,
      .cons (hexport.later hadv2.preserves.toWidens hadv2.le) hids⟩

end Interface
end Oberon
