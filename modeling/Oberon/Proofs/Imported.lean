import Oberon.Proofs.Closed
import Oberon.Proofs.Rebuilding

/-!
# Oberon.Proofs.Imported

What rebuilding an interface does to a store, whatever the interface. What was there stays as it is,
every reference still leads somewhere, and what is new refers to new types only.
-/

namespace Oberon

variable {s : Store}

/-! ## Stores that keep what they had -/

namespace Store

variable {s s' : Store}

/-- A wider store with the same types at the old places. -/
structure Preserves (s s' : Store) : Prop extends s.Widens s' where
  entry : ∀ k, k < s.types.size → s'.types[k]? = s.types[k]?

namespace Preserves

protected lemma refl (s : Store) : s.Preserves s := ⟨.refl s, fun _ _ => rfl⟩

protected lemma trans (h : s.Preserves s') (h' : s'.Preserves s'') : s.Preserves s'' where
  toWidens := h.toWidens.trans h'.toWidens
  entry k hk := (h'.entry k (Nat.lt_of_lt_of_le hk h.types_le)).trans (h.entry k hk)

lemma addDecl (s : Store) (d) : s.Preserves (s.addDecl d).2 :=
  ⟨.addDecl s d, fun _ _ => rfl⟩

lemma addType (s : Store) (f) : s.Preserves (s.addType f).2 :=
  ⟨.addType s f, fun k hk => by simp [Store.addType, Array.getElem?_push, Nat.ne_of_lt hk]⟩

lemma addRows (s : Store) (member lengths) : s.Preserves (s.addRows member lengths).2 := by
  induction lengths with
  | nil => exact .refl s
  | cons n rest ih => exact ih.trans (.addType _ _)

lemma addArray (s : Store) (lengths member) : s.Preserves (s.addArray lengths member).2 :=
  (addRows s member lengths.tail).trans (.addType _ _)

/-- A type at a new place may change. -/
lemma modifyType (h : s.Preserves s') (hk : s.types.size ≤ k) (f) :
    s.Preserves (s'.modifyType (.composite k) f) where
  toWidens := h.toWidens.trans (.modifyType s' _ f)
  entry j hj := by
    rw [← h.entry j hj]
    simp only [Store.modifyType, Array.getElem?_modify]
    rw [if_neg (Nat.ne_of_gt (Nat.lt_of_lt_of_le hj hk))]

lemma form? (h : s.Preserves s') (ht : s.Has t) : s'.form? t = s.form? t := by
  cases t with
  | composite k => simp only [Store.form?, entry?, h.entry k (ht k rfl)]
  | _ => rfl

end Preserves

lemma record?_congr (h : s'.form? t = s.form? t) : s'.record? t = s.record? t := by
  rw [record?, h, ← record?]

lemma record?_addType_of_ne (hf : ∀ r, f ≠ .record r) (t) : (s.addType f).2.record? t =
    s.record? t := by
  by_cases ht : t = .composite s.types.size
  · have hold : s.form? t = none := by
      rw [ht, form?, entry?, Array.getElem?_eq_none (Nat.le_refl _)]
      rfl
    have hnew : (s.addType f).2.form? t = some f := by rw [ht, form?_addType_self]
    cases f with
    | record r => exact absurd rfl (hf r)
    | _ => simp only [record?, hold, hnew]
  · exact record?_congr (by rw [form?_addType, if_neg ht])

lemma record?_addRows (s : Store) (member lengths t) : (s.addRows member lengths).2.record? t =
    s.record? t := by
  induction lengths with
  | nil => rfl
  | cons n rest ih => exact (record?_addType_of_ne (fun _ h => by cases h) t).trans ih

lemma record?_addArray (s : Store) (lengths member t) : (s.addArray lengths member).2.record? t =
    s.record? t :=
  (record?_addType_of_ne (fun _ h => by cases h) t).trans (record?_addRows s member _ t)

/-- Where an array type gets its place. -/
lemma addArray_fst (s : Store) (lengths member) : ∃ k, s.types.size ≤ k ∧
    (s.addArray lengths member).1 = .composite k :=
  ⟨_, (Widens.addRows s member lengths.tail).types_le, rfl⟩

end Store

namespace Interface

open Store (Preserves)

variable {lost : Prop} {r r' : Rebuilding}

lemma widens_nameType (s : Store) (t name) : s.Widens (nameType s t name) := by
  cases name with
  | none => exact .refl s
  | some n => exact Store.Widens.trans (.addDecl _ _) (.modifyType _ _ _)

lemma form?_nameType (s t other name) : (nameType s t name).form? other = s.form? other := by
  cases name with
  | none => rfl
  | some n =>
    rw [nameType, Store.form?_setNaming]
    exact Store.form?_eq_of_types rfl _

lemma preserves_nameType (h : s.Preserves s') (hk : s.types.size ≤ k) (name) :
    s.Preserves (nameType s' (.composite k) name) := by
  cases name with
  | none => exact h
  | some n => exact (h.trans (.addDecl _ _)).modifyType hk _

lemma closed_nameType (h : s.Closed) (ht : s.Has t) (name) : (nameType s t name).Closed := by
  cases name with
  | none => exact h
  | some n =>
    have hself := Store.decl_addDecl_self s (importedDecl n.module n.name .type t false)
    refine (h.addDecl ht).setNaming (by simp) ?_ ?_ t
    · rw [hself]
      rfl
    · rw [hself]
      rfl

namespace Rebuilding

/-- The store is closed and the types that have their place are in it. -/
structure Sound (r : Rebuilding) : Prop where
  closed : r.store.Closed
  placed : ∀ index t, r.placed? index = some t → r.store.Has t

lemma Sound.withStore (h : r.Sound) (hs : s.Closed) (hw : r.store.Widens s) :
    (r.withStore s).Sound := ⟨hs, fun index t ht => hw.has (h.placed index t ht)⟩

lemma Sound.setPlace (h : r.Sound) (ht : r.store.Has t) (index) : (r.setPlace index t).Sound := by
  refine ⟨h.closed, fun other u hu => ?_⟩
  rw [placed?_setPlace] at hu
  split at hu
  · cases hu
    exact ht
  · exact h.placed other u hu

lemma Sound.start (h : r.Sound) (hf : r.store.Fits f) (index) : (r.start index f).Sound :=
  (h.withStore (h.closed.addType hf) (.addType _ f)).setPlace (Store.has_addType _ f) index

lemma Sound.finish (h : r.Sound) (hs : s.Closed) (hw : r.store.Widens s) (ht : s.Has t)
    (index name) : ((r.withStore s).finish index t name).Sound ∧
    ((r.withStore s).finish index t name).store.Has t := by
  have hn := widens_nameType s t name
  exact ⟨(h.withStore (closed_nameType hs ht name) (hw.trans hn)).setPlace (hn.has ht) index,
    hn.has ht⟩

end Rebuilding

/-- What was built is in the store. -/
def BuildPhrase.Has (s : Store) : BuildPhrase → Prop
  | .type _ built => s.Has built
  | .option _ built => ∀ t ∈ built, s.Has t
  | .members _ _ ids => s.HasMembers ids

lemma Member.isMember_declared (m : Member) (module index t) :
    (m.declared module index t).isMember := by
  obtain ⟨name, mode, type, exported⟩ := m
  cases mode <;> rfl

lemma Builds.preserves (h : Builds i lost r p r') : r.store.Preserves r'.store := by
  have hstart {r : Rebuilding} {index f} :
      r.store.Preserves (r.start index f).store := .addType _ f
  induction h with
  | basic r b | pseudo r p | known h | lost r index h => exact .refl _
  | @array r r1 index name lengths member m hp hi hm ih =>
    obtain ⟨k, hk, ht⟩ := Store.addArray_fst r1.store lengths m
    rw [ht]
    exact preserves_nameType (ih.trans (.addArray _ _ _)) (Nat.le_trans ih.types_le hk) _
  | pointer hp hi hb ih =>
    exact preserves_nameType ((hstart.trans ih).modifyType (Nat.le_refl _) _) (Nat.le_refl _)
      _
  | record hp hi hb hf ihb ihf =>
    exact preserves_nameType ((hstart.trans (ihb.trans ihf)).modifyType (Nat.le_refl _) _)
      (Nat.le_refl _) _
  | procedure hp hi hs hr ihs ihr =>
    have h := ihs.trans ihr
    exact preserves_nameType (h.trans (.addType _ _)) h.types_le _
  | none r => exact .refl _
  | some h ih => exact ih
  | noMembers r index => exact .refl _
  | member ht hr iht ihr => exact iht.trans ((Preserves.addDecl _ _).trans ihr)

lemma Builds.sound (h : Builds i lost r p r') (hr : r.Sound) : r'.Sound ∧ p.Has r'.store := by
  induction h with
  | basic r b => exact ⟨hr, .basic _ b⟩
  | pseudo r p => exact ⟨hr, .pseudo _ p⟩
  | known h => exact ⟨hr, hr.placed _ _ h⟩
  | lost r index h => exact ⟨hr, .pseudo _ _⟩
  | @array r r1 index name lengths member m hp hi hm ih =>
    obtain ⟨hr1, hm⟩ := ih hr
    exact hr1.finish (hr1.closed.addArray hm lengths) (.addArray _ _ _) (Store.has_addArray _ _ _)
      index name
  | @pointer r r1 index name base b hp hi hb ih =>
    have hopen : r.store.Fits (.pointer Option.none) := Store.fits_pointer fun t ht => by cases ht
    obtain ⟨hr1, hbase⟩ := ih (hr.start hopen index)
    have hw : r1.store.Widens (r1.store.setForm (.composite r.store.types.size) (.pointer b)) :=
      .modifyType _ _ _
    exact hr1.finish (hr1.closed.setForm (Store.fits_pointer hbase) rfl _) hw
      (hw.has (hb.preserves.has (Store.has_addType _ _))) index name
  | @record r r1 r2 index name base b fields ids hp hi hb hf ihb ihf =>
    have hopen : r.store.Fits (.record ⟨[], Option.none, 0⟩) :=
      hr.closed.fits_record 0 (fun id hid => by cases hid) fun t ht => by cases ht
    obtain ⟨hr1, hbase⟩ := ihb (hr.start hopen index)
    obtain ⟨hr2, hids⟩ := ihf hr1
    have hbase := fun t ht => hf.preserves.has (hbase t ht)
    have hw : r2.store.Widens (r2.store.setForm (.composite r.store.types.size)
      (.record ⟨ids, b, recordLevel r1.store b⟩)) := .modifyType _ _ _
    exact hr2.finish (hr2.closed.setForm (hr2.closed.fits_record _ hids hbase) rfl _) hw
      (hw.has (hf.preserves.has (hb.preserves.has (Store.has_addType _ _)))) index name
  | @procedure r r1 r2 index name params result t variadic ids hp hi hs hr' ihs ihr =>
    obtain ⟨hr1, hids⟩ := ihs hr
    obtain ⟨hr2, hresult⟩ := ihr hr1
    have hids : r2.store.HasMembers ids := hr'.preserves.hasMembers hids
    have hfits : r2.store.Fits (.procedure ⟨ids, t, variadic⟩) :=
      hr2.closed.fits_procedure hids hresult
    exact hr2.finish (hr2.closed.addType hfits) (.addType _ _) (Store.has_addType _ _) index name
  | none r => exact ⟨hr, nofun⟩
  | some h ih =>
    obtain ⟨hr1, ht⟩ := ih hr
    refine ⟨hr1, fun t hmem => ?_⟩
    cases hmem
    exact ht
  | noMembers r index => exact ⟨hr, nofun⟩
  | @member r r1 r2 index m rest t ids ht hrest iht ihr =>
    obtain ⟨hr1, ht⟩ := iht hr
    obtain ⟨hr2, hids⟩ := ihr (hr1.withStore (hr1.closed.addDecl ht) (.addDecl _ _))
    have hnew := r1.store.hasMembers_addDecl (m.isMember_declared i.name index t)
    exact ⟨hr2, List.forall_mem_cons.2
      ⟨hrest.preserves.hasMembers hnew _ (List.mem_singleton_self _), hids⟩⟩

/-! ## Parameters -/

section Numbered

open Store

lemma numbered_widens {s s' : Store} (hn : s.Numbered) (hw : s.Widens s')
    (hs : ∀ t sig, s'.signature? t = some sig → s.signature? t = some sig ∨
     s'.Parameters sig.params) : s'.Numbered :=
  hn.mono (fun id hid => ⟨hw.lt hid, congrArg Declaration.role (hw.decl id hid)⟩) hs

lemma numbered_addDecl {s : Store} (hn : s.Numbered) (d) : (s.addDecl d).2.Numbered :=
  numbered_widens hn (.addDecl s d) fun _ _ ht =>
    .inl (signature?_of_forms (fun t => form?_eq_of_types rfl t) ht)

lemma numbered_addType {s : Store} (hn : s.Numbered)
    (hf : ∀ sig, f = .procedure sig → s.Parameters sig.params) : (s.addType f).2.Numbered :=
  numbered_widens hn (.addType s f) fun _ sig ht => (signature?_of_addType ht).imp_right (hf sig)

lemma numbered_setForm {s : Store} (hn : s.Numbered) (hf : ∀ sig, f ≠ .procedure sig) (t) :
    (s.setForm t f).Numbered :=
  numbered_widens hn (.modifyType _ _ _) fun _ _ ht => .inl (signature?_of_setForm hf ht)

lemma numbered_finish {s : Store} (hn : s.Numbered) (index t name) :
    ((r.withStore s).finish index t name).store.Numbered :=
  numbered_widens hn (widens_nameType s t name) fun _ _ ht =>
    .inl (signature?_of_forms (fun other => form?_nameType s t other name) ht)

/-- Parameters are numbered from `index` on. -/
def BuildPhrase.Numbers (s : Store) : BuildPhrase → Prop
  | .members index ms ids => (∀ m ∈ ms, m.mode.isSome) → ∀ i id, ids[i]? = some id →
    id.index < s.decls.size ∧ ∃ byReference, (s.decl id).role = .parameter byReference (index + i)
  | _ => True

lemma Builds.numbered (h : Builds i lost r p r') (hn : r.store.Numbered) :
    r'.store.Numbered ∧ p.Numbers r'.store := by
  induction h with
  | basic r b | pseudo r p | known h | lost r index h => exact ⟨hn, trivial⟩
  | array hp hi hm ih =>
    refine ⟨numbered_finish (numbered_widens (ih hn).1 (.addArray _ _ _) fun _ _ ht => ?_) _ _ _,
      trivial⟩
    exact .inl (signature?_of_addArray ht)
  | pointer hp hi hb ih =>
    have hn1 := (ih (numbered_addType hn fun _ h => by cases h)).1
    exact ⟨numbered_finish (numbered_setForm hn1 (fun _ h => by cases h) _) _ _ _, trivial⟩
  | record hp hi hb hf ihb ihf =>
    have hn2 := (ihf (ihb (numbered_addType hn fun _ h => by cases h)).1).1
    exact ⟨numbered_finish (numbered_setForm hn2 (fun _ h => by cases h) _) _ _ _, trivial⟩
  | procedure hp hi hs hr ihs ihr =>
    obtain ⟨hn1, hids⟩ := ihs hn
    refine ⟨numbered_finish (numbered_addType (ihr hn1).1 ?_) _ _ _, trivial⟩
    rintro sig ⟨⟩ k id hk
    obtain ⟨hlt, mode, hrole⟩ := hids (by simp [Param.member]) k id hk
    have hw := hr.preserves.toWidens
    refine ⟨hw.lt hlt, mode, ?_⟩
    rw [hw.decl id hlt, hrole, Nat.zero_add]
  | none r => exact ⟨hn, trivial⟩
  | some h ih => exact ⟨(ih hn).1, trivial⟩
  | noMembers r index => exact ⟨hn, nofun⟩
  | @member r r1 r2 index m rest t ids ht hrest iht ihr =>
    obtain ⟨hn2, hids⟩ := ihr (numbered_addDecl (iht hn).1 _)
    refine ⟨hn2, fun hm k id hk => ?_⟩
    rw [List.forall_mem_cons] at hm
    cases k with
    | zero =>
      cases hk
      have hlt : DeclId.In ⟨r1.store.decls.size⟩ (r1.store.addDecl (m.declared i.name index t)).2 := by
        simp
      have hw := hrest.preserves.toWidens
      obtain ⟨mode, hmode⟩ := Option.isSome_iff_exists.1 hm.1
      refine ⟨hw.lt hlt, mode, ?_⟩
      rw [hw.decl _ hlt]
      simp [Rebuilding.withStore, Member.declared, importedDecl, hmode]
    | succ k =>
      have := hids hm.2 k id hk
      rw [Nat.add_right_comm] at this
      exact this

end Numbered

/-! ## Exports -/

/-- What an export is declared as in another module. -/
def Export.role (module : String) (e : Export) : Role :=
  match e.kind with
  | .constant value => .constant (some value)
  | .type => .type
  | .variable => .variable 0
  | .procedure => .procedure (.external .oberon (module ++ "_" ++ e.name))

/-- The exports are brought into the store, as the declarations `ids`. -/
inductive Brings (i : Interface) (lost : Prop) :
    Rebuilding → List Export → List DeclId → Rebuilding → Prop
  | nil (r : Rebuilding) : Brings i lost r [] [] r
  | named {r r1 r2 : Rebuilding} {e : Export} {t : Ty} {id : DeclId} {rest : List Export}
      {ids : List DeclId} (ht : Builds i lost r (.type e.type t) r1) (hk : e.kind = .type)
      (hn : r1.store.naming? t = some id) (hname : (r1.store.decl id).name = e.name)
      (hr : Brings i lost r1 rest ids r2) : Brings i lost r (e :: rest) (id :: ids) r2
  | added {r r1 r2 : Rebuilding} {e : Export} {t : Ty} {rest : List Export} {ids : List DeclId}
      (ht : Builds i lost r (.type e.type t) r1)
      (hr : Brings i lost (r1.withStore (r1.store.addDecl
        (importedDecl i.name e.name (e.role i.name) t true)).2) rest ids r2) :
      Brings i lost r (e :: rest) (⟨r1.store.decls.size⟩ :: ids) r2

/-- The scopes once the exports of a module are entered. -/
def enterExports (module : String) (scopes : Scopes) : List Export → List DeclId → Scopes
  | e :: exports, id :: ids => enterExports module (scopes.addExport module e.name id) exports ids
  | _, _ => scopes

/-- A type that has its name already is not declared again. -/
lemma rebuildExport_type (i : Interface) (name exportedType r)
    (ht : type = (i.rebuild i.depth exportedType r).1)
    (hr : r1 = (i.rebuild i.depth exportedType r).2) :
    i.rebuildExport ⟨name, .type, exportedType⟩ r =
      (match r1.store.naming? type with
      | some id =>
        if (r1.store.decl id).name == name then pure id
        else Rebuild.addDecl (importedDecl i.name name .type type true)
      | none => Rebuild.addDecl (importedDecl i.name name .type type true)) r1 := by
  subst ht hr
  rfl

lemma rebuildExport_cases (i : Interface) (e : Export) (r)
    (h : i.rebuild i.depth e.type r = (t, r1)) :
    (∃ id, e.kind = .type ∧ r1.store.naming? t = some id ∧ (r1.store.decl id).name = e.name ∧
     i.rebuildExport e r = (id, r1)) ∨ i.rebuildExport e r =
    (⟨r1.store.decls.size⟩, r1.withStore (r1.store.addDecl (importedDecl i.name e.name (e.role
     i.name) t true)).2) := by
  have ht : t = (i.rebuild i.depth e.type r).1 := by rw [h]
  have hr : r1 = (i.rebuild i.depth e.type r).2 := by rw [h]
  obtain ⟨name, kind, exportedType⟩ := e
  rcases kind with value | _ | _ | _
  · subst ht hr
    exact .inr rfl
  · rw [rebuildExport_type i name exportedType r ht hr]
    cases hid : r1.store.naming? t with
    | none => exact .inr rfl
    | some id =>
      dsimp only
      split
      · next hname => exact .inl ⟨id, rfl, rfl, eq_of_beq hname, rfl⟩
      · exact .inr rfl
  · subst ht hr
    exact .inr rfl
  · subst ht hr
    exact .inr rfl

lemma rebuildExports_brings (i) (lost : Prop) (exports) : ∀ (r : Rebuilding) scopes,
    (∀ e ∈ exports, ∀ r' : Rebuilding, r'.types.size = r.types.size → Builds i lost r' (.type e.type
     (i.rebuild i.depth e.type r').1) (i.rebuild i.depth e.type r').2) → ∃ ids r',
    Brings i lost r exports ids r' ∧ i.rebuildExports exports scopes r =
    (enterExports i.name scopes exports ids, r') := by
  induction exports with
  | nil => exact fun r scopes _ => ⟨[], r, .nil r, rfl⟩
  | cons e rest ih =>
    intro r scopes hb
    have hrun : i.rebuildExports (e :: rest) scopes r =
        i.rebuildExports rest (scopes.addExport i.name e.name (i.rebuildExport e r).1)
          (i.rebuildExport e r).2 := rfl
    rw [List.forall_mem_cons] at hb
    have ht := hb.1 r rfl
    obtain ⟨t, r1, heq⟩ : ∃ t r1, i.rebuild i.depth e.type r = (t, r1) := ⟨_, _, rfl⟩
    rw [heq] at ht
    have hrest (e') (he' : e' ∈ rest) (r' : Rebuilding)
        (hsize : r'.types.size = r1.types.size) := hb.2 e' he' r' (hsize.trans ht.placed.1)
    rcases rebuildExport_cases i e r heq with ⟨id, hk, hn, hname, he⟩ | he
    · obtain ⟨ids, r', hbrings, hids⟩ := ih r1 (scopes.addExport i.name e.name id) hrest
      refine ⟨id :: ids, r', .named ht hk hn hname hbrings, ?_⟩
      rw [hrun, he]
      exact hids
    · obtain ⟨ids, r', hbrings, hids⟩ := ih (r1.withStore (r1.store.addDecl
        (importedDecl i.name e.name (e.role i.name) t true)).2)
        (scopes.addExport i.name e.name ⟨r1.store.decls.size⟩) hrest
      refine ⟨⟨r1.store.decls.size⟩ :: ids, r', .added ht hbrings, ?_⟩
      rw [hrun, he]
      exact hids

/-- The state in which an import starts. -/
def opening (i : Interface) (s : Store) : Rebuilding := ⟨s, Array.replicate i.types.size none⟩

lemma placed?_opening (i s index) : (opening i s).placed? index = none := by
  simp only [Rebuilding.placed?, opening, Array.getElem?_replicate]
  split <;> rfl

lemma importInto_brings (i s scopes) : ∃ ids r, Brings i True (opening i s) i.exports ids r ∧
    i.importInto s scopes =
    (r.store, enterExports i.name (scopes.addModule i.name) i.exports ids) := by
  obtain ⟨ids, r, hb, hrun⟩ := rebuildExports_brings i True i.exports (opening i s)
    (scopes.addModule i.name) fun e _ r' _ => rebuild_builds i i.depth e.type r'
  exact ⟨ids, r, hb, congrArg (fun x => (x.2.store, x.1)) hrun⟩

/-- Nothing is lost of an interface with layers. -/
lemma importInto_brings_all (hl : Layered i rank)
    (he : ∀ e ∈ i.exports, ∀ index, e.type = .composite index → index < i.types.size) (s scopes) :
    ∃ ids r, Brings i False (opening i s) i.exports ids r ∧ i.importInto s scopes =
    (r.store, enterExports i.name (scopes.addModule i.name) i.exports ids) := by
  obtain ⟨ids, r, hb, hrun⟩ := rebuildExports_brings i False i.exports
    (opening i s) (scopes.addModule i.name) fun e hmem r' hsize =>
      rebuild_builds_all hl i.depth e.type r'
        (ready_depth hl (hsize.trans (by simp [opening])) (he e hmem))
  exact ⟨ids, r, hb, congrArg (fun x => (x.2.store, x.1)) hrun⟩

variable {exports : List Export}

lemma Brings.preserves (h : Brings i lost r exports ids r') : r.store.Preserves r'.store := by
  induction h with
  | nil r => exact .refl _
  | named ht _ _ _ _ ih => exact ht.preserves.trans ih
  | added ht _ ih => exact ht.preserves.trans ((Preserves.addDecl _ _).trans ih)

lemma Brings.sound (h : Brings i lost r exports ids r') (hr : r.Sound) : r'.Sound := by
  induction h with
  | nil r => exact hr
  | named ht _ _ _ _ ih => exact ih (ht.sound hr).1
  | added ht _ ih =>
    obtain ⟨hr1, ht⟩ := ht.sound hr
    exact ih (hr1.withStore (hr1.closed.addDecl ht) (.addDecl _ _))

lemma Brings.numbered (h : Brings i lost r exports ids r') (hn : r.store.Numbered) :
    r'.store.Numbered := by
  induction h with
  | nil r => exact hn
  | named ht _ _ _ _ ih => exact ih (ht.numbered hn).1
  | added ht _ ih => exact ih (numbered_addDecl (ht.numbered hn).1 _)

lemma Brings.length (h : Brings i lost r exports ids r') : exports.length = ids.length := by
  induction h with
  | nil => rfl
  | named _ _ _ _ _ ih | added _ _ ih => exact congrArg Nat.succ ih

lemma hasModule_addModule (scopes : Scopes) (module) :
    (scopes.addModule module).hasModule module := by
  unfold Scopes.addModule
  split
  · assumption
  · simp [Scopes.hasModule]

/-- What is entered once the module itself is. -/
lemma enterExports_eq (exports) : ∀ ids (scopes : Scopes), scopes.hasModule module →
    enterExports module scopes exports ids = { scopes with
      exports := ((exports.zip ids).map fun p => ((module, p.1.name), p.2)).reverse ++ scopes.exports } := by
  induction exports with
  | nil => exact fun ids scopes _ => rfl
  | cons e rest ih =>
    intro ids scopes h
    cases ids with
    | nil => rfl
    | cons id ids =>
      have hadd : scopes.addExport module e.name id =
          { scopes with exports := ((module, e.name), id) :: scopes.exports } := by
        simp only [Scopes.addExport, Scopes.addModule, h, if_true]
      rw [enterExports, hadd, ih]
      · simp
      · exact h

lemma sound_opening (h : s.Closed) : (opening i s).Sound := by
  refine ⟨h, fun index t ht => ?_⟩
  rw [placed?_opening] at ht
  cases ht

lemma closed_importInto (i : Interface) (h : s.Closed) (scopes) :
    (i.importInto s scopes).1.Closed := by
  obtain ⟨ids, r, hb, hrun⟩ := i.importInto_brings s scopes
  rw [hrun]
  exact (hb.sound (sound_opening h)).closed

end Interface
end Oberon
