import Mathlib.Data.List.Find
import Oberon.Proofs.Levels
import Oberon.Proofs.Occurring

/-!
# Oberon.Proofs.Hiding

Which fields a module selects, and which module declared them. An interface hands on all fields of a
record with their marks, also those that are not exported, and a field is selected by its name alone. So
the mark of a selected field is the one that it has in the module that declares it, however many modules
it was handed on by, and nothing makes sure that the mark is set.
-/

namespace Oberon

open Analyze Analysis Interface Store

variable (c : Compilation)

variable {s : Store}

/-! ## Finding fields -/

namespace Store

variable {name : String} {id : DeclId}

/-- The store with other export marks. -/
def remark (s : Store) (marks : DeclId → Bool) : Store :=
  { s with decls := s.decls.mapIdx fun i d => { d with exported := marks ⟨i⟩ } }

lemma name_remark (s : Store) (marks id) : ((s.remark marks).decl id).name =
    (s.decl id).name := by
  simp only [decl, remark, Array.getElem?_mapIdx]
  cases s.decls[id.index]? <;> rfl

/-- Marks do not matter for finding a field. -/
lemma findField?_remark (s : Store) (marks t name) : (s.remark marks).findField? t name =
    s.findField? t name := by
  have hwithin (fuel) : ∀ t,
      (s.remark marks).findFieldWithin name fuel t = s.findFieldWithin name fuel t := by
    induction fuel with
    | zero => exact fun _ => rfl
    | succ fuel ih =>
      intro t
      have hrecord : (s.remark marks).record? t = s.record? t := rfl
      simp only [findFieldWithin, hrecord, name_remark, ih]
  exact hwithin _ t

/-- A field is found where it was found before. -/
lemma Grows.findFieldWithin (h : s.Grows s')
    (hm : ∀ t f, s.form? t = some f → s.HasMembers f.members) (fuel) : ∀ t fuel', fuel ≤ fuel' →
    s.findFieldWithin name fuel t = some id → s'.findFieldWithin name fuel' t = some id := by
  induction fuel with
  | zero => exact fun _ _ _ hf => by cases hf
  | succ fuel ih =>
    intro t fuel' hle hf
    obtain ⟨fuel', rfl⟩ : ∃ n, fuel' = n + 1 := ⟨fuel' - 1, by omega⟩
    rw [Store.findFieldWithin] at hf ⊢
    cases hr : s.record? t with
    | none =>
      rw [hr] at hf
      cases hf
    | some r =>
      have hform := record?_eq_some.1 hr
      have hr' : s'.record? t = some r :=
        record?_eq_some.2 (h.form_eq hform (by simp [Store.isPointer, Store.pointer?, hform]))
      have hnames : r.fields.find? (fun f => (s'.decl f).name == name) =
          r.fields.find? fun f => (s.decl f).name == name := by
        refine List.find?_congr fun f hf => ?_
        rw [h.decl f (hm t _ hform f hf).1]
      rw [hr] at hf
      rw [hr']
      dsimp only at hf ⊢
      rw [hnames]
      cases hfind : r.fields.find? fun f => (s.decl f).name == name with
      | some f =>
        rw [hfind] at hf
        exact hf
      | none =>
        rw [hfind] at hf
        obtain ⟨base, hbase, hf⟩ := Option.bind_eq_some_iff.1 hf
        exact Option.bind_eq_some_iff.2 ⟨base, hbase, ih base fuel' (Nat.le_of_succ_le_succ hle) hf⟩

/-- What is found is a field of some record. -/
lemma mem_of_findFieldWithin (fuel) : ∀ t, s.findFieldWithin name fuel t = some id → ∃ u r,
    s.record? u = some r ∧ id ∈ r.fields := by
  induction fuel with
  | zero => exact fun _ hf => by cases hf
  | succ fuel ih =>
    intro t hf
    rw [findFieldWithin] at hf
    cases hr : s.record? t with
    | none =>
      rw [hr] at hf
      cases hf
    | some r =>
      rw [hr] at hf
      dsimp only at hf
      cases hfind : r.fields.find? fun f => (s.decl f).name == name with
      | some f =>
        rw [hfind] at hf
        cases hf
        exact ⟨t, r, hr, List.mem_of_find?_eq_some hfind⟩
      | none =>
        rw [hfind] at hf
        obtain ⟨base, _, hf⟩ := Option.bind_eq_some_iff.1 hf
        exact ih base hf

end Store

/-! ## Selected fields -/

/-- The fields that a designator selects, with their names. -/
def Expr.selected : Expr → List (String × DeclId)
  | .designator _ _ selectors _ => selectors.filterMap Selector.found?
  | _ => []

/-- The fields that are selected in the bodies of a module. -/
def Module.selected (m : Module) : List (String × DeclId) :=
  m.uses.flatMap fun use => use.2.parts.flatMap Expr.selected

section

variable {a : Analysis} {context : DeclId} {type : Ty}
  {x e : Expr}

lemma found?_of_raw {rest : List Selector} (h : ∀ s ∈ rest, s.Raw P) :
    rest.filterMap Selector.found? = [] := by
  rw [List.filterMap_eq_nil_iff]
  exact fun s hs => (h s hs).found

/-- A field is one that has its name in the record that is reached. -/
lemma Analyze.Walks.found (h : Walks a P context base out type) :
    ∀ f ∈ out.filterMap Selector.found?, ∃ t, a.store.findField? t f.1 = some f.2 := by
  induction h with
  | nil => exact fun f hf => by cases hf
  | field hf _ _ _ ih => exact List.forall_mem_cons.2 ⟨⟨_, hf⟩, ih⟩
  | index _ _ _ _ ih | deref _ _ _ ih | guard _ _ _ _ ih | call _ _ _ _ _ _ _ ih => exact ih
  | proper => exact fun f hf => by cases hf
  | lost _ _ _ _ _ _ _ hr =>
    intro f hf
    rw [List.filterMap_cons_none rfl, found?_of_raw hr] at hf
    cases hf

lemma Expr.Adapts.selected (h : x.Adapts e) : e.selected = x.selected := by
  cases h with
  | refl => rfl
  | cast => cases x <;> rfl
  | literal => rfl

variable (ha : a.Ready)
include ha

lemma Expr.Stems.found (h : e.Stems a) : ∀ f ∈ e.selected, ∃ t, a.store.findField? t f.1 =
    some f.2 := by
  obtain ⟨x, hx, hadapts⟩ := h
  rw [hadapts.selected]
  cases x with
  | designator ident decl out note =>
    obtain ⟨id, rfl, _, ⟨_, rfl, _⟩ | ⟨_, hden⟩⟩ := hx.denotes ha rfl
    · exact fun f hf => by cases hf
    · exact hden.walks.found
  | _ => exact fun f hf => by cases hf

lemma Analyze.Calls.found (h : Calls a span ident chain e)
    (hc : ∀ s ∈ chain, Elaborates a (.selector s)) : ∀ q ∈ e.parts, ∀ f ∈ q.selected, ∃ t,
    a.store.findField? t f.1 = some f.2 := by
  obtain ⟨id, out, type, added, note, rfl, _, _, hwalks, hadded⟩ :=
    h.walks ha (fun x hx => (hx.settled ha : x.Settled _)) fun s hs => (hc s hs).raw ha
  intro q hq
  rw [Expr.parts_eq, List.mem_cons] at hq
  rcases hq with rfl | hq
  · have hnone : added.filterMap Selector.found? = [] := by
      rw [List.filterMap_eq_nil_iff]
      intro s hs
      obtain ⟨mark, rfl⟩ := hadded s hs
      rfl
    rw [Expr.selected, List.filterMap_append, hnone, List.append_nil]
    exact hwalks.found
  · obtain ⟨o, ho, hq⟩ := Expr.mem_inner.1 hq
    rw [Expr.operands_bare hadded] at ho
    obtain ⟨x, hx, hadapts⟩ := hwalks.operands o ho
    exact (Expr.Stems.parts ⟨x, hx, hadapts⟩ ha q hq).found ha

lemma Use.Arises.found (h : Use.Arises a use) : ∀ q ∈ use.2.parts, ∀ f ∈ q.selected, ∃ t,
    a.store.findField? t f.1 = some f.2 := by
  cases h with
  | read _ h => exact fun q hq => (h.parts ha q hq).found ha
  | called hc h => exact h.found ha hc

end

/-! ## Fields that are handed on -/

/-- The fields of a record have the names and the marks that an interface gives. -/
def Store.HasFields (s : Store) (r : RecordForm) (fields : List Field) : Prop :=
  List.Forall₂ (fun id f => (s.decl id).name = f.name ∧ (s.decl id).exported = f.exported)
    r.fields fields

lemma Store.HasFields.of_decl {s' : Store} (h : s.HasFields r fields)
    (hd : ∀ id ∈ r.fields, s'.decl id = { s.decl id with type := s'.typeOf id }) :
    s'.HasFields r fields := by
  refine ((List.forall₂_and_left _ _).2 ⟨hd, h⟩).imp fun id f hf => ?_
  rw [hf.1]
  exact hf.2

lemma Interface.Shows.hasFields {part : Ty → Ty → Prop} (h : Shows s part (.record r) shape) :
    ∃ base fields, shape = .record base fields ∧ s.HasFields r fields := by
  cases h with
  | record _ hf =>
    refine ⟨_, _, rfl, List.Forall₂.imp ?_ hf⟩
    exact fun _ _ h => ⟨h.1, h.2.1⟩

/-- A record that the interface gives. -/
def Interface.Lists (i : Interface) (fields : List Field) : Prop :=
  ∃ (place : Nat) (name : Option TypeName) (base : Option Ty),
    i.types[place]? = some ⟨name, .record base fields⟩

/-- The records of a store come from interfaces of a library. -/
def Store.FromInterfaces (s : Store) (library : Library) : Prop :=
  ∀ t r, s.record? t = some r → ∃ i ∈ library.interfaces, ∃ fields, i.Lists fields ∧ s.HasFields r fields

/-- All records are imported before the block of a module begins. -/
lemma Analysis.Imports.fromInterfaces {a b : Analysis} (h : a.Imports b) (ha : a.store.Closed)
    (hnone : ∀ t, a.store.record? t = none) (hl : a.library.Built) :
    b.store.FromInterfaces a.library := by
  refine (h.store_induction (P := fun s => s.Closed ∧ s.FromInterfaces a.library)
    ⟨ha, fun t r hr => ?_⟩ fun i hmem s scopes hs => ⟨i.closed_importInto hs.1 scopes, ?_⟩).2
  · rw [hnone] at hr
    cases hr
  · obtain ⟨s0, ids0, t0, hs0, hdep⟩ := hl.genuine i hmem
    obtain ⟨ids, copied, r', hrun, _, hadv, hfinished, _⟩ := hdep.copies hs0 s scopes
    rw [hrun]
    intro t r hr
    have hr : r'.store.record? t = some r := hr
    obtain ⟨k, rfl⟩ : ∃ k, t = .composite k := by
      cases t with
      | composite k => exact ⟨k, rfl⟩
      | _ => cases hr
    by_cases hk : k < s.types.size
    · -- what was imported earlier stays
      have hpres : s.Preserves r'.store := hadv.preserves
      have hold : s.record? (.composite k) = some r :=
        (record?_congr (hpres.form? (.composite hk))).symm.trans hr
      obtain ⟨j, hj, fields, hlists, hfields⟩ := hs.2 _ r hold
      refine ⟨j, hj, fields, hlists, hfields.of_decl fun id hid => ?_⟩
      have hlt := ((hs.1.fits _ _ (record?_eq_some.1 hold)).members id hid).1
      rw [typeOf, hpres.decl id hlt]
    · obtain ⟨place, hcopied⟩ := hadv.records k r (Nat.le_of_not_lt hk) hr
      obtain ⟨⟨name, shape⟩, entry, hfin⟩ := hfinished place k hcopied
      have hentry : entry.form = .record r := by
        simpa [form?, entry?, hfin.entry_eq] using record?_eq_some.1 hr
      have hshows := hfin.shows
      rw [hentry] at hshows
      obtain ⟨base, fields, rfl, hfields⟩ := hshows.hasFields
      exact ⟨i, hmem, fields, ⟨place, name, base, hfin.item_eq⟩, hfields⟩

/-- A source that was compiled against a library of compiled modules. -/
structure Compilation where
  features : Features
  library : Library
  source : String
  module : Module
  built : library.Built
  accepted : (Outcome.ofSource features library source).Accepts module

namespace Compilation

def store (c : Compilation) : Store := (Outcome.ofSource c.features c.library c.source).store

def interface (c : Compilation) : Interface := ofModule c.store c.module

/-- A field of a module and one of a module that it imports from: they have the same place in two records
that are the same record of the interface. -/
structure HandsOn (d : Compilation) (jd : DeclId) (c : Compilation) (id : DeclId) : Prop where
  imported : d.interface ∈ c.library.interfaces
  same : ∃ fields t t' r r', ∃ k : Nat, d.interface.Lists fields ∧
    d.store.record? t = some r ∧ d.store.HasFields r fields ∧ r.fields[k]? = some jd ∧
    c.store.record? t' = some r' ∧ c.store.HasFields r' fields ∧ r'.fields[k]? = some id

/-- The field `id` of one module is the field `jd` that the other one declares. -/
inductive From : Compilation → DeclId → Compilation → DeclId → Prop
  | declared {c : Compilation} {id : DeclId} (h : (c.store.decl id).imported = false) : From c id c id
  | imported {c d e : Compilation} {id jd kd : DeclId} (h : d.HandsOn jd c id) (hd : From d jd e kd) :
      From c id e kd

lemma HandsOn.exported {c d : Compilation} {id jd : DeclId} (h : d.HandsOn jd c id) :
    (c.store.decl id).exported = (d.store.decl jd).exported := by
  obtain ⟨_, fields, _, _, r, r', k, _, _, hf, hjd, _, hf', hid⟩ := h
  have hget {s : Store} {r id} (hf : s.HasFields r fields)
      (hid : r.fields[k]? = some id) : ∃ f, fields[k]? = some f ∧ (s.decl id).exported = f.exported := by
    obtain ⟨hk, rfl⟩ := List.getElem?_eq_some_iff.1 hid
    have hk' : k < fields.length := by rwa [← hf.length_eq]
    exact ⟨fields[k], List.getElem?_eq_getElem hk', (hf.get hk hk').2⟩
  obtain ⟨f, hf, hmark⟩ := hget hf hjd
  obtain ⟨f', hf', hmark'⟩ := hget hf' hid
  cases hf.symm.trans hf'
  exact hmark'.trans hmark.symm

/-- A field keeps its mark, however often it is handed on. -/
lemma From.exported {id jd : DeclId} (h : From c id d jd) : (c.store.decl id).exported =
    (d.store.decl jd).exported := by
  induction h with
  | declared => rfl
  | imported h _ ih => exact h.exported.trans ih

/-- The records of a module are imported, or their fields are declared in it. -/
lemma record_cases (hr : c.store.record? t = some r) :
    (∃ i ∈ c.library.interfaces, ∃ fields, i.Lists fields ∧ c.store.HasFields r fields) ∨
    ∀ id ∈ r.fields, (c.store.decl id).imported = false := by
  obtain ⟨b, p, hb, hi, hopened, _, hphase⟩ := c.accepted.phases
  have hbuilds := (hphase False False.elim).store
  have hnone (t) : b.store.record? t = none := by
    rw [hb.store]
    exact Universe.record?_standard t
  have hfrom := hi.fromInterfaces hb.closed hnone (by rw [hb.library]; exact c.built)
  rcases hbuilds.record_cases hopened.closed hr with hold | hnew
  · obtain ⟨i, hmem, fields, hlists, hfields⟩ := hfrom t r hold
    rw [hb.library] at hmem
    refine .inl ⟨i, hmem, fields, hlists, hfields.of_decl fun id hid => ?_⟩
    exact hbuilds.decl ((hopened.closed.fits _ _ (record?_eq_some.1 hold)).members id hid).1
  · exact .inr fun id hid => (hnew.own id hid).1.imported

/-- The interface of a module gives records of the module. -/
lemma record_of_lists (h : c.interface.Lists fields) : ∃ t r, c.store.record? t = some r ∧
    c.store.HasFields r fields := by
  obtain ⟨place, name, base, hitem⟩ := h
  obtain ⟨t, hdep⟩ := c.accepted.depicts
  have hitem : t.items[place]? = some ⟨name, .record base fields⟩ := by
    rw [← hdep.types]
    exact hitem
  obtain ⟨id, hid⟩ := hdep.sound.onto place (Array.getElem?_eq_some_iff.1 hitem).1
  obtain ⟨entry, item, hentry, hitem', _, hshows⟩ := hdep.filled id place hid
  cases hitem.symm.trans hitem'
  generalize hform : entry.form = form at hshows
  cases hshows with
  | @record r _ _ _ hf =>
    refine ⟨.composite id, r, record?_eq_some.2 ?_, List.Forall₂.imp ?_ hf⟩
    · have hentry : c.store.types[id]? = some entry := hentry
      simp [form?, entry?, hentry, hform]
    · exact fun _ _ h => ⟨h.1, h.2.1⟩

/-- The fields of all records of a module were declared somewhere. -/
def Traced (c : Compilation) : Prop :=
  ∀ t r, c.store.record? t = some r → ∀ id ∈ r.fields, ∃ d jd, c.From id d jd

lemma traced_of (hl : ∀ i ∈ c.library.interfaces, ∃ d : Compilation, d.interface = i ∧ d.Traced) :
    c.Traced := by
  intro t r hr id hid
  rcases c.record_cases hr with ⟨i, hi, fields, hlists, hfields⟩ | hown
  · obtain ⟨d, rfl, hd⟩ := hl i hi
    obtain ⟨t', r', hr', hfields'⟩ := d.record_of_lists hlists
    obtain ⟨k, hk, rfl⟩ := List.getElem_of_mem hid
    have hk' : k < r'.fields.length := by rwa [hfields'.length_eq, ← hfields.length_eq]
    obtain ⟨e, kd, hfrom⟩ := hd t' r' hr' _ (List.getElem_mem hk')
    exact ⟨e, kd, .imported ⟨hi, fields, t', t, r', r, k, hlists, hr', hfields',
      List.getElem?_eq_getElem hk', hr, hfields, List.getElem?_eq_getElem hk⟩ hfrom⟩
  · exact ⟨c, id, .declared (hown id hid)⟩

lemma traced : c.Traced := by
  refine c.traced_of (c.built.all fun features library source m hb hl h => ?_)
  exact ⟨⟨features, library, source, m, hb, h⟩, rfl, traced_of _ hl⟩

/-! ## What is selected -/

/-- A selected field is the nearest one of its name in some record, and stays so with other marks. -/
lemma found_of_selected (hf : f ∈ c.module.selected) : ∃ t, c.store.findField? t f.1 =
    some f.2 := by
  obtain ⟨use, hu, hf⟩ := List.mem_flatMap.1 hf
  obtain ⟨q, hq, hf⟩ := List.mem_flatMap.1 hf
  obtain ⟨a, ha, harises⟩ := c.accepted.arises c.built use hu
  obtain ⟨t, ht⟩ := harises.found ha.ready q hq f hf
  exact ⟨t, ha.grows.findFieldWithin ha.ready.members _ t _ ha.grows.types_le ht⟩

/-- A module selects fields by their names: each is the nearest one of its name in some record, whatever
the marks are, and each has been declared by a module. The selected fields of imported records are all
exported exactly if the modules that declare them have marked them all. -/
theorem selected_exported_iff (c : Compilation) :
    (∀ f ∈ c.module.selected, (∃ t, ∀ marks, (c.store.remark marks).findField? t f.1 = some f.2) ∧
     ∃ d id, c.From f.2 d id) ∧
    ((∀ f ∈ c.module.selected, (c.store.decl f.2).imported = true → (c.store.decl f.2).exported =
     true) ↔ ∀ f ∈ c.module.selected, (c.store.decl f.2).imported = true → ∀ d id, c.From f.2 d id →
     (d.store.decl id).exported = true) := by
  have hfrom (f : String × DeclId) (hf : f ∈ c.module.selected) : ∃ d id, c.From f.2 d id := by
    obtain ⟨t, ht⟩ := c.found_of_selected hf
    obtain ⟨u, r, hr, hid⟩ := mem_of_findFieldWithin _ t ht
    exact c.traced u r hr f.2 hid
  refine ⟨fun f hf => ⟨?_, hfrom f hf⟩, fun h f hf hi d id hd => ?_, fun h f hf hi => ?_⟩
  · obtain ⟨t, ht⟩ := c.found_of_selected hf
    exact ⟨t, fun marks => (c.store.findField?_remark marks t f.1).trans ht⟩
  · rw [← hd.exported]
    exact h f hf hi
  · obtain ⟨d, id, hd⟩ := hfrom f hf
    rw [hd.exported]
    exact h f hf hi d id hd

/-- A module that exports a record type and one of its two fields. -/
def halfHidden : Library :=
  Library.compiled {} "MODULE A; TYPE T* = RECORD x*: INTEGER; y: INTEGER END; END A."

lemma halfHidden_built : halfHidden.Built := .compiled .empty (by decide +kernel)

/-- A module that writes both fields. -/
def intruder : String := "MODULE B; IMPORT A; VAR t: A.T; BEGIN t.x := 1; t.y := 2 END B."

/-- The selected fields, whether they are imported and whether they are exported. -/
def selectedMarks (s : Store) (m : Module) : List (String × Bool × Bool) :=
  m.selected.map fun f => (f.1, (s.decl f.2).imported, (s.decl f.2).exported)

lemma intruder_compiles : ∃ c : Compilation, c.library = halfHidden ∧ c.source = intruder ∧
    selectedMarks c.store c.module = [("x", true, true), ("y", true, false)] := by
  have heval : (Outcome.ofSource {} halfHidden intruder).acceptsWith (fun o m =>
      selectedMarks o.store m == [("x", true, true), ("y", true, false)]) := by decide +kernel
  obtain ⟨m, haccepts, hmarks⟩ := Outcome.exists_of_acceptsWith heval
  exact ⟨⟨{}, halfHidden, intruder, m, halfHidden_built, haccepts⟩, rfl, rfl, eq_of_beq hmarks⟩

lemma mem_of_selectedMarks {m : Module} {name : String}
    (h : (name, imported, exported) ∈ selectedMarks s m) : ∃ id, (name, id) ∈ m.selected ∧
    (s.decl id).imported = imported ∧ (s.decl id).exported = exported := by
  obtain ⟨⟨_, id⟩, hf, heq⟩ := List.mem_map.1 h
  cases heq
  exact ⟨id, hf, rfl, rfl⟩

/-- The exported field was exported by the module that declares it. -/
theorem selected_exported_iff_intruder : ∃ c : Compilation, c.source = intruder ∧
    ∃ id, ("x", id) ∈ c.module.selected ∧ (c.store.decl id).imported = true ∧
      ∃ d jd, c.From id d jd ∧ (d.store.decl jd).exported = true := by
  obtain ⟨c, _, hc, hmarks⟩ := intruder_compiles
  obtain ⟨id, hf, hi, he⟩ := mem_of_selectedMarks (s := c.store) (m := c.module) (by
    rw [hmarks]
    exact List.mem_cons_self)
  obtain ⟨_, d, jd, hd⟩ := c.selected_exported_iff.1 _ hf
  exact ⟨c, hc, id, hf, hi, d, jd, hd, hd.exported.symm.trans he⟩

/-- A field that is not exported is selected all the same. -/
theorem intruder_selects_hidden : ∃ c : Compilation, c.source = intruder ∧
    ¬ ∀ f ∈ c.module.selected, (c.store.decl f.2).imported = true → (c.store.decl f.2).exported =
    true := by
  obtain ⟨c, _, hc, hmarks⟩ := intruder_compiles
  obtain ⟨id, hf, hi, he⟩ := mem_of_selectedMarks (s := c.store) (m := c.module) (by
    rw [hmarks]
    exact List.mem_cons_of_mem _ List.mem_cons_self)
  refine ⟨c, hc, fun h => ?_⟩
  rw [h _ hf hi] at he
  cases he

end Compilation

end Oberon
