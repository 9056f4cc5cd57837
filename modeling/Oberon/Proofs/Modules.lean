import Oberon.Proofs.Imported
import Oberon.Proofs.Parsing
import Oberon.Proofs.Trees

/-!
# Oberon.Proofs.Modules

What is known of a module that was accepted. Its names denote what it declares itself, what it
imports or what is predefined, and its procedures are trees of scopes.
-/

namespace Oberon

open Analyze Analysis

/-! ## Predefined names -/

/-- A parameter of that number. -/
def Role.isNumbered (n : Nat) : Role → Bool
  | .parameter _ i => i == n
  | _ => false

namespace Universe

open Store

lemma standard_scopes : standard.scopes = { predefined := standard.scopes.predefined } := by
  have h : standard.scopes.modules = [] ∧ standard.scopes.exports = [] ∧ standard.scopes.aliases = [] ∧
      standard.scopes.inner = [] ∧ standard.scopes.outer = [] := by decide +kernel
  generalize standard.scopes = scopes at h ⊢
  cases scopes
  simp_all

lemma standard_predefined : ∀ id, standard.scopes.predefined.Knows id → id.In standard.store ∧
    (standard.store.decl id).isParameter = false ∧ (standard.store.decl id).isVariable = false := by
  show ∀ id ∈ standard.scopes.predefined.map Prod.snd, _
  decide +kernel

lemma standard_numbered : standard.store.Numbered := by
  have h : ∀ k < standard.store.types.size, ∀ sig ∈ standard.store.signature? (.composite k),
      ∀ p ∈ sig.params.zipIdx, p.1.In standard.store ∧
      (standard.store.decl p.1).role.isNumbered p.2 := by decide +kernel
  intro t sig hs i id hi
  cases t with
  | composite k =>
    obtain ⟨hlt, hrole⟩ := h k (lt_of_form? (signature?_eq_some.1 hs)) sig hs (id, i)
      (List.mem_zipIdx_iff_getElem?.2 hi)
    refine ⟨hlt, ?_⟩
    cases hr : (standard.store.decl id).role with
    | parameter byReference j =>
      rw [hr] at hrole
      exact ⟨byReference, by rw [eq_of_beq hrole]⟩
    | _ => simp [hr, Role.isNumbered] at hrole
  | _ => cases hs

/-- The predefined types have no names. -/
lemma standard_closed : standard.store.Closed := by
  have hforms : ∀ k < standard.store.types.size, ∀ f ∈ standard.store.form? (.composite k),
      (∀ id ∈ f.members, id.In standard.store ∧ (standard.store.decl id).isMember) ∧
      (∀ t ∈ standard.store.parts f, standard.store.Has t) ∧
      (f.isLate → ∀ t ∈ standard.store.parts f, t.Below k) := by decide +kernel
  have hnames : ∀ e ∈ standard.store.types.toList, e.naming = none := by decide +kernel
  have hdecls : ∀ d ∈ standard.store.decls.toList, standard.store.Has d.type := by decide +kernel
  refine ⟨fun id => ?_, fun t f hf => ?_, fun k f hf => (hforms k (lt_of_form? hf) f hf).2.2,
    fun t id hid => ?_⟩
  · by_cases hlt : id.In standard.store
    · rw [typeOf, decl, Array.getElem?_eq_getElem hlt]
      exact hdecls _ (Array.getElem_mem_toList hlt)
    · rw [typeOf_of_le (Nat.le_of_not_lt hlt)]
      exact .pseudo _ _
  · cases t with
    | composite k =>
      obtain ⟨hmembers, hparts, _⟩ := hforms k (lt_of_form? hf) f hf
      exact ⟨hmembers, hparts⟩
    | _ => cases hf
  · obtain ⟨e, he, hn⟩ := Option.bind_eq_some_iff.1 hid
    cases t with
    | composite k =>
      rw [hnames e (Array.mem_toList_iff.2 (Array.mem_of_getElem? he))] at hn
      cases hn
    | _ => cases he

end Universe

/-! ## Imported declarations -/

variable {s s' : Store}

/-- Neither a parameter nor a variable of the module being compiled. -/
structure Store.Foreign (s : Store) (id : DeclId) : Prop where
  lt : id.index < s.decls.size
  isParameter : (s.decl id).isParameter = false
  imported : (s.decl id).isVariable = true → (s.decl id).imported = true

namespace Store.Foreign

variable {id : DeclId}

/-- Another type makes no difference. -/
lemma of_decl (h : s.Foreign id) (hlt : id.In s')
    (hd : s'.decl id = { s.decl id with type := s'.typeOf id }) : s'.Foreign id := by
  refine ⟨hlt, ?_, ?_⟩
  · rw [hd]
    exact h.isParameter
  · rw [hd]
    exact h.imported

lemma widens (h : s.Foreign id) (hw : s.Widens s') : s'.Foreign id :=
  h.of_decl (hw.lt h.lt) (by rw [typeOf, hw.decl id h.lt])

lemma grows (h : s.Foreign id) (hg : s.Grows s') : s'.Foreign id :=
  h.of_decl (hg.lt h.lt) (hg.decl id h.lt)

end Store.Foreign

/-- An export is foreign, whether its declaration was there or is new. -/
lemma Interface.Brings.foreign {r r' : Rebuilding} {lost : Prop} {exports : List Export}
    (h : Brings i lost r exports ids r') (hr : r.Sound) : ∀ id ∈ ids, r'.store.Foreign id := by
  induction h with
  | nil r => exact fun _ h => by cases h
  | named ht _ hn _ hrest ih =>
    have hr1 := (ht.sound hr).1
    obtain ⟨hlt, hrole, _⟩ := hr1.closed.named _ _ hn
    refine List.forall_mem_cons.2 ⟨.widens ⟨hlt, ?_, fun hv => ?_⟩ hrest.preserves.toWidens, ih hr1⟩
    · simp only [Declaration.isParameter, hrole]
    · simp [Declaration.isVariable, hrole] at hv
  | @added r r1 r2 e t rest ids ht hrest ih =>
    obtain ⟨hr1, ht⟩ := ht.sound hr
    refine List.forall_mem_cons.2 ⟨.widens ⟨by simp [Rebuilding.withStore], ?_, fun _ => ?_⟩
      hrest.preserves.toWidens, ih (hr1.withStore (hr1.closed.addDecl ht) (.addDecl _ _))⟩
    · obtain ⟨name, kind, type⟩ := e
      simp only [Rebuilding.withStore, Store.decl_addDecl_self]
      cases kind <;> rfl
    · simp [Rebuilding.withStore, importedDecl]

/-! ## The start of a module -/

/-- The state in which the block of a module is read. -/
structure Analysis.Opened (a : Analysis) : Prop where
  inner : a.scopes.inner = []
  outer : a.scopes.outer = []
  forwards : a.forwards = []
  cases : a.cases = []
  procedures : a.procedures = []
  numbered : a.store.Numbered
  closed : a.store.Closed
  known : ∀ id, a.scopes.Knows id → a.store.Foreign id
  plain : ∀ id, a.scopes.predefined.Knows id → (a.store.decl id).isVariable = false

namespace Analysis.Opened

variable {a b : Analysis}

lemma silent (h : a.Opened) (hs : a.Silent b) : b.Opened := by
  rw [hs.rest]
  exact ⟨h.inner, h.outer, h.forwards, h.cases, h.procedures, h.numbered, h.closed, h.known, h.plain⟩

lemma regular (h : a.Opened) : a.Regular where
  known id hid := (h.known id hid).lt
  plain id hid hv := by
    cases hid with
    | inner hk =>
      rw [h.inner] at hk
      cases hk
    | outer hs hk =>
      rw [h.outer] at hs
      cases hs
    | predefined hk =>
      rw [h.plain id hk] at hv
      cases hv
  forwards := by simp [h.forwards]
  cases := h.cases

lemma level (h : a.Opened) : a.scopes.level = Scopes.moduleLevel := by
  simp only [Scopes.level, h.outer]
  rfl

/-- An import makes only foreign declarations known. -/
lemma imported (h : a.Opened) (i : Interface) : Opened { a with
    store := (i.importInto a.store a.scopes).1, scopes := (i.importInto a.store a.scopes).2 } := by
  obtain ⟨ids, r, hb, hrun⟩ := i.importInto_brings a.store a.scopes
  have hsound := Interface.sound_opening (i := i) h.closed
  have hw : a.store.Widens r.store := hb.preserves.toWidens
  obtain ⟨modules, hmodules⟩ : ∃ modules, a.scopes.addModule i.name = { a.scopes with modules } := by
    unfold Scopes.addModule
    split
    · exact ⟨_, rfl⟩
    · exact ⟨_, rfl⟩
  rw [hrun, Interface.enterExports_eq _ _ _ (Interface.hasModule_addModule _ _), hmodules]
  refine ⟨h.inner, h.outer, h.forwards, h.cases, h.procedures, hb.numbered h.numbered,
    (hb.sound hsound).closed, fun id hid => ?_, fun id hid => ?_⟩
  · have hold (hk : a.scopes.Knows id) : r.store.Foreign id := (h.known id hk).widens hw
    cases hid with
    | inner hk => exact hold (.inner hk)
    | outer hm hk => exact hold (.outer hm hk)
    | predefined hk => exact hold (.predefined hk)
    | exported hk =>
      rw [List.map_append, List.mem_append] at hk
      rcases hk with hk | hk
      · simp only [List.mem_map, List.mem_reverse, exists_exists_and_eq_and] at hk
        obtain ⟨p, hp, rfl⟩ := hk
        exact hb.foreign hsound _ (List.of_mem_zip hp).2
      · exact hold (.exported hk)
  · exact (congrArg Declaration.isVariable (hw.decl id (h.known id (.predefined hid)).lt)).trans
      (h.plain id hid)

lemma addAlias (h : a.Opened) (name module) :
    Opened { a with scopes := a.scopes.addAlias name module } := by
  refine ⟨h.inner, h.outer, h.forwards, h.cases, h.procedures, h.numbered, h.closed,
    fun id hid => h.known id ?_, h.plain⟩
  cases hid with
  | inner hk => exact .inner hk
  | outer hm hk => exact .outer hm hk
  | predefined hk => exact .predefined hk
  | exported hk => exact .exported hk

end Analysis.Opened

variable {a b : Analysis}

namespace Analysis

/-- A module gets its name. -/
structure Begins (a : Analysis) (name : String) (b : Analysis) : Prop where
  store : b.store = a.store
  scopes : b.scopes = a.scopes.enterModule name
  module : b.module = name
  library : b.library = a.library
  forwards : b.forwards = []
  cases : b.cases = a.cases
  procedures : b.procedures = []
  signatures : b.signatures = a.signatures

/-- Modules of the library are imported, and names are given to them. -/
inductive Imports (a : Analysis) : Analysis → Prop
  | refl : Imports a a
  | module {b : Analysis} {name : String} {i : Interface} (h : Imports a b)
      (hi : b.library.find? name = some i) (hnew : b.scopes.hasModule name = false)
      (hself : name ≠ b.module) : Imports a { b with
        store := (i.importInto b.store b.scopes).1, scopes := (i.importInto b.store b.scopes).2 }
  | renamed {b : Analysis} (name module : String) (h : Imports a b) :
      Imports a { b with scopes := b.scopes.addAlias name module }
  | silent {b c : Analysis} (h : Imports a b) (hs : b.Silent c) : Imports a c

lemma Imports.library (h : a.Imports b) : b.library = a.library := by
  induction h with
  | refl => rfl
  | module _ _ _ _ ih | renamed _ _ _ ih => exact ih
  | silent _ hs ih => exact hs.library.trans ih

/-- What importing one module keeps is kept by all imports. -/
lemma Imports.store_induction {P : Store → Prop} (h : a.Imports b) (ha : P a.store)
    (hstep : ∀ i ∈ a.library.interfaces, ∀ s scopes, P s → P (i.importInto s scopes).1) :
    P b.store := by
  induction h with
  | refl => exact ha
  | module h hi _ _ ih =>
    rw [h.library] at hi
    exact hstep _ (List.mem_of_find?_eq_some hi) _ _ ih
  | renamed _ _ _ ih => exact ih
  | silent _ hs ih =>
    rw [hs.store]
    exact ih

lemma Imports.signatures (h : a.Imports b) : b.signatures = a.signatures := by
  induction h with
  | refl => rfl
  | module _ _ _ _ ih | renamed _ _ _ ih => exact ih
  | silent _ hs ih => exact hs.signatures.trans ih

lemma Imports.opened (h : a.Imports b) (ha : a.Opened) : b.Opened := by
  induction h with
  | refl => exact ha
  | module _ _ _ _ ih => exact ih.imported _
  | renamed name module _ ih => exact ih.addAlias name module
  | silent _ hs ih => exact ih.silent hs

/-- The name of a module is entered, and nothing is declared yet. -/
lemma Opened.begins (ha : a.Opened) (h : a.Begins name b) : b.Opened := by
  refine ⟨by rw [h.scopes]; rfl, by rw [h.scopes]; rfl, h.forwards, ?_, h.procedures,
    ?_, ?_, fun id hid => ?_, by rw [h.scopes, h.store]; exact ha.plain⟩
  · rw [h.cases]
    exact ha.cases
  · rw [h.store]
    exact ha.numbered
  · rw [h.store]
    exact ha.closed
  · rw [h.store]
    rw [h.scopes] at hid
    refine ha.known id ?_
    cases hid with
    | inner hk => cases hk
    | outer hm _ => cases hm
    | predefined hk => exact .predefined hk
    | exported hk => exact .exported hk

end Analysis

lemma Analyze.imports_makeKnown {c : Analysis} (h : c.Imports a) (hself : name ≠ a.module) :
    (makeKnown name).Ensures a fun _ b => c.Imports b := by
  refine .get (.ite (fun _ => .pure fun _ => h) fun hnew => ?_)
  split
  · exact .pure fun _ => h
  · next i hi => exact fun _ => .module h hi (by simpa using hnew) hself

lemma Analyze.imports_importModule {c : Analysis} (span rename ident earlier) (h : c.Imports a) :
    (importModule span rename ident earlier).Ensures a fun _ b => c.Imports b := by
  refine .otherwise fun _ => .get (.otherwise ?_)
  intro hself
  refine .bind (imports_makeKnown h (by simpa using hself)) fun known b hb => ?_
  cases known with
  | true => exact fun _ => .renamed _ _ hb
  | false => exact .reported

lemma ReadsImports.imports (h : ReadsImports a is b) : a.Imports b := by
  induction h with
  | none => exact .refl
  | entry span rename ident _ h ih => exact h.ensures (imports_importModule span rename ident _ ih)
  | silent _ hb ih => exact .silent ih hb

lemma Analysis.opened_start (features library) : (start features library).Opened := by
  have hscopes : (start features library).scopes =
      { predefined := Universe.standard.scopes.predefined } := Universe.standard_scopes
  refine ⟨by rw [hscopes], by rw [hscopes], rfl, rfl, rfl, Universe.standard_numbered,
    Universe.standard_closed, fun id hid => ?_, fun id hid => (Universe.standard_predefined id hid).2.2⟩
  rw [hscopes] at hid
  cases hid with
  | inner hk => cases hk
  | outer hm _ => cases hm
  | predefined hk =>
    obtain ⟨hlt, hparameter, hvariable⟩ := Universe.standard_predefined id hk
    exact ⟨hlt, hparameter, fun h => absurd (hvariable.symm.trans h) Bool.false_ne_true⟩
  | exported hk => cases hk

/-! ## Modules -/

/-- What may be referred to everywhere in a module whose declarations start at place `low`. -/
def Module.Global (s : Store) (m : Module) (low : Nat) (id : DeclId) : Prop :=
  id.index < low ∧ s.Foreign id ∨ id ∈ m.block.members []

/-- A module as a tree of scopes. -/
structure Module.Scoped (s : Store) (low : Nat) (m : Module) : Prop where
  numbered : s.Numbered
  spread : Spread low s.decls.size
    (m.block.constants ++ m.block.types ++ m.block.vars ++ Procedure.idsOf s m.block.procedures)
  types : ∃ low, SpreadBy Ty.place low s.types.size (Procedure.typesOf s m.block.procedures)
  constants : s.Constants m.block.constants
  typeNames : s.TypeNames m.block.types
  vars : s.Variables m.block.vars
  body : ∀ u ∈ Statement.usesOf m.block.body, ∀ r ∈ u.2.roots, m.Global s low r
  trees : ∀ p ∈ m.block.procedures, p.Scoped s Scopes.moduleLevel (m.Global s low)

/-- The phases in which a module is read. -/
lemma ReadsModule.stages (h : ReadsModule a m b) : ∃ c d e, a.Begins m.name c ∧
    ReadsImports c m.imports d ∧ ReadsBlock d (.block m.block) e ∧ e.Silent b := by
  obtain ⟨name, span, hb, hn, hi, h, he⟩ := h
  have hc := (congrArg Prod.snd hn.run).symm
  refine ⟨_, _, _, ?_, hi, h, he⟩
  subst hc
  exact ⟨hb.store, by rw [← hb.scopes]; rfl, rfl, hb.library, rfl, hb.cases, rfl, hb.signatures⟩

lemma ReadsModule.phases (h : ReadsModule a m b) : ∃ c d e, a.Begins m.name c ∧ c.Imports d ∧
    ReadsBlock d (.block m.block) e ∧ e.Silent b := by
  obtain ⟨c, d, e, hc, hi, h⟩ := h.stages
  exact ⟨c, d, e, hc, hi.imports, h⟩

/-- The block of a module is read once its imports are known. -/
lemma ReadsModule.block (h : ReadsModule a m b) (ha : a.Opened) : ∃ c d, c.Opened ∧
    ReadsBlock c (.block m.block) d ∧ d.Silent b := by
  obtain ⟨c, d, e, hc, hi, h, he⟩ := h.phases
  exact ⟨d, e, hi.opened (ha.begins hc), h, he⟩

lemma ReadsModule.scoped (h : ReadsModule a m b) (ha : a.Opened) : ∃ low,
    m.Scoped b.store low := by
  obtain ⟨d, e, hd, h, he⟩ := h.block ha
  have hblock : m.block.Reads d e := h.reads hd.regular
  have hknown (r) (hr : e.scopes.Knows r) :
      r.In d.store ∧ e.store.Foreign r ∨ r ∈ m.block.members [] := by
    rcases (hblock.continues.knows_iff r).1 hr with hr | hr
    · have hr := hd.known r hr
      exact .inl ⟨hr.lt, hr.grows hblock.continues.grows⟩
    · exact .inr hr
  rw [he.store]
  refine ⟨_, hblock.continues.numbered hd.numbered, hblock.spread, ⟨_, hblock.types⟩,
    hblock.constants, hblock.typeNames, hblock.vars, fun u hu r hr => ?_, fun p hp => ?_⟩
  · exact hknown r (hblock.body u hu r hr)
  · rw [← hd.level]
    exact (hblock.trees p hp).mono hknown

namespace Outcome

/-- The module was read without errors, be it that warnings count as such. -/
structure Accepts (o : Outcome) (m : Module) : Prop where
  module : o.module = some m
  complete : o.analysis.abandoned = false
  clean : ∃ strict, (o.log strict).hasErrors = false

/-- Is a module accepted that passes the test? -/
def acceptsWith (o : Outcome) (test : Outcome → Module → Bool) : Bool :=
  !o.analysis.abandoned && !(o.log false).hasErrors && o.module.any (test o)

lemma exists_of_acceptsWith {o : Outcome} (h : o.acceptsWith test) : ∃ m, o.Accepts m ∧ test o m := by
  simp only [acceptsWith, Bool.and_eq_true, Bool.not_eq_true', Option.any_eq_true] at h
  obtain ⟨⟨hcomplete, hclean⟩, m, hm, ht⟩ := h
  exact ⟨m, ⟨hm, hcomplete, false, hclean⟩, ht⟩

/-- A strict reader takes no error for less. -/
lemma hasErrors_log {o : Outcome} (h : o.analysis.Failed) (strict) : (o.log strict).hasErrors := by
  cases strict with
  | false => exact h
  | true =>
    simp only [Failed, Log.hasErrors, Log.errorCount, Log.count, decide_eq_true_eq,
      gt_iff_lt, Array.countP_pos_iff] at h ⊢
    obtain ⟨d, hd, he⟩ := h
    refine ⟨{ d with severity := d.severity.promoted }, Array.mem_map.2 ⟨d, hd, rfl⟩, ?_⟩
    rw [eq_of_beq he]
    rfl

lemma Accepts.not_failed {o : Outcome} (h : o.Accepts m) : ¬ o.analysis.Failed := by
  obtain ⟨strict, hs⟩ := h.clean
  intro hf
  rw [hasErrors_log hf strict] at hs
  cases hs

lemma Accepts.reads {features : Features} {library : Library}
    (h : (ofSource features library source).Accepts m) :
    ReadsModule (.start features library) m (ofSource features library source).analysis := by
  obtain ⟨m', hm, hr⟩ := Outcome.reads h.not_failed
  rw [h.module] at hm
  cases hm
  exact hr

lemma Accepts.scoped {features : Features} {library : Library}
    (h : (ofSource features library source).Accepts m) : ∃ low,
    m.Scoped (ofSource features library source).store low :=
  h.reads.scoped (opened_start features library)

end Outcome
end Oberon
