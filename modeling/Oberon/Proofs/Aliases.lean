import Oberon.Proofs.Libraries

/-!
# Oberon.Proofs.Aliases

What a name means that is qualified by the alias of an imported module. Each entry of an import list gives
its alias to its module, whatever the alias stood for before. So an alias stands for the module of the last
entry that has it, and what it qualifies are the exports of that module.
-/

namespace Oberon

open Analyze Interface List

/-- The scopes once the modules of an import list are known by their aliases. -/
structure Scopes.Links (s : Scopes) (library : Library) (own : String) (is : List Import) : Prop where
  aliases : s.aliases = (is.map fun i => (i.localName, i.module)).reverse ++ [(own, own)]
  modules : ∀ name, s.hasModule name = true ↔ ∃ i ∈ is, i.module = name
  fresh : ∀ e ∈ s.exports, s.hasModule e.1.1 = true
  exports : ∀ i ∈ is, ∃ interface, library.find? i.module = some interface ∧
    ∀ name, (∃ id, ((i.module, name), id) ∈ s.exports) ↔ ∃ e ∈ interface.exports, e.name = name

/-- One more module is imported. -/
lemma Scopes.Links.concat {s : Scopes} (h : s.Links library own is) {ids : List DeclId}
    (hfind : library.find? i.module = some interface) (hnew : s.hasModule i.module = false)
    (hlength : interface.exports.length = ids.length) :
    ({ s with
      modules := i.module :: s.modules
      exports := ((interface.exports.zip ids).map fun p => ((i.module, p.1.name), p.2)).reverse ++ s.exports
      aliases := (i.localName, i.module) :: s.aliases } : Scopes).Links library own (is ++ [i]) := by
  refine ⟨by simp [h.aliases], fun name => ?_, fun e he => ?_, fun j hj => ?_⟩
  · simp only [hasModule, contains_cons, Bool.or_eq_true, beq_iff_eq, mem_append,
      mem_singleton, or_and_right, exists_or, exists_eq_left, ← h.modules]
    rw [or_comm, eq_comm (a := name)]
  · simp only [mem_append, mem_reverse, mem_map] at he
    simp only [hasModule, contains_cons, Bool.or_eq_true, beq_iff_eq]
    rcases he with ⟨p, _, rfl⟩ | he
    · exact .inl rfl
    · exact .inr (h.fresh e he)
  · simp only [mem_append, mem_reverse, mem_map, Prod.mk.injEq]
    rcases mem_append.1 hj with hj | hj
    · obtain ⟨other, hother, hexports⟩ := h.exports j hj
      have hne : i.module ≠ j.module := fun he => by
        rw [he, (h.modules _).2 ⟨j, hj, rfl⟩] at hnew
        cases hnew
      simpa [hne] using ⟨other, hother, hexports⟩
    · cases mem_singleton.1 hj
      refine ⟨interface, hfind, fun name => ⟨?_, ?_⟩⟩
      · rintro ⟨id, ⟨p, hp, ⟨_, hname⟩, _⟩ | he⟩
        · exact ⟨p.1, (of_mem_zip hp).1, hname⟩
        · exact absurd (h.fresh _ he) (by simp [hnew])
      · rintro ⟨e, he, rfl⟩
        rw [← map_fst_zip (Nat.le_of_eq hlength), mem_map] at he
        obtain ⟨p, hp, rfl⟩ := he
        exact ⟨p.2, .inl ⟨p, hp, ⟨rfl, rfl⟩, rfl⟩⟩

lemma Analyze.links_importModule (h : b.scopes.Links b.library own is) (span rename)
    (ident : Ident) : (importModule span rename ident is).Ensures b fun v c => c.library =
    b.library ∧ ∀ i, v = some i → c.scopes.Links b.library own (is ++ [i]) := by
  refine .otherwise fun hnew => .get (.otherwise ?_)
  intro _
  have hnew : ¬ ∃ i ∈ is, i.module = ident.name := by simpa using hnew
  rw [← h.modules, Bool.not_eq_true] at hnew
  unfold makeKnown
  refine .bind (P := fun known c => known = true → c.library = b.library ∧ ∃ interface ids,
    b.library.find? ident.name = some interface ∧ interface.exports.length = ids.length ∧
    c.scopes = { b.scopes with
      modules := ident.name :: b.scopes.modules
      exports := ((interface.exports.zip ids).map fun p => ((ident.name, p.1.name), p.2)).reverse ++
        b.scopes.exports }) (.get ?_) fun known c hc => ?_
  · simp only [hnew, Bool.false_eq_true, if_false]
    split
    · exact .pure fun _ h => by cases h
    · next interface hfind =>
      obtain ⟨ids, r, hbrings, hrun⟩ := interface.importInto_brings b.store b.scopes
      refine fun _ _ => ⟨rfl, interface, ids, hfind, hbrings.length, ?_⟩
      show (interface.importInto b.store b.scopes).2 = _
      rw [hrun, (Library.find?_spec hfind).2, enterExports_eq _ _ _ (hasModule_addModule _ _)]
      simp only [Scopes.addModule, hnew, Bool.false_eq_true, if_false]
  cases known with
  | false => exact .reported
  | true =>
    obtain ⟨hlibrary, interface, ids, hfind, hlength, hscopes⟩ := hc rfl
    refine fun _ => ⟨hlibrary, fun i hi => ?_⟩
    cases hi
    show (c.scopes.addAlias _ _).Links _ _ _
    rw [hscopes]
    exact h.concat (i := ⟨_, ident.name, span⟩) hfind hnew hlength

lemma ReadsImports.links (h : ReadsImports a is b) (ha : a.scopes.Links a.library own []) :
    b.library = a.library ∧ b.scopes.Links a.library own is := by
  induction h with
  | none => exact ⟨rfl, ha⟩
  | entry span rename ident _ h ih =>
    obtain ⟨hl, hi⟩ := ih
    have := h.ensures (links_importModule (hl ▸ hi) span rename ident)
    exact ⟨this.1.trans hl, hl ▸ this.2 _ rfl⟩
  | silent _ hb ih => exact ⟨hb.library.trans ih.1, by rw [hb.scopes]; exact ih.2⟩

namespace Outcome

/-- The aliases of a module are those of its import list. -/
lemma Accepts.links (h : (ofSource features library source).Accepts m) :
    (ofSource features library source).analysis.scopes.Links library m.name m.imports := by
  obtain ⟨b, c, d, hb, hi, hblock, hd⟩ := h.reads.stages
  have hscopes : b.scopes = { predefined := b.scopes.predefined, aliases := [(m.name, m.name)] } := by
    rw [hb.scopes, show (Analysis.start features library).scopes = _ from Universe.standard_scopes]
    rfl
  have hstart : b.scopes.Links b.library m.name [] := by
    rw [hscopes]
    exact ⟨rfl, by simp [Scopes.hasModule], by simp, by simp⟩
  have hlinks := (hi.links hstart).2
  have hopened := hi.imports.opened ((Analysis.opened_start features library).begins hb)
  obtain ⟨new, hnew, _⟩ := (hblock.reads hopened.regular).continues.scopes
  rw [hd.scopes, hnew, ← show b.library = library from hb.library]
  exact ⟨hlinks.aliases, hlinks.modules, hlinks.fresh, hlinks.exports⟩

/-- A name that the alias of an import qualifies means what its module exports under the name, or nothing,
provided that no later import has the alias. -/
theorem alias_finds_export {before after : List Import} (h : (ofSource features library source).Accepts m)
    (hm : m.imports = before ++ i :: after) (hlast : ∀ j ∈ after, j.localName ≠ i.localName) (name : String)
    (span : Span) :
    let scopes := (ofSource features library source).analysis.scopes
    scopes.lookup ⟨some i.localName, name, span⟩ = scopes.lookupInModule i.module name ∧
    ∃ interface, library.find? i.module = some interface ∧
      ((scopes.lookupInModule i.module name).isSome = true ↔ ∃ e ∈ interface.exports, e.name = name) := by
  intro scopes
  have hlinks : scopes.Links library m.name m.imports := h.links
  have hi : i ∈ m.imports := by simp [hm]
  have hmodule : scopes.hasModule i.module = true := (hlinks.modules _).2 ⟨i, hi, rfl⟩
  have halias : scopes.aliases.lookup i.localName = some i.module := by
    have hafter : (after.map fun j => (j.localName, j.module)).reverse.lookup i.localName = none := by
      simpa [lookup_eq_none_iff] using fun j hj h => hlast j hj h.symm
    rw [hlinks.aliases, hm]
    simp [lookup_append, hafter]
  obtain ⟨interface, hfind, hexports⟩ := hlinks.exports i hi
  refine ⟨by simp only [Scopes.lookup, halias, hmodule, if_true], interface, hfind, ?_⟩
  rw [Scopes.lookupInModule, if_pos hmodule, ← hexports, Option.isSome_iff_exists]
  constructor
  · rintro ⟨id, hid⟩
    exact ⟨id, mem_of_lookup hid⟩
  · rintro ⟨id, hid⟩
    cases hl : scopes.exports.lookup (i.module, name) with
    | some id => exact ⟨id, rfl⟩
    | none => exact absurd (mem_map_of_mem hid) (Store.lookup_eq_none hl)

/-- A library of two modules with an exported variable each. -/
def twoVariables : Library := (({} : Library).compiled "MODULE A; VAR a*: INTEGER; END A.").compiled
  "MODULE B; VAR b*: INTEGER; END B."

/-- One alias stands for two modules, one after the other. -/
def reusedAlias : String := "MODULE C; IMPORT X := A, X := B; END C."

lemma reusedAlias_eval : (ofSource {} twoVariables reusedAlias).acceptsWith (fun o m =>
    m.imports.map (fun i => (i.localName, i.module)) == [("X", "A"), ("X", "B")] &&
    (o.analysis.scopes.lookup ⟨some "X", "a", ⟨0, 0⟩⟩).isNone &&
    (o.analysis.scopes.lookupInModule "A" "a").isSome) := by
  decide +kernel

lemma reusedAlias_spec : ∃ m, (ofSource {} twoVariables reusedAlias).Accepts m ∧ ∃ i j,
    m.imports = [i, j] ∧ (i.localName = "X" ∧ i.module = "A") ∧ j.localName = "X" ∧
    ((ofSource {} twoVariables reusedAlias).analysis.scopes.lookup ⟨some "X", "a", ⟨0, 0⟩⟩).isNone ∧
    ((ofSource {} twoVariables reusedAlias).analysis.scopes.lookupInModule "A" "a").isSome := by
  obtain ⟨m, h, htest⟩ := exists_of_acceptsWith reusedAlias_eval
  simp only [Bool.and_eq_true, beq_iff_eq, map_eq_cons_iff, map_eq_nil_iff,
    Prod.mk.injEq] at htest
  obtain ⟨⟨⟨i, _, hm, hi, j, _, rfl, hj, rfl⟩, hnone⟩, hsome⟩ := htest
  exact ⟨m, h, i, j, hm, hi, hj.1, hnone, hsome⟩

theorem alias_finds_export_latest : ∃ m, (ofSource {} twoVariables reusedAlias).Accepts m ∧
    ∃ i j, m.imports = [i, j] ∧ j.localName = "X" ∧
    (ofSource {} twoVariables reusedAlias).analysis.scopes.lookup ⟨some j.localName, "b", ⟨0, 0⟩⟩ =
    (ofSource {} twoVariables reusedAlias).analysis.scopes.lookupInModule j.module "b" := by
  obtain ⟨m, h, i, j, hm, _, hj, _⟩ := reusedAlias_spec
  have hlast : m.imports = [i] ++ j :: [] := hm
  exact ⟨m, h, i, j, hm, hj, (alias_finds_export h hlast (fun _ h => by cases h) "b" ⟨0, 0⟩).1⟩

/-- The earlier of two imports with one alias loses its exports. -/
theorem reusedAlias_loses_export : ∃ m, (ofSource {} twoVariables reusedAlias).Accepts m ∧
    ∃ i ∈ m.imports, i.module = "A" ∧
    (ofSource {} twoVariables reusedAlias).analysis.scopes.lookup ⟨some i.localName, "a", ⟨0, 0⟩⟩ ≠
    (ofSource {} twoVariables reusedAlias).analysis.scopes.lookupInModule "A" "a" := by
  obtain ⟨m, h, i, j, hm, ⟨hi, hmodule⟩, _, hnone, hsome⟩ := reusedAlias_spec
  refine ⟨m, h, i, by simp [hm], hmodule, fun heq => ?_⟩
  rw [← hi, heq, Option.isNone_iff_eq_none] at hnone
  simp [hnone] at hsome

end Outcome
end Oberon
