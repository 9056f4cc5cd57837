import Oberon.Proofs.Interfaces

/-!
# Oberon.Proofs.Libraries

Libraries that come about by compiling modules one after the other, and what a module finds in its store
after importing from one. Each import has types of its own: what an imported record, pointer or
procedure type refers to comes from the same import, and no two imports share a type.
-/

namespace Oberon

open Interface

variable {library : Library} {i : Interface}

namespace Library

/-- Only interfaces of accepted modules, each compiled against the library of its time. -/
inductive Built : Library → Prop
  | empty : Built {}
  | insert {library : Library} (hl : Built library) (h : (Outcome.ofSource features library source).Accepts m) :
      Built (library.insert (ofModule (Outcome.ofSource features library source).store m))

/-- What a module hands on to its interface holds of all interfaces. -/
lemma Built.all {P : Interface → Prop}
    (hstep : ∀ features (library : Library) source m, library.Built → (∀ i ∈ library.interfaces,
     P i) → (Outcome.ofSource features library source).Accepts m →
     P (ofModule (Outcome.ofSource features library source).store m)) (h : library.Built) :
    ∀ i ∈ library.interfaces, P i := by
  induction h with
  | empty => exact fun i hi => by cases hi
  | insert hl h ih =>
    exact List.forall_mem_cons.2 ⟨hstep _ _ _ _ hl ih h, fun i hi => ih i (List.mem_filter.1 hi).1⟩

lemma find?_spec {name : String} (h : library.find? name = some i) : i ∈ library.interfaces ∧
    i.name = name := by
  refine ⟨List.mem_of_find?_eq_some h, ?_⟩
  simpa using List.find?_some h

end Library

/-! ## Compiling in order -/

/-- The interface of a module whose declarations are listed in their order. -/
def Interface.inOrder (s : Store) (m : Module) : Interface :=
  let r := visitExports s ((m.block.members []).filter fun id => (s.decl id).exported) {}
  { name := m.name, exports := r.1, types := r.2.items }

lemma Interface.ofModule_eq_inOrder {m : Module}
    (h : ((m.block.members []).filter fun id => (s.decl id).exported).Pairwise fun a b => a.index ≤
     b.index) : ofModule s m = inOrder s m := by
  have hids : exportedIds s m.block =
      (m.block.members []).filter fun id => (s.decl id).exported := by
    rw [members_eq] at h ⊢
    exact List.mergeSort_of_pairwise (h.imp fun h => by simpa using h)
  simp only [ofModule, inOrder, hids]
  rfl

namespace Library

/-- The library once a source was compiled. -/
def compiled (l : Library) (source : String) : Library :=
  match (Outcome.ofSource {} l source).module with
  | none => l
  | some m => l.insert (inOrder (Outcome.ofSource {} l source).store m)

/-- A source that is accepted and declares what it exports in order. -/
def compiles (l : Library) (source : String) : Bool :=
  (Outcome.ofSource {} l source).acceptsWith fun o m =>
    decide (((m.block.members []).filter fun id => (o.store.decl id).exported).Pairwise
      fun a b => a.index ≤ b.index)

lemma Built.compiled {l : Library} (hl : l.Built) (h : l.compiles source) : (l.compiled source).Built := by
  obtain ⟨m, haccepts, horder⟩ := Outcome.exists_of_acceptsWith h
  rw [Library.compiled, haccepts.module]
  dsimp only
  rw [← ofModule_eq_inOrder (of_decide_eq_true horder)]
  exact .insert hl haccepts

end Library

/-! ## Interfaces of a library -/

/-- The interface of some closed store. -/
def Interface.Genuine (i : Interface) : Prop := ∃ s ids t, s.Closed ∧ Depicts s ids t i

lemma Library.Built.genuine (h : library.Built) : ∀ i ∈ library.interfaces, i.Genuine := by
  refine h.all fun features library source m _ _ h => ?_
  obtain ⟨t, hdep⟩ := h.depicts
  exact ⟨_, _, t, h.closed, hdep⟩

/-! ## The types of imports -/

/-- A copy of a record, pointer or procedure type refers to copies. -/
lemma Interface.IsFinished.parts (h : IsFinished i s copied place k)
    (hf : s.form? (.composite k) = some f) (harray : ∀ a, f ≠ .array a)
    (hj : .composite j ∈ s.parts f) : ∃ p, copied p j := by
  obtain ⟨item, entry, h⟩ := h
  have hentry : entry.form = f := by simpa [Store.form?, Store.entry?, h.entry_eq] using hf
  have hcopies {v} (hv : Copies copied (.composite j) v) : ∃ p, copied p j := by
    cases v with
    | composite p =>
      obtain ⟨k, hk, heq⟩ := hv
      cases heq
      exact ⟨p, hk⟩
    | _ => cases hv
  have hoption {u v} (h : Option.Rel (Copies copied) u v)
      (hj : .composite j ∈ u.toList) : ∃ p, copied p j := by
    cases h with
    | some h =>
      cases List.mem_singleton.1 hj
      exact hcopies h
    | none => cases hj
  have hmembers {α : Type} {g : α → Ty} {R : DeclId → α → Prop} {ids} {xs : List α}
      (h : List.Forall₂ R ids xs) (hR : ∀ id x, R id x → Copies copied (s.typeOf id) (g x))
      (hj : .composite j ∈ ids.map s.typeOf) : ∃ p, copied p j := by
    obtain ⟨id, hid, heq⟩ := List.mem_map.1 hj
    obtain ⟨x, _, hx⟩ := exists_of_forall₂ h.flip hid
    exact hcopies (heq ▸ hR id x hx)
  have hshows := h.shows
  rw [hentry] at hshows
  generalize item.shape = shape at hshows
  cases hshows with
  | array => exact absurd rfl (harray _)
  | record hb hfields =>
    rcases List.mem_append.1 hj with hj | hj
    · exact hoption hb hj
    · exact hmembers (g := Field.type) hfields (fun _ _ h => h.2.2) hj
  | pointer hb => exact hoption hb hj
  | procedure hp hr =>
    rcases List.mem_append.1 hj with hj | hj
    · exact hmembers (g := Param.type) hp (fun _ _ h => h.2.2) hj
    · exact hoption hr hj

/-- `region module k` says that the type `k` was made for the import of `module`. -/
structure Regions (s : Store) (exports : List ((String × String) × DeclId))
    (region : String → Nat → Prop) : Prop where
  exports : ∀ e ∈ exports, e.2.index < s.decls.size ∧
    (s.decl e.2).role ≠ .procedure .defined ∧ ∀ k, s.typeOf e.2 = .composite k → region e.1.1 k
  bounded : ∀ module k, region module k → k < s.types.size
  disjoint : ∀ module module' k, region module k → region module' k → module = module'
  parts : ∀ module k f, region module k → s.form? (.composite k) = some f →
    (∀ a, f ≠ .array a) → ∀ j, .composite j ∈ s.parts f → region module j

/-- An import adds a region of its own. -/
lemma Regions.importInto {scopes : Scopes} (h : Regions s scopes.exports region) (hs : s.Closed)
    (hi : i.Genuine) : ∃ new : Nat → Prop, (∀ k, new k → s.types.size ≤ k) ∧
    Regions (i.importInto s scopes).1 (i.importInto s scopes).2.exports fun module k => region
     module k ∨ module = i.name ∧ new k := by
  obtain ⟨s0, ids0, t, hclosed, hdep⟩ := hi
  obtain ⟨ids, copied, r, hrun, _, hadv, hfinished, hexports⟩ := hdep.copies hclosed s scopes
  have hpres : s.Preserves r.store := hadv.preserves
  have hnew (k) (hk : ∃ p, copied p k) : s.types.size ≤ k := by
    obtain ⟨p, hk⟩ := hk
    exact ((hadv.fresh p k hk).resolve_left id).1
  rw [hrun]
  refine ⟨fun k => ∃ p, copied p k, hnew, fun e he => ?_, ?_, ?_, ?_⟩
  · rw [enterExports_eq _ _ _ (hasModule_addModule _ _), List.mem_append, List.mem_reverse] at he
    rcases he.symm with he | he
    · rw [exports_addModule] at he
      obtain ⟨hlt, hrole, htype⟩ := h.exports e he
      rw [hpres.typeOf hlt, hpres.decl _ hlt]
      exact ⟨hpres.lt hlt, hrole, fun k hk => .inl (htype k hk)⟩
    · obtain ⟨⟨x, id⟩, hx, rfl⟩ := List.mem_map.1 he
      have hcopy := (List.forall₂_iff_zip.1 hexports.flip).2 hx
      refine ⟨hcopy.lt, hcopy.role, fun k hk => .inr ⟨rfl, ?_⟩⟩
      have htype := hcopy.type
      rw [hk] at htype
      cases hx : x.type with
      | composite p =>
        rw [hx] at htype
        obtain ⟨j, hj, heq⟩ := htype
        cases heq
        exact ⟨p, hj⟩
      | _ =>
        rw [hx] at htype
        cases htype
  · rintro module k (hk | ⟨_, p, hk⟩)
    · exact Nat.lt_of_lt_of_le (h.bounded module k hk) hpres.types_le
    · exact (hfinished p k hk).lt
  · rintro module module' k (hk | ⟨hm, hk⟩) (hk' | ⟨hm', hk'⟩)
    · exact h.disjoint module module' k hk hk'
    · exact absurd (h.bounded module k hk) (Nat.not_lt_of_le (hnew k hk'))
    · exact absurd (h.bounded module' k hk') (Nat.not_lt_of_le (hnew k hk))
    · rw [hm, hm']
  · rintro module k f (hk | ⟨hm, p, hk⟩) hf harray j hj
    · rw [hpres.form? (.composite (h.bounded module k hk))] at hf
      rw [hpres.parts (hs.fits _ f hf).members] at hj
      exact .inl (h.parts module k f hk hf harray j hj)
    · exact .inr ⟨hm, (hfinished p k hk).parts hf harray hj⟩

/-- The imports of a module that is compiled against a library. -/
lemma Analysis.Imports.regions {a b : Analysis} (h : a.Imports b) (ha : a.store.Closed)
    (hexports : a.scopes.exports = []) (hl : a.library.Built) : ∃ region,
    Regions b.store b.scopes.exports region ∧ ∀ module k, region module k →
    b.scopes.hasModule module := by
  induction h with
  | refl =>
    refine ⟨fun _ _ => False, ⟨?_, ?_, ?_, ?_⟩, fun _ _ h => h.elim⟩
    · rw [hexports]
      exact fun e he => by cases he
    · exact fun _ _ h => h.elim
    · exact fun _ _ _ h => h.elim
    · exact fun _ _ _ h => h.elim
  | @module b name i h hi hnew hself ih =>
    obtain ⟨region, hregion, hhas⟩ := ih
    rw [h.library] at hi
    obtain ⟨hmem, hname⟩ := Library.find?_spec hi
    obtain ⟨new, hbound, hregion'⟩ := hregion.importInto (h.closed ha) (hl.genuine i hmem)
    refine ⟨_, hregion', ?_⟩
    obtain ⟨ids, r, _, hrun⟩ := i.importInto_brings b.store b.scopes
    rw [hrun, enterExports_eq _ _ _ (hasModule_addModule _ _)]
    rintro module k (hk | ⟨rfl, hk⟩)
    · exact hasModule_addModule_of (hhas module k hk) _
    · exact hasModule_addModule _ _
  | renamed _ _ _ ih => exact ih
  | silent _ hs ih =>
    rw [hs.store, hs.scopes]
    exact ih

/-- The block of a module changes nothing of what was imported. -/
lemma Regions.builds {s' : Store} {exports : List ((String × String) × DeclId)} {strict : Prop}
    (h : Regions s exports region) (hs : s.Closed) (hb : s.Builds module s.types.size strict s') :
    Regions s' exports region := by
  refine ⟨fun e he => ?_, fun m k hk => Nat.lt_of_lt_of_le (h.bounded m k hk) hb.types_le,
    h.disjoint, fun m k f hk hf harray j hj => ?_⟩
  · obtain ⟨hlt, hrole, htype⟩ := h.exports e he
    rw [hb.typeOf_eq hlt hrole, hb.decl hlt]
    exact ⟨hb.lt hlt, hrole, htype⟩
  · have hk' := h.bounded m k hk
    obtain ⟨g, hg⟩ := Store.form?_of_has hk'
    rw [hb.form_eq hg (.inl hk')] at hf
    cases hf
    rw [hb.parts_eq (hs.fits _ f hg).members] at hj
    exact h.parts m k f hk hg harray j hj

/-- The store of an accepted module is made of the regions of its imports, and of what it declares
itself. -/
lemma Outcome.Accepts.regions (h : (Outcome.ofSource features library source).Accepts m)
    (hl : library.Built) : ∃ region,
    Regions (Outcome.ofSource features library source).store (Outcome.ofSource features library
     source).analysis.scopes.exports region := by
  obtain ⟨b, c, hb, hi, hopened, hreads, hphase⟩ := h.phases
  have hbuilds := hphase False False.elim
  have hexports : b.scopes.exports = [] := by
    rw [hb.scopes]
    show Universe.standard.scopes.exports = []
    rw [Universe.standard_scopes]
  obtain ⟨region, hregion, _⟩ := hi.regions hb.closed hexports (by rw [hb.library]; exact hl)
  refine ⟨region, ?_⟩
  obtain ⟨new, hscopes, _⟩ := hreads.continues.scopes
  rw [hscopes]
  exact hregion.builds hopened.closed hbuilds.store

end Oberon
