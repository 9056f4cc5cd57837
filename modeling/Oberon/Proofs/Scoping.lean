import Oberon.Lifting.Procedure
import Oberon.Proofs.Arising

/-!
# Oberon.Proofs.Scoping

The scopes that names of a module without errors are in. Statements refer to nothing but what is
declared in the block they belong to or in one around it, and every block declares what it lists.
-/

namespace Oberon

open Analyze Analysis

variable {a b c : Analysis} {p : SectionPhrase}

/-! ## Statements -/

/-- What expressions refer to is declared. -/
def Scopes.KnowsAll (s : Scopes) (uses : List (Use × Expr)) : Prop :=
  ∀ u ∈ uses, ∀ id ∈ u.2.roots, s.Knows id

lemma Analysis.Continues.knowsAll (h : a.Continues ids b) (hk : a.scopes.KnowsAll uses) :
    b.scopes.KnowsAll uses :=
  fun u hu id hid => (h.knows_iff id).2 (.inl (hk u hu id hid))

lemma Analysis.Restores.continues (h : a.Restores b) : a.Continues [] b := by
  rw [h]
  exact .of_store (.refl _) (fun _ _ h => h) rfl

lemma Analyze.Calls.knows (h : Calls a span ident chain e)
    (hc : ∀ id ∈ Selector.rootsOf chain, a.scopes.Knows id) : ∀ id ∈ e.roots,
    a.scopes.Knows id := by
  have hroots {id out type}
      (hid : a.scopes.lookup ident = some id)
      (h : Resolves a id (a.store.typeOf id) chain out type) :
      ∀ r ∈ id :: Selector.rootsOf out, a.scopes.Knows r :=
    List.forall_mem_cons.2 ⟨Scopes.knows_of_lookup hid, fun r hr => hc r (h.roots_subset hr)⟩
  cases h with
  | bare hid h _ _ _ _ => simpa using hroots hid h
  | call hid h _ => exact hroots hid h

lemma Use.Arises.knows (h : Use.Arises a use) : ∀ id ∈ use.2.roots, a.scopes.Knows id := by
  cases h with
  | read _ h =>
    obtain ⟨x, hx, hadapts⟩ := h
    rw [hadapts.roots]
    exact (hx.visible : x.Visible a).knows
  | called hc h => exact h.knows (Selector.knows_rootsOf fun s hs => (hc s hs).visible)

/-- Statements refer to what is in the scopes. -/
lemma ReadsStatement.knows_uses (h : ReadsStatement a (.statements body) b) (hr : a.Regular) :
    a.scopes.KnowsAll (Statement.usesOf body) := by
  intro u hu
  obtain ⟨s, hs, hu⟩ := List.mem_flatMap.1 hu
  have hframed : a.Framed False := ⟨False.elim, False.elim, by simp [hr.cases]⟩
  obtain ⟨c, hc, hformed⟩ := (h.arises hframed).forms s hs
  obtain ⟨d, hd, harises⟩ := hformed.arises u hu
  rw [← hc.scopes, ← hd.scopes]
  exact harises.knows

/-! ## Sections -/

namespace Store

variable {s s' : Store}

/-- Constants have values. -/
def Constants (s : Store) (ids : List DeclId) : Prop :=
  ∀ id ∈ ids, id.index < s.decls.size ∧ ∃ value, (s.decl id).role = .constant (some value)

def TypeNames (s : Store) (ids : List DeclId) : Prop :=
  ∀ id ∈ ids, id.index < s.decls.size ∧ (s.decl id).isType

/-- Declarations whose names have no underscores. -/
def Plain (s : Store) (ids : List DeclId) : Prop :=
  ∀ id ∈ ids, id.index < s.decls.size ∧ IsPlain (s.decl id).name

/-- The variables of a block in their order. -/
def Variables (s : Store) (ids : List DeclId) : Prop := ∀ i id, ids[i]? = some id →
    id.index < s.decls.size ∧ (s.decl id).role = .variable i ∧ IsWord (s.decl id).name

lemma Grows.constants (h : s.Grows s') (hc : s.Constants ids) : s'.Constants ids := by
  intro id hid
  obtain ⟨hlt, hrole⟩ := hc id hid
  exact ⟨h.lt hlt, by rw [h.decl id hlt]; exact hrole⟩

lemma Grows.typeNames (h : s.Grows s') (hc : s.TypeNames ids) : s'.TypeNames ids := by
  intro id hid
  obtain ⟨hlt, hrole⟩ := hc id hid
  exact ⟨h.lt hlt, by rw [h.decl id hlt]; exact hrole⟩

lemma Plain.grows (h : s.Plain ids) (hg : s.Grows s') : s'.Plain ids :=
  fun id hid => ⟨hg.lt (h id hid).1, by rw [hg.name (h id hid).1]; exact (h id hid).2⟩

lemma Grows.variables (h : s.Grows s') (hv : s.Variables ids) : s'.Variables ids := by
  intro i id hi
  obtain ⟨hlt, hrole, hname⟩ := hv i id hi
  exact ⟨h.lt hlt, by rw [h.role hlt, hrole], by rw [h.name hlt]; exact hname⟩

end Store

def SectionPhrase.ids : SectionPhrase → List DeclId
  | .constants ids | .types ids | .vars ids => ids

/-- A section lists what it declares. -/
def SectionPhrase.Listed (s : Store) : SectionPhrase → Prop
  | .constants ids => s.Constants ids
  | .types ids => s.TypeNames ids
  | .vars ids => s.Variables ids

lemma SectionPhrase.Listed.grows (h : p.Listed s) (hg : s.Grows s') : p.Listed s' := by
  cases p with
  | constants ids => exact hg.constants h
  | types ids => exact hg.typeNames h
  | vars ids => exact hg.variables h

/-- What reading a section does. -/
structure SectionPhrase.Reads (a : Analysis) (p : SectionPhrase) (b : Analysis) : Prop where
  continues : a.Continues p.ids b
  spread : Spread a.store.decls.size b.store.decls.size p.ids
  listed : p.Listed b.store
  plain : b.store.Plain p.ids

lemma Analysis.Declares.spread {d : Declaration} {id : DeclId} (h : a.Declares d id b) :
    Spread a.store.decls.size b.store.decls.size [id] := by
  exact .singleton (Nat.le_of_eq (by rw [h.place])) h.lt

lemma SectionPhrase.Reads.later (h : p.Reads a b) (hc : b.Continues [] c) : p.Reads a c where
  continues := h.continues.followed hc
  spread := h.spread.mono (Nat.le_refl _) hc.grows.decls_le
  listed := h.listed.grows hc.grows
  plain := h.plain.grows hc.grows

lemma SectionPhrase.Reads.declares {q : SectionPhrase} {d : Declaration} {id : DeclId}
    (h : p.Reads a b) (hd : b.Declares d id c) (hn : IsPlain d.name) (hids : q.ids = p.ids ++ [id])
    (hq : q.Listed c.store) : q.Reads a c := by
  refine ⟨?_, ?_, hq, ?_⟩ <;> rw [hids]
  · exact h.continues.trans hd.continues
  · exact h.spread.append hd.spread h.continues.grows.decls_le hd.continues.grows.decls_le
  · exact List.forall_mem_append.2 ⟨h.plain.grows hd.continues.grows,
      List.forall_mem_singleton.2 ⟨hd.lt, by rw [hd.decl]; exact hn⟩⟩

lemma ReadsSection.reads (h : ReadsSection a p b) : p.Reads a b := by
  induction h with
  | noConstants a => exact ⟨.refl a, .nil _ _, nofun, nofun⟩
  | constant ident hn _ _ hb h ih =>
    obtain ⟨literal, _, hd⟩ := h.ensures (declareConstant_ensures ident _)
    have ih := ih.later hb.continues
    refine ih.declares hd hn rfl ?_
    exact List.forall_mem_append.2 ⟨hd.continues.grows.constants ih.listed,
      List.forall_mem_singleton.2 ⟨hd.lt, literal, by rw [hd.decl]; rfl⟩⟩
  | noTypes a => exact ⟨.refl a, .nil _ _, nofun, nofun⟩
  | type ident hn _ ht h ih =>
    have hd := h.ensures (declareType_ensures ident _)
    have ih := ih.later ht.continues
    refine ih.declares hd hn rfl ?_
    exact List.forall_mem_append.2 ⟨hd.continues.grows.typeNames ih.listed,
      List.forall_mem_singleton.2 ⟨hd.lt, by rw [hd.decl]; rfl⟩⟩
  | pointer ident hn _ hp hd h ih =>
    obtain ⟨hcp, hpointer⟩ := beginPointer_spec hp
    have hd := hd.ensures (declareType_ensures ident _)
    have ih := ih.later hcp
    have hlast : Continues [] _ _ := h.continues (hd.continues.grows.isPointer hpointer)
    refine (ih.declares hd hn rfl ?_).later hlast
    exact List.forall_mem_append.2 ⟨hd.continues.grows.typeNames ih.listed,
      List.forall_mem_singleton.2 ⟨hd.lt, by rw [hd.decl]; rfl⟩⟩
  | noVars a => exact ⟨.refl a, .nil _ _, nofun, nofun⟩
  | @vars _ _ _ _ _ _ d names _ ht hn h ih =>
    obtain ⟨new, rfl, hadds⟩ := h.ensures (Grammar.declareVariables_ensures _ names _ _)
    have ih := ih.later ht.continues
    have hplain : d.store.Plain new := by
      intro id hid
      obtain ⟨i, hi⟩ := List.getElem?_of_mem hid
      obtain ⟨ident, hident, hdecl⟩ := hadds.decl i id hi
      refine ⟨(hadds.spread.bounds id hid).2, ?_⟩
      rw [hdecl]
      exact hn ident (List.mem_of_getElem? hident)
    refine ⟨ih.continues.trans hadds.continues, ih.spread.append hadds.spread
      ih.continues.grows.decls_le hadds.continues.grows.decls_le, fun i id hi => ?_,
      List.forall_mem_append.2 ⟨ih.plain.grows hadds.continues.grows, hplain⟩⟩
    rw [List.getElem?_append] at hi
    split at hi
    · exact hadds.continues.grows.variables ih.listed i id hi
    · obtain ⟨ident, hident, hdecl⟩ := hadds.decl _ id hi
      obtain ⟨hlt, hname⟩ := hplain id (List.mem_of_getElem? hi)
      refine ⟨hlt, ?_, hname.word⟩
      rw [hdecl]
      simp only [declaration]
      congr
      omega
  | silent hb _ hd ih =>
    have ih := ih.later hd.continues
    refine ⟨hb.continues.trans ih.continues, ?_, ih.listed, ih.plain⟩
    rw [← hb.store]
    exact ih.spread

end Oberon
