import Oberon.Proofs.Accepted
import Oberon.Proofs.Arising
import Oberon.Proofs.Bases
import Oberon.Proofs.Flattening

/-!
# Oberon.Proofs.Blocks

The states in which the blocks of an accepted module are read. Each body, at any depth of nesting, is
read in a state that lies between the imports of the module and the end of it, so that what holds of
a body in the state before it can be said of every body of the module.
-/

namespace Oberon

open Analyze Analysis List ReadsBlock

variable {start a b c : Analysis} {s s' : Store}

/-! ## Names -/

/-- The names of what a module declares itself. -/
def Module.names (s : Store) (m : Module) : List String :=
  (m.block.members []).map fun id => (s.decl id).name

lemma Analysis.Continues.nodup_names (h : a.Continues ids b) (hb : b.store.Lists b.scopes.inner) :
    (ids.map fun id => (b.store.decl id).name).Nodup := by
  obtain ⟨new, hscopes, hids⟩ := h.scopes
  rw [hscopes] at hb
  have hnames : new.map Prod.fst = ids.reverse.map fun id => (b.store.decl id).name := by
    rw [← hids, map_map]
    exact map_congr_left fun e he => (hb.names e (mem_append_left _ he)).2.symm
  have hn := hb.nodup
  rw [map_append, nodup_append, hnames, map_reverse, nodup_reverse] at hn
  exact hn.1

/-- Declarations with different names that have no underscores. -/
structure Store.Titled (s : Store) (ids : List DeclId) : Prop where
  nodup : (ids.map fun id => (s.decl id).name).Nodup
  plain : s.Plain ids

lemma Store.Titled.grows (h : s.Titled ids) (hg : s.Grows s') : s'.Titled ids :=
  ⟨by rw [map_congr_left fun id hid => hg.name (h.plain id hid).1]; exact h.nodup, h.plain.grows hg⟩

/-- A tree of procedures whose names have no underscores, those in the same procedure being
different. -/
inductive Procedure.Named (s : Store) : Procedure → Prop
  | mk {id : DeclId} {block : Block} (hlt : id.index < s.decls.size)
      (hp : IsPlain (s.decl id).name)
      (hd : (block.procedures.map fun q => (s.decl q.decl).name).Nodup)
      (hn : ∀ q ∈ block.procedures, Named s q) : Named s (.mk id block)

lemma Procedure.Named.plain {p : Procedure} (h : p.Named s) : p.decl.In s ∧
    IsPlain (s.decl p.decl).name := by
  cases h with
  | mk hlt hp hd hn => exact ⟨hlt, hp⟩

/-- The names of a module that was accepted. -/
structure Module.Named (s : Store) (m : Module) : Prop extends s.Titled (m.block.members []) where
  trees : ∀ p ∈ m.block.procedures, p.Named s

/-! ## Bodies -/

/-- `P` holds of the block of every procedure in a tree, external ones apart. -/
inductive Procedure.Everywhere (s : Store) (P : DeclId → Block → Prop) : Procedure → Prop
  | external {id : DeclId} (hlt : id.In s) (hp : IsPlain (s.decl id).name)
      (hr : Lifting.isExternal (s.decl id) = true) : Everywhere s P (.mk id .empty)
  | defined {id : DeclId} {block : Block} (h : P id block)
      (hn : ∀ q ∈ block.procedures, Everywhere s P q) : Everywhere s P (.mk id block)

namespace Procedure.Everywhere

variable {p : Procedure}

lemma mono (h : p.Everywhere s P) (hg : s.Grows s') (hpq : ∀ id block, P id block → Q id block) :
    p.Everywhere s' Q := by
  induction h with
  | external hlt hp hr =>
    exact .external (hg.lt hlt) (by rw [hg.name hlt]; exact hp) (by rw [hg.decl _ hlt]; exact hr)
  | defined h _ ih => exact .defined (hpq _ _ h) ih

lemma nested (h : p.Everywhere s P) (outer) (hn : n ∈ p.nestings outer) :
    n.procedure.Everywhere s P := by
  induction h generalizing outer with
  | external => cases hn
  | @defined id block _ hq ih =>
    obtain ⟨constants, types, vars, procedures, body⟩ := block
    rw [Procedure.nestings, Lifting.nestingsOf_eq_flatMap, mem_flatMap] at hn
    obtain ⟨q, hmem, hn⟩ := hn
    rcases mem_cons.1 hn with rfl | hn
    · exact hq q hmem
    · exact ih q hmem _ hn

lemma block (h : p.Everywhere s P) : p.block = .empty ∨ P p.decl p.block := by
  cases h with
  | external => exact .inl rfl
  | defined h _ => exact .inr h

end Procedure.Everywhere

/-- The body of a block is read in the state `a`, on the way from `start` to `last`. -/
structure Block.ReadIn (low : Nat) (strict : Prop) (start : Analysis) (block : Block)
    (a last : Analysis) : Prop where
  regular : a.Regular
  signatures : a.signatures = start.signatures
  before : start.Builds low strict a
  after : a.Builds low strict last
  complete : strict → start.Completes a
  grows : a.store.Grows last.store
  names : last.store.Titled (block.members [])
  entered : ∀ id ∈ block.members [], ∃ name, (name, id) ∈ a.scopes.inner
  body : ∃ b, ReadsStatement a (.statements block.body) b

lemma Block.ReadIn.later {block : Block} (h : block.ReadIn low strict start a b)
    (hb : b.Builds low strict c) (hg : b.store.Grows c.store) : block.ReadIn low strict start a c :=
  ⟨h.regular, h.signatures, h.before, h.after.trans hb, h.complete, h.grows.trans hg,
    h.names.grows hg, h.entered, h.body⟩

/-- The block is that of the procedure `id`, which is declared in a source. -/
def Block.OwnedBy (low : Nat) (strict : Prop) (start last : Analysis) (id : DeclId)
    (block : Block) : Prop :=
  ∃ a, block.ReadIn low strict start a last ∧ a.procedures.head? = some id ∧
    id.In last.store ∧ IsPlain (last.store.decl id).name ∧
    (last.store.decl id).role = .procedure .defined ∧
    ∃ sig, last.store.signature? (last.store.typeOf id) = some sig ∧
      (sig.result.isSome → returns block.body)

lemma Block.OwnedBy.later {block : Block} {id : DeclId} (h : block.OwnedBy low strict start b id)
    (hb : b.Builds low strict c) (hg : b.store.Grows c.store) :
    block.OwnedBy low strict start c id := by
  obtain ⟨a, h, howner, hlt, hplain, hrole, sig, hsig, hreturns⟩ := h
  refine ⟨a, h.later hb hg, howner, hg.lt hlt, by rw [hg.name hlt]; exact hplain,
    by rw [hb.store.decl hlt]; exact hrole, sig, ?_, hreturns⟩
  rw [Procedure.typeOf_grows hg hlt hsig]
  exact hg.signature? hsig

namespace Procedure.Everywhere

variable {p : Procedure} (h : p.Everywhere b.store (Block.OwnedBy low strict start b))

include h

lemma plain : p.decl.In b.store ∧ IsPlain (b.store.decl p.decl).name := by
  cases h with
  | external hlt hp _ => exact ⟨hlt, hp⟩
  | defined h _ =>
    obtain ⟨_, _, _, hlt, hp, _⟩ := h
    exact ⟨hlt, hp⟩

lemma named : p.Named b.store := by
  induction h with
  | external hlt hp _ => exact .mk hlt hp .nil nofun
  | @defined id block h _ ih =>
    obtain ⟨_, hread, _, hlt, hp, _⟩ := h
    obtain ⟨constants, types, vars, procedures, body⟩ := block
    have hnodup := hread.names.nodup
    rw [Block.members, map_append, nodup_append, map_map] at hnodup
    exact .mk hlt hp hnodup.2.1 ih

end Procedure.Everywhere

def BlockPhrase.ReadIn (low : Nat) (strict : Prop) (start a : Analysis) (p : BlockPhrase)
    (b : Analysis) : Prop :=
  match p with
  | .block content =>
    (∃ f, content.ReadIn low strict start f b ∧ f.procedures = a.procedures) ∧
      ∀ q ∈ content.procedures, q.Everywhere b.store (Block.OwnedBy low strict start b)
  | .procedure q => q.Everywhere b.store (Block.OwnedBy low strict start b)
  | .procedures qs => ∀ q ∈ qs, q.Everywhere b.store (Block.OwnedBy low strict start b)

lemma Block.ReadIn.framed {block : Block} (h : block.ReadIn low strict start a b) :
    a.Framed strict :=
  ⟨h.before.sound.concrete, fun _ => h.before.sound.known, by simp [h.regular.cases]⟩

lemma ReadsBlock.readIn (h : ReadsBlock a p b) (hr : a.Regular)
    (hsigs : a.signatures = start.signatures) (hs : start.Builds low strict a)
    (hcomplete : strict → start.Completes a) : p.ReadIn low strict start a b := by
  induction h with
  | @block a b c d e f g constants types vars procedures body hc ht hv hf hp hb ih =>
    have hreads : Block.Reads _ _ _ := reads_block hr hc ht hv hf (fun h => hp.reads h) hb
    have hcd := (hc.reads.continues.trans ht.reads.continues).trans hv.reads.continues
    have hrd := hcd.regular hr
    have hce := hcd.followed (hf.ensures (settleForwards_ensures hrd))
    have hre := hce.regular hr
    have hsigs := hce.signatures.trans hsigs
    have hbc := hc.builds hs.sound
    have hbt := ht.builds hbc.sound
    have hbv := hv.builds hbt.sound
    have hbf := hf.ensures (builds_settleForwards hbv.sound)
    have hbe := (((hs.trans hbc).trans hbt).trans hbv).trans hbf
    have hbp := hp.builds hbe.sound
    have hcompletes (h : strict) : start.Completes e := by
      have hsections := ((hc.attends (hs.sound.imp fun _ => h)).trans
        (ht.attends (hbc.sound.imp fun _ => h))).trans (hv.attends (hbt.sound.imp fun _ => h))
      exact (hcomplete h).trans (completes_settleForwards hsections hf)
    have hps : Procedure.ReadsAll _ _ _ := hp.reads hre
    have hrf := hps.continues.regular hre
    have hrest := hb.restores_body
    have hend := hbp.sound.restores hrest
    have hgrows := hrest.continues.grows
    have hnested (q) (hq : q ∈ procedures) :
        q.Everywhere g.store (Block.OwnedBy low strict start g) :=
      Procedure.Everywhere.mono (ih hre hsigs hbe hcompletes q hq) hgrows
        fun _ _ h => h.later hend hgrows
    refine ⟨⟨f, ⟨hrf, hps.continues.signatures.trans hsigs,
      hbe.trans hbp, hend, fun h => ?_, hgrows, ⟨hreads.continues.nodup_names
      (hend.sound.names _ mem_cons_self), fun id hid => ?_⟩, fun id hid => ?_, ⟨g, hb⟩⟩,
      hps.continues.procedures.trans hce.procedures⟩, hnested⟩
    · exact (hcompletes h).trans (hp.completes (hbe.sound.imp fun _ => h))
    · have hdg := (hf.ensures (settleForwards_ensures hrd)).grows.trans
        (hps.continues.grows.trans hgrows)
      have hcg := hv.reads.continues.grows.trans hdg
      simp only [Block.members, mem_append, mem_map, not_mem_nil, false_or] at hid
      rcases hid with ((hid | hid) | hid) | ⟨q, hq, rfl⟩
      · exact hc.reads.plain.grows (ht.reads.continues.grows.trans hcg) id hid
      · exact ht.reads.plain.grows hcg id hid
      · exact hv.reads.plain.grows hdg id hid
      · exact (hnested q hq).plain
    · obtain ⟨new, hscopes, hnew⟩ := hreads.continues.scopes
      rw [← hrest.scopes, hscopes]
      have hid : id ∈ new.map Prod.snd := by rw [hnew]; exact mem_reverse.2 hid
      obtain ⟨⟨name, _⟩, hmem, rfl⟩ := mem_map.1 hid
      exact ⟨name, mem_append_left _ hmem⟩
  | external ident convention name hn ht hb h =>
    obtain ⟨_, _, id, _, _, _, rfl, hdecl⟩ :=
      h.ensures (declareExternal_ensures ident convention _ name)
    exact .external hdecl.lt (by rw [hdecl.decl]; exact hn) (by rw [hdecl.decl]; rfl)
  | @defined a b c d e f g id ps result t block p ident span variadic last hn hi hf ht hs' hb h ih =>
    have hh := header ident span variadic hi hf ht hs'
    have hbe := hs.trans (builds_header ident span variadic hs.sound hi hf ht hs')
    have hbf := hb.builds hbe.sound
    obtain ⟨rfl, hend, hreturns⟩ := h.ensures (endProcedure_ensures id block last)
    have hbg := (hbf.sound.closes f.procedures.tail).silent hend
    have hgrows : f.store.Grows g.store := by
      rw [hend.store]
      exact .refl _
    obtain ⟨⟨x, hx, howner⟩, hnested⟩ := ih (hh.regular hr)
      (by rw [hh.rest]; exact hsigs) hbe
      fun h => (hcomplete h).trans (spares_header ident span variadic hi hf ht hs').completes
    have hprocedures : e.procedures = id :: a.procedures := by rw [hh.rest]
    have hlt : id.In e.store := (hh.spread.bounds id mem_cons_self).2
    have heg := hbf.trans hbg
    have hef := (hb.reads (hh.regular hr) : Block.Reads _ _ _).continues.grows
    obtain ⟨result', variadic', hsig⟩ := hh.signature
    have hsig' := hef.signature? hsig
    rw [← Procedure.typeOf_grows hef hlt hsig] at hsig'
    refine .defined ⟨x, hx.later hbg hgrows, ?_, heg.store.lt hlt, ?_, ?_, _, ?_,
      hreturns _ hsig'⟩ fun q hq =>
        Procedure.Everywhere.mono (hnested q hq) hgrows fun _ _ h => h.later hbg hgrows
    · rw [howner, hprocedures]
      rfl
    · rw [heg.store.decl hlt, hh.name]
      exact hn
    · rw [heg.store.decl hlt]
      exact hh.role
    · rw [hend.store]
      exact hsig'
  | nil a => simp [BlockPhrase.ReadIn]
  | @snoc a b c ps p hps hp ihs ih =>
    have hreads : Procedure.ReadsAll _ _ _ := hps.reads hr
    have hrb := hreads.continues.regular hr
    have hlast : Procedure.ReadsAll _ _ _ := hp.reads hrb
    have hbb := hs.trans (hps.builds hs.sound)
    have hbc := hp.builds hbb.sound
    refine forall_mem_append.2 ⟨fun q hq => ?_, forall_mem_singleton.2 ?_⟩
    · exact Procedure.Everywhere.mono (ihs hr hsigs hs hcomplete q hq) hlast.continues.grows
        fun _ _ h => h.later hbc hlast.continues.grows
    · exact ih hrb (hreads.continues.signatures.trans hsigs) hbb fun h =>
        (hcomplete h).trans (hps.completes (hs.sound.imp fun _ => h))
  | @silent a b c d p hb h hd ih =>
    have ih := ih (hb.continues.regular hr) (hb.signatures.trans hsigs) (hs.silent hb)
      fun h => (hcomplete h).trans hb.spares.completes
    have hlater := (h.builds (hs.silent hb).sound).sound.silent hd
    have hgrows : c.store.Grows d.store := by
      rw [hd.store]
      exact .refl _
    have hall {q : Procedure} (hq : q.Everywhere c.store (Block.OwnedBy low strict start c)) :
        q.Everywhere d.store (Block.OwnedBy low strict start d) :=
      hq.mono hgrows fun _ _ h => h.later hlater hgrows
    cases p with
    | block content =>
      obtain ⟨⟨f, hf, howner⟩, hn⟩ := ih
      refine ⟨⟨f, hf.later hlater hgrows, howner.trans ?_⟩, fun q hq => hall (hn q hq)⟩
      rw [hb.rest]
    | procedure q => exact hall ih
    | procedures qs => exact fun q hq => hall (ih q hq)

/-! ## Modules -/

/-- The blocks of a module, those of procedures behind that of the module itself. -/
def Module.blocks (m : Module) : List Block := m.block :: m.preorder.map Procedure.block

namespace Outcome

variable {features : Features} {library : Library}

/-- What leads to the blocks of an accepted module: its imports, up to `c`, and then its
declarations. -/
lemma Accepts.blocks (h : (ofSource features library source).Accepts m) : ∃ b c,
    (Analysis.start features library).Begins m.name b ∧ b.Imports c ∧ c.Opened ∧ ∀ strict : Prop,
    (strict → c.store.Concrete) →
    (∃ f, m.block.ReadIn c.store.types.size strict c f (ofSource features library source).analysis ∧
     f.procedures = []) ∧ ∀ p ∈ m.preorder, p.Everywhere (ofSource features library source).store
      (Block.OwnedBy c.store.types.size strict c (ofSource features library source).analysis) := by
  obtain ⟨b, c, d, hb, hi, hblock, hd⟩ := h.reads.phases
  have hopened := hi.opened ((opened_start features library).begins hb)
  refine ⟨b, c, hb, hi, hopened, fun strict hstrict => ?_⟩
  have hsound := hopened.sound hstrict
  have hread := ReadsBlock.readIn (hblock.silent (.refl c) hd) hopened.regular
    rfl hsound.refl fun _ => (Spares.refl c).completes
  obtain ⟨⟨f, hf, hprocedures⟩, htrees⟩ := hread
  refine ⟨⟨f, hf, hprocedures.trans hopened.procedures⟩, fun p hp => ?_⟩
  rcases List.mem_append.1 hp with hp | hp
  · exact htrees p hp
  · obtain ⟨n, hn, rfl⟩ := List.mem_map.1 hp
    obtain ⟨q, hq, hn⟩ := List.mem_flatMap.1 hn
    exact (htrees q hq).nested [] hn

lemma Accepts.named (h : (ofSource features library source).Accepts m) :
    m.Named (ofSource features library source).store := by
  obtain ⟨_, _, _, _, _, hblocks⟩ := h.blocks
  obtain ⟨⟨_, hread, _⟩, htrees⟩ := hblocks False False.elim
  exact ⟨hread.names, fun p hp => (htrees p (mem_append_left _ hp)).named⟩

end Outcome
end Oberon
