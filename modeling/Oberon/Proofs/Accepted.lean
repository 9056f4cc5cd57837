import Oberon.Proofs.Building
import Oberon.Proofs.Imported
import Oberon.Proofs.Modules

/-!
# Oberon.Proofs.Accepted

How the store of an accepted module comes about: from the predefined types, by importing the modules
of the import list one after the other, and by the declarations of the block. The store is closed all
along.
-/

namespace Oberon

open Analyze Analysis Store

lemma Analysis.Imports.closed {a b : Analysis} (h : a.Imports b) (ha : a.store.Closed) :
    b.store.Closed :=
  h.store_induction ha fun i _ _ scopes hs => i.closed_importInto hs scopes

lemma Analysis.Imports.preserves {a b : Analysis} (h : a.Imports b) :
    a.store.Preserves b.store := by
  refine h.store_induction (.refl _) fun i _ s scopes hs => ?_
  obtain ⟨ids, r, hb, hrun⟩ := i.importInto_brings s scopes
  rw [hrun]
  exact hs.trans hb.preserves

/-- Before the block of a module nothing is declared that could be unsound. -/
lemma Analysis.Opened.sound {a : Analysis} {strict : Prop} (h : a.Opened)
    (hs : strict → a.store.Concrete) : a.Sound a.store.types.size strict := by
  refine ⟨h.closed, .of_closed h.closed, hs, Nat.le_refl _, ?_, ?_, fun id hk => ⟨(h.known id hk).lt, fun hp => ?_⟩⟩
  · rw [h.forwards]
    exact fun f hf => by cases hf
  · rw [h.inner, h.outer]
    exact List.forall_mem_singleton.2 (.nil _)
  · rw [(h.known id hk).isParameter] at hp
    cases hp

lemma Analysis.Begins.closed {features : Features} {library : Library} (h : (Analysis.start features library).Begins name b) : b.store.Closed := by
  rw [h.store]
  exact Universe.standard_closed

namespace Outcome

variable {features : Features} {library : Library}

/-- What leads to an accepted module: its imports `c`, then its block. -/
lemma Accepts.phases (h : (ofSource features library source).Accepts m) : ∃ b c,
    (Analysis.start features library).Begins m.name b ∧ b.Imports c ∧ c.Opened ∧
    m.block.Reads c (ofSource features library source).analysis ∧ ∀ strict : Prop,
    (strict → c.store.Concrete) →
    c.Builds c.store.types.size strict (ofSource features library source).analysis := by
  obtain ⟨b, c, d, hb, hi, h, hd⟩ := h.reads.phases
  have hopened := hi.opened ((opened_start features library).begins hb)
  exact ⟨b, c, hb, hi, hopened, (h.reads hopened.regular).silent (.refl c) hd,
    fun _ hstrict => (h.builds (hopened.sound hstrict)).silent hd⟩

end Outcome
end Oberon
