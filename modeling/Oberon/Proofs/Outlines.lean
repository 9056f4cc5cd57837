import Oberon.Proofs.Pending

/-!
# Oberon.Proofs.Outlines

The names that the procedures of a tree get when they are lifted, and which of them get an
environment. Both can be told from the tree before it is lifted, and stay the same as long as nothing
in the tree is touched.
-/

namespace Oberon

open Procedure Lifting List Store

mutual

/-- The procedures of a tree, parents first: what they are called, and whether they have an
environment. The first is called `name`, and `inner` says whether there is an environment around
it. -/
def Procedure.outline (s : Store) (name : String) (inner : Bool) :
    Procedure → List (String × Bool)
  | .mk id (.mk _ _ vars procedures _) =>
    let framed := !procedures.isEmpty && (inner || !(params s id ++ vars).isEmpty)
    (name, framed) :: outlineOf s name framed procedures

def Procedure.outlineOf (s : Store) (parent : String) (inner : Bool) :
    List Procedure → List (String × Bool)
  | [] => []
  | p :: rest =>
    p.outline s (liftedName parent (s.decl p.decl).name) inner ++
      outlineOf s parent inner rest

end

namespace Procedure

variable {p : Procedure}
  {inner : Bool}

/-- Has the procedure something to share with nested ones? -/
def isFramed (s : Store) (inner : Bool) (p : Procedure) : Bool :=
  !p.block.procedures.isEmpty && (inner || !(params s p.decl ++ p.block.vars).isEmpty)

lemma outline_eq : p.outline s name inner =
    (name, p.isFramed s inner) :: outlineOf s name (p.isFramed s inner) p.block.procedures := by
  obtain ⟨id, ⟨constants, types, vars, procedures, body⟩⟩ := p
  simp only [outline, isFramed]
  rfl

lemma outlineOf_congr
    (h : ∀ q ∈ ps, (s'.decl q.decl).name = (s.decl q.decl).name ∧ ∀ name, q.outline s' name inner =
     q.outline s name inner) : outlineOf s' parent inner ps = outlineOf s parent inner ps := by
  induction ps with
  | nil => rfl
  | cons p ps ih =>
    rw [forall_mem_cons] at h
    rw [outlineOf, outlineOf, h.1.1, h.1.2, ih h.2]

/-- What a procedure shares with nested ones does not matter below one with an environment. -/
lemma outline_congr (hf : inner ∨ params s' p.decl = params s p.decl)
    (hn : ∀ q ∈ p.block.procedures, (s'.decl q.decl).name = (s.decl q.decl).name ∧ ∀ name inner,
     q.outline s' name inner = q.outline s name inner) : p.outline s' name inner =
    p.outline s name inner := by
  have hframed : p.isFramed s' inner = p.isFramed s inner := by
    rcases hf with rfl | hf
    · rfl
    · rw [isFramed, isFramed, hf]
  rw [outline_eq, outline_eq, hframed,
    outlineOf_congr fun q hq => ⟨(hn q hq).1, fun name => (hn q hq).2 name _⟩]

lemma Left.params_eq (hl : Left s s' p) (hs : s.signature? (s.typeOf p.decl) = some sig) :
    params s' p.decl = params s p.decl := by
  have hs' := Left.signature? (hl.decl _ (decl_mem_ids s p)) (hl.form _ (type_mem_types s p)) hs
  simp only [params, hs, hs']

lemma Scoped.outline_left (h : p.Scoped s level known) (hl : Left s s' p) (name inner) :
    p.outline s' name inner = p.outline s name inner := by
  induction h generalizing name inner with
  | external hlt hr hlev hs htop =>
    obtain ⟨sig, hs⟩ := hs
    exact outline_congr (.inr (hl.params_eq hs)) fun q hq => by cases hq
  | @defined level known id params constants types vars procedures body hlt hr hlev hs hp hc ht hv hb
      hn ih =>
    obtain ⟨result, variadic, hs⟩ := hs
    refine outline_congr (.inr (hl.params_eq hs)) fun q hq => ?_
    have hq' : Left s s' q := hl.nested hr hq
    exact ⟨by rw [hq'.decl _ (decl_mem_ids s q)], fun name inner => ih q hq hq' name inner⟩

end Procedure

namespace Lifting

variable {l l' : Lifting} {ids : DeclId → Prop} {types : Ty → Prop}
 

section

variable (h : Pending l visible up declared p)
include h

/-- Below an environment there is a hidden parameter. -/
lemma Pending.isFramed_up : p.isFramed l.store up.isSome =
    (!p.block.procedures.isEmpty && !(Lifting.params l.store p.decl ++ p.block.vars).isEmpty) := by
  cases hh : l.hidden.lookup p.decl with
  | none =>
    rw [h.top hh]
    rfl
  | some x =>
    rw [(h.hidden x hh).2.2, h.params, hh, isFramed]
    simp

/-- The outline of a procedure stays where nothing but its own name has changed. -/
lemma Pending.outline_agrees (hle : l.store.decls.size ≤ l'.store.decls.size)
    (htype : l'.store.typeOf p.decl = l.store.typeOf p.decl)
    (hd : ∀ x ∈ (p.ids l.store).tail, l'.store.decl x = l.store.decl x)
    (hf : ∀ t ∈ p.types l.store, l'.store.form? t = l.store.form? t) :
    p.outline l'.store name deep = p.outline l.store name deep := by
  have hparams : Lifting.params l'.store p.decl = Lifting.params l.store p.decl := by
    simp only [Lifting.params, htype, Store.signature?, hf _ (type_mem_types l.store p)]
  refine outline_congr (.inr hparams) fun q hq => ?_
  have hleft := h.nested_left hle hd hf hq
  refine ⟨by rw [hleft.decl _ (decl_mem_ids _ q)], fun name inner => ?_⟩
  exact (h.nested q hq).outline_left hleft name inner

lemma Pending.type_lt (ht : t ∈ p.types l.store) : t.place < l.store.types.size := by
  rw [types_eq] at ht
  rcases mem_cons.1 ht with rfl | ht
  · obtain ⟨result, variadic, hs⟩ := h.signature
    exact place_lt (signature?_eq_some.1 hs)
  · obtain ⟨q, hq, ht⟩ := mem_typesOf.1 ht
    exact (h.nested q hq).place_lt t ht

lemma Pending.outline_changes (hc : Changes ids ks types l l')
    (hi : ∀ x ∈ p.ids l.store, ¬ ids x) (ht : ∀ t ∈ p.types l.store, ¬ types t) :
    p.outline l'.store name deep = p.outline l.store name deep := by
  have hdecl (x) (hx : x ∈ p.ids l.store) := hc.decl x (h.lt x hx) (hi x hx)
  refine h.outline_agrees hc.evolves.decls_le ?_ (fun x hx => hdecl x (mem_of_mem_tail hx))
    fun t htm => hc.form t (h.type_lt htm) (ht t htm)
  rw [typeOf, hdecl _ (decl_mem_ids _ p), typeOf]

end

end Lifting
end Oberon
