import Oberon.Proofs.Environments
import Oberon.Proofs.Linking

/-!
# Oberon.Proofs.Lifted

What lifting makes of a procedure. `Lifted s L outer r` relates the procedure of the level `L`, inside
the levels `outer`, to the procedure `r` that stands for it at module level; it holds in every later
store. `Settled s L r` says what else is true of `r` once nothing of it is changed any more.
-/

namespace Oberon

open Declaration

variable {l : Lifting}
namespace Lifting

/-! ## Bodies -/

/-- The field `f` of an environment. -/
def fieldOf (s : Store) (env : Environment) (f : DeclId) : Expr :=
  .designator (.simple (s.decl env.decl).name .none) (some env.decl) [fieldSelector s f]
    { type := s.typeOf f, span := .none }

/-- Copy parameters into their fields. -/
def storing (s : Store) (env : Environment) (pairs : List (DeclId × DeclId)) : List Statement :=
  pairs.map fun e => .assign (fieldOf s env e.2) (reference s e.1) .none

/-- Copy variable parameters back from their fields. -/
def writing (s : Store) (env : Environment) (pairs : List (DeclId × DeclId)) : List Statement :=
  (pairs.filter fun e => (s.decl e.1).isVarParameter).map fun e =>
    .assign (reference s e.1) (fieldOf s env e.2) .none

/-- What lifting makes of a procedure, by its place among the others. -/
inductive Lifted (s : Store) (L : Level) (outer : List Level) : Procedure → Prop
  /-- It has an environment of its own. -/
  | framed {env : Environment} {mirrors : List DeclId} {bound : Nat} {body : List Statement}
      (hl : Linked s (L :: outer) (some env.record) bound) (hf : Frames s L env mirrors)
      (hlt : env.decl.index < s.decls.size) (hv : (s.decl env.decl).isVariable = true)
      (hn : (s.decl env.decl).name = thisName) (ht : s.typeOf env.decl = env.record)
      (hb : ReroutesBody (Reference s env (L :: outer))
        (.statements L.procedure.block.body body)) :
      Lifted s L outer (.mk L.procedure.decl (.mk L.procedure.block.constants
        L.procedure.block.types (env.decl :: L.procedure.block.vars) []
        (frame (storing s env (L.params.zip mirrors)) (writing s env (L.params.zip mirrors)) body)))
  /-- It has none, and gets that of the procedure around it. -/
  | leaf {h : DeclId} (hl : Linked s outer (some record) bound) (he : L.env = none) (hh : L.hidden = some h)
      (hlt : h.index < s.decls.size) (hp : (s.decl h).isParameter = true)
      (hn : (s.decl h).name = superName) (ht : s.typeOf h = record)
      (hb : ReroutesBody (Reference s ⟨h, record⟩ outer)
        (.statements L.procedure.block.body body)) :
      Lifted s L outer (.mk L.procedure.decl (.mk L.procedure.block.constants
        L.procedure.block.types L.procedure.block.vars [] body))
  /-- There is no environment around it, and it needs none. -/
  | alone (hl : Linked s outer none bound) (he : L.env = none)
      (hh : L.hidden = none) :
      Lifted s L outer (.mk L.procedure.decl (.mk L.procedure.block.constants
        L.procedure.block.types L.procedure.block.vars [] L.procedure.block.body))

/-- The place of a procedure at module level, which nothing changes any more. -/
structure Settled (s : Store) (L : Level) (r : Procedure) : Prop where
  lt : r.decl.index < s.decls.size
  level : (s.decl r.decl).level = Scopes.moduleLevel
  params : ∃ result variadic, s.signature? (s.typeOf r.decl) = some ⟨L.params, result, variadic⟩
  vars : ∀ (i : Nat) (v : DeclId), r.block.vars[i]? = some v →
    v.index < s.decls.size ∧ (s.decl v).role = .variable i

variable {L : Level}

lemma Level.of_mem_zip (h : e ∈ L.params.zip mirrors) : e.1 ∈ L.origins ∧ e.2 ∈ mirrors :=
  ⟨List.mem_append_left _ (List.of_mem_zip h).1, (List.of_mem_zip h).2⟩

lemma reference_evolves (h : s.Evolves s') {id : DeclId} (hlt : id.In s)
    (hp : (s.decl id).isProcedure = false) : reference s' id = reference s id := by
  have hd := h.decl id hlt
  simp only [reference, hd.name hp, hd.type]

lemma fieldOf_evolves (h : s.Evolves s') (hf : IsField s f) (hlt : env.decl.In s)
    (hp : (s.decl env.decl).isProcedure = false) : fieldOf s' env f = fieldOf s env f := by
  simp only [fieldOf, fieldSelector_evolves h hf, (h.decl _ hlt).name hp, h.typeOf hf.lt]

lemma copies_evolve (h : s.Evolves s') (hf : Frames s L env mirrors) (hlt : env.decl.In s)
    (hp : (s.decl env.decl).isProcedure = false) :
    storing s' env (L.params.zip mirrors) = storing s env (L.params.zip mirrors) ∧
    writing s' env (L.params.zip mirrors) = writing s env (L.params.zip mirrors) := by
  have hpair (e) (hm : e ∈ L.params.zip mirrors) : reference s' e.1 = reference s e.1 ∧
      fieldOf s' env e.2 = fieldOf s env e.2 ∧
      (s'.decl e.1).isVarParameter = (s.decl e.1).isVarParameter := by
    obtain ⟨ho, hfm⟩ := Level.of_mem_zip hm
    obtain ⟨holt, hop⟩ := hf.origins _ ho
    exact ⟨reference_evolves h holt hop, fieldOf_evolves h (hf.fields _ hfm) hlt hp,
      (h.decl e.1 holt).isVarParameter⟩
  unfold storing writing
  rw [List.filter_congr fun e hm => (hpair e hm).2.2]
  refine ⟨List.map_congr_left fun e hm => ?_, List.map_congr_left fun e hm => ?_⟩
  · rw [(hpair e hm).1, (hpair e hm).2.1]
  · have hm := (List.mem_filter.1 hm).1
    rw [(hpair e hm).1, (hpair e hm).2.1]

lemma isProcedure_of_isVariable {d : Declaration} (h : d.isVariable) : d.isProcedure = false := by
  unfold Declaration.isVariable at h
  split at h
  · next hr => simp only [isProcedure, hr]
  · cases h

lemma isProcedure_of_isParameter {d : Declaration} (h : d.isParameter) : d.isProcedure =
    false := by
  unfold Declaration.isParameter at h
  split at h
  · next hr => simp only [isProcedure, hr]
  · cases h

lemma Lifted.evolves (hl : Lifted s L outer r) (h : s.Evolves s') : Lifted s' L outer r := by
  cases hl with
  | @framed env mirrors bound body hl hf hlt hv hn ht hb =>
    have hp := isProcedure_of_isVariable hv
    obtain ⟨hin, hout⟩ := copies_evolve h hf hlt hp
    rw [← hin, ← hout]
    refine .framed (hl.evolves h) (hf.evolves h) (h.lt hlt) ((h.decl _ hlt).isVariable.trans hv)
      (((h.decl _ hlt).name hp).trans hn) ((h.typeOf hlt).trans ht) (hb.mono ?_)
    exact fun _ _ _ _ _ hr => hr.evolves h hlt hp
  | leaf hl he hh hlt hpar hn ht hb =>
    have hp := isProcedure_of_isParameter hpar
    refine .leaf (hl.evolves h) he hh (h.lt hlt) ((h.decl _ hlt).isParameter.trans hpar)
      (((h.decl _ hlt).name hp).trans hn) ((h.typeOf hlt).trans ht) (hb.mono ?_)
    exact fun _ _ _ _ _ hr => hr.evolves h hlt hp
  | alone hl he hh => exact .alone (hl.evolves h) he hh

/-- Nothing of a procedure at module level is touched. -/
lemma Settled.changes {l' : Lifting} {types : Ty → Prop}
    (h : Settled l.store L r) (hc : Changes ids ks types l l') (hd : ¬ ids r.decl)
    (hv : ∀ v ∈ r.block.vars, ¬ ids v) (ht : ¬ types (l.store.typeOf r.decl)) :
    Settled l'.store L r where
  lt := hc.evolves.lt h.lt
  level := by rw [hc.decl _ h.lt hd, h.level]
  params := by
    obtain ⟨result, variadic, hs⟩ := h.params
    exact ⟨result, variadic, hc.signature? h.lt hs ht⟩
  vars i v hi := by
    obtain ⟨hlt, hr⟩ := h.vars i v hi
    exact ⟨hc.evolves.lt hlt, by rw [hc.decl v hlt (hv v (List.mem_of_getElem? hi)), hr]⟩

lemma fieldReference_of_lookup (h : l.fields.lookup p = some f) : fieldReference l env p =
    fieldOf l.store env f := by
  simp only [fieldReference, h, fieldOf]

lemma copies_eq {params : List DeclId} (hlen : params.length ≤ mirrors.length)
    (h : ∀ e ∈ params.zip mirrors, l.fields.lookup e.1 = some e.2) :
    copyIn l env params = storing l.store env (params.zip mirrors) ∧
    copyOut l env params = writing l.store env (params.zip mirrors) := by
  unfold copyIn copyOut storing writing
  rw [← List.map_fst_zip hlen, List.filter_map, List.map_map, List.map_map]
  rw [List.map_fst_zip hlen]
  refine ⟨List.map_congr_left fun e he => ?_, List.map_congr_left fun e he => ?_⟩
  · simp only [Function.comp_apply, fieldReference_of_lookup (h e he)]
  · simp only [Function.comp_apply, fieldReference_of_lookup (h e (List.mem_filter.1 he).1)]

end Lifting
end Oberon
