import Mathlib.Logic.Function.Basic
import Oberon.Scopes

/-!
# Oberon.Proofs.Shadowing

Scopes as a stack of maps. Inserting a name updates the map on top, and closing a scope takes its map
off. Predefined names are a map of their own below the stack: closing a scope does not take back what
was predefined in the meantime.
-/

namespace Oberon

open List

namespace Scopes

/-- What is done to scopes while a module is read. -/
inductive Op where
  | predefine (name : String) (decl : DeclId)
  | insert (name : String) (decl : DeclId)
  | openScope
  | closeScope

def perform (s : Scopes) : Op → Scopes
  | .predefine name decl => s.addPredefined name decl
  | .insert name decl => s.insert name decl
  | .openScope => s.openScope
  | .closeScope => s.closeScope

def run (s : Scopes) (ops : List Op) : Scopes := ops.foldl perform s

/-- How many scopes are open on top of the first one, if that is never closed. -/
def depthAfter : Nat → List Op → Option Nat
  | depth, [] => some depth
  | depth, .openScope :: ops => depthAfter (depth + 1) ops
  | 0, .closeScope :: _ => none
  | depth + 1, .closeScope :: ops => depthAfter depth ops
  | depth, .predefine _ _ :: ops | depth, .insert _ _ :: ops => depthAfter depth ops

/-- Maps from names, the innermost first, and the map below them. -/
structure Stack where
  predefined : String → Option DeclId
  maps : List (String → Option DeclId)

namespace Stack

def perform (m : Stack) : Op → Stack
  | .predefine name decl => { m with predefined := Function.update m.predefined name decl }
  | .insert name decl => { m with maps := m.maps.modifyHead (Function.update · name decl) }
  | .openScope => { m with maps := (fun _ => none) :: m.maps }
  | .closeScope => { m with maps := m.maps.tail }

def run (m : Stack) (ops : List Op) : Stack := ops.foldl perform m

end Stack

/-! ## Scopes and their maps -/

/-- The maps of a table of scopes. -/
def stack (s : Scopes) : Stack :=
  ⟨fun name => s.predefined.lookup name, (s.inner :: s.outer).map fun scope name => scope.lookup name⟩

lemma lookup_cons_eq_update (scope : Scope) (name : String) (decl : DeclId) :
    (fun x => ((name, decl) :: scope).lookup x) =
      Function.update (fun x => scope.lookup x) name (some decl) := by
  funext x
  rw [lookup_cons, Function.update_apply]
  split <;> simp_all

/-- Operations do to the scopes what they do to their maps, and leave alone the scopes below. -/
lemma run_spec {s : Scopes} (h : depthAfter depth ops = some depth') (hs : s.outer.length = depth) :
    (s.run ops).stack = s.stack.run ops ∧ (s.run ops).outer.length = depth' ∧
      (∃ predefined inner outer, s.run ops = { s with predefined, inner, outer }) ∧
      ∀ base, { s with outer := s.outer ++ base }.run ops =
        { s.run ops with outer := (s.run ops).outer ++ base } := by
  fun_induction depthAfter depth ops generalizing s with
  | case1 =>
    cases h
    exact ⟨rfl, hs, ⟨_, _, _, rfl⟩, fun _ => rfl⟩
  | case2 depth ops ih => exact ih (s := s.openScope) h (congrArg Nat.succ hs)
  | case3 => cases h
  | case4 ops depth ih =>
    obtain ⟨predefined, modules, exports, aliases, inner, outer⟩ := s
    obtain ⟨scope, outer, rfl⟩ := exists_cons_of_length_eq_add_one hs
    exact ih (s := ⟨predefined, modules, exports, aliases, scope, outer⟩) h (Nat.succ.inj hs)
  | case5 depth name decl ops ih =>
    obtain ⟨hstack, hrest⟩ := ih (s := s.addPredefined name decl) h hs
    refine ⟨hstack.trans ?_, hrest⟩
    simp only [stack, addPredefined, lookup_cons_eq_update]
    rfl
  | case6 depth name decl ops ih =>
    obtain ⟨hstack, hrest⟩ := ih (s := s.insert name decl) h hs
    refine ⟨hstack.trans ?_, hrest⟩
    simp only [stack, insert, map_cons, lookup_cons_eq_update]
    rfl

lemma lookupLocal_eq (s : Scopes) (name) : s.lookupLocal name =
    (s.stack.maps.findSome? (· name)).or (s.predefined.lookup name) := by
  unfold lookupLocal stack
  induction s.inner :: s.outer with
  | nil =>
    rw [nil_append, find?, find?]
    cases s.predefined.lookup name <;> rfl
  | cons scope rest ih =>
    rw [cons_append, find?, map_cons, findSome?_cons, ih]
    dsimp only
    cases scope.lookup name <;> rfl

/-- Names are looked up in the maps of a module from the top. -/
structure Answers (s : Scopes) (module : String) (m : Stack) : Prop where
  lookupLocal : ∀ name, s.lookupLocal name =
    (m.maps.findSome? (· name)).or (m.predefined name)
  isDuplicate : ∀ name, s.isDuplicate name = m.maps.head?.any fun map => (map name).isSome
  lookup : ∀ name span, s.lookup ⟨some module, name, span⟩ = m.maps.getLast?.bind (· name)
  level : s.level = m.maps.length

lemma answers_stack {start : Scopes} (hm : start.hasModule module = false)
    (h : ∃ predefined inner outer, t = { start.enterModule module with predefined, inner, outer }) :
    Answers t module t.stack := by
  obtain ⟨predefined, inner, outer, rfl⟩ := h
  refine ⟨lookupLocal_eq _, fun name => rfl, fun name span => ?_, ?_⟩
  · have hown : module ∉ start.modules := by simpa [hasModule] using hm
    simp [lookup, enterModule, hasModule, moduleScope, stack, getLast?_cons, hown]
  · simp [level, stack, moduleLevel, Nat.add_comm]

/-! ## What closing a scope restores -/

/-- Opening a scope and closing it again leaves only what was predefined in between. -/
lemma run_nested (s : Scopes) (h : depthAfter 0 body = some 0) :
    s.run (.openScope :: body ++ [.closeScope]) =
      { s with predefined := (s.openScope.run body).predefined } := by
  obtain ⟨_, hlen, ⟨predefined, inner, outer, hrun⟩, hbase⟩ :=
    run_spec (s := { s with inner := [], outer := [] }) h rfl
  have hclose : s.run (.openScope :: body ++ [.closeScope]) = (s.openScope.run body).closeScope := by
    rw [run, foldl_append]
    rfl
  have hopen : s.openScope.run body = _ := hbase (s.inner :: s.outer)
  rw [hclose, hopen, length_eq_zero_iff.1 hlen, hrun]
  rfl

lemma run_predefined (h : ∀ decl, .predefine name decl ∉ ops) (s : Scopes) :
    (s.run ops).predefined.lookup name = s.predefined.lookup name := by
  induction ops generalizing s with
  | nil => rfl
  | cons op ops ih =>
    refine (ih (fun decl hd => h decl (mem_cons_of_mem _ hd)) (s.perform op)).trans ?_
    cases op with
    | predefine other decl =>
      have hne : (name == other) = false := beq_false_of_ne fun heq => h decl (heq ▸ mem_cons_self)
      simp only [perform, addPredefined, lookup_cons, hne]
    | closeScope => rw [perform, closeScope]; split <;> rfl
    | _ => rfl

/-- Scopes are a stack of maps. As long as no scope is closed that was not opened, a name denotes what it
is mapped to by the innermost map that has it, and else what is predefined. It is a duplicate if the
innermost map has it, and qualified by the module it denotes what the outermost one has. Opening a scope
and closing it again brings all this back, but what was predefined in between stays. -/
theorem scopes_stacked (start : Scopes) (module : String) (hm : start.hasModule module = false)
    (ops : List Op) (hops : (depthAfter 0 ops).isSome) :
    let t := (start.enterModule module).run ops
    let m := (start.enterModule module).stack.run ops
    Answers t module m ∧ ∀ body, depthAfter 0 body = some 0 →
      let u := t.run (.openScope :: body ++ [.closeScope])
      (∀ name, (∃ map ∈ m.maps, (map name).isSome) ∨ (∀ decl, .predefine name decl ∉ body) →
        u.lookupLocal name = t.lookupLocal name) ∧
      (∀ name, u.isDuplicate name = t.isDuplicate name) ∧
      (∀ name span, u.lookup ⟨some module, name, span⟩ = t.lookup ⟨some module, name, span⟩) ∧
      u.level = t.level := by
  obtain ⟨depth, hdepth⟩ := Option.isSome_iff_exists.1 hops
  intro t m
  obtain ⟨hstack, _, hrun, _⟩ := run_spec (s := start.enterModule module) hdepth rfl
  rw [← show t.stack = m from hstack]
  refine ⟨answers_stack hm hrun, fun body hbody => ?_⟩
  rw [run_nested t hbody]
  refine ⟨fun name hname => ?_, fun _ => rfl, fun _ _ => rfl, rfl⟩
  rw [lookupLocal_eq, lookupLocal_eq]
  rcases hname with hfound | hnone
  · obtain ⟨decl, hdecl⟩ := Option.isSome_iff_exists.1 (findSome?_isSome_iff.2 hfound)
    have hmaps (predefined) : { t with predefined }.stack.maps = t.stack.maps := rfl
    rw [hmaps, hdecl]
    rfl
  · exact congrArg (Option.or _) (run_predefined hnone t.openScope)

/-- A name is shadowed, and denotes again what it did before. -/
theorem scopes_stacked_shadowed : (depthAfter 0 [.insert "x" ⟨1⟩, .openScope]).isSome ∧
    let t := (enterModule {} "M").run [.insert "x" ⟨1⟩, .openScope]
    t.lookupLocal "x" = some ⟨1⟩ ∧ t.isDuplicate "x" = false ∧
    (t.run [.openScope, .insert "x" ⟨2⟩, .closeScope]).lookupLocal "x" = t.lookupLocal "x" := by
  obtain ⟨hanswers, hback⟩ := scopes_stacked {} "M" rfl [.insert "x" ⟨1⟩, .openScope] rfl
  exact ⟨rfl, hanswers.lookupLocal "x", hanswers.isDuplicate "x",
    (hback [.insert "x" ⟨2⟩] rfl).1 "x" (.inr (by simp))⟩

/-- What is predefined within a scope outlasts it. -/
theorem predefined_outlasts_scope : depthAfter 0 [.predefine "x" ⟨1⟩] = some 0 ∧
    (enterModule {} "M").lookupLocal "x" = none ∧
    ((enterModule {} "M").run [.openScope, .predefine "x" ⟨1⟩, .closeScope]).lookupLocal "x" =
      some ⟨1⟩ :=
  ⟨rfl, by decide, by decide⟩

end Scopes
end Oberon
