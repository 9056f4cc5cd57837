import Oberon.Proofs.Operators
import Oberon.Proofs.Parts

/-!
# Oberon.Proofs.Visible

Everything an expression refers to is declared in one of the scopes it is read in.
-/

namespace Oberon

open List (append_subset map_cons mem_append mem_cons mem_cons_self nil_append)

open Selector (rootsOf rootsOf_append rootsOf_cons rootsOf_nil)

variable {id : DeclId} {s : Scopes} {e e' : Expr}
   

/-! ## Scopes -/

/-- Some name denotes the declaration. -/
def Scope.Knows (scope : Scope) (id : DeclId) : Prop := id ∈ scope.map Prod.snd

lemma mem_of_lookup {α β : Type} [BEq α] [LawfulBEq α] {entries : List (α × β)} {key : α}
    {value : β} (h : entries.lookup key = some value) : (key, value) ∈ entries := by
  obtain ⟨front, back, rfl, _⟩ := List.lookup_eq_some_iff.1 h
  exact List.mem_append_right _ mem_cons_self

lemma map_eq_of_forall₂ {α β γ : Type} {R : α → β → Prop} {f : α → γ} {g : β → γ} {xs : List α}
    {ys : List β} (h : List.Forall₂ R xs ys) (heq : ∀ a b, R a b → g b = f a) : ys.map g =
    xs.map f := by
  induction h with
  | nil => rfl
  | cons hr _ ih => rw [map_cons, map_cons, heq _ _ hr, ih]

lemma exists_of_forall₂ {α β : Type} {R : α → β → Prop} {xs : List α} {ys : List β}
    (h : List.Forall₂ R xs ys) {b : β} (hb : b ∈ ys) : ∃ a ∈ xs, R a b := by
  induction h with
  | nil => cases hb
  | cons hr _ ih =>
    rcases mem_cons.1 hb with rfl | hb
    · exact ⟨_, mem_cons_self, hr⟩
    · obtain ⟨a, ha, h⟩ := ih hb
      exact ⟨a, List.mem_cons_of_mem _ ha, h⟩

lemma exists_of_forall₂_left {α β : Type} {R : α → β → Prop} {xs : List α} {ys : List β}
    (h : List.Forall₂ R xs ys) {a : α} (ha : a ∈ xs) : ∃ b ∈ ys, R a b :=
  exists_of_forall₂ h.flip ha

lemma Scope.knows_of_lookup {scope : Scope} (h : scope.lookup name = some id) : scope.Knows id :=
  List.mem_map_of_mem (mem_of_lookup h)

namespace Scopes

/-- Some name denotes the declaration, whether it is hidden by another of the same name or not. -/
inductive Knows (s : Scopes) (id : DeclId) : Prop
  | inner (h : s.inner.Knows id)
  | outer {scope : Scope} (hs : scope ∈ s.outer) (h : scope.Knows id)
  | predefined (h : s.predefined.Knows id)
  | exported (h : id ∈ s.exports.map Prod.snd)

/-- As `Knows`, for a name without a qualifier. -/
inductive KnowsPlainly (s : Scopes) (id : DeclId) : Prop
  | inner (h : s.inner.Knows id)
  | outer {scope : Scope} (hs : scope ∈ s.outer) (h : scope.Knows id)
  | predefined (h : s.predefined.Knows id)

lemma KnowsPlainly.knows (h : s.KnowsPlainly id) : s.Knows id := by
  cases h with
  | inner hk => exact .inner hk
  | outer hs hk => exact .outer hs hk
  | predefined hk => exact .predefined hk

lemma knows_of_find? (h : find? name scopes = some id) : ∃ scope ∈ scopes, scope.Knows id := by
  induction scopes with
  | nil => cases h
  | cons scope rest ih =>
    simp only [find?] at h
    split at h
    · next hl =>
      cases h
      exact ⟨scope, mem_cons_self, Scope.knows_of_lookup hl⟩
    · obtain ⟨scope', hm, hk⟩ := ih h
      exact ⟨scope', List.mem_cons_of_mem _ hm, hk⟩

lemma knows_of_lookupLocal (h : s.lookupLocal name = some id) : s.KnowsPlainly id := by
  obtain ⟨scope, hm, hk⟩ := knows_of_find? h
  simp only [List.cons_append, mem_cons, mem_append, List.not_mem_nil, or_false] at hm
  rcases hm with rfl | hm | rfl
  · exact .inner hk
  · exact .outer hm hk
  · exact .predefined hk

lemma knows_of_lookupInModule (h : s.lookupInModule module name = some id) : s.Knows id := by
  unfold lookupInModule at h
  split at h
  · exact .exported (List.mem_map_of_mem (mem_of_lookup h))
  · cases h

lemma knows_of_moduleScope (h : s.moduleScope.Knows id) : s.Knows id := by
  unfold moduleScope at h
  cases hl : s.outer.getLast? with
  | none =>
    rw [hl] at h
    exact .inner h
  | some scope =>
    rw [hl] at h
    exact .outer (List.mem_of_getLast? hl) h

lemma knows_of_lookup (h : s.lookup ident = some id) : s.Knows id := by
  unfold lookup at h
  split at h
  · exact (knows_of_lookupLocal h).knows
  · split at h
    · cases h
    · split at h
      · exact knows_of_lookupInModule h
      · exact knows_of_moduleScope (Scope.knows_of_lookup h)

lemma knowsPlainly_of_lookup (h : s.lookup ident = some id) (hq : ident.isQualified = false) :
    s.KnowsPlainly id := by
  unfold lookup at h
  split at h
  · exact knows_of_lookupLocal h
  · next heq => simp [QualIdent.isQualified, heq] at hq

lemma KnowsPlainly.of_openScope (h : s.openScope.KnowsPlainly id) : s.KnowsPlainly id := by
  cases h with
  | inner hk => cases hk
  | outer hs hk =>
    rcases mem_cons.1 hs with rfl | hs
    · exact .inner hk
    · exact .outer hs hk
  | predefined hk => exact .predefined hk

/-- Opening a scope makes nothing known. -/
lemma Knows.of_openScope (h : s.openScope.Knows id) : s.Knows id := by
  cases h with
  | inner hk => cases hk
  | outer hs hk =>
    rcases mem_cons.1 hs with rfl | hs
    · exact .inner hk
    · exact .outer hs hk
  | predefined hk => exact .predefined hk
  | exported hk => exact .exported hk

lemma Knows.of_closeScope (h : s.closeScope.Knows id) : s.Knows id := by
  unfold closeScope at h
  split at h
  · exact h
  · next heq =>
    cases h with
    | inner hk => exact .outer (by rw [heq]; exact mem_cons_self) hk
    | outer hs hk => exact .outer (by rw [heq]; exact List.mem_cons_of_mem _ hs) hk
    | predefined hk => exact .predefined hk
    | exported hk => exact .exported hk

lemma Knows.of_insert (h : (s.insert name new).Knows id) : id = new ∨ s.Knows id := by
  cases h with
  | inner hk => exact (mem_cons.1 hk).imp_right .inner
  | outer hs hk => exact .inr (.outer hs hk)
  | predefined hk => exact .inr (.predefined hk)
  | exported hk => exact .inr (.exported hk)

end Scopes

/-! ## Selectors -/

lemma Expr.Adapts.roots (h : e.Adapts e') : e'.roots = e.roots := by
  cases h with
  | refl => rfl
  | cast => exact Expr.roots_withNote _ e
  | literal => rfl

lemma Expr.Adapts.rootsOf (h : List.Forall₂ Expr.Adapts xs ys) : Expr.rootsOf ys =
    Expr.rootsOf xs := by
  induction h with
  | nil => rfl
  | cons h _ ih => rw [Expr.rootsOf_cons, Expr.rootsOf_cons, h.roots, ih]

namespace Selector

lemma roots_of_asGuard? {s guarded : Selector} (h : s.asGuard? store base = some guarded) :
    guarded.roots ⊆ s.roots := by
  unfold asGuard? at h
  split at h
  · split at h
    · cases h
      exact List.Subset.refl _
    · obtain ⟨ident, _, rfl⟩ := Option.map_eq_some_iff.1 h
      exact List.nil_subset _
  · cases h
    exact List.Subset.refl _

lemma roots_mergeIndices (dimensions rest) : ∀ indices span,
    Expr.rootsOf (mergeIndices dimensions indices span rest).1 ++ rootsOf (mergeIndices dimensions
     indices span rest).2.2 = Expr.rootsOf indices ++ rootsOf rest := by
  induction rest with
  | nil => intro indices span; rfl
  | cons s rest ih =>
    intro indices span
    cases s with
    | index more mark =>
      simp only [mergeIndices]
      split
      · rw [ih, Expr.rootsOf_append, rootsOf_cons, roots_index, List.append_assoc]
      · rfl
    | _ => rfl

lemma roots_gather (store base s rest) :
    (gather store base s rest).1.roots ++ rootsOf (gather store base s rest).2 =
    s.roots ++ rootsOf rest := by
  cases s with
  | index indices mark => exact roots_mergeIndices _ rest indices mark.span
  | _ => rfl

@[simp]
lemma roots_implicitDeref? (store base) (s : Selector) :
    rootsOf (s.implicitDeref? store base).toList = [] := by
  unfold implicitDeref?
  split
  · split <;> rfl
  · rfl

end Selector

namespace Analyze

lemma Applies.roots {s : Selector} (h : Applies a context base next s step) :
    step.selector.roots = s.roots := by
  cases h with
  | call hf hs hm hn => exact Expr.Adapts.rootsOf hm.passes.adapts
  | _ => rfl

lemma Takes.roots_subset (h : Takes a context base selector rest step left) :
    step.selector.roots ++ rootsOf left ⊆ rootsOf (selector :: rest) := by
  obtain ⟨_, hg, hs⟩ := h
  rw [hs.roots, Selector.roots_gather, rootsOf_cons]
  exact append_subset.2 ⟨List.subset_append_of_subset_left _ (Selector.roots_of_asGuard? hg),
    List.subset_append_right _ _⟩

/-- Resolving adds no references; those inside a type guard are dropped. -/
lemma Resolves.roots_subset (h : Resolves a context base chain out type) :
    rootsOf out ⊆ rootsOf chain := by
  induction h with
  | nil context base => exact List.Subset.refl _
  | @baseless context base selector d rest hd ht =>
    have hroots := Selector.roots_implicitDeref? a.store base selector
    rw [hd, Option.toList_some, rootsOf_cons, rootsOf_nil,
      List.append_nil] at hroots
    rw [rootsOf_cons, hroots, nil_append]
    exact List.Subset.refl _
  | stop hs ht =>
    rw [rootsOf_append, Selector.roots_implicitDeref?, nil_append,
      rootsOf_cons]
    exact hs.roots_subset
  | step hs ht h ih =>
    rw [rootsOf_append, Selector.roots_implicitDeref?, nil_append,
      rootsOf_cons]
    obtain ⟨hstep, hleft⟩ := append_subset.1 hs.roots_subset
    exact append_subset.2 ⟨hstep, List.Subset.trans ih hleft⟩

end Analyze

/-! ## Expressions -/

/-- The declaration that a plain name stands for, with the type it has there. -/
def Expr.plain? : Expr → Option (DeclId × Ty)
  | .designator _ (some id) [] note => some (id, note.type)
  | _ => none

lemma Expr.Adapts.plain? (h : e.Adapts e') : e'.plain? = e.plain? := by
  cases h with
  | refl => rfl
  | cast =>
    cases e with
    | designator ident decl ss note => cases decl <;> cases ss <;> rfl
    | _ => rfl
  | literal => rfl

/-- All references are declared, and a plain name has the type of its declaration. -/
structure Expr.Visible (a : Analysis) (e : Expr) : Prop where
  knows : ∀ id ∈ e.roots, a.scopes.Knows id
  plain : ∀ id t, e.plain? = some (id, t) → t = .typeName ∨ t = a.store.typeOf id

lemma Expr.Visible.adapts (h : e.Visible a) (he : e.Adapts e') : e'.Visible a :=
  ⟨he.roots ▸ h.knows, he.plain? ▸ h.plain⟩

namespace Expr

lemma visible_literal (value note) : (literal value note).Visible a :=
  ⟨nofun, nofun⟩

lemma visible_unary (hx : x.Visible a) (op note) : (unary op x note).Visible a :=
  ⟨hx.knows, nofun⟩

lemma visible_binary (hx : x.Visible a) (hy : y.Visible a) (op note) :
    (binary op x y note).Visible a := by
  refine ⟨fun id hid => ?_, nofun⟩
  rw [roots_binary, mem_append] at hid
  exact hid.elim (hx.knows id) (hy.knows id)

lemma visible_range (hx : x.Visible a) (hy : y.Visible a) (note) :
    (range x y note).Visible a := by
  refine ⟨fun id hid => ?_, nofun⟩
  rw [roots_range, mem_append] at hid
  exact hid.elim (hx.knows id) (hy.knows id)

end Expr

namespace Analyze

lemma Resolves.eq_of_nil (h : Resolves a context base chain out type) (hout : out = []) : type = base := by
  cases h with
  | nil => rfl
  | baseless => cases hout
  | stop hs
  | step hs => exact absurd hout (List.append_ne_nil_of_right_ne_nil _ (List.cons_ne_nil _ _))

lemma Designates.visible (h : Designates a span ident chain e)
    (hc : ∀ id ∈ rootsOf chain, a.scopes.Knows id) : e.Visible a := by
  have hres {id out type}
      (hid : a.scopes.lookup ident = some id)
      (h : Resolves a id (a.store.typeOf id) chain out type) :
      (Expr.designator ident (some id) out { type, span }).Visible a := by
    refine ⟨fun r hr => ?_, fun r t hp => ?_⟩
    · rw [Expr.roots_designator, Option.toList_some, List.singleton_append, mem_cons] at hr
      rcases hr with rfl | hr
      · exact Scopes.knows_of_lookup hid
      · exact hc r (h.roots_subset hr)
    · cases out with
      | nil =>
        cases hp
        exact .inr (h.eq_of_nil rfl)
      | cons s rest => cases hp
  cases h with
  | location hid _ h | procedure hid _ h _ => exact hres hid h
  | type hid hr hc =>
    refine ⟨fun r hr => ?_, fun r t hp => ?_⟩
    · rw [Expr.roots_designator, rootsOf_nil, Option.toList_some, List.append_nil,
        List.mem_singleton] at hr
      rw [hr]
      exact Scopes.knows_of_lookup hid
    · cases hp
      exact .inl rfl

end Analyze

open Analyze

/-- Expressions, and selectors whose expressions are visible. -/
def ExprPhrase.Visible (a : Analysis) : ExprPhrase → Prop
  | .expr e => e.Visible a
  | .selector s => ∀ id ∈ s.roots, a.scopes.Knows id

lemma Selector.knows_rootsOf (h : ∀ s ∈ chain, ExprPhrase.Visible a (.selector s)) :
    ∀ id ∈ rootsOf chain, a.scopes.Knows id := by
  intro id hid
  obtain ⟨s, hs, hr⟩ := mem_rootsOf.1 hid
  exact h s hs id hr

lemma Elaborates.visible (h : Elaborates a p) : p.Visible a := by
  have hlist {xs} (hx : ∀ x ∈ xs, x.Visible a) :
      ∀ id ∈ Expr.rootsOf xs, a.scopes.Knows id := by
    intro id hid
    obtain ⟨x, hm, hr⟩ := Expr.mem_rootsOf.1 hid
    exact (hx x hm).knows id hr
  induction h with
  | literal span h | constant span hd hv => exact Expr.visible_literal _ _
  | designator _ h ih => exact h.visible (Selector.knows_rootsOf ih)
  | @unary span op x e _ h ih =>
    cases h with
    | literal h => exact Expr.visible_literal _ _
    | unary h => exact Expr.visible_unary ih _ _
  | @binary span op x y e _ _ h ihx ihy =>
    have hx (t) : (convertTo a.store t x).Visible a := ihx.adapts (adapts_convertTo ..)
    have hy (t) : (convertTo a.store t y).Visible a := ihy.adapts (adapts_convertTo ..)
    cases h with
    | undefined h | test hop _ _ => exact Expr.visible_binary ihx ihy _ _
    | literal ht hr =>
      obtain ⟨v, b, hv⟩ := ht.foldedLiteral_eq hr
      rw [hv]
      exact Expr.visible_literal _ _
    | lhs ht _ _ => exact hx _
    | rhs ht _ _ => exact hy _
    | negated _ ht => exact Expr.visible_unary (hy _) _ _
    | binary _ _ ht => exact Expr.visible_binary (hx _) (hy _) _ _
  | range _ _ h ihx ihy =>
    cases h with
    | mk _ _ hx hy _ => exact Expr.visible_range (Expr.Visible.adapts ihx hx) (ihy.adapts hy) _
  | set _ h ih =>
    cases h with
    | literal value => exact Expr.visible_literal _ _
    | set hx => exact ⟨hlist ih, nofun⟩
  | field name span => exact nofun
  | index span _ ih => exact hlist ih
  | deref span => exact nofun
  | call span _ ih => exact hlist ih

lemma ReadsExpr.visible (h : ReadsExpr a p) : p.Visible a := h.elaborates.visible

end Oberon
