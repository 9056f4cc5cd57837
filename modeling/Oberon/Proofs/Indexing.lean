import Oberon.Proofs.Closed
import Oberon.Proofs.Quiet

/-!
# Oberon.Proofs.Indexing

Indices of arrays of several dimensions. What is left of an array after some of its indices is an
array of the lengths that are left, so it does not matter how the indices are spread over brackets,
as long as no bracket comes behind the last dimension.
-/

namespace Oberon

open List Prod

open Selector hiding mark

/-- What is left of an array after none, one, … of its indices, down to the member. -/
inductive Store.Rows (s : Store) (member : Ty) : List Nat → List Ty → Prop
  | member : Rows s member [] [member]
  | row {t : Ty} {lengths : List Nat} {types : List Ty} (n)
      (ht : s.array? t = some ⟨n :: lengths, types⟩) (h : Rows s member lengths types) :
      Rows s member (n :: lengths) (t :: types)

variable {s s' : Store} {member : Ty} {types : List Ty}

namespace Store.Rows

lemma mono (h : s.Rows member lengths types)
    (hk : ∀ u f, s.array? u = some f → s'.array? u = some f) : s'.Rows member lengths types := by
  induction h with
  | member => exact .member
  | row n ht _ ih => exact .row n (hk _ _ ht) ih

lemma addRow (h : s.Rows member lengths types) (n) :
    (s.addType (.array ⟨n :: lengths, types⟩)).2.Rows member (n :: lengths) (.composite s.types.size
     :: types) := by
  refine .row n (array?_eq_some.2 (form?_addType_self _ _)) (h.mono fun u f hu => ?_)
  rw [array?_eq_some] at hu ⊢
  rw [form?_addType, if_neg ?_, hu]
  rintro rfl
  exact Nat.lt_irrefl _ (lt_of_form? hu)

lemma addRows (s : Store) (member lengths) :
    (s.addRows member lengths).2.Rows member lengths (s.addRows member lengths).1 := by
  induction lengths with
  | nil => exact .member
  | cons n rest ih => exact ih.addRow n

lemma addArray (s : Store) (member n lengths) :
    (s.addArray (n :: lengths) member).2.Rows member (n :: lengths) ((s.addArray (n :: lengths)
     member).1 :: (s.addRows member lengths).1) :=
  (addRows s member lengths).addRow n

lemma length (h : s.Rows member lengths types) : types.length = lengths.length + 1 := by
  induction h with
  | member => rfl
  | row n ht _ ih => simp [ih]

lemma drop (h : s.Rows member lengths types) : ∀ k ≤ lengths.length,
    s.Rows member (lengths.drop k) (types.drop k) := by
  induction h with
  | member => intro k hk; simpa [Nat.le_zero.1 hk] using .member
  | row n ht h ih =>
    intro k hk
    cases k with
    | zero => exact .row n ht h
    | succ k => exact ih k (Nat.le_of_succ_le_succ hk)

lemma getLast? (h : s.Rows member lengths types) : types.getLast? = some member := by
  induction h with
  | member => rfl
  | row n ht h ih => rw [getLast?_cons_of_ne_nil (by cases h <;> simp), ih]

lemma getElem? (h : s.Rows member lengths types) : ∀ i < lengths.length, ∃ u, types[i]? = some u ∧
    s.array? u = some ⟨lengths.drop i, types.drop (i + 1)⟩ := by
  induction h with
  | member => exact fun i hi => absurd hi (Nat.not_lt_zero i)
  | row n ht _ ih =>
    intro i hi
    cases i with
    | zero => exact ⟨_, rfl, ht⟩
    | succ i => exact ih i (Nat.lt_of_succ_lt_succ hi)

end Store.Rows

/-- Every bracket is given while dimensions are left, and has at most as many indices. -/
def Portions (d : Nat) : List (List Expr × Mark) → Prop
  | [] => True
  | b :: rest => 0 < d ∧ b.1.length ≤ d ∧ Portions (d - b.1.length) rest

lemma portions_of_sum (brackets) : ∀ {d}, (brackets.flatMap fst : List Expr).length ≤ d →
    (brackets.dropLast.flatMap fst : List Expr).length < d → Portions d brackets := by
  induction brackets with
  | nil => exact fun _ _ => trivial
  | cons b rest ih =>
    intro d hsum hleft
    simp only [flatMap_cons, length_append] at hsum
    refine ⟨by omega, by omega, ?_⟩
    cases rest with
    | nil => trivial
    | cons c rest =>
      simp only [dropLast_cons_cons, flatMap_cons, length_append] at hleft
      exact ih (by omega) (by omega)

namespace Analyze

open Store

/-- Indices lead to what is left behind them. -/
lemma index_rows {indices : List Expr} (h : a.store.Rows member lengths (t :: types))
    (hd : 0 < lengths.length) (hi : indices.length ≤ lengths.length) (span) : ∃ rest,
    (t :: types).drop indices.length = (index t span indices a).1 :: rest := by
  have hlength := h.length
  cases h with
  | member => cases hd
  | row n ht h =>
    simp only [index, getStore_bind_run, ht]
    have hmin : min indices.length (ArrayForm.dimensions ⟨n :: _, types⟩) = indices.length :=
      Nat.min_eq_left hi
    simp only [bind_run, hmin]
    cases hk : indices.length with
    | zero => exact ⟨types, rfl⟩
    | succ k =>
      have hlt : k < types.length := by simp at hlength hi; omega
      refine ⟨types.drop (k + 1), (drop_eq_getElem_cons hlt).trans ?_⟩
      simp [getElem?_eq_getElem hlt]

/-- One bracket after the other. -/
def indexAll (t : Ty) (brackets : List (List Expr × Mark)) : Analyze Ty :=
  brackets.foldlM (fun t b => index t b.2.span b.1) t

lemma indexAll_rows (brackets) : ∀ {lengths t types} {a : Analysis},
    a.store.Rows member lengths (t :: types) → Portions lengths.length brackets → ∃ rest,
    (t :: types).drop (brackets.flatMap fst).length = (indexAll t brackets a).1 :: rest := by
  induction brackets with
  | nil => exact fun _ _ => ⟨_, rfl⟩
  | cons b brackets ih =>
    rintro lengths t types a h ⟨hd, hb, hrest⟩
    obtain ⟨types', htypes⟩ := index_rows h hd hb b.2.span
    have hdrop := h.drop b.1.length hb
    rw [htypes, ← (silent (index t b.2.span b.1) a).store] at hdrop
    have hind := ih hdrop (by simpa using hrest)
    rw [← htypes, drop_drop] at hind
    simpa [indexAll] using hind

/-- Brackets lead to the type that one bracket with all the indices leads to. -/
lemma indexAll_eq (h : a.store.Rows member lengths (t :: types)) (hd : 0 < lengths.length)
    (hb : Portions lengths.length brackets)
    (hsum : (brackets.flatMap fst).length ≤ lengths.length) (span) :
    (indexAll t brackets a).1 = (index t span (brackets.flatMap fst) a).1 := by
  obtain ⟨_, hall⟩ := indexAll_rows brackets h hb
  obtain ⟨_, hone⟩ := index_rows h hd hsum span
  exact (cons.inj (hall.symm.trans hone)).1

end Analyze

namespace Selector

/-- A bracket for each list of indices. -/
def ofBrackets (brackets : List (List Expr × Mark)) : List Selector :=
  brackets.map fun b => .index b.1 b.2

def mergeSpans (span : Span) (brackets : List (List Expr × Mark)) : Span :=
  brackets.foldl (fun span b => span.merge b.2.span) span

/-- Brackets are merged as long as dimensions are left. -/
lemma mergeIndices_brackets (rest) (more) : ∀ {d} xs span, Portions (d - xs.length) more →
    mergeIndices d xs span (ofBrackets more ++ rest) =
    mergeIndices d (xs ++ more.flatMap fst) (mergeSpans span more) rest := by
  induction more with
  | nil => intro d xs span _; simp [ofBrackets, mergeSpans]
  | cons b more ih =>
    rintro d xs span ⟨hd, _, hmore⟩
    rw [ofBrackets, map_cons, cons_append, mergeIndices, if_pos (by omega), ← ofBrackets,
      ih _ _ (by simpa [Nat.sub_sub] using hmore)]
    simp [mergeSpans]

/-- Nothing more is merged if no index follows or the dimensions are used up. -/
lemma mergeIndices_full (h : ∀ more mark rest', rest = .index more mark :: rest' → d ≤ xs.length)
    (span) : mergeIndices d xs span rest = (xs, span, rest) := by
  unfold mergeIndices
  split
  · next more mark rest' => rw [if_neg (Nat.not_lt.2 (h _ _ _ rfl))]
  · rfl

end Selector

namespace Analyze

/-- Apply indices that have been gathered, and go on behind them. -/
def resolveGathered (context : DeclId) (t type : Ty) (indices : List Expr × Span × List Selector) :
    Analyze (List Selector × Ty) := do
  let step ← applySelector context t indices.2.2.head? (.index indices.1 ⟨indices.2.1, type⟩)
  if step.type == .undefined then return (step.selector :: indices.2.2, .undefined)
  else
    let (chain, type) ← resolve step.context step.type indices.2.2
    return (step.selector :: chain, type)

lemma resolve_index (ht : a.store.array? t = some form) (context xs mark rest) :
    resolve context t (.index xs mark :: rest) a =
      (let indices := mergeIndices form.dimensions xs mark.span rest
      if indices.2.2.length < rest.length then do
        warn mark.span (.selector .splitIndex)
        resolveGathered context t mark.type indices
      else resolveGathered context t mark.type indices : Analyze (List Selector × Ty)) a := by
  have hpointer : a.store.pointer? t = none := by simp [Store.pointer?, Store.array?_eq_some.1 ht]
  have hderef (s : Selector) : s.implicitDeref? a.store t = none := by
    simp [implicitDeref?, hpointer]
  have hreached (s) : reached a.store t s = t := by simp [reached, hderef]
  rw [resolve_cons]
  simp only [getStore_bind_run, hderef, hreached, asGuard?, gather, ht]
  rfl

/-- Brackets behind an array are resolved as one, with a warning. -/
lemma resolve_brackets {more : List (List Expr × Mark)} (ht : a.store.array? t = some form)
    (hmore : more ≠ []) (hs : Portions form.dimensions ((xs, mark) :: more))
    (hfull : ∀ ys m rest', rest = .index ys m :: rest' →
      form.dimensions ≤ (xs ++ more.flatMap fst).length)
    (context) : resolve context t (.index xs mark :: ofBrackets more ++ rest) a =
      (do
        warn mark.span (.selector .splitIndex)
        resolve context t (.index (xs ++ more.flatMap fst)
          { mark with span := mergeSpans mark.span more } :: rest)) a := by
  have hlt : rest.length < (ofBrackets more ++ rest).length := by
    simpa [ofBrackets] using length_pos_iff.2 hmore
  rw [cons_append, resolve_index ht, mergeIndices_brackets _ _ _ _ hs.2.2, mergeIndices_full hfull]
  dsimp only
  rw [if_pos hlt, bind_run, bind_run,
    resolve_index (a := (warn mark.span (.selector .splitIndex) a).2) ht, mergeIndices_full hfull]
  simp

/-- What is left of an array type after some indices is the array type of the lengths that are left,
and brackets that follow each other are as good as one bracket, as long as dimensions are left for
each. -/
theorem brackets_agree (s : Store) (member : Ty) (n : Nat) (lengths : List Nat) :
    let t := (s.addArray (n :: lengths) member).1
    let s' := (s.addArray (n :: lengths) member).2
    (∃ types, s'.array? t = some ⟨n :: lengths, types⟩ ∧ types.length = lengths.length + 1 ∧
      types.getLast? = some member ∧ ∀ i < lengths.length, ∃ u, types[i]? = some u ∧
        s'.array? u = some ⟨(n :: lengths).drop (i + 1), types.drop (i + 1)⟩) ∧
    ∀ a : Analysis, (∀ u f, s'.array? u = some f → a.store.array? u = some f) →
      ∀ brackets : List (List Expr × Mark),
        (brackets.flatMap Prod.fst).length ≤ (n :: lengths).length →
        (brackets.dropLast.flatMap Prod.fst).length < (n :: lengths).length →
        (∀ span, (indexAll t brackets a).1 = (index t span (brackets.flatMap Prod.fst) a).1) ∧
        ∀ context xs mark more rest, brackets = (xs, mark) :: more → more ≠ [] →
          (∀ ys m rest', rest = .index ys m :: rest' →
            (brackets.flatMap Prod.fst).length = (n :: lengths).length) →
          resolve context t (ofBrackets brackets ++ rest) a =
            (do
              warn mark.span (.selector .splitIndex)
              resolve context t (.index (brackets.flatMap Prod.fst)
                { mark with span := mergeSpans mark.span more } :: rest)) a := by
  intro t s'
  have hrows := Store.Rows.addArray s member n lengths
  refine ⟨?_, fun a hkeep brackets hsum hleft => ⟨fun span => ?_, ?_⟩⟩
  · cases hrows with
    | row _ ht h => exact ⟨_, ht, h.length, h.getLast?, h.getElem?⟩
  · have hs := portions_of_sum brackets hsum hleft
    exact indexAll_eq (hrows.mono hkeep) (Nat.succ_pos _) hs hsum span
  · rintro context xs mark more rest rfl hmore hfull
    cases hrows.mono hkeep with
    | row _ ht h =>
      exact resolve_brackets ht hmore (portions_of_sum _ hsum hleft)
        (fun ys m rest' h => Nat.le_of_eq (hfull ys m rest' h).symm) context

/-- An analysis that knows an array of three rows of four integers. -/
def grid : Analysis where
  store := ((default : Store).addArray [3, 4] .integer).2
  scopes := default
  signatures := []
  features := {}
  library := {}

def gridIndex : Expr := .literal (.integer 1) { type := .shortint, span := .none }

theorem brackets_agree_grid : let t := ((default : Store).addArray [3, 4] .integer).1
    let first : List Expr × Mark := ([gridIndex], ⟨⟨1, 4⟩, .undefined⟩)
    let second : List Expr × Mark := ([gridIndex], ⟨⟨4, 7⟩, .undefined⟩)
    (indexAll t [first, second] grid).1 = .integer ∧
    (resolve ⟨0⟩ t (ofBrackets [first, second]) grid).1 =
      (resolve ⟨0⟩ t [.index [gridIndex, gridIndex] ⟨⟨1, 7⟩, .undefined⟩]
        (warn ⟨1, 4⟩ (.selector .splitIndex) grid).2).1 := by
  intro t first second
  have h := (brackets_agree default .integer 3 [4]).2 grid (fun _ _ h => h) [first, second]
    (by decide) (by decide)
  have hresolve := h.2 ⟨0⟩ _ _ _ [] rfl (by simp) fun _ _ _ h => by cases h
  exact ⟨(h.1 .none).trans (by decide), congrArg Prod.fst hresolve⟩

/-- An empty bracket behind the last dimension is not applied to an array any more. -/
theorem emptyBracket_disagrees : let t := ((default : Store).addArray [3, 4] .integer).1
    let mark : Mark := ⟨.none, .undefined⟩
    let brackets := [([gridIndex, gridIndex], mark), ([], mark)]
    (brackets.flatMap Prod.fst).length ≤ 2 ∧ (indexAll t brackets grid).1 = .undefined ∧
      (index t .none (brackets.flatMap Prod.fst) grid).1 = .integer := by
  decide

end Analyze
end Oberon
