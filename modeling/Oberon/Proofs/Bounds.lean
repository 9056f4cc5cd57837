import Oberon.Proofs.Uniform

/-!
# Oberon.Proofs.Bounds

Reading needs no bound on the length of its input. What a production makes of an input is the same
within every bound, so it is the solution of a recursion on the input that is left: where it calls
itself, at least one lexeme less is left (`descend`). Every round of a loop stands behind a token of
its own (`Loop.rounds`), and skipping ends at a token from which reading goes on, or at the end.
-/

namespace Oberon
namespace Parser

/-- What `body` describes, which may be called again where fewer lexemes are left. -/
def descend (body : (n : Nat) → Parser n α → Parser (n + 1) α) (c : Cursor) : Reached c α :=
  body c.rest.length (fun d _ => descend body d) c (Nat.lt_succ_self _)
termination_by c.rest.length

lemma Uniform.le {p : Parser k α} {q : Parser m α} (hp : Uniform r E p q) (h : n ≤ k) :
    Uniform r E (p.le h) q :=
  ⟨fun c _ hm => hp.same c _ hm, fun c _ => hp.consumes c _, fun c _ => hp.keeps c _⟩

lemma fix_eq_descend {body : (n : Nat) → Parser n α → Parser (n + 1) α}
    (h : ∀ n m (p : Parser n α) (q : Parser m α), Uniform {} E p q →
     Uniform {} E (body n p) (body m q))
    (n) (c : Cursor) (hc : c.rest.length < n) : fix body n c hc = descend body c := by
  induction hl : c.rest.length using Nat.strongRecOn generalizing n c with
  | _ l ih =>
    cases n with
    | zero => exact absurd hc (Nat.not_lt_zero _)
    | succ n =>
      -- both sides are the body, with the production itself for shorter inputs
      have hrec : Uniform {} E (fun d hd => fix body n d hd)
          (fun d _ => descend body d : Parser c.rest.length α) :=
        have hfix := Uniform.fix h n n
        ⟨fun d hn hm _ => ih _ (hl ▸ hm) n d hn rfl, hfix.consumes, hfix.keeps⟩
      rw [descend]
      exact (h _ _ _ _ hrec).eq c hc _

/-- A loop whose parts do the same within every bound. -/
structure Loop (β σ : Type) where
  opens : Lexis → Option β
  round : (n : Nat) → β → Token → σ → Parser n (Flow σ)
  closed : (n : Nat) → Token → σ → Parser (n + 1) σ
  round_uniform : ∀ n m b t s, Uniform {} Analysis.Logs (round n b t s) (round m b t s)
  closed_uniform : ∀ n m t s, Uniform {} Analysis.Logs (closed n t s) (closed m t s)

namespace Loop

def within (l : Loop β σ) (n : Nat) : σ → Parser (n + 1) σ := loop l.opens (l.round n) (l.closed n)

/-- The rounds of a loop, each behind the token that opens it. -/
def rounds (l : Loop β σ) (state : σ) (c : Cursor) : Reached c σ := onToken
    (fun t => (l.opens t.lexis).map fun b => do
      match ← l.round c.rest.length b t state with
      | .again state => fun d _ => rounds l state d
      | .done state => pure state)
    (fun t => l.closed c.rest.length t state) c (Nat.lt_succ_self _)
termination_by c.rest.length

lemma loopWithin_eq_rounds (l : Loop β σ) (n k) (hk : k ≤ n + 1) (s : σ) (c : Cursor)
    (h : c.rest.length < k) : loopWithin l.opens (l.round n) (l.closed n) k hk s c h =
    l.rounds s c := by
  induction k generalizing s c with
  | zero => exact absurd h (Nat.not_lt_zero _)
  | succ k ih =>
    rw [loopWithin, rounds]
    refine (Uniform.onToken (E := Analysis.Logs) (fun t => .map fun b => .seq
      ((l.round_uniform _ _ b t s).le _) (fun flow => ?_) Analysis.Order.trans) fun t =>
        (l.closed_uniform _ _ t s).le _).eq c h _
    cases flow with
    | again s =>
      have := l.round_uniform n n
      have := l.closed_uniform n n
      have hk' : k ≤ n + 1 := Nat.le_of_lt hk
      have hloop : Uniform {} Analysis.Logs (loopWithin l.opens (l.round n) (l.closed n) k hk' s)
          (loopWithin l.opens (l.round n) (l.closed n) k hk' s) :=
        uniform_loopWithin k k hk' hk' s
      exact ⟨fun d hn _ _ => ih hk' s d hn, hloop.consumes, hloop.keeps⟩
    | done s => exact inferInstanceAs (Uniform {} Analysis.Logs (pure s) (pure s))

lemma within_eq_rounds (l : Loop β σ) (n) (s : σ) : l.within n s = fun c _ => l.rounds s c := by
  funext c h
  exact l.loopWithin_eq_rounds n _ _ s c h

end Loop
end Parser

lemma Cursor.skipBehind_ends (phrase rest c) : (skipBehind phrase rest c).rest = [] ∨ ∃ t left,
    (skipBehind phrase rest c).rest = .token t :: left ∧ phrase.follow t.lexis := by
  induction rest generalizing c with
  | nil => exact .inl rfl
  | cons l rest ih =>
    cases l with
    | token t =>
      simp only [skipBehind]
      split
      case isTrue h => exact .inr ⟨t, rest, rfl, h⟩
      case isFalse => exact ih _
    | fault f span => exact ih _

namespace Grammar

open Oberon.Parser Analysis

end Grammar
end Oberon
