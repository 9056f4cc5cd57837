import Oberon.Proofs.Uniform

/-!
# Oberon.Proofs.Deciding

What comes of reading given tokens. `p.Gives c v d` says that `p`, started at `c`, yields `v` and stops
at `d`. `p.Decides c good Q` is for parsers that check what they read: the outcome satisfies `Q` if
`good` holds, and an error is reported if it does not. Nothing is ever taken from the log, so it does not
matter what is read behind an error.
-/

namespace Oberon

namespace Cursor

variable {c : Cursor} {rest : List Lexeme}

section

variable (h : c.rest = .token t :: rest)
include h

lemma settled_of_token : c.settled = c := by
  have hskip : skipFaults c.rest c.analysis = (c.rest, c.analysis) := by rw [h]; rfl
  simp only [settled, hskip]

lemma head_of_token : c.head = t := by
  simp [head, h]

lemma advanced_of_token : c.advanced = c.behind t rest := by
  simp [advanced, h, behind]

end

end Cursor

namespace Parser

open Analysis

variable {c : Cursor}

/-- The parser yields `v` and stops at `d`. -/
def Gives (p : Parser n α) (c : Cursor) (v : α) (d : Cursor) : Prop :=
  ∀ h, (p c h).value = v ∧ (p c h).cursor = d

/-- The outcome satisfies `Q` if `good` holds, and otherwise an error is reported. -/
structure Decides (p : Parser n α) (c : Cursor) (good : Prop) (Q : α → Cursor → Prop) : Prop where
  yields : good → ∀ h, Q (p c h).value (p c h).cursor
  fails : ¬ good → ∀ h, (p c h).cursor.analysis.Failed

section

variable {p : Parser n α}

lemma Gives.of_follows (h : p.Follows c q d) (hq : q.Gives d v e) : p.Gives c v e := by
  intro hc
  obtain ⟨hd, hvalue, hcursor⟩ := h hc
  rw [hvalue, hcursor]
  exact hq hd

lemma Decides.of_follows (h : p.Follows c q d) (hq : q.Decides d good P) :
    p.Decides c good P := by
  refine ⟨fun hgood hc => ?_, fun hnot hc => ?_⟩
  all_goals
    obtain ⟨hd, hvalue, hcursor⟩ := h hc
    rw [hcursor]
  · rw [hvalue]
    exact hq.yields hgood hd
  · exact hq.fails hnot hd

lemma Gives.follows {f : α → Parser n β} (hp : p.Gives c v d) : (p >>= f).Follows c (f v) d := by
  intro h
  obtain ⟨rfl, rfl⟩ := hp h
  exact ⟨_, rfl, rfl⟩

lemma follows_le (p : Parser n α) (h : m ≤ n) (c) : (p.le h).Follows c p c :=
  fun _ => ⟨_, rfl, rfl⟩

end

/-! ## Outcomes that are known -/

namespace Gives

variable {p : Parser n α}

lemma pure (v : α) (c) : (pure v : Parser n α).Gives c v c := fun _ => ⟨rfl, rfl⟩

lemma bind (hp : p.Gives c v d) (hf : (f v).Gives d w e) : (p >>= f).Gives c w e :=
  hf.of_follows hp.follows

lemma action {x : Analyze α} (h : x c.analysis = (v, b)) :
    (liftM x : Parser n α).Gives c v { c with analysis := b } := by
  obtain rfl : v = (x c.analysis).1 := by rw [h]
  obtain rfl : b = (x c.analysis).2 := by rw [h]
  exact fun _ => ⟨rfl, rfl⟩

lemma spanFrom (start c) :
    (@spanFrom n start).Gives c (start.merge c.previous) c := fun _ => ⟨rfl, rfl⟩

section

variable (hc : c.rest = .token t :: rest)
include hc

lemma peek : (@peek n).Gives c t c := by
  intro h
  simp only [Parser.peek, Cursor.settled_of_token hc, Cursor.head_of_token hc, and_self]

lemma next : (@next n).Gives c t (c.behind t rest) := by
  intro h
  simp only [Parser.next, Cursor.settled_of_token hc, Cursor.head_of_token hc,
    Cursor.advanced_of_token hc, and_self]

lemma check (test) : (@check n test).Gives c (test t.lexis) c :=
  (peek hc).bind (.pure _ _)

lemma accept (ht : test t.lexis) : (@accept n test).Gives c true (c.behind t rest) := by
  refine (check hc test).bind ?_
  rw [ht]
  exact (next hc).bind (.pure _ _)

lemma accept_skip (ht : test t.lexis = false) :
    (Parser.accept test : Parser n Bool).Gives c false c := by
  refine (check hc test).bind ?_
  rw [ht]
  exact .pure _ _

lemma expect (text) (ht : test t.lexis) : (@expect n test text).Gives c true (c.behind t rest) :=
  (accept hc ht).bind (.pure _ _)

lemma ident (ht : t.lexis = .ident name) :
    (Grammar.ident : Parser n (Option Ident)).Gives c (some ⟨name, t.span⟩) (c.behind t rest) := by
  refine (peek hc).bind ?_
  rw [ht]
  exact (next hc).bind (.pure _ _)

lemma expectBehind {phrase : Recovery} (ht : phrase.follow t.lexis) :
    (@expectBehind n phrase).Gives c () c := by
  refine (peek hc).bind ?_
  rw [ht]
  exact .pure _ _

end

end Gives

/-! ## Branches -/

section

variable (otherwise : Token → Parser (n + 1) α)

lemma onToken_of_some (hc : c.rest = .token t :: rest) (ht : take t = some p) :
    (onToken take otherwise).Follows c p (c.behind t rest) := by
  have hs := Cursor.settled_of_token hc
  have h := onToken_some otherwise (by rw [hs, hc]) ht
  rwa [hs] at h

lemma onToken_of_none (hc : c.rest = .token t :: rest) (ht : take t = none) :
    (onToken take otherwise).Follows c (otherwise t) c := by
  have hs := Cursor.settled_of_token hc
  have hnone (u left) (hr : c.settled.rest = .token u :: left) : take u = none := by
    rw [hs, hc] at hr
    cases hr
    exact ht
  have h := onToken_none otherwise hnone (by rw [hs, Cursor.head_of_token hc])
  rwa [hs] at h

end

section

variable (hc : c.rest = .token t :: rest)
include hc

lemma Gives.onToken {take : Token → Option (Parser n α)} {otherwise : Token → Parser (n + 1) α}
    {p : Parser n α} {v : α} (ht : take t = some p) (hp : p.Gives (c.behind t rest) v d) :
    (onToken take otherwise).Gives c v d :=
  hp.of_follows (onToken_of_some otherwise hc ht)

lemma Gives.onToken_skip {take : Token → Option (Parser n α)}
    {otherwise : Token → Parser (n + 1) α} {v : α} (ht : take t = none)
    (hp : (otherwise t).Gives c v d) : (Parser.onToken take otherwise).Gives c v d :=
  hp.of_follows (onToken_of_none otherwise hc ht)

/-- A loop ends in front of a token that opens no round. -/
lemma Gives.loopWithin_closed {opens : Lexis → Option β}
    {round : β → Token → σ → Parser n (Flow σ)} {closed : Token → σ → Parser (n + 1) σ}
    {hk : k ≤ n + 1} {s v : σ} (ht : opens t.lexis = none) (hv : (closed t s).Gives c v d) :
    (loopWithin opens round closed k hk s).Gives c v d := by
  cases k with
  | zero => exact fun h => absurd h (Nat.not_lt_zero _)
  | succ k => exact .onToken_skip hc (by rw [ht]; rfl) (hv.of_follows (follows_le _ hk c))

end

/-! ## Outcomes that are checked -/

namespace Decides

variable {p : Parser n α} {Q : β → Cursor → Prop}

lemma of_gives (h : p.Gives c v d) (hgood : good) (hP : P v d) : p.Decides c good P :=
  ⟨fun _ hl => by
    obtain ⟨hv, hd⟩ := h hl
    rw [hv, hd]
    exact hP, fun hnot => absurd hgood hnot⟩

lemma mono {P' : α → Cursor → Prop} (h : p.Decides c good P) (hgood : good ↔ other)
    (hP : good → ∀ v d, P v d → P' v d) : p.Decides c other P' :=
  ⟨fun ho hl => hP (hgood.2 ho) _ _ (h.yields (hgood.2 ho) hl), fun ho => h.fails fun hg => ho (hgood.1 hg)⟩

/-- As `bind`, where instances are not enough to see that what follows only adds to the log. -/
lemma bind_of_proceeds (hf : ∀ v, Proceeds (f v)) (hp : p.Decides c good P)
    (h : good → ∀ v d, P v d → (f v).Decides d other Q) : (p >>= f).Decides c (good ∧ other) Q := by
  refine ⟨fun hboth hl => ?_, fun hnot hl => ?_⟩
  · exact (h hboth.1 _ _ (hp.yields hboth.1 hl)).yields hboth.2 _
  · by_cases hgood : good
    · exact (h hgood _ _ (hp.yields hgood hl)).fails (fun ho => hnot ⟨hgood, ho⟩) _
    · exact ((hf _).keeps _ _).failed (hp.fails hgood hl)

lemma bind [hf : ∀ v, Proceeds (f v)] (hp : p.Decides c good P)
    (h : good → ∀ v d, P v d → (f v).Decides d other Q) : (p >>= f).Decides c (good ∧ other) Q :=
  bind_of_proceeds hf hp h

lemma after (hp : p.Gives c v d) (hf : (f v).Decides d good Q) : (p >>= f).Decides c good Q :=
  hf.of_follows hp.follows

/-- Nothing is checked behind `p`. -/
lemma before_of_proceeds (hf : ∀ v, Proceeds (f v)) (hp : p.Decides c good P)
    (h : good → ∀ v d, P v d → ∃ w e, (f v).Gives d w e ∧ Q w e) : (p >>= f).Decides c good Q := by
  refine (hp.bind fun hgood v d hP => ?_).mono (iff_of_eq (and_true good)) fun _ _ _ hQ => hQ
  obtain ⟨w, e, hgives, hQ⟩ := h hgood v d hP
  exact .of_gives hgives trivial hQ

lemma before [hf : ∀ v, Proceeds (f v)] (hp : p.Decides c good P)
    (h : good → ∀ v d, P v d → ∃ w e, (f v).Gives d w e ∧ Q w e) : (p >>= f).Decides c good Q :=
  before_of_proceeds hf hp h

lemma le (h : m ≤ n) (hp : p.Decides c good P) : (p.le h).Decides c good P :=
  hp.of_follows (follows_le p h c)

lemma lift {p : Parser (n + 1) α} (hp : p.Decides c good P) :
    (liftM p : Parser n α).Decides c good P :=
  hp.le _

/-- There is nothing to read within a bound of zero. -/
lemma zero {p : Parser 0 α} : p.Decides c good P :=
  ⟨fun _ h => absurd h (Nat.not_lt_zero _), fun _ h => absurd h (Nat.not_lt_zero _)⟩

lemma action {x : Analyze α} (hyields : good → P (x c.analysis).1 { c with analysis := (x c.analysis).2 })
    (hfails : ¬ good → (x c.analysis).2.Failed) : (liftM x : Parser n α).Decides c good P :=
  ⟨fun hg _ => hyields hg, fun hg _ => hfails hg⟩

section

variable (hc : c.rest = .token t :: rest)
include hc

lemma onToken {take : Token → Option (Parser n α)} {otherwise : Token → Parser (n + 1) α}
    (ht : take t = some p) (hp : p.Decides (c.behind t rest) good P) :
    (onToken take otherwise).Decides c good P :=
  hp.of_follows (onToken_of_some otherwise hc ht)

lemma onToken_skip {take : Token → Option (Parser n α)} {otherwise : Token → Parser (n + 1) α}
    (ht : take t = none) (hp : (otherwise t).Decides c good P) :
    (Parser.onToken take otherwise).Decides c good P :=
  hp.of_follows (onToken_of_none otherwise hc ht)

/-- A round of a loop that is not the last one. -/
lemma loopWithin {opens : Lexis → Option β} {round : β → Token → σ → Parser n (Flow σ)}
    {closed : Token → σ → Parser (n + 1) σ} [∀ b t s, Proceeds (round b t s)]
    [∀ t s, Proceeds (closed t s)] {hk : k ≤ n + 1} {s : σ} {b : β} {R : Flow σ → Cursor → Prop}
    {Q : σ → Cursor → Prop} (hb : opens t.lexis = some b)
    (hround : (round b t s).Decides (c.behind t rest) good R)
    (hagain : good → ∀ flow d, R flow d → ∃ s', flow = .again s' ∧ ∀ k hk,
     (loopWithin opens round closed k hk s').Decides d other Q) :
    (loopWithin opens round closed k hk s).Decides c (good ∧ other) Q := by
  cases k with
  | zero => exact zero
  | succ k =>
    refine onToken hc (by rw [hb]; rfl)
      (bind_of_proceeds (fun flow => ?_) (hround.le _) fun hgood flow d hR => ?_)
    · cases flow with
      | again s =>
        have hk' : k ≤ n + 1 := by omega
        have h : Proceeds (Parser.loopWithin opens round closed k hk' s) :=
          uniform_loopWithin k k hk' hk' s
        exact ⟨h.same, h.consumes, h.keeps⟩
      | done s => exact inferInstanceAs (Uniform {} Logs (Pure.pure s) (Pure.pure s))
    · obtain ⟨s', rfl, h⟩ := hagain hgood flow d hR
      exact ⟨(h k _).yields, (h k _).fails⟩

end

end Decides

end Parser
end Oberon
