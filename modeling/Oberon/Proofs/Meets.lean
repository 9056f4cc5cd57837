import Oberon.Proofs.Reading
import Oberon.Proofs.Uniform

/-!
# Oberon.Proofs.Meets

Reasoning about parsers that come to their end without a report. `p.Meets c Q` says that `p`,
started at `c`, either has an error in its log in the end or satisfies `Q`; `p.Unless B c Q` says so
for other faults `B`. Since nothing is ever taken from the log, a report on the way settles the
matter, and what goes on without one may be assumed to find a log without errors.

The names among the tokens are words, which the scanner sees to; `Meets` takes it for granted at
the start and `Proceeds` keeps it.
-/

namespace Oberon

open Cursor

/-! ## Words -/

/-- A name among the lexemes is a word. -/
def Lexeme.Worded : Lexeme → Prop
  | .token t => ∀ name, t.lexis = .ident name → IsWord name
  | .fault _ _ => True

namespace Scan

lemma ident_of_word (h : (word cs).reading = .token (.ident name)) : name =
    String.ofList (cs.takeWhile isIdentChar) := by
  unfold word at h
  simp only [Reading.token.injEq] at h
  split at h
  · cases h
  · exact ((Lexis.ident.injEq _ _).mp h).symm

lemma number_ne_ident (cs name) : (number cs).reading ≠ .token (.ident name) := by
  unfold number real numberFault
  dsimp only
  intro h
  repeat' split at h
  all_goals cases h

lemma quoted_ne_ident (quote cs name) : (quoted quote cs).reading ≠ .token (.ident name) := by
  unfold quoted
  dsimp only
  split <;> simp

lemma comment_ne_ident (cs name) : (comment cs).reading ≠ .token (.ident name) := by
  unfold comment
  split <;> simp

/-- A name is what there is of letters, digits and underscores behind a letter. -/
lemma ident_of_step (h : (step c cs).reading = .token (.ident name)) : isLetter c ∧ name =
    String.ofList (c :: cs.takeWhile isIdentChar) := by
  unfold step at h
  split at h
  · cases h
  · split at h
    · exact absurd h (number_ne_ident _ _)
    · split at h
      · rename_i hc
        have hname := ident_of_word h
        rw [List.takeWhile_cons_of_pos (by simp [isIdentChar, hc])] at hname
        exact ⟨hc, hname⟩
      · split at h
        · exact absurd h (comment_ne_ident _ _)
        · exact absurd h (quoted_ne_ident _ _ _)
        · exact absurd h (quoted_ne_ident _ _ _)
        all_goals cases h

lemma step_of_mem_lexemes (cs) : ∀ skip pos, .token t ∈ lexemes skip pos cs → ∃ c rest,
    (step c rest).reading = .token t.lexis := by
  induction cs with
  | nil => intro skip pos ht; cases ht
  | cons c cs ih =>
    intro skip pos ht
    unfold lexemes at ht
    split at ht
    · exact ih _ _ ht
    · dsimp only at ht
      split at ht
      · exact ih _ _ ht
      · rename_i lexis hr
        cases ht with
        | head => exact ⟨c, cs, hr⟩
        | tail _ ht => exact ih _ _ ht
      · cases ht with
        | tail _ ht => exact ih _ _ ht

/-- Where a name among the lexemes of a text comes from. -/
lemma ident_of_mem_lexemes (ht : .token t ∈ lexemes skip pos cs) (hname : t.lexis = .ident name) :
    ∃ c, ∃ rest : List Char, isLetter c ∧ name =
    String.ofList (c :: rest.takeWhile isIdentChar) := by
  obtain ⟨c, rest, h⟩ := step_of_mem_lexemes _ _ _ ht
  exact ⟨c, rest, ident_of_step (hname ▸ h)⟩

end Scan

lemma scan_worded (source) : ∀ l ∈ scan source, l.Worded := by
  intro l hl
  cases l with
  | token t =>
    intro name hname
    obtain ⟨c, rest, hc, rfl⟩ := Scan.ident_of_mem_lexemes hl hname
    exact ⟨c, rest.takeWhile Scan.isIdentChar, String.toList_ofList, hc⟩
  | fault _ _ => trivial

namespace Cursor

variable {c d : Cursor}

/-- The names in front of the cursor are words. -/
def Worded (c : Cursor) : Prop := ∀ l ∈ c.rest, l.Worded

lemma Proceeds.worded (h : c.Proceeds d) (hc : c.Worded) : d.Worded :=
  fun l hl => hc l (h.consumes.suffix.subset hl)

lemma head_isWord (hc : c.Worded) (h : c.head.lexis = .ident name) : IsWord name := by
  unfold head at h
  split at h
  · rename_i t rest hr
    exact hc (.token t) (by rw [hr]; exact List.mem_cons_self) name h
  · cases h

/-- The token `t`, its name being a word, is the first one of `c` and stands in front of `d`. -/
structure Takes (c : Cursor) (t : Token) (d : Cursor) : Prop where
  word : ∀ name, t.lexis = .ident name → IsWord name
  rest : ∃ rest, c.settled.rest = .token t :: rest ∧ d = c.settled.behind t rest

/-- Nothing has happened but that messages were recorded, none of them an error. -/
structure Calm (c d : Cursor) : Prop where
  silent : c.analysis.Silent d.analysis
  clean : ¬ d.analysis.Failed

abbrev Silent (c d : Cursor) : Prop := c.analysis.Silent d.analysis

lemma Calm.trans (h1 : c.Calm d) (h2 : d.Calm e) : c.Calm e :=
  ⟨h1.silent.trans h2.silent, h2.clean⟩

/-- From `c` to `d` no token was skipped but behind a group of fields. -/
def SkipsFields (c d : Cursor) : Prop :=
  ∃ new, d.skipped = new ++ c.skipped ∧ ∀ s ∈ new, s.1 = .fields

lemma SkipsFields.of_eq (h : d.skipped = c.skipped) : c.SkipsFields d := ⟨[], h, nofun⟩

lemma SkipsFields.trans (h1 : c.SkipsFields d) (h2 : d.SkipsFields e) : c.SkipsFields e := by
  obtain ⟨new1, hd, h1⟩ := h1
  obtain ⟨new2, he, h2⟩ := h2
  refine ⟨new2 ++ new1, by rw [he, hd, List.append_assoc], fun s hs => ?_⟩
  exact (List.mem_append.mp hs).elim (h2 s) (h1 s)

lemma skipBehind_fields (rest) (c : Cursor) : c.SkipsFields (skipBehind .fields rest c) := by
  induction rest generalizing c with
  | nil => exact .of_eq rfl
  | cons l rest ih =>
    cases l with
    | token t =>
      simp only [skipBehind]
      split
      · exact .of_eq rfl
      · refine .trans ⟨[(.fields, t)], rfl, ?_⟩ (ih _)
        simp
    | fault f span => exact .trans (.of_eq rfl) (ih _)

lemma skipped_advanced (c : Cursor) : c.advanced.skipped = c.skipped := by
  unfold advanced
  split <;> rfl

end Cursor

/-! ## Parsers -/

namespace Parser

/-- Faults that stay in the log, those of a sentence among them. -/
class Grave (B : Analysis → Prop) : Prop where
  lasts {a b : Analysis} : a.Logs b → B a → B b
  report (span note a) : B (Analyze.report span (.sentence note) a).2

instance : Grave Analysis.Failed := ⟨Analysis.Logs.failed, fun _ _ => Analyze.failed_report _ _⟩

/-- Unless a fault is reported, what is read from `c` satisfies `Q`, and tokens are skipped behind
groups of fields only. -/
def Unless (B : Analysis → Prop) (p : Parser n α) (c : Cursor) (Q : α → Cursor → Prop) : Prop :=
  ∀ h, c.Worded → ¬ B (p c h).cursor.analysis →
    c.SkipsFields (p c h).cursor ∧ Q (p c h).value (p c h).cursor

abbrev Meets (p : Parser n α) := p.Unless Analysis.Failed

/-- What holds after a round of a loop: `I` if it goes on, `P` if it ends. -/
abbrev Flow.Holds (I P : σ → Cursor → Prop) : Flow σ → Cursor → Prop
  | .again s, c => I s c
  | .done s, c => P s c

namespace Unless

variable {p : Parser n α} {f : α → Parser n β}

lemma mono {Q : α → Cursor → Prop} (hp : p.Unless B c P) (h : ∀ v d, P v d → Q v d) :
    p.Unless B c Q :=
  fun hc hw hf => ⟨(hp hc hw hf).1, h _ _ (hp hc hw hf).2⟩

lemma pure {v : β} (h : ¬ B c.analysis → Q v c) : (pure v : Parser n β).Unless B c Q :=
  fun _ _ hf => ⟨.of_eq rfl, h hf⟩

lemma le (h : m ≤ n) (hp : p.Unless B c P) : (p.le h).Unless B c P := fun _ hw hf => hp _ hw hf

lemma lift {p : Parser (n + 1) α} (hp : p.Unless B c P) : (liftM p : Parser n α).Unless B c P :=
  hp.le _

section

variable [Grave B]

/-- As `bind`, where instances are not enough to see that what follows proceeds. -/
lemma bind_of_proceeds [hp' : Proceeds p] (hf' : ∀ v, Proceeds (f v)) (hp : p.Unless B c P)
    (hf : ∀ v d, P v d → (f v).Unless B d Q) : (p >>= f).Unless B c Q := by
  intro h hw hfail
  have hproc := hp'.proceeds c h
  have hle := Nat.lt_of_le_of_lt (p c h).le h
  have hclean : ¬ B (p c h).cursor.analysis := fun hx =>
    hfail (Grave.lasts ((hf' (p c h).value).keeps (p c h).cursor hle) hx)
  obtain ⟨hskip, hv⟩ := hp h hw hclean
  obtain ⟨hskip', hw'⟩ := hf _ _ hv hle (hproc.worded hw) hfail
  exact ⟨hskip.trans hskip', hw'⟩

lemma bind [Proceeds p] [hf' : ∀ v, Proceeds (f v)] (hp : p.Unless B c P)
    (hf : ∀ v d, P v d → (f v).Unless B d Q) : (p >>= f).Unless B c Q :=
  bind_of_proceeds hf' hp hf

/-- What follows a report does not matter. -/
lemma fails [Proceeds p] [∀ v, Proceeds (f v)] (hp : p.Unless B c fun _ _ => False) :
    (p >>= f).Unless B c Q :=
  bind hp fun _ _ h => h.elim

/-- After a report there is nothing to show. -/
lemma report (span note) {Q : Unit → Cursor → Prop} : (@report n span note).Unless B c Q :=
  fun _ _ hf => absurd (Grave.report span note c.analysis) hf

end

/-! Values, spans and the state of the analysis are at hand without anything being read. -/

lemma pureThen {v : α} (h : (f v).Meets c Q) : (Pure.pure v >>= f).Meets c Q := h

lemma withSpan {f : Span → Parser n β} (h : ∀ span, (f span).Meets c Q) :
    (Parser.spanFrom start >>= f).Meets c Q :=
  fun hc hw hf => h _ hc hw hf

lemma withAnalysis {f : Analysis → Parser n β} (h : (f c.analysis).Meets c Q) :
    (Parser.getAnalysis >>= f).Meets c Q :=
  h

lemma ite {q : Prop} [Decidable q] {x y : Parser n α} (hx : q → x.Meets c P)
    (hy : ¬ q → y.Meets c P) : (if q then x else y).Meets c P := by
  split
  · exact hx ‹_›
  · exact hy ‹_›

/-- An action of the analysis that does not report anything has succeeded. -/
lemma action (x : Analyze α) :
    (liftM x : Parser n α).Meets c fun v d => x.Succeeds c.analysis v d.analysis :=
  fun _ _ hf => ⟨.of_eq rfl, rfl, hf⟩

section

variable [Decidable q] {f : Unit → Parser n β} [∀ v, Proceeds (f v)]

lemma reported : (Parser.report span note >>= f).Meets c Q := fails (report span note)

/-- Where one branch reports something, the other one matters. -/
lemma otherwise {y : Parser n β} (h : ¬ q → y.Meets c Q) :
    (if q then Parser.report span note >>= f else y).Meets c Q :=
  ite (fun _ => reported) h

end

lemma warn (span note) : (@warn n span note).Meets c fun _ d => c.Calm d :=
  fun _ _ hf => ⟨.of_eq rfl, Analyze.silent (Analyze.warn span (.sentence note)) c.analysis, hf⟩

lemma reportExpected (what found) {Q : Unit → Cursor → Prop} :
    (@reportExpected n what found).Meets c Q :=
  report _ _

lemma reportUnexpected (found) {Q : Unit → Cursor → Prop} :
    (@reportUnexpected n found).Meets c Q :=
  report _ _

/-! ### Tokens -/

lemma peek : (@peek n).Meets c fun t d => (∀ name, t.lexis = .ident name → IsWord name) ∧
    c.Calm d :=
  fun _ hw hf =>
    ⟨.of_eq rfl, fun _ ht => head_isWord (c.settled_proceeds.worded hw) ht,
      c.settled_silent, hf⟩

lemma next : (@next n).Meets c fun _ d => c.Calm d := by
  intro h hw hf
  refine ⟨.of_eq c.settled.skipped_advanced, c.settled_silent.trans ?_, hf⟩
  unfold Parser.next advanced
  dsimp only
  split <;> exact .refl _

lemma previous : (@previous n).Meets c fun _ d => d = c :=
  fun _ _ _ => ⟨.of_eq rfl, rfl⟩

lemma check (test) : (@check n test).Meets c fun _ d => c.Calm d :=
  bind peek fun _ _ hd => pure fun _ => hd.2

lemma accept (test) : (@accept n test).Meets c fun _ d => c.Calm d := by
  refine bind (check test) fun v d hd => ite (fun _ => ?_) fun _ => pure fun _ => hd
  exact bind next fun _ e he => pure fun _ => hd.trans he

lemma acceptKeyword (word) : (@acceptKeyword n word).Meets c fun _ d => c.Calm d :=
  accept _

lemma acceptSymbol (mark) : (@acceptSymbol n mark).Meets c fun _ d => c.Calm d :=
  accept _

/-- A token that has to be there is there. -/
lemma expect (test text) : (@expect n test text).Meets c fun v d => v ∧ c.Calm d := by
  refine bind (accept test) fun v d hd => ite (fun _ => pure fun _ => ⟨rfl, hd⟩) fun _ => ?_
  exact bind peek fun t e he => fails (reportExpected text t)

lemma keyword (word) : (@keyword n word).Meets c fun v d => v ∧ c.Calm d :=
  expect _ _

lemma symbol (mark) : (@symbol n mark).Meets c fun v d => v ∧ c.Calm d :=
  expect _ _

/-- What is read behind a token that has to be there. -/
lemma expectThen {x y : Parser n β} [Proceeds x] [Proceeds y]
    (h : ∀ d, c.Calm d → x.Meets d Q) :
    (Parser.expect test text >>= fun found => if found then x else y).Meets c Q := by
  refine bind (expect test text) fun v d hd => ite (fun _ => h d hd.2) fun hv => ?_
  exact absurd hd.1 hv

lemma unlessExpected {x y : Parser n β} [Proceeds x] [Proceeds y]
    (h : ∀ d, c.Calm d → x.Meets d Q) :
    (Parser.expect test text >>= fun found => if !found then y else x).Meets c Q := by
  refine bind (expect test text) fun v d hd => ite (fun hv => ?_) fun _ => h d hd.2
  rw [hd.1] at hv
  cases hv

/-- Behind a group of fields tokens are skipped whether anything was reported or not. -/
lemma resync_fields : (resync .fields : Parser n Unit).Meets c fun _ d => c.Calm d :=
  fun _ _ hf => ⟨skipBehind_fields c.rest c, skipBehind_silent .fields c.rest c, hf⟩

lemma expectBehind (phrase) : (@expectBehind n phrase).Meets c fun _ d => c.Calm d := by
  refine bind peek fun t d hd => ite (fun _ => ?_) fun _ => pure fun _ => hd.2
  exact fails (reportUnexpected t)

/-! ### Recursion -/

lemma fix {body : (n : Nat) → Parser n α → Parser (n + 1) α}
    {Q : Cursor → α → Cursor → Prop}
    (h : ∀ n p, Uniform {} E p p → (∀ c, p.Meets c (Q c)) → ∀ c, (body n p).Meets c (Q c))
    (hp : ∀ n m (p : Parser n α) (q : Parser m α), Uniform {} E p q →
     Uniform {} E (body n p) (body m q)) :
    ∀ n c, (fix body n).Meets c (Q c)
  | 0, _ => fun h => absurd h (Nat.not_lt_zero _)
  | n + 1, c => h n (fun c h => Parser.fix body n c h) (Uniform.fix hp n n) (Unless.fix h hp n) c

lemma onToken {take : Token → Option (Parser n α)} {otherwise : Token → Parser (n + 1) α}
    (ht : ∀ t p d, take t = some p → c.Takes t d → c.Silent d → p.Unless B d P)
    (ho : ∀ t d, c.Silent d → (otherwise t).Unless B d P) : (onToken take otherwise).Unless B c P := by
  intro h hw
  have hw' := c.settled_proceeds.worded hw
  rcases onToken_cases take c with ⟨t, rest, p, hr, hp⟩ | hnone
  · obtain ⟨h', hvalue, hcursor⟩ := onToken_some otherwise hr hp h
    have hword : ∀ l ∈ Lexeme.token t :: rest, l.Worded := hr ▸ hw'
    rw [hvalue, hcursor]
    have htakes : c.Takes t (c.settled.behind t rest) := ⟨hword _ List.mem_cons_self, rest, hr, rfl⟩
    exact ht t p _ hp htakes c.settled_silent h' fun l hl => hword l (List.mem_cons_of_mem _ hl)
  · obtain ⟨h', hvalue, hcursor⟩ := onToken_none otherwise hnone rfl h
    rw [hvalue, hcursor]
    exact ho _ c.settled c.settled_silent h' hw'

/-- A loop keeps what every round keeps. -/
lemma loop [Grave B] {opens : Lexis → Option β} {round : β → Token → σ → Parser n (Flow σ)}
    {closed : Token → σ → Parser (n + 1) σ} {s : σ} (I P : σ → Cursor → Prop)
    (hproceeds : ∀ b t s, Proceeds (round b t s)) [∀ t s, Proceeds (closed t s)]
    (hround : ∀ b t s c d, I s c → c.Silent d → opens t.lexis = some b → c.Takes t d →
     (round b t s).Unless B d (Flow.Holds I P))
    (hclosed : ∀ t s c d, I s c → c.Silent d → (closed t s).Unless B d P) (hs : I s c) :
    (loop opens round closed s).Unless B c P := by
  suffices h : ∀ k hk s c, I s c → (loopWithin opens round closed k hk s).Unless B c P from
    h _ _ _ _ hs
  intro k
  induction k with
  | zero => intro hk s c _ h; exact absurd h (Nat.not_lt_zero _)
  | succ k ih =>
    intro hk s c hs
    have hk' : k ≤ n + 1 := Nat.le_of_lt (Nat.lt_of_lt_of_le k.lt_succ_self hk)
    have hproc : ∀ s, Proceeds (loopWithin opens round closed k hk' s) :=
      uniform_loopWithin k k hk' hk'
    refine onToken (fun t p d hp htakes hd => ?_) fun t d hd => (hclosed t s c d hs hd).le _
    obtain ⟨b, hb, rfl⟩ := Option.map_eq_some_iff.mp hp
    refine bind_of_proceeds (fun flow => ?_) ((hround b t s c d hs hd hb htakes).le _)
      fun flow e he => ?_
    · cases flow with
      | again s => exact ⟨(hproc s).same, (hproc s).consumes, (hproc s).keeps⟩
      | done s => exact inferInstanceAs (Proceeds (Pure.pure s))
    cases flow with
    | again s => exact ih hk' s e he
    | done s => exact pure fun _ => he

lemma loopWhile {round : Token → σ → Parser n (Flow σ)} {s : σ} (I P : σ → Cursor → Prop)
    [∀ t s, Proceeds (round t s)]
    (hround : ∀ t s c d, I s c → c.Silent d → (round t s).Meets d (Flow.Holds I P))
    (hclosed : ∀ s c d, I s c → c.Silent d → ¬ d.analysis.Failed → P s d) (hs : I s c) :
    (loopWhile test round s).Meets c P :=
  loop I P (fun _ _ _ => inferInstance) (fun _ t s c d hs hd _ _ => hround t s c d hs hd)
    (fun _ s c d hs hd => pure fun hf => hclosed s c d hs hd hf) hs

end Unless
end Parser
end Oberon
