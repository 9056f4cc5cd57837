import Oberon.Proofs.Keeps

/-!
# Oberon.Proofs.Uniform

What holds of every parser, whatever it finds. `Uniform E p q` says that `p` and `q`, which may
differ in the bound on the length of their input, make the same of every input; that they leave a
part of it, the tokens that they skip being some of those in front of it; and that the state of the
analysis is related by `E` to the one before. Instances are found along the sequence of a
production, and what branches is split by hand.
-/

set_option synthInstance.maxSize 2000

namespace Oberon

open Analyze

/-! ## Cursors -/

namespace Cursor

variable {c d : Cursor}

/-- A part of the input is left of `c` at `d`, and the tokens that were skipped in between are some
of those in front of it. -/
def Consumes (c d : Cursor) : Prop :=
  ∃ read new, c.rest = read ++ d.rest ∧ d.skipped = new ++ c.skipped ∧
    (new.reverse.map fun s => Lexeme.token s.2).Sublist read

lemma Consumes.of_suffix (h : d.rest <:+ c.rest) (hs : d.skipped = c.skipped) : c.Consumes d := by
  obtain ⟨read, hr⟩ := h
  exact ⟨read, [], hr.symm, hs, by simp⟩

lemma Consumes.refl (c : Cursor) : c.Consumes c := .of_suffix (List.suffix_refl _) rfl

lemma Consumes.suffix (h : c.Consumes d) : d.rest <:+ c.rest := by
  obtain ⟨read, -, hr, -⟩ := h
  exact ⟨read, hr.symm⟩

lemma Consumes.trans (h1 : c.Consumes d) (h2 : d.Consumes e) : c.Consumes e := by
  obtain ⟨read1, new1, hr1, hn1, hs1⟩ := h1
  obtain ⟨read2, new2, hr2, hn2, hs2⟩ := h2
  refine ⟨read1 ++ read2, new2 ++ new1, by rw [hr1, hr2, List.append_assoc],
    by rw [hn2, hn1, List.append_assoc], ?_⟩
  simpa using hs1.append hs2

/-- Messages have been added, and a part of the input has been read. -/
structure Proceeds (c d : Cursor) : Prop where
  logs : c.analysis.Logs d.analysis
  consumes : c.Consumes d

lemma skipFaults_silent (rest) (a : Analysis) : a.Silent (skipFaults rest a).2 := by
  induction rest generalizing a with
  | nil => exact .refl a
  | cons l rest ih =>
    cases l with
    | token t => exact .refl a
    | fault f span => exact (silent (report span (.lexical f)) a).trans (ih _)

lemma skipFaults_suffix (rest a) : (skipFaults rest a).1 <:+ rest := by
  induction rest generalizing a with
  | nil => exact List.suffix_refl _
  | cons l rest ih =>
    cases l with
    | token t => exact List.suffix_refl _
    | fault f span => exact (ih _).trans (List.suffix_cons _ _)

lemma settled_silent (c : Cursor) : c.analysis.Silent c.settled.analysis :=
  skipFaults_silent c.rest c.analysis

lemma settled_consumes (c : Cursor) : c.Consumes c.settled :=
  .of_suffix (skipFaults_suffix c.rest c.analysis) rfl

lemma settled_proceeds (c : Cursor) : c.Proceeds c.settled :=
  ⟨c.settled_silent.logs, c.settled_consumes⟩

lemma skipBehind_silent (phrase rest) (c : Cursor) :
    c.analysis.Silent (skipBehind phrase rest c).analysis := by
  induction rest generalizing c with
  | nil => exact .refl _
  | cons l rest ih =>
    cases l with
    | token t =>
      simp only [skipBehind]
      split
      · exact .refl _
      · exact ih { c with previous := t.span, skipped := (phrase, t) :: c.skipped }
    | fault f span =>
      exact (silent (report span (.lexical f)) c.analysis).trans
        (ih { c with analysis := (report span (.lexical f) c.analysis).2 })

lemma skipBehind_consumes (phrase rest c) :
    Consumes { c with rest } (skipBehind phrase rest c) := by
  induction rest generalizing c with
  | nil => exact .of_suffix (List.suffix_refl _) rfl
  | cons l rest ih =>
    cases l with
    | token t =>
      simp only [skipBehind]
      split
      · exact .of_suffix (List.suffix_refl _) rfl
      · have hskip : Consumes { c with rest := .token t :: rest }
            { c with rest, previous := t.span, skipped := (phrase, t) :: c.skipped } :=
          ⟨[.token t], [(phrase, t)], rfl, rfl, by simp⟩
        exact hskip.trans (ih _)
    | fault f span =>
      have hskip : Consumes { c with rest := .fault f span :: rest }
          { c with rest, analysis := (report span (.lexical f) c.analysis).2 } :=
        .of_suffix (List.suffix_cons _ _) rfl
      exact hskip.trans (ih _)

lemma advanced_consumes (c : Cursor) : c.Consumes c.advanced := by
  unfold advanced
  split
  · rename_i t rest h
    exact .of_suffix (by rw [h]; exact List.suffix_cons _ _) rfl
  · exact .of_suffix (List.suffix_refl _) rfl

lemma analysis_advanced (c : Cursor) : c.advanced.analysis = c.analysis := by
  unfold advanced
  split <;> rfl

/-- The cursor behind a token. -/
def behind (c : Cursor) (t : Token) (rest : List Lexeme) : Cursor := { c with rest, previous := t.span }

/-- The cursor as a strict reader has it, if `strict`. -/
def under (strict : Bool) (c : Cursor) : Cursor := { c with analysis := c.analysis.under strict }

lemma skipFaults_under (strict rest a) : skipFaults rest (a.under strict) =
    ((skipFaults rest a).1, (skipFaults rest a).2.under strict) := by
  induction rest generalizing a with
  | nil => rfl
  | cons l rest ih =>
    cases l with
    | token t => rfl
    | fault f span =>
      simp only [skipFaults]
      rw [Relabels.under (Quiet.strict (x := report span (.lexical f)))]
      exact ih _

lemma settled_under (strict) (c : Cursor) : (c.under strict).settled = c.settled.under strict := by
  unfold settled
  simp [under, skipFaults_under]

lemma head_under (strict) (c : Cursor) : (c.under strict).settled.head = c.settled.head := by
  rw [settled_under]; rfl

lemma advanced_under (strict) (c : Cursor) : (c.under strict).advanced = c.advanced.under strict := by
  obtain ⟨rest⟩ := c
  cases rest with
  | nil => rfl
  | cons l rest => cases l <;> rfl

lemma skipBehind_under (strict phrase rest) (c : Cursor) :
    skipBehind phrase rest (c.under strict) = (skipBehind phrase rest c).under strict := by
  induction rest generalizing c with
  | nil => rfl
  | cons l rest ih =>
    cases l with
    | token t =>
      simp only [skipBehind]
      split
      · rfl
      · exact ih { c with previous := t.span, skipped := (phrase, t) :: c.skipped }
    | fault f span =>
      simp only [skipBehind, under]
      rw [Relabels.under (Quiet.strict (x := report span (.lexical f)))]
      exact ih { c with analysis := (report span (.lexical f) c.analysis).2 }

end Cursor

/-! ## Parsers -/

/-- The same result, seen from an earlier cursor. -/
lemma Reached.mk_congr {c d : Cursor} {α : Type} {r r' : Reached d α} (h : r = r')
    (hr : r.cursor.rest.length ≤ c.rest.length) (hr' : r'.cursor.rest.length ≤ c.rest.length) :
    (⟨r.value, r.cursor, hr⟩ : Reached c α) = ⟨r'.value, r'.cursor, hr'⟩ := by
  subst h; rfl

lemma Reached.eq_of {c : Cursor} {r r' : Reached c α} (hv : r.value = r'.value)
    (hc : r.cursor = r'.cursor) : r = r' := by
  cases r; cases r'; cases hv; cases hc; rfl

/-- The result as a strict reader has it, if `strict`. -/
def Reached.under {c : Cursor} (strict : Bool) (r : Reached c α) : Reached (c.under strict) α :=
  ⟨r.value, r.cursor.under strict, r.le⟩

namespace Parser

open Analysis Analysis.Context

/-- Two parsers that do the same within their bounds, the first one for a reader, and how they leave
the analysis. -/
class Uniform (r : Reader) (E : Analysis → Analysis → Prop) (p : Parser n α) (q : Parser m α) : Prop where
  same : ∀ (c : Cursor) hn hm, c.analysis.Within r →
    p (c.under r.strict) hn = (q c hm).under r.strict
  consumes : ∀ (c : Cursor) h, c.Consumes (p c h).cursor
  keeps : ∀ (c : Cursor) h, E c.analysis (p c h).cursor.analysis

/-- A parser that only adds to the log and reads a part of its input. -/
abbrev Proceeds (p : Parser n α) : Prop := Uniform {} Logs p p

/-- A parser that is uniform in its bound. -/
abbrev Even (r : Reader) (E : Analysis → Analysis → Prop) (p : {n : Nat} → Parser n α) : Prop :=
  ∀ n m, Uniform r E (@p n) (@p m)

lemma Uniform.eq {p : Parser n α} {q : Parser m α} (h : Uniform {} E p q) (c : Cursor) (hn hm) :
    p c hn = q c hm :=
  h.same c hn hm fun _ hk => by cases hk

lemma Uniform.proceeds {p : Parser n α} {q : Parser m α} (h : Uniform r Logs p q) (c : Cursor)
    (hc : c.rest.length < n) : c.Proceeds (p c hc).cursor :=
  ⟨h.keeps c hc, h.consumes c hc⟩

lemma Uniform.mono {p : Parser n α} {q : Parser m α} (h : Uniform r E p q)
    (hE : ∀ {a b}, E a b → F a b) : Uniform r F p q :=
  ⟨h.same, h.consumes, fun c hc => hE (h.keeps c hc)⟩

instance (priority := low) [Order E] {p : Parser n α} {q : Parser m α}
    [h : Uniform r Steady p q] : Uniform r E p q :=
  h.mono Order.of_steady

instance (priority := low) {p : Parser n α} {q : Parser m α} [h : Uniform r Forwards p q] :
    Uniform r Logs p q :=
  h.mono Forwards.logs

instance (priority := low) [Coarse E] {p : Parser n α} {q : Parser m α}
    [h : Uniform r (Settles Eq) p q] : Uniform r E p q :=
  h.mono Coarse.of_settles

instance (priority := low) {p : Parser n α} {q : Parser m α}
    [h : Uniform r (Shifts R) p q] : Uniform r (Settles R) p q :=
  h.mono Shifts.settles

instance (priority := low) {p : Parser n α} {q : Parser m α} [h : Uniform r Concludes p q] :
    Uniform r (Settles Eq) p q :=
  h.mono Concludes.settles

/-! ### Sequences -/

instance [Order E] (v : α) : Uniform r E (pure v : Parser n α) (pure v : Parser m α) :=
  ⟨fun _ _ _ _ => rfl, fun c _ => .refl c, fun _ _ => Order.refl _⟩

section

variable {g : α → Parser m β}

/-- What a sequence keeps is put together from what its parts keep. -/
lemma Uniform.seq [hl : Leads F r r'] (hp : Uniform r F p q) (hf : ∀ v, Uniform r' G (f v) (g v))
    (hE : ∀ {a b c}, F a b → G b c → E a c) : Uniform r E (p >>= f) (q >>= g) := by
  refine ⟨fun c hn hm hc => ?_, fun c h => ?_, fun c h => hE (hp.keeps c h) ((hf _).keeps _ _)⟩
  · obtain ⟨strict, loops⟩ := r
    obtain ⟨_, loops'⟩ := r'
    cases hl.strict
    have hw := hl.within (hp.keeps (c.under strict) hn) (within_under.2 hc)
    rw [hp.same c hn hm hc] at hw
    have h : ∀ r : Reached (c.under strict) α, r = (q c hm).under strict → ∀ hr hr',
        (⟨(f r.value r.cursor hr).value, (f r.value r.cursor hr).cursor, hr'⟩ : Reached _ β) =
          ((q >>= g) c hm).under strict := by
      rintro _ rfl hr hr'
      exact Reached.mk_congr ((hf _).same _ _ _ (within_under.1 hw)) _ _
    exact h _ (hp.same c hn hm hc) _ _
  · exact (hp.consumes c h).trans ((hf _).consumes _ _)

instance Uniform.bind [Order E] [Leads E r r] [hp : Uniform r E p q]
    [hf : ∀ v, Uniform r E (f v) (g v)] : Uniform r E (p >>= f) (q >>= g) :=
  .seq hp hf Order.trans

lemma Uniform.andThen [Order E] [Leads E r r] [Uniform r E p q]
    (hf : ∀ v, Uniform r E (f v) (g v)) : Uniform r E (p >>= f) (q >>= g) :=
  inferInstance

instance [hp : Uniform r Steady p q] [hf : ∀ v, Uniform r (Shifts R) (f v) (g v)] :
    Uniform r (Shifts R) (p >>= f) (q >>= g) :=
  .seq hp hf .after

lemma Uniform.steadyThen [Uniform r Steady p q] (hf : ∀ v, Uniform r (Shifts R) (f v) (g v)) :
    Uniform r (Shifts R) (p >>= f) (q >>= g) :=
  inferInstance

instance [hp : Uniform r (Shifts R) p q] [hf : ∀ v, Uniform ⟨r.strict, none⟩ Steady (f v) (g v)] :
    Uniform r (Shifts R) (p >>= f) (q >>= g) :=
  have : Leads (Shifts R) r ⟨r.strict, none⟩ := .ignorant _ r
  .seq hp hf .before

instance [hp : Uniform r (Settles Eq) p q] [hf : ∀ v, Uniform r (Settles R) (f v) (g v)] :
    Uniform r (Settles R) (p >>= f) (q >>= g) :=
  .seq hp hf .after

instance [hp : Uniform r Forwards p q] [hf : ∀ v, Uniform r Concludes (f v) (g v)] :
    Uniform r Concludes (p >>= f) (q >>= g) :=
  .seq hp hf .after

instance [hp : Uniform r Concludes p q] [hf : ∀ v, Uniform r (Settles Eq) (f v) (g v)] :
    Uniform r Concludes (p >>= f) (q >>= g) :=
  .seq hp hf .before

/-- What is begun first is ended in the end. -/
lemma Uniform.bracket [Brackets R S] [hp : Uniform r (Shifts R) p q] [Leads (Shifts R) r r']
    (hf : ∀ v, Uniform r' (Shifts S) (f v) (g v)) : Uniform r Steady (p >>= f) (q >>= g) :=
  .seq hp hf .close

/-- A procedure is ended once its own pointers have been settled. -/
lemma Uniform.enclose [hp : Uniform r (Shifts BeginsProcedure) p q]
    (hf : ∀ v, Uniform r (Settles EndsProcedure) (f v) (g v)) :
    Uniform r (Settles Eq) (p >>= f) (q >>= g) :=
  .seq hp hf .close

end

/-- What is done with a state that was read does not depend on who reads. -/
lemma Uniform.getThen {f : Analysis → Parser n α} {g : Analysis → Parser m α}
    (hs : ∀ a : Analysis, f a.strictly = f a) (hf : ∀ a, Uniform r E (f a) (g a)) :
    Uniform r E (getAnalysis >>= f) (getAnalysis >>= g) := by
  refine ⟨fun c hn hm hc => ?_, fun c h => (hf _).consumes c h, fun c h => (hf _).keeps c h⟩
  have hunder : f (c.analysis.under r.strict) = f c.analysis := by
    cases r.strict with
    | false => rfl
    | true => exact hs _
  exact Reached.mk_congr ((congrFun (congrFun hunder _) hn).trans ((hf _).same c hn hm hc)) _ _

instance {c : Prop} [Decidable c] {x y : Parser n α} {x' y' : Parser m α} [hx : Uniform r E x x']
    [hy : Uniform r E y y'] : Uniform r E (if c then x else y) (if c then x' else y') := by
  split <;> assumption

lemma Uniform.ite {c : Prop} [Decidable c] {x y : Parser n α} {x' y' : Parser m α}
    (hx : Uniform r E x x') (hy : Uniform r E y y') :
    Uniform r E (if c then x else y) (if c then x' else y') :=
  inferInstance

instance {k l : Nat} (h : n ≤ k) (h' : m ≤ l) (p : Parser k α) (q : Parser l α)
    [hp : Uniform r E p q] : Uniform r E (p.le h) (q.le h') :=
  ⟨fun c _ _ => hp.same c _ _, fun c _ => hp.consumes c _, fun c _ => hp.keeps c _⟩

instance (x : Analyze α) [hx : Analyze.Keeps E x] :
    Uniform r E (liftM x : Parser n α) (liftM x : Parser m α) :=
  ⟨fun c _ _ _ => congrArg (fun y : α × Analysis => (⟨y.1, { c with analysis := y.2 }, Nat.le_refl _⟩ :
      Reached (c.under r.strict) α)) (hx.strict.under r.strict c.analysis),
    fun _ _ => .of_suffix (List.suffix_refl _) rfl, fun c _ => hx.keeps c.analysis⟩

instance (p : Parser (n + 1) α) (q : Parser (m + 1) α) [Uniform r E p q] :
    Uniform r E (liftM p : Parser n α) (liftM q : Parser m α) :=
  inferInstanceAs (Uniform r E (p.le _) (q.le _))

lemma Uniform.lift {p : Parser (n + 1) α} {q : Parser (m + 1) α} (h : Uniform r E p q) :
    Uniform r E (liftM p : Parser n α) (liftM q : Parser m α) :=
  inferInstance

/-! ### Tokens -/

section

variable [Order E] [Leads E r r]

variable (span : Span) (note : SyntaxNote) (word : Keyword) (mark : Symbol) (found : Token)
  (phrase : Recovery)

instance : Uniform r E (@peek n) (@peek m) :=
  ⟨fun c _ _ _ => Reached.eq_of (c.head_under _) (c.settled_under _), fun c _ => c.settled_consumes, fun c _ => Order.of_silent c.settled_silent⟩

instance : Uniform r E (@next n) (@next m) :=
  ⟨fun c _ _ _ => Reached.eq_of (c.head_under _)
      ((congrArg Cursor.advanced (c.settled_under _)).trans (c.settled.advanced_under _)), fun c _ => c.settled_consumes.trans c.settled.advanced_consumes,
    fun c _ => Order.of_silent (c.settled.analysis_advanced ▸ c.settled_silent)⟩

instance : Uniform r E (@previous n) (@previous m) :=
  ⟨fun _ _ _ _ => rfl, fun c _ => .refl c, fun _ _ => Order.refl _⟩

instance (start : Span) : Even r E (spanFrom start) := by unfold spanFrom; infer_instance

instance : Uniform ⟨false, k⟩ E (@getAnalysis n) (@getAnalysis m) :=
  ⟨fun _ _ _ _ => rfl, fun c _ => .refl c, fun _ _ => Order.refl _⟩

instance : Uniform r E (@report n span note) (@report m span note) :=
  inferInstanceAs (Uniform r E (liftM (Analyze.report span (.sentence note)) : Parser n Unit)
    (liftM (Analyze.report span (.sentence note)) : Parser m Unit))

instance : Uniform r E (@warn n span note) (@warn m span note) :=
  inferInstanceAs (Uniform r E (liftM (Analyze.warn span (.sentence note)) : Parser n Unit)
    (liftM (Analyze.warn span (.sentence note)) : Parser m Unit))

instance (test : Lexis → Bool) : Even r E (check test) := by unfold check; infer_instance

instance (test : Lexis → Bool) : Even r E (accept test) := by unfold accept; infer_instance

instance : Even r E (acceptKeyword word) := by unfold acceptKeyword; infer_instance

instance : Even r E (acceptSymbol mark) := by unfold acceptSymbol; infer_instance

instance (what : String) : Even r E (reportExpected what found) := by
  unfold reportExpected; infer_instance

instance (test : Lexis → Bool) (text : String) : Even r E (expect test text) := by
  unfold expect; infer_instance

instance : Even r E (keyword word) := by unfold keyword; infer_instance

instance : Even r E (symbol mark) := by unfold symbol; infer_instance

instance : Uniform r E (@resync n phrase) (@resync m phrase) :=
  ⟨fun c _ _ _ => Reached.eq_of rfl (c.skipBehind_under _ phrase c.rest), fun c _ => Cursor.skipBehind_consumes phrase c.rest c,
    fun c _ => Order.of_silent (Cursor.skipBehind_silent phrase c.rest c)⟩

instance : Even r E (reportUnexpected found) := by unfold reportUnexpected; infer_instance

instance : Even r E (expectBehind phrase) := by unfold expectBehind; infer_instance

end

/-! ### Recursion -/

/-- Nothing is short enough for the second parser. -/
lemma Uniform.zero {p : Parser n α} {q : Parser 0 α} (h : Uniform r' E p p') : Uniform r E p q :=
  ⟨fun _ _ h => absurd h (Nat.not_lt_zero _), h.consumes, h.keeps⟩

instance {p : Parser 0 α} {q : Parser m α} : Uniform r E p q := by
  constructor <;> exact fun _ h => absurd h (Nat.not_lt_zero _)

lemma Uniform.fix {body body' : (n : Nat) → Parser n α → Parser (n + 1) α}
    (h : ∀ n m (p : Parser n α) (q : Parser m α), Uniform r E p q →
     Uniform r E (body n p) (body' m q)) : ∀ n m, Uniform r E (fix body n) (fix body' m)
  | 0, _ => inferInstance
  | n + 1, 0 =>
    have h := h n n _ _ (Uniform.fix h n n)
    ⟨fun _ _ h => absurd h (Nat.not_lt_zero _), h.consumes, h.keeps⟩
  | n + 1, m + 1 =>
    have h := h n m _ _ (Uniform.fix h n m)
    ⟨h.same, h.consumes, h.keeps⟩

/-- Two ways to go on that are open to the same tokens. -/
inductive Alike (r : Reader) (E : Analysis → Analysis → Prop) : Option (Parser n α) → Option (Parser m α) →
    Prop where
  | none : Alike r E none none
  | some {p : Parser n α} {q : Parser m α} (h : Uniform r E p q) : Alike r E (some p) (some q)

lemma Alike.map {o : Option β} {f : β → Parser n α} {g : β → Parser m α}
    (h : ∀ b, Uniform r E (f b) (g b)) : Alike r E (o.map f) (o.map g) := by
  cases o with
  | none => exact .none
  | some b => exact .some (h b)

/-- What `p` makes of `c` is what `q` makes of `d`. -/
def Follows (p : Parser n α) (c : Cursor) (q : Parser m α) (d : Cursor) : Prop :=
  ∀ h, ∃ h', (p c h).value = (q d h').value ∧ (p c h).cursor = (q d h').cursor

lemma follows_of_eq (p : Parser n α) (h : c = d) : p.Follows c p d := by
  subst h
  exact fun h => ⟨h, rfl, rfl⟩

section

variable {take : Token → Option (Parser n α)} (otherwise : Token → Parser (n + 1) α)

lemma onToken_some (hr : c.settled.rest = .token t :: rest) (hp : take t = some p) :
    (onToken take otherwise).Follows c p (c.settled.behind t rest) := by
  intro h
  unfold onToken
  split
  · next t' rest' hr' =>
    cases hr.symm.trans hr'
    split
    · next p' hp' =>
      cases hp.symm.trans hp'
      exact follows_of_eq p rfl _
    · next hp' => cases hp.symm.trans hp'
  · next hr' => exact absurd hr (hr' _ _)

lemma onToken_none (h : ∀ t rest, c.settled.rest = .token t :: rest → take t = none)
    (ht : c.settled.head = t) : (onToken take otherwise).Follows c (otherwise t) c.settled := by
  subst ht
  intro hc
  unfold onToken
  split
  · next t rest hr =>
    have ht : t = c.settled.head := by simp [Cursor.head, hr]
    subst ht
    split
    · next p hp => cases hp.symm.trans (h _ _ hr)
    · exact follows_of_eq _ rfl _
  · exact follows_of_eq _ rfl _

lemma onToken_cases (take : Token → Option (Parser n α)) (c : Cursor) :
    (∃ t rest p, c.settled.rest = .token t :: rest ∧ take t = some p) ∨
      ∀ t rest, c.settled.rest = .token t :: rest → take t = none := by
  refine Classical.or_iff_not_imp_left.2 fun h t rest hr => ?_
  cases hp : take t with
  | none => rfl
  | some p => exact absurd ⟨t, rest, p, hr, hp⟩ h

end

lemma Uniform.same_of_follows {p : Parser n α} {q : Parser m α} {p' : Parser k α} {q' : Parser l α}
    (h : Uniform r E p' q') (hp : p.Follows (c.under r.strict) p' d') (hq : q.Follows c q' d)
    (hd' : d' = d.under r.strict) (hd : d.analysis.Within r) (hn hm) :
    p (c.under r.strict) hn = (q c hm).under r.strict := by
  subst hd'
  obtain ⟨hn', hpv, hpc⟩ := hp hn
  obtain ⟨hm', hqv, hqc⟩ := hq hm
  rw [h.same d hn' hm' hd] at hpv hpc
  exact Reached.eq_of (hpv.trans hqv.symm) (hpc.trans (congrArg (Cursor.under _) hqc.symm))

lemma Uniform.onToken [Order E] [Leads E r r] {take : Token → Option (Parser n α)}
    {take' : Token → Option (Parser m α)} {otherwise : Token → Parser (n + 1) α}
    {otherwise' : Token → Parser (m + 1) α} (ht : ∀ t, Alike r E (take t) (take' t))
    (ho : ∀ t, Uniform r E (otherwise t) (otherwise' t)) :
    Uniform r E (onToken take otherwise) (onToken take' otherwise') := by
  have hkeeps : ∀ (c : Cursor) h, c.Consumes (Parser.onToken take otherwise c h).cursor ∧
      E c.analysis (Parser.onToken take otherwise c h).cursor.analysis := by
    intro c h
    have hsettled : E c.analysis c.settled.analysis := Order.of_silent c.settled_silent
    rcases onToken_cases take c with ⟨t, rest, p, hr, hp⟩ | hnone
    · obtain ⟨h', -, hcursor⟩ := onToken_some otherwise hr hp h
      have ht := ht t
      rw [hp] at ht
      generalize take' t = y at ht
      cases ht with
      | some hu =>
        have hrest : rest <:+ c.rest :=
          (List.suffix_cons (Lexeme.token t) rest).trans (hr ▸ c.settled_consumes.suffix)
        have hm : c.Consumes (c.settled.behind t rest) := .of_suffix hrest rfl
        rw [hcursor]
        exact ⟨hm.trans (hu.consumes _ h'), Order.trans hsettled (hu.keeps _ h')⟩
    · obtain ⟨h', -, hcursor⟩ := onToken_none otherwise hnone rfl h
      rw [hcursor]
      exact ⟨c.settled_consumes.trans ((ho _).consumes _ h'), Order.trans hsettled ((ho _).keeps _ h')⟩
  refine ⟨fun c hn hm hc => ?_, fun c h => (hkeeps c h).1, fun c h => (hkeeps c h).2⟩
  have hs := c.settled_under r.strict
  have hw : c.settled.analysis.Within r := Leads.within c.settled_silent.steady hc
  rcases onToken_cases take c with ⟨t, rest, p, hr, hp⟩ | hnone
  · have ht := ht t
    rw [hp] at ht
    generalize hq : take' t = y at ht
    cases ht with
    | some hu =>
      exact hu.same_of_follows (onToken_some otherwise (by rw [hs]; exact hr) hp)
        (onToken_some otherwise' hr hq) (by rw [hs]; rfl) hw hn hm
  · have hnone' (t rest) (hr : c.settled.rest = .token t :: rest) : take' t = none := by
      have ht := ht t
      rw [hnone t rest hr] at ht
      generalize take' t = y at ht
      cases ht with
      | none => rfl
    exact (ho _).same_of_follows (onToken_none otherwise (by rw [hs]; exact hnone) (c.head_under _))
      (onToken_none otherwise' hnone' rfl) hs hw hn hm

section

variable [Order E] [Leads E r r] {round : β → Token → σ → Parser n (Flow σ)}
  {round' : β → Token → σ → Parser m (Flow σ)} {closed : Token → σ → Parser (n + 1) σ}
  {closed' : Token → σ → Parser (m + 1) σ} [hr : ∀ b t s, Uniform r E (round b t s) (round' b t s)]
  [hc : ∀ t s, Uniform r E (closed t s) (closed' t s)]

lemma uniform_loopWithin (k l) : ∀ hk hl s,
    Uniform r E (loopWithin opens round closed k hk s) (loopWithin opens round' closed' l hl s) := by
  induction k generalizing l with
  | zero => exact fun _ _ _ => inferInstance
  | succ k ih =>
    intro hk hl s
    have hsucc (l) (hl : l + 1 ≤ m + 1) : Uniform r E (loopWithin opens round closed (k + 1) hk s)
        (loopWithin opens round' closed' (l + 1) hl s) := by
      refine Uniform.onToken (fun t => .map fun b => .andThen fun flow => ?_) fun t => inferInstance
      cases flow with
      | again s =>
        have h := ih l (by omega) (by omega) s
        exact ⟨h.same, h.consumes, h.keeps⟩
      | done s => exact inferInstanceAs (Uniform r E (pure s) (pure s))
    cases l with
    | zero => exact .zero (hsucc 0 (by omega))
    | succ l => exact hsucc l hl

instance (s : σ) : Uniform r E (loop opens round closed s) (loop opens round' closed' s) :=
  uniform_loopWithin _ _ _ _ _

omit hr hc in
lemma Uniform.loop (hr : ∀ b t s, Uniform r E (round b t s) (round' b t s))
    (hc : ∀ t s, Uniform r E (closed t s) (closed' t s)) (s : σ) :
    Uniform r E (loop opens round closed s) (loop opens round' closed' s) :=
  inferInstance

end

instance [Order E] [Leads E r r] (test : Lexis → Bool) (round : Token → σ → Parser n (Flow σ))
    (round' : Token → σ → Parser m (Flow σ)) (s : σ) [∀ t s, Uniform r E (round t s) (round' t s)] :
    Uniform r E (loopWhile test round s) (loopWhile test round' s) := by
  unfold loopWhile; infer_instance

instance [Order E] [Leads E r r] (item : Parser n α) (item' : Parser m α) [Uniform r E item item'] :
    Uniform r E (commaSeparated item) (commaSeparated item') := by
  unfold commaSeparated; infer_instance

end Parser

/-! ## Productions -/

namespace Grammar

open Oberon.Parser Analysis Analysis.Context

variable [Order E] [Leads E r r]

variable (first name : Ident) (t : Token) (start : Span) (names : List Ident) (list : Formals)
  (decls : List DeclId)

instance : Even r E ident := by
  intro n m
  unfold ident
  refine .andThen fun t => ?_
  split <;> infer_instance

instance : Even r E (qualify first) := by
  intro n m
  unfold qualify
  refine .getThen (fun _ => rfl) fun a => .ite inferInstance (.andThen fun dot => ?_)
  refine .ite (.andThen fun name => ?_) inferInstance
  split <;> infer_instance

instance : Even r E qualident := by
  intro n m
  unfold qualident
  refine .andThen fun first => ?_
  split <;> infer_instance

instance : Even r E (checkIdentifier name) := by unfold checkIdentifier; infer_instance

instance : Even r E (defining name) := by unfold defining; infer_instance

instance : Even r E identdef := by
  intro n m
  unfold identdef
  refine .andThen fun i => ?_
  split <;> infer_instance

instance (unexpected : Token → Parser n Unit) (unexpected' : Token → Parser m Unit)
    [∀ t, Uniform r E (unexpected t) (unexpected' t)] :
    Uniform r E (listGoesOn unexpected) (listGoesOn unexpected') := by
  unfold listGoesOn
  refine .andThen fun t => ?_
  split <;> infer_instance

instance : Even r E (skipToColon t) := by unfold skipToColon; infer_instance

instance (names : List IdentDef) : Even r E (moreIdentDefs names) := by
  unfold moreIdentDefs; infer_instance

instance : Even r E (identDefs first) := by unfold identDefs; infer_instance

/-! ### Expressions -/

section

variable (expression : Parser n (Option Expr)) (expression' : Parser m (Option Expr))
  [Uniform r E expression expression']

instance : Uniform r E (expressionList expression) (expressionList expression') := by
  unfold expressionList; infer_instance

instance (start : SelectorStart) :
    Uniform r E (selector expression start t) (selector expression' start t) := by
  unfold selector
  split
  · refine .andThen fun name => ?_
    split <;> infer_instance
  all_goals infer_instance

instance : Uniform r E (selectors expression) (selectors expression') := by
  refine .loop (fun start t selectors => .andThen fun s => ?_) (fun _ _ => inferInstance) _
  split <;> infer_instance

instance : Uniform r E (designator expression first) (designator expression' first) := by
  unfold designator; infer_instance

instance : Uniform r E (designatorFactor expression first) (designatorFactor expression' first) := by
  unfold designatorFactor
  exact .andThen fun _ => .andThen fun _ => .getThen (fun _ => rfl) fun _ => inferInstance

instance : Uniform r E (rangeExpression expression) (rangeExpression expression') := by
  unfold rangeExpression; infer_instance

instance : Uniform r E (rangeExpressionList expression) (rangeExpressionList expression') := by
  unfold rangeExpressionList; infer_instance

instance (opening : Span) :
    Uniform r E (setFactor expression opening) (setFactor expression' opening) := by
  unfold setFactor; infer_instance

instance : Uniform r E (basicFactor expression) (basicFactor expression') := by
  refine .onToken (fun t => ?_) fun t => inferInstance
  unfold basicFactorBehind?
  split
  iterate 3
    · exact .some inferInstance
  · split
    · exact .some inferInstance
    · exact .none

instance : Uniform r E (factor expression) (factor expression') :=
  .onToken (fun _ => .map fun _ => inferInstance) fun _ => inferInstance

instance (op? : Lexis → Option BinaryOp) (operand : Parser n (Option Expr))
    (operand' : Parser m (Option Expr)) [Uniform r E operand operand'] (first : Option Expr) :
    Uniform r E (leftAssociative op? operand start first) (leftAssociative op? operand' start first) :=
     by
  unfold leftAssociative; infer_instance

instance : Uniform r E (term expression) (term expression') := by unfold term; infer_instance

instance : Uniform r E (signedTerm expression) (signedTerm expression') :=
  .onToken (fun _ => .map fun _ => inferInstance) fun _ => inferInstance

instance : Uniform r E (simpleExpression expression) (simpleExpression expression') := by
  unfold simpleExpression; infer_instance

instance : Uniform r E (relation expression) (relation expression') := by
  unfold relation
  refine .andThen fun t => .andThen fun lhs => ?_
  exact .onToken (fun _ => .map fun _ => inferInstance) fun _ => inferInstance

instance : Uniform r E (expressionBody n expression) (expressionBody m expression') := by
  unfold expressionBody; infer_instance

end

instance : Uniform r E (expression n) (expression m) := .fix (fun _ _ _ _ _ => inferInstance) n m

/-! ### Types -/

instance : Even r E resultType := by
  intro n m
  unfold resultType
  refine .andThen fun ident => ?_
  split <;> infer_instance

instance : Even r E openDimensions := by unfold openDimensions; infer_instance

instance : Even r E formalType := by
  intro n m
  unfold formalType
  refine .andThen fun dimensions => .andThen fun t => ?_
  split
  · refine .andThen fun ident => ?_
    split <;> infer_instance
  all_goals infer_instance

instance : Even r E (reportBehindName t) := by unfold reportBehindName; infer_instance

instance : Even r E (formalNames names) := by unfold formalNames; infer_instance

instance : Even r E (moreFormalNames first) := by unfold moreFormalNames; infer_instance

instance (byReference : Bool) (formals : Formals) :
    Even r E (formalSection byReference names formals) := by
  unfold formalSection; infer_instance

instance (start : FormalStart) : Even r E (formals start t list) := by
  intro n m
  unfold formals
  split
  · exact .getThen (fun _ => rfl) fun _ => inferInstance
  all_goals infer_instance

instance : Even r E (behindFormals list) := by
  intro n m
  unfold behindFormals
  refine .andThen fun t => ?_
  split <;> infer_instance

instance : Even r E parameterList := by unfold parameterList; infer_instance

instance : Even r E formalParameters := by
  intro n m
  unfold formalParameters
  refine .andThen fun t => ?_
  split <;> infer_instance

instance : Even r E (signature start) := by unfold signature; infer_instance

omit [Order E] [Leads E r r] in
/-- The scope for the parameters is closed behind them. -/
instance : Even r Steady (closedSignature start) := by
  intro n m
  unfold closedSignature
  exact .bracket (R := OpensScope) (S := ClosesScope) fun _ => inferInstance

instance (word : Keyword) (entry : Ident → List DeclId → Parser n (List DeclId))
    (entry' : Ident → List DeclId → Parser m (List DeclId))
    [∀ first decls, Uniform r E (entry first decls) (entry' first decls)] :
    Uniform r E (declarationSection word entry) (declarationSection word entry') := by
  refine .onToken (fun t => ?_) fun _ => inferInstance
  dsimp only
  split
  · exact .some inferInstance
  · exact .none

instance : Even r E (constantDeclaration first decls) := by unfold constantDeclaration; infer_instance

section

variable [∀ pointer ident, Analyze.Keeps E (forwardPointer pointer ident)]

section

variable (type : Parser n (Option Ty)) (type' : Parser m (Option Ty)) [Uniform r E type type']

instance : Uniform r E (arrayType type start) (arrayType type' start) := by
  unfold arrayType
  refine .andThen fun isOf => ?_
  dsimp only
  split <;> infer_instance

instance (fields : List DeclId) : Uniform r E (fieldList type fields) (fieldList type' fields) := by
  unfold fieldList
  refine .andThen fun t => ?_
  dsimp only
  split <;> infer_instance

instance : Uniform r E (fieldLists type) (fieldLists type') := by unfold fieldLists; infer_instance

instance : Uniform r E (recordType type) (recordType type') := by
  unfold recordType
  refine .andThen fun isExtension => ?_
  dsimp only
  split <;> infer_instance

instance (pointer : Ty) :
    Uniform r E (pointerBase type start pointer) (pointerBase type' start pointer) := by
  unfold pointerBase
  refine .andThen fun isTo => .ite inferInstance (.andThen fun isName => ?_)
  refine .ite (.andThen fun ident => ?_) inferInstance
  split
  · infer_instance
  · exact .getThen (fun _ => rfl) fun _ => inferInstance

instance : Uniform r E (typeBody n type) (typeBody m type') := by
  refine .onToken (fun t => ?_) fun t => inferInstance
  unfold typeBehind?
  split
  iterate 5
    · exact .some inferInstance
  · exact .none

end

instance : Uniform r E (type n) (type m) := .fix (fun _ _ _ _ _ => inferInstance) n m

instance (ident : IdentDef) : Uniform r E (@declaredType n ident) (@declaredType m ident) := by
  refine .onToken (fun t => ?_) fun _ => inferInstance
  split
  · exact .some inferInstance
  · exact .none

instance : Even r E (typeDeclaration first decls) := by unfold typeDeclaration; infer_instance

instance : Even r E (variableDeclaration first decls) := by
  unfold variableDeclaration; infer_instance

end

/-! ### Statements -/

instance (target : Span) (ident : QualIdent) (selectors : List Selector) :
    Even r E (assignment target ident selectors) := by
  unfold assignment; infer_instance

instance : Even r E (assignmentOrCall first) := by
  intro n m
  unfold assignmentOrCall
  refine .andThen fun d => .andThen fun span => .andThen fun t => ?_
  split <;> infer_instance

instance : Even r E sequenceGoesOn := by unfold sequenceGoesOn; infer_instance

instance : Even r E (returnStatement start) := by unfold returnStatement; infer_instance

section

variable (statements : Parser n (List Statement)) (statements' : Parser m (List Statement))
  [Uniform r Steady statements statements']

instance (separator : Keyword) :
    Uniform r Steady (elsifs statements separator) (elsifs statements' separator) := by
  unfold elsifs; infer_instance

instance : Uniform r Steady (otherwise statements) (otherwise statements') := by
  unfold otherwise; infer_instance

instance : Uniform r Steady (ifStatement statements start) (ifStatement statements' start) := by
  unfold ifStatement; infer_instance

instance : Uniform r Steady (caseArm statements) (caseArm statements') := by
  unfold caseArm; infer_instance

instance : Uniform r Steady (caseArms statements) (caseArms statements') := by
  unfold caseArms
  refine .andThen fun t => ?_
  dsimp only
  split <;> infer_instance

instance : Uniform r Steady (caseBody statements start) (caseBody statements' start) := by
  unfold caseBody
  refine .andThen fun isOf => .ite inferInstance (.andThen fun isEmpty => ?_)
  dsimp only
  split <;> infer_instance

instance : Uniform r Steady (caseStatement statements start) (caseStatement statements' start) := by
  unfold caseStatement
  refine .andThen fun subject => ?_
  split
  · exact .bracket (R := BeginsCase) (S := EndsCase) fun _ => inferInstance
  · infer_instance

section

variable [hl : Leads (Shifts BeginsLoop) r r'] [hs : Uniform r' Steady statements statements']
include hl hs

instance : Uniform r Steady (loopStatement statements start) (loopStatement statements' start) := by
  unfold loopStatement
  exact .bracket (R := BeginsLoop) (S := EndsLoop) fun _ => inferInstance

instance : Uniform r Steady (whileStatement statements start) (whileStatement statements' start) := by
  unfold whileStatement
  exact .bracket (R := BeginsLoop) (S := EndsLoop) fun _ => inferInstance

instance :
    Uniform r Steady (repeatStatement statements start) (repeatStatement statements' start) := by
  unfold repeatStatement
  exact .bracket (R := BeginsLoop) (S := EndsLoop) fun _ => inferInstance

instance : Uniform r Steady (forStatement statements start) (forStatement statements' start) := by
  unfold forStatement
  refine .bracket (R := BeginsLoop) (S := EndsLoop) fun _ => .steadyThen fun counter => ?_
  dsimp only
  cases counter
  all_goals
    repeat' first
      | infer_instance
      | refine .ite ?_ ?_
      | refine .steadyThen fun _ => ?_

instance : Uniform r Steady (statement statements t) (statement statements' t) := by
  unfold statement
  split <;> infer_instance

end

instance (statement : Token → Parser n (Option Statement))
    (statement' : Token → Parser m (Option Statement))
    [∀ t, Uniform r Steady (statement t) (statement' t)] :
    Uniform r Steady (statementSequence statement) (statementSequence statement') := by
  unfold statementSequence; infer_instance

end

instance (statements : Parser n (List Statement)) (statements' : Parser m (List Statement))
    [Uniform ⟨strict, none⟩ Steady statements statements'] : Uniform ⟨strict, none⟩ Steady
     (statementsBody n statements) (statementsBody m statements') := by
  unfold statementsBody; infer_instance

instance : Uniform ⟨strict, none⟩ Steady (statements n) (statements m) :=
  .fix (fun _ _ _ _ _ => inferInstance) n m

/-! ### Modules -/

instance (imports : List Import) : Even r E (importEntry first imports) := by
  intro n m
  unfold importEntry
  refine .andThen fun renames => .ite (.andThen fun name => ?_) inferInstance
  split <;> infer_instance

instance : Even r E importsGoOn := by
  intro n m
  unfold importsGoOn
  refine .andThen fun t => ?_
  split <;> infer_instance

instance : Even r E importList := by
  intro n m
  unfold importList
  refine .lift (.loop (fun start t imports => ?_) (fun _ _ => inferInstance) _)
  split <;> infer_instance

instance : Even r E stringLiteral := by
  intro n m
  unfold stringLiteral
  refine .andThen fun t => ?_
  split <;> infer_instance

instance : Even r E (externalProcedure start) := by
  intro n m
  unfold externalProcedure
  refine .andThen fun convention => .andThen fun _ => .andThen fun ident => ?_
  split <;> infer_instance

instance (ident : IdentDef) : Even r E (closingName ident) := by
  intro n m
  unfold closingName
  refine .andThen fun name => ?_
  split <;> infer_instance

section

variable (statements : Parser n (List Statement)) (statements' : Parser m (List Statement))
  (declarations : Parser n Block) (declarations' : Parser m Block)
  [Uniform r Steady statements statements'] [Uniform r (Settles Eq) declarations declarations']

instance (block : Block) :
    Uniform r Steady (blockBody statements block) (blockBody statements' block) := by
  unfold blockBody; infer_instance

instance :
    Uniform r (Settles Eq) (definedProcedure statements declarations start) (definedProcedure
     statements' declarations' start) := by
  unfold definedProcedure
  refine .andThen fun ident => ?_
  split
  · infer_instance
  · exact .enclose fun id => inferInstance

instance :
    Uniform r (Settles Eq) (procedure statements declarations start) (procedure statements'
     declarations' start) := by
  unfold procedure
  refine .andThen fun _ => .ite ?_ inferInstance
  exact .getThen (fun _ => rfl) fun _ => inferInstance

end

section

variable (statements statements' : (n : Nat) → Parser n (List Statement))
  [∀ n m, Uniform r Steady (statements n) (statements' m)]

instance (declarations : Parser n Block) (declarations' : Parser m Block)
    [Uniform r (Settles Eq) declarations declarations'] :
    Uniform r Concludes (declarationsBody statements n declarations) (declarationsBody statements' m
     declarations') := by
  unfold declarationsBody
  infer_instance

instance : Uniform r (Settles Eq) (declarations statements n) (declarations statements' m) :=
  .fix (fun _ _ _ _ _ => inferInstance) n m

instance : Even r E moduleHeader := by unfold moduleHeader; infer_instance

instance : Even r E (moduleEnd name) := by
  intro n m
  unfold moduleEnd
  refine .andThen fun last => ?_
  split <;> infer_instance

variable [Coarse F] [Leads F r r]
  [∀ ident, Analyze.Keeps F (beginModule ident)]

instance :
    Uniform r F (@moduleBody n statements start name) (@moduleBody m statements' start name) := by
  unfold moduleBody
  dsimp only
  repeat' first
    | infer_instance
    | refine .ite ?_ ?_
    | refine .andThen fun _ => ?_

instance (name : Option Ident) :
    Uniform r F (@moduleBehind n statements start name) (@moduleBehind m statements' start name) := by
  unfold moduleBehind
  split <;> infer_instance

instance : Uniform r F (@moduleOver n statements) (@moduleOver m statements') := by
  unfold moduleOver; infer_instance

end

instance {F : Analysis → Analysis → Prop} [Coarse F]
    [∀ ident, Analyze.Keeps F (beginModule ident)] :
    Uniform ⟨strict, none⟩ F (@module n) (@module m) := by
  unfold module; infer_instance

end Grammar
end Oberon
