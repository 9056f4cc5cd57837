import Oberon.Analysis

/-!
# Oberon.Grammar.Parser

Parsers that analyse what they read. `Parser n` reads inputs of fewer than `n` lexemes. A production
may call itself only behind a token that it has consumed, where fewer lexemes are left: this is
what `fix` and `loop` ask for, and it is why every parser ends on every input.

Lexical faults are reported when the token behind them is first looked at. Behind a faulty phrase
tokens are skipped up to one from which reading can go on.
-/

namespace Oberon

namespace Lexis

def among (words : List Keyword) (marks : List Symbol) : Lexis → Bool
  | keyword word => words.contains word
  | symbol mark => marks.contains mark
  | _ => false

end Lexis

inductive Recovery where
  | expression
  | type
  | formalType
  | name
  | fields
  | statement
  | imports
  | constSection
  | typeSection
  | varSection
  | procedures
  | procedureHeading
  | procedureBody
  | moduleHeading
  | module
deriving DecidableEq

namespace Recovery

def follow : Recovery → Lexis → Bool
  | expression =>
    Lexis.among [.END, .ELSE, .ELSIF, .TO, .THEN, .UNTIL, .BY, .DO, .OF]
      [.rightParen, .rightBracket, .rightBrace, .comma, .colon, .dotDot, .bar, .semicolon]
  | type => Lexis.among [.END] [.semicolon, .rightParen]
  | formalType => Lexis.among [] [.semicolon, .rightParen]
  | name => Lexis.among [] [.colon]
  | fields => Lexis.among [.END] [.semicolon]
  | statement => Lexis.among [.END, .ELSIF, .ELSE, .UNTIL] [.semicolon, .bar]
  | imports => Lexis.among [.CONST, .TYPE, .VAR, .PROCEDURE, .BEGIN] []
  | constSection => Lexis.among [.TYPE, .VAR, .PROCEDURE, .BEGIN, .END] []
  | typeSection => Lexis.among [.VAR, .PROCEDURE, .BEGIN, .END] []
  | varSection => Lexis.among [.PROCEDURE, .BEGIN, .END] []
  | procedures => Lexis.among [.BEGIN, .END] []
  | procedureHeading => Lexis.among [] [.semicolon]
  | procedureBody => Lexis.among [.END] []
  | moduleHeading => Lexis.among [.IMPORT, .CONST, .TYPE, .VAR, .PROCEDURE, .BEGIN, .END] []
  | module => Lexis.among [] []

end Recovery

/-- How far the input has been read, and what is known about the part that was. -/
structure Cursor where
  rest : List Lexeme
  length : Nat
  previous : Span
  /-- The tokens that were skipped so far, and behind what, the last one first. -/
  skipped : List (Recovery × Token)
  analysis : Analysis

namespace Cursor

def ofSource (source : String) (analysis : Analysis) : Cursor :=
  { rest := scan source, length := source.utf8ByteSize, previous := .none, skipped := [], analysis }

def skipFaults : List Lexeme → Analysis → List Lexeme × Analysis
  | .fault f span :: rest, a => skipFaults rest (Analyze.report span (.lexical f) a).2
  | rest, a => (rest, a)

theorem length_skipFaults (rest : List Lexeme) :
    ∀ a, (skipFaults rest a).1.length ≤ rest.length := by
  induction rest with
  | nil => intro a; exact Nat.le_refl _
  | cons l rest ih =>
    intro a
    cases l with
    | token t => exact Nat.le_refl _
    | fault f span => exact Nat.le_succ_of_le (ih _)

def settled (c : Cursor) : Cursor :=
  let (rest, analysis) := skipFaults c.rest c.analysis
  { c with rest, analysis }

theorem length_settled (c : Cursor) : c.settled.rest.length ≤ c.rest.length :=
  length_skipFaults _ _

def head (c : Cursor) : Token :=
  match c.rest with
  | .token t :: _ => t
  | _ => .endOf c.length

def skipBehind (phrase : Recovery) : List Lexeme → Cursor → Cursor
  | [], c => { c with rest := [] }
  | .fault f span :: rest, c =>
    skipBehind phrase rest { c with analysis := (Analyze.report span (.lexical f) c.analysis).2 }
  | .token t :: rest, c =>
    if phrase.follow t.lexis then { c with rest := .token t :: rest }
    else skipBehind phrase rest { c with previous := t.span, skipped := (phrase, t) :: c.skipped }

theorem length_skipBehind (phrase : Recovery) (rest : List Lexeme) :
    ∀ c, (skipBehind phrase rest c).rest.length ≤ rest.length := by
  induction rest with
  | nil => intro c; exact Nat.le_refl _
  | cons l rest ih =>
    intro c
    cases l with
    | token t =>
      simp only [skipBehind]
      split
      · exact Nat.le_refl _
      · exact Nat.le_succ_of_le (ih _)
    | fault f span => exact Nat.le_succ_of_le (ih _)

/-- The cursor behind its next token; at the end there is nothing to consume. -/
def advanced (c : Cursor) : Cursor :=
  match c.rest with
  | .token t :: rest => { c with rest, previous := t.span }
  | _ => { c with previous := c.head.span }

theorem length_advanced (c : Cursor) : c.advanced.rest.length ≤ c.rest.length := by
  unfold advanced
  split
  · rename_i h; simp [h]
  · exact Nat.le_refl _

end Cursor

/-- A value, and a cursor no less far than `start`. -/
structure Reached (start : Cursor) (α : Type) where
  value : α
  cursor : Cursor
  le : cursor.rest.length ≤ start.rest.length

/-- A parser for inputs of fewer than `n` lexemes. -/
def Parser (n : Nat) (α : Type) := (c : Cursor) → c.rest.length < n → Reached c α

namespace Parser

variable {n m : Nat} {α β σ : Type}

instance : Monad (Parser n) where
  pure value := fun c _ => ⟨value, c, Nat.le_refl _⟩
  bind p f := fun c h =>
    let r := p c h
    let r' := f r.value r.cursor (Nat.lt_of_le_of_lt r.le h)
    ⟨r'.value, r'.cursor, Nat.le_trans r'.le r.le⟩

/-- What reads longer inputs also reads shorter ones. -/
def le (h : m ≤ n) (p : Parser n α) : Parser m α := fun c hc => p c (Nat.lt_of_lt_of_le hc h)

instance : MonadLift (Parser (n + 1)) (Parser n) := ⟨fun p => p.le (Nat.le_succ n)⟩

def ofAnalyze (x : Analyze α) : Parser n α := fun c _ =>
  let (value, analysis) := x c.analysis
  ⟨value, { c with analysis }, Nat.le_refl _⟩

instance : MonadLift Analyze (Parser n) := ⟨ofAnalyze⟩

/-! ## Recursion -/

/-- A production that calls itself on shorter inputs only. -/
def fix (body : (n : Nat) → Parser n α → Parser (n + 1) α) : (n : Nat) → Parser n α
  | 0, _, h => absurd h (Nat.not_lt_zero _)
  | n + 1, c, h => body n (fun c h => fix body n c h) c h

def onToken (take : Token → Option (Parser n α)) (otherwise : Token → Parser (n + 1) α) :
    Parser (n + 1) α := fun c h =>
  match hr : c.settled.rest with
  | .token t :: rest =>
    match take t with
    | some p =>
      have hl : rest.length < c.rest.length := by
        have := c.length_settled
        rw [hr] at this
        exact this
      let r := p { c.settled with rest, previous := t.span }
        (Nat.lt_of_lt_of_le hl (Nat.le_of_lt_succ h))
      ⟨r.value, r.cursor, Nat.le_trans r.le (Nat.le_of_lt hl)⟩
    | none =>
      let r := otherwise t c.settled (Nat.lt_of_le_of_lt c.length_settled h)
      ⟨r.value, r.cursor, Nat.le_trans r.le c.length_settled⟩
  | _ =>
    let r := otherwise c.settled.head c.settled (Nat.lt_of_le_of_lt c.length_settled h)
    ⟨r.value, r.cursor, Nat.le_trans r.le c.length_settled⟩

inductive Flow (σ : Type) where
  | again (state : σ)
  | done (state : σ)

/-- Rounds that each start with a token that `opens` one; in the end `closed` sees the token
that does not. -/
def loopWithin (opens : Lexis → Option β) (round : β → Token → σ → Parser n (Flow σ))
    (closed : Token → σ → Parser (n + 1) σ) : (k : Nat) → k ≤ n + 1 → σ → Parser k σ
  | 0, _, _, _, h => absurd h (Nat.not_lt_zero _)
  | k + 1, hk, s, c, h =>
    onToken
      (fun t => (opens t.lexis).map fun b => do
        match ← (round b t s).le (Nat.le_of_succ_le_succ hk) with
        | .again s =>
          fun c h =>
            loopWithin opens round closed k (Nat.le_of_lt (Nat.lt_of_lt_of_le k.lt_succ_self hk))
              s c h
        | .done s => pure s)
      (fun t => (closed t s).le hk) c h

def loop (opens : Lexis → Option β) (round : β → Token → σ → Parser n (Flow σ))
    (closed : Token → σ → Parser (n + 1) σ) (state : σ) : Parser (n + 1) σ :=
  loopWithin opens round closed (n + 1) (Nat.le_refl _) state

/-- A loop over tokens that pass a test and that just ends at another one. -/
def loopWhile (test : Lexis → Bool) (round : Token → σ → Parser n (Flow σ)) (state : σ) :
    Parser (n + 1) σ :=
  loop (fun l => if test l then some () else none) (fun _ => round) (fun _ s => pure s) state

/-! ## Tokens -/

/-- The next token, not consumed. -/
def peek : Parser n Token := fun c _ => ⟨c.settled.head, c.settled, c.length_settled⟩

def next : Parser n Token := fun c _ =>
  ⟨c.settled.head, c.settled.advanced,
    Nat.le_trans c.settled.length_advanced c.length_settled⟩

def previous : Parser n Span := fun c _ => ⟨c.previous, c, Nat.le_refl _⟩

def spanFrom (start : Span) : Parser n Span := do return start.merge (← previous)

def getAnalysis : Parser n Analysis := fun c _ => ⟨c.analysis, c, Nat.le_refl _⟩

def report (span : Span) (note : SyntaxNote) : Parser n Unit :=
  ofAnalyze (Analyze.report span (.sentence note))

def warn (span : Span) (note : SyntaxNote) : Parser n Unit :=
  ofAnalyze (Analyze.warn span (.sentence note))

def check (test : Lexis → Bool) : Parser n Bool := do return test (← peek).lexis

def accept (test : Lexis → Bool) : Parser n Bool := do
  if ← check test then
    let _ ← next
    return true
  else return false

def acceptKeyword (word : Keyword) : Parser n Bool := accept (Lexis.isKeyword word)

def acceptSymbol (mark : Symbol) : Parser n Bool := accept (Lexis.isSymbol mark)

def reportExpected (what : String) (found : Token) : Parser n Unit :=
  report found.span (.expected what found.lexis.text)

/-- Consume a token that has to be there. Another token is reported and left in place. -/
def expect (test : Lexis → Bool) (text : String) : Parser n Bool := do
  if ← accept test then return true
  else
    reportExpected text (← peek)
    return false

def keyword (word : Keyword) : Parser n Bool := expect (Lexis.isKeyword word) word.text

def symbol (mark : Symbol) : Parser n Bool := expect (Lexis.isSymbol mark) mark.text

/-- Skip to a token that may follow `phrase`, or to the end. -/
def resync (phrase : Recovery) : Parser n Unit := fun c _ =>
  ⟨(), Cursor.skipBehind phrase c.rest c, Cursor.length_skipBehind phrase _ _⟩

def reportUnexpected (found : Token) : Parser n Unit :=
  report found.span (.unexpectedToken found.lexis.text)

def expectBehind (phrase : Recovery) : Parser n Unit := do
  let t ← peek
  if !phrase.follow t.lexis then
    reportUnexpected t
    resync phrase

def commaSeparated (item : Parser n α) : Parser n (List α) := do
  let first ← item
  loopWhile (Lexis.isSymbol .comma)
    (fun _ items => do return .again (items ++ [← item])) [first]

end Parser

end Oberon
