import Oberon.Token.Scan

/-!
# Oberon.Token.Lookahead

Reading tokens one by one with any amount of look-ahead. Tokens that were looked at wait in a
buffer. A fault is reported by the one call that meets it, and past the end every call yields
the end-of-file token.
-/

namespace Oberon

structure Lookahead where
  /-- Tokens already looked at, the next one first. -/
  buffer : List Token
  rest : List Lexeme
  length : Nat

namespace Lookahead

abbrev Answer (α : Type) := Except (LexicalFault × Span) α

def ofSource (source : String) : Lookahead := ⟨[], scan source, source.utf8ByteSize⟩

def scanNext (s : Lookahead) : Answer Token × Lookahead :=
  match s.rest with
  | [] => (.ok (Token.endOf s.length), s)
  | .token t :: rest => (.ok t, { s with rest })
  | .fault f span :: rest => (.error (f, span), { s with rest })

def next (s : Lookahead) : Answer Token × Lookahead :=
  match s.buffer with
  | t :: buffer => (.ok t, { s with buffer })
  | [] => s.scanNext

/-- Adds `count` tokens to the buffer, fewer if a fault comes first. -/
def fill : (count : Nat) → Lookahead → Answer Unit × Lookahead
  | 0, s => (.ok (), s)
  | count + 1, s =>
    match s.scanNext with
    | (.ok t, s) => fill count { s with buffer := s.buffer ++ [t] }
    | (.error e, s) => (.error e, s)

/-- The token `offset` places behind the next one, which stays unread. -/
def peekAt (s : Lookahead) (offset : Nat) : Answer Token × Lookahead :=
  match fill (offset + 1 - s.buffer.length) s with
  | (.ok (), s) => (.ok (s.buffer.getD offset (Token.endOf s.length)), s)
  | (.error e, s) => (.error e, s)

def peek (s : Lookahead) : Answer Token × Lookahead := s.peekAt 0

def check (s : Lookahead) (test : Lexis → Bool) : Answer Bool × Lookahead :=
  match s.peek with
  | (.ok t, s) => (.ok (test t.lexis), s)
  | (.error e, s) => (.error e, s)

end Lookahead
end Oberon
