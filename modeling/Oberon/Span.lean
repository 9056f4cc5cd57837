/-!
# Oberon.Span

Byte ranges into a source text. `start` is the offset of the first byte, `stop` the offset behind
the last one.
-/

namespace Oberon

structure Span where
  start : Nat
  stop : Nat
deriving DecidableEq, Inhabited

namespace Span

def none : Span := ⟨0, 0⟩

def merge (a b : Span) : Span := ⟨min a.start b.start, max a.stop b.stop⟩

end Span
end Oberon
