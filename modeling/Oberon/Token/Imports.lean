import Oberon.Token.Scan

/-!
# Oberon.Token.Imports

The modules a source imports, read off its header alone. Reading stops at the first token that
does not fit; a fault fits nowhere.
-/

namespace Oberon
namespace Imports

/-- Faults read like the end of the source. -/
def lexis : Lexeme → Lexis
  | .token t => t.lexis
  | .fault _ _ => .eof

def names : List Lexis → List String
  | .ident _ :: .symbol .becomes :: .ident module :: .symbol .comma :: rest => module :: names rest
  | .ident _ :: .symbol .becomes :: .ident module :: _ => [module]
  | .ident _ :: .symbol .becomes :: _ => []
  | .ident module :: .symbol .comma :: rest => module :: names rest
  | .ident module :: _ => [module]
  | _ => []

end Imports

def importedNames (source : String) : List String :=
  match (scan source).map Imports.lexis with
  | .keyword .MODULE :: .ident _ :: .symbol .semicolon :: .keyword .IMPORT :: rest =>
    Imports.names rest
  | _ => []

end Oberon
