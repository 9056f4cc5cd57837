import Oberon.Grammar.Parser

/-!
# Oberon.Grammar.Names

Identifiers, qualified and exported ones, and lists of them.
-/

namespace Oberon
namespace Grammar

open Oberon.Parser

variable {n : Nat}

def name? : Lexis → Option String
  | .ident name => some name
  | _ => none

def ident : Parser n (Option Ident) := do
  let t ← peek
  match name? t.lexis with
  | some name =>
    let _ ← next
    return some ⟨name, t.span⟩
  | none =>
    reportExpected "identifier" t
    return none

/-- The rest of `[ident "."] ident`. The first name is that of a module only if it denotes nothing
that is in scope, so that `r.f` remains the field of a record. -/
def qualify (first : Ident) : Parser n QualIdent := do
  if (← getAnalysis).isDefined first.name then return .simple first.name first.span
  else if ← acceptSymbol .dot then
    match ← ident with
    | some name => return ⟨some first.name, name.name, first.span.merge name.span⟩
    | none => return .simple first.name first.span
  else return .simple first.name first.span

def qualident : Parser n (Option QualIdent) := do
  match ← ident with
  | some first => return some (← qualify first)
  | none => return none

/-- Underscores are for names that the compiler makes. -/
def checkIdentifier (ident : Ident) : Parser n Unit :=
  if ident.name.toList.contains '_' then report ident.span (.illegalIdentifier ident.name) else pure ()

/-- The rest of `ident ["*"]` where a name is declared. -/
def defining (ident : Ident) : Parser n IdentDef := do
  checkIdentifier ident
  if ← acceptSymbol .times then return ⟨ident.name, true, ← spanFrom ident.span⟩
  else return ⟨ident.name, false, ident.span⟩

def identdef : Parser n (Option IdentDef) := do
  match ← ident with
  | some i => return some (← defining i)
  | none => return none

/-- What stands behind a name of a list: does another one follow? A missing comma is reported and
made up for. -/
def listGoesOn (unexpected : Token → Parser n Unit) : Parser n Bool := do
  let t ← peek
  match t.lexis with
  | .symbol .comma =>
    let _ ← next
    return true
  | .ident _ =>
    report t.span .commaMissing
    return true
  | .symbol .colon => return false
  | _ =>
    unexpected t
    return false

/-- What else stands behind a declared name. -/
def skipToColon (t : Token) : Parser n Unit := do
  reportUnexpected t
  resync .name

def moreIdentDefs (names : List IdentDef) : Parser n (List IdentDef) := do
  if !(← listGoesOn skipToColon) then return names
  else
    loop (n := n) name?
      (fun name t names => do
        let names := names ++ [← defining ⟨name, t.span⟩]
        if ← listGoesOn skipToColon then return .again names else return .done names)
      (fun t names => do
        report t.span .identifierExpected
        return names)
      names

def identDefs (first : Ident) : Parser n (List IdentDef) := do
  moreIdentDefs [← defining first]

end Grammar
end Oberon
