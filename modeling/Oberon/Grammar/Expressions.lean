import Oberon.Analysis.Designators
import Oberon.Analysis.Expressions
import Oberon.Grammar.Names

/-!
# Oberon.Grammar.Expressions

Expressions in three levels of precedence; a leading sign applies to the whole first term. What
stands in brackets is an expression again, on a shorter input.
-/

namespace Oberon
namespace Grammar

open Oberon.Parser

variable {n : Nat}

def relationOp? : Lexis → Option BinaryOp
  | .symbol .eq => some .eq
  | .symbol .neq => some .neq
  | .symbol .lt => some .lt
  | .symbol .leq => some .leq
  | .symbol .gt => some .gt
  | .symbol .geq => some .geq
  | .keyword .IN => some .member
  | .keyword .IS => some .typeTest
  | _ => none

def additiveOp? : Lexis → Option BinaryOp
  | .symbol .plus => some .add
  | .symbol .minus => some .sub
  | .keyword .OR => some .or
  | _ => none

def multiplicativeOp? : Lexis → Option BinaryOp
  | .symbol .times => some .mul
  | .symbol .slash => some .divide
  | .keyword .DIV => some .div
  | .keyword .MOD => some .mod
  | .symbol .and => some .and
  | _ => none

def sign? : Lexis → Option UnaryOp
  | .symbol .plus => some .plus
  | .symbol .minus => some .neg
  | _ => none

def factorOp? : Lexis → Option UnaryOp
  | .symbol .not => some .not
  | l => sign? l

/-- The value and type of a token that is a constant of its own. A real that no `REAL` can hold is
a `LONGREAL`, and a string of at most one byte is a character. -/
def literalOf? : Lexis → Option (Literal × Ty)
  | .integer v => some (.integer v, .ofInteger v)
  | .real v => some (.real v, if v.toFloat32.isInf then .longreal else .real)
  | .longReal v => some (.real v, .longreal)
  | .charCode c => some (.char c, .char)
  | .string s =>
    if s.utf8ByteSize ≤ 1 then
      match s.toList with
      | c :: _ => some (.char (UInt8.ofNat c.toNat), .char)
      | [] => some (.char 0, .char)
    else some (.string s, .string)
  | .keyword .TRUE => some (.boolean true, .boolean)
  | .keyword .FALSE => some (.boolean false, .boolean)
  | .keyword .NIL => some (.nil, .nil)
  | _ => none

/-! ## Designators -/

def expressionList (expression : Parser n (Option Expr)) : Parser n (List Expr) := do
  return (← commaSeparated expression).filterMap id

inductive SelectorStart where
  | field
  | index
  | deref
  | call

def selectorStart? : Lexis → Option SelectorStart
  | .symbol .dot => some .field
  | .symbol .leftBracket => some .index
  | .symbol .caret => some .deref
  | .symbol .leftParen => some .call
  | _ => none

def selector (expression : Parser n (Option Expr)) (start : SelectorStart) (t : Token) :
    Parser n (Option Selector) := do
  match start with
  | .field =>
    match ← ident with
    | some name => return some (.field name.name none { span := t.span.merge name.span })
    | none => return none
  | .index =>
    let indices ← expressionList expression
    if indices.isEmpty then report t.span .expressionExpected
    let _ ← symbol .rightBracket
    return some (.index indices { span := ← spanFrom t.span })
  | .deref => return some (.deref false { span := t.span })
  | .call =>
    let args ← if ← check (Lexis.isSymbol .rightParen) then pure []
      else expressionList expression
    let _ ← symbol .rightParen
    return some (.call args { span := ← spanFrom t.span })

def selectors (expression : Parser n (Option Expr)) : Parser (n + 1) (List Selector) :=
  loop selectorStart?
    (fun start t selectors => do
      match ← selector expression start t with
      | some s => return .again (selectors ++ [s])
      | none => return .done selectors)
    (fun _ selectors => pure selectors) []

def designator (expression : Parser n (Option Expr)) (first : Ident) :
    Parser n (QualIdent × List Selector) := do
  let ident ← qualify first
  let selectors ← selectors expression
  return (ident, selectors)

def designatorFactor (expression : Parser n (Option Expr)) (first : Ident) :
    Parser n (Option Expr) := do
  let (ident, selectors) ← designator expression first
  let span ← spanFrom first.span
  if (← getAnalysis).isConstant ident then Analyze.constant span ident selectors
  else return some (← Analyze.designator span ident selectors)

/-! ## Sets -/

def rangeExpression (expression : Parser n (Option Expr)) : Parser n (Option Expr) := do
  let start := (← peek).span
  let lower ← expression
  if ← acceptSymbol .dotDot then
    let upper ← expression
    Analyze.range (← spanFrom start) lower upper
  else return lower

def rangeExpressionList (expression : Parser n (Option Expr)) : Parser n (List Expr) := do
  return (← commaSeparated (rangeExpression expression)).filterMap id

def setFactor (expression : Parser n (Option Expr)) (opening : Span) : Parser n Expr := do
  let elements ← if ← check (Lexis.isSymbol .rightBrace) then pure []
    else rangeExpressionList expression
  let _ ← symbol .rightBrace
  Analyze.setOf (← spanFrom opening) elements

/-! ## Operators -/

/-- How a factor without an operator goes on behind its first token. -/
def basicFactorBehind? (expression : Parser n (Option Expr)) (t : Token) :
    Option (Parser n (Option Expr)) :=
  match t.lexis with
  | .ident name => some (designatorFactor expression ⟨name, t.span⟩)
  | .symbol .leftBrace => some do return some (← setFactor expression t.span)
  | .symbol .leftParen => some do
    let e ← expression
    let _ ← symbol .rightParen
    return e
  | l =>
    match literalOf? l with
    | some (value, type) => some (pure (some (.literal value { type, span := t.span })))
    | none => none

def basicFactor (expression : Parser n (Option Expr)) : Parser (n + 1) (Option Expr) :=
  onToken (basicFactorBehind? expression) fun t => do
    reportUnexpected t
    return none

def factor (expression : Parser n (Option Expr)) : Parser (n + 1) (Option Expr) :=
  onToken
    (fun t => (factorOp? t.lexis).map fun op => do
      let operand ← basicFactor expression
      Analyze.unary (← spanFrom t.span) op operand)
    (fun _ => basicFactor expression)

def leftAssociative (op? : Lexis → Option BinaryOp) (operand : Parser n (Option Expr))
    (start : Span) (first : Option Expr) : Parser (n + 1) (Option Expr) :=
  loop op?
    (fun op _ lhs => do
      let rhs ← operand
      return .again (← Analyze.binary (← spanFrom start) op lhs rhs))
    (fun _ e => pure e) first

def term (expression : Parser n (Option Expr)) : Parser (n + 1) (Option Expr) := do
  let start := (← peek).span
  let first ← factor expression
  leftAssociative multiplicativeOp? (factor expression) start first

def signedTerm (expression : Parser n (Option Expr)) : Parser (n + 1) (Option Expr) :=
  onToken
    (fun t => (sign? t.lexis).map fun op => do
      let operand ← term expression
      Analyze.unary (← spanFrom t.span) op operand)
    (fun _ => term expression)

def simpleExpression (expression : Parser n (Option Expr)) : Parser (n + 1) (Option Expr) := do
  let start := (← peek).span
  let first ← signedTerm expression
  leftAssociative additiveOp? (term expression) start first

def relation (expression : Parser n (Option Expr)) : Parser (n + 1) (Option Expr) := do
  let start := (← peek).span
  let lhs ← simpleExpression expression
  onToken
    (fun t => (relationOp? t.lexis).map fun op => do
      let rhs ← simpleExpression expression
      Analyze.binary (← spanFrom start) op lhs rhs)
    (fun _ => pure lhs)

def expressionBody (n : Nat) (expression : Parser n (Option Expr)) :
    Parser (n + 1) (Option Expr) := do
  let e ← relation expression
  if e.isNone then resync .expression
  return e

def expression : (n : Nat) → Parser n (Option Expr) := fix expressionBody

end Grammar
end Oberon
