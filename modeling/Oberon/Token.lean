import Oberon.Span
import Oberon.Number.Text

/-!
# Oberon.Token

The vocabulary of Oberon: reserved words, symbols, literals and identifiers. `text` is how a
token reads in a diagnostic, `label` the name of its class in a token listing.
-/

namespace Oberon

inductive Keyword where
  | ARRAY | BEGIN | BY | CASE | CONST | DIV | DO | ELSE | ELSIF | END | EXIT | EXTERNAL
  | FALSE | FOR | IF | IMPORT | IN | IS | LOOP | MOD | MODULE | NIL | OF | OR | POINTER
  | PROCEDURE | RECORD | REPEAT | RETURN | THEN | TO | TRUE | TYPE | UNTIL | VAR | WHILE
deriving DecidableEq

namespace Keyword

def all : List Keyword :=
  [ARRAY, BEGIN, BY, CASE, CONST, DIV, DO, ELSE, ELSIF, END, EXIT, EXTERNAL,
    FALSE, FOR, IF, IMPORT, IN, IS, LOOP, MOD, MODULE, NIL, OF, OR, POINTER,
    PROCEDURE, RECORD, REPEAT, RETURN, THEN, TO, TRUE, TYPE, UNTIL, VAR, WHILE]

def text : Keyword → String
  | ARRAY => "ARRAY"
  | BEGIN => "BEGIN"
  | BY => "BY"
  | CASE => "CASE"
  | CONST => "CONST"
  | DIV => "DIV"
  | DO => "DO"
  | ELSE => "ELSE"
  | ELSIF => "ELSIF"
  | END => "END"
  | EXIT => "EXIT"
  | EXTERNAL => "EXTERNAL"
  | FALSE => "FALSE"
  | FOR => "FOR"
  | IF => "IF"
  | IMPORT => "IMPORT"
  | IN => "IN"
  | IS => "IS"
  | LOOP => "LOOP"
  | MOD => "MOD"
  | MODULE => "MODULE"
  | NIL => "NIL"
  | OF => "OF"
  | OR => "OR"
  | POINTER => "POINTER"
  | PROCEDURE => "PROCEDURE"
  | RECORD => "RECORD"
  | REPEAT => "REPEAT"
  | RETURN => "RETURN"
  | THEN => "THEN"
  | TO => "TO"
  | TRUE => "TRUE"
  | TYPE => "TYPE"
  | UNTIL => "UNTIL"
  | VAR => "VAR"
  | WHILE => "WHILE"

/-- The keyword spelled by a word, if it is one. Keywords are upper case only. -/
def ofText? (word : String) : Option Keyword := all.find? fun k => k.text == word

def label (word : Keyword) : String :=
  match word.text.toList with
  | [] => ""
  | c :: cs => String.ofList (c :: cs.map Char.toLower)

end Keyword

inductive Symbol where
  | becomes | eq | neq | lt | leq | gt | geq | plus | minus | times | slash | and | not | caret
  | dot | dotDot | ellipsis | comma | semicolon | colon | bar
  | leftParen | rightParen | leftBracket | rightBracket | leftBrace | rightBrace
deriving DecidableEq

namespace Symbol

def text : Symbol → String
  | becomes => ":="
  | eq => "="
  | neq => "#"
  | lt => "<"
  | leq => "<="
  | gt => ">"
  | geq => ">="
  | plus => "+"
  | minus => "-"
  | times => "*"
  | slash => "/"
  | and => "&"
  | not => "~"
  | caret => "^"
  | dot => "."
  | dotDot => ".."
  | ellipsis => "..."
  | comma => ","
  | semicolon => ";"
  | colon => ":"
  | bar => "|"
  | leftParen => "("
  | rightParen => ")"
  | leftBracket => "["
  | rightBracket => "]"
  | leftBrace => "\x7b"
  | rightBrace => "\x7d"

def label : Symbol → String
  | becomes => "Becomes"
  | eq => "Eq"
  | neq => "Neq"
  | lt => "Lt"
  | leq => "Leq"
  | gt => "Gt"
  | geq => "Geq"
  | plus => "Plus"
  | minus => "Minus"
  | times => "Times"
  | slash => "Slash"
  | and => "And"
  | not => "Not"
  | caret => "Caret"
  | dot => "Dot"
  | dotDot => "DotDot"
  | ellipsis => "Ellipsis"
  | comma => "Comma"
  | semicolon => "Semicolon"
  | colon => "Colon"
  | bar => "Bar"
  | leftParen => "LParen"
  | rightParen => "RParen"
  | leftBracket => "LBracket"
  | rightBracket => "RBracket"
  | leftBrace => "LBrace"
  | rightBrace => "RBrace"

end Symbol

/-- What a token is. `longReal` is a real written with the exponent letter `D`; `charCode` is a
hexadecimal character code such as `41X`. -/
inductive Lexis where
  | keyword (word : Keyword)
  | symbol (mark : Symbol)
  | ident (name : String)
  | integer (value : Int)
  | real (value : Float)
  | longReal (value : Float)
  | charCode (code : UInt8)
  | string (value : String)
  | eof

namespace Lexis

def text : Lexis → String
  | keyword word => word.text
  | symbol mark => mark.text
  | ident name => name
  | integer value => toString value
  | real value => Number.realText .plain value
  | longReal value => Number.realText .plain value
  | charCode code => Number.hexText code.toNat ++ "X"
  | string value => "\"" ++ value ++ "\""
  | eof => "end of file"

def label : Lexis → String
  | keyword word => word.label
  | symbol mark => mark.label
  | ident _ => "Ident"
  | integer _ => "Integer"
  | real _ => "Real"
  | longReal _ => "LongReal"
  | charCode _ => "CharCode"
  | string _ => "Str"
  | eof => "Eof"

def isIdent : Lexis → Bool
  | ident _ => true
  | _ => false

def isKeyword (word : Keyword) : Lexis → Bool
  | keyword other => other == word
  | _ => false

def isSymbol (mark : Symbol) : Lexis → Bool
  | symbol other => other == mark
  | _ => false

def isEof : Lexis → Bool
  | eof => true
  | _ => false

end Lexis

structure Token where
  lexis : Lexis
  span : Span

end Oberon
