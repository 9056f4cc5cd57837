import Oberon.Number.Nearest
import Oberon.Token

/-!
# Oberon.Token.Scan

Cutting a source text into lexemes. At every position `step` decides what starts there and how
many characters it takes; the longest lexeme wins. White space and complete comments yield
nothing, text that starts no token yields a fault in its place, and scanning goes on behind it.
-/

namespace Oberon

inductive LexicalFault where
  | openComment
  | badNumber (text : String)
  | badCharacter (text : String)
deriving DecidableEq

namespace LexicalFault

def text : LexicalFault → String
  | openComment => "comment not terminated."
  | badNumber text => "invalid number '" ++ text ++ "'"
  | badCharacter text => "unexpected character '" ++ text ++ "'"

end LexicalFault

/-- One result of scanning: a token, or a fault where no token could be read. -/
inductive Lexeme where
  | token (token : Token)
  | fault (fault : LexicalFault) (span : Span)

namespace Lexeme

def span : Lexeme → Span
  | token t => t.span
  | fault _ s => s

end Lexeme

namespace Scan

/-! ## Character classes -/

def isBlank (c : Char) : Bool :=
  c == ' ' || c == '\t' || c == '\n' || c == '\r' || c == '\x0c'

def isDigit (c : Char) : Bool := '0' ≤ c && c ≤ '9'

def isHexDigit (c : Char) : Bool := isDigit c || ('A' ≤ c && c ≤ 'F')

def isLetter (c : Char) : Bool := ('A' ≤ c && c ≤ 'Z') || ('a' ≤ c && c ≤ 'z')

def isIdentChar (c : Char) : Bool := isLetter c || isDigit c || c == '_'

/-! ## Numbers -/

def digitValue (c : Char) : Nat :=
  if isDigit c then c.toNat - '0'.toNat else c.toNat - 'A'.toNat + 10

def valueOf (base : Nat) (digits : List Char) : Nat :=
  digits.foldl (fun n c => n * base + digitValue c) 0

def signed64 (n : Nat) : Int :=
  if n < 0x8000000000000000 then n else (n : Int) - 0x10000000000000000

inductive Reading where
  | blank
  | token (lexis : Lexis)
  | fault (fault : LexicalFault)

structure Step where
  reading : Reading
  size : Nat

def numberFault (text : List Char) : Reading := .fault (.badNumber (String.ofList text))

/-- An exponent part behind the letter: an optional sign and at least one digit. Its value and
its number of characters. -/
def exponent? : List Char → Option (Int × Nat)
  | '+' :: cs => unsigned cs |>.map fun (e, n) => ((e : Int), n + 1)
  | '-' :: cs => unsigned cs |>.map fun (e, n) => (-(e : Int), n + 1)
  | cs => unsigned cs |>.map fun (e, n) => ((e : Int), n)
where
  unsigned (cs : List Char) : Option (Nat × Nat) :=
    let digits := cs.takeWhile isDigit
    if digits.isEmpty then none else some (valueOf 10 digits, digits.length)

/-- A real whose whole part and fraction digits are read; `cs` follows the fraction. An exponent
part that is not complete belongs to the next lexeme. -/
def real (whole fraction cs : List Char) : Step :=
  let digits := valueOf 10 (whole ++ fraction)
  let size := whole.length + 1 + fraction.length
  let plain : Step := ⟨.token (.real (Number.ofDecimal digits (-fraction.length))), size⟩
  match cs with
  | 'E' :: rest =>
    match exponent? rest with
    | some (e, n) => ⟨.token (.real (Number.ofDecimal digits (e - fraction.length))), size + 1 + n⟩
    | none => plain
  | 'D' :: rest =>
    match exponent? rest with
    | some (e, n) =>
      ⟨.token (.longReal (Number.ofDecimal digits (e - fraction.length))), size + 1 + n⟩
    | none => plain
  | _ => plain

/-- A lexeme that starts with a digit. The run of hexadecimal digits decides: followed by `H` or
`X` it is a hexadecimal number or a character code, and if it is not purely decimal it has to be. -/
def number (cs : List Char) : Step :=
  let hex := cs.takeWhile isHexDigit
  match cs.dropWhile isHexDigit with
  | 'H' :: _ =>
    let value := valueOf 16 hex
    if value < 0x10000000000000000 then ⟨.token (.integer (signed64 value)), hex.length + 1⟩
    else ⟨numberFault (hex ++ ['H']), hex.length + 1⟩
  | 'X' :: _ =>
    let value := valueOf 16 hex
    if value < 256 then ⟨.token (.charCode value.toUInt8), hex.length + 1⟩
    else ⟨numberFault (hex ++ ['X']), hex.length + 1⟩
  | rest =>
    if !hex.all isDigit then ⟨numberFault hex, hex.length⟩
    else
      let value := valueOf 10 hex
      let whole : Step :=
        if value < 0x8000000000000000 then ⟨.token (.integer value), hex.length⟩
        else ⟨numberFault hex, hex.length⟩
      match rest with
      | '.' :: behind =>
        let fraction := behind.takeWhile isDigit
        if fraction.isEmpty then whole else real hex fraction (behind.dropWhile isDigit)
      | _ => whole

/-! ## Words, strings and comments -/

def word (cs : List Char) : Step :=
  let letters := cs.takeWhile isIdentChar
  let name := String.ofList letters
  let lexis := match Keyword.ofText? name with
    | some k => .keyword k
    | none => .ident name
  ⟨.token lexis, letters.length⟩

/-- A string between two equal quotes; `cs` follows the opening one. Without a closing quote the
fault reaches to the end of the text. -/
def quoted (quote : Char) (cs : List Char) : Step :=
  let body := cs.takeWhile (· != quote)
  if body.length < cs.length then ⟨.token (.string (String.ofList body)), body.length + 2⟩
  else ⟨.fault (.badCharacter (String.ofList (quote :: cs))), cs.length + 1⟩

/-- Number of characters up to and including the delimiter that closes the innermost of
`depth + 1` open comments and all around it; `none` if the text ends before. -/
def closeComment (depth : Nat) : List Char → Option Nat
  | [] => none
  | '(' :: '*' :: cs => closeComment (depth + 1) cs |>.map (· + 2)
  | '*' :: ')' :: cs =>
    match depth with
    | 0 => some 2
    | outer + 1 => closeComment outer cs |>.map (· + 2)
  | _ :: cs => closeComment depth cs |>.map (· + 1)

/-- A comment; `cs` follows the opening delimiter. -/
def comment (cs : List Char) : Step :=
  match closeComment 0 cs with
  | some n => ⟨.blank, n + 2⟩
  | none => ⟨.fault .openComment, cs.length + 2⟩

/-! ## The scan -/

def mark (symbol : Symbol) (size : Nat) : Step := ⟨.token (.symbol symbol), size⟩

/-- The lexeme at the start of a non-empty text `c :: cs`. -/
def step (c : Char) (cs : List Char) : Step :=
  if isBlank c then ⟨.blank, 1⟩
  else if isDigit c then number (c :: cs)
  else if isLetter c then word (c :: cs)
  else
    match c, cs with
    | '(', '*' :: rest => comment rest
    | '"', _ => quoted '"' cs
    | '\'', _ => quoted '\'' cs
    | ':', '=' :: _ => mark .becomes 2
    | ':', _ => mark .colon 1
    | '<', '=' :: _ => mark .leq 2
    | '<', _ => mark .lt 1
    | '>', '=' :: _ => mark .geq 2
    | '>', _ => mark .gt 1
    | '.', '.' :: '.' :: _ => mark .ellipsis 3
    | '.', '.' :: _ => mark .dotDot 2
    | '.', _ => mark .dot 1
    | '=', _ => mark .eq 1
    | '#', _ => mark .neq 1
    | '+', _ => mark .plus 1
    | '-', _ => mark .minus 1
    | '*', _ => mark .times 1
    | '/', _ => mark .slash 1
    | '&', _ => mark .and 1
    | '~', _ => mark .not 1
    | '^', _ => mark .caret 1
    | ',', _ => mark .comma 1
    | ';', _ => mark .semicolon 1
    | '|', _ => mark .bar 1
    | '(', _ => mark .leftParen 1
    | ')', _ => mark .rightParen 1
    | '[', _ => mark .leftBracket 1
    | ']', _ => mark .rightBracket 1
    | '{', _ => mark .leftBrace 1
    | '}', _ => mark .rightBrace 1
    | _, _ => ⟨.fault (.badCharacter (String.singleton c)), 1⟩

def byteCount (cs : List Char) : Nat := cs.foldl (fun n c => n + c.utf8Size) 0

/-- Lexemes of a text that starts at byte `pos` and whose first `skip` characters belong to a
lexeme already read. -/
def lexemes (skip pos : Nat) : List Char → List Lexeme
  | [] => []
  | c :: cs =>
    match skip with
    | skip + 1 => lexemes skip (pos + c.utf8Size) cs
    | 0 =>
      let s := step c cs
      let span : Span := ⟨pos, pos + byteCount ((c :: cs).take s.size)⟩
      let rest := lexemes (s.size - 1) (pos + c.utf8Size) cs
      match s.reading with
      | .blank => rest
      | .token lexis => .token ⟨lexis, span⟩ :: rest
      | .fault fault => .fault fault span :: rest

end Scan

/-- All lexemes of a source text, without the end-of-file token. -/
def scan (source : String) : List Lexeme := Scan.lexemes 0 0 source.toList

/-- The token every reading past the end of a source yields. -/
def Token.endOf (length : Nat) : Token := ⟨.eof, ⟨length, length⟩⟩

end Oberon
