import Oberon.Token.Scan

/-!
# Oberon.Token.Listing

A listing of the tokens of a source, one a line with its span. Texts are quoted: quotes,
backslashes, line ends and tabs get a backslash, and so do characters that cannot be seen.
-/

namespace Oberon
namespace Listing

/-- Blocks of characters outside ASCII that have no glyph of their own: control and format
characters, blanks, combining marks and private use. -/
def hiddenRanges : List (Nat × Nat) :=
  [(0x7f, 0xa0), (0xad, 0xad), (0x300, 0x36f), (0x483, 0x489), (0x591, 0x5bd), (0x600, 0x605),
    (0x610, 0x61a), (0x61c, 0x61c), (0x64b, 0x65f), (0x6dd, 0x6dd), (0x70f, 0x70f),
    (0x1680, 0x1680), (0x180b, 0x180e), (0x1ab0, 0x1ace), (0x1dc0, 0x1dff), (0x2000, 0x200f),
    (0x2028, 0x202f), (0x205f, 0x206f), (0x20d0, 0x20f0), (0x3000, 0x3000), (0x302a, 0x302f),
    (0x3099, 0x309a), (0xe000, 0xf8ff), (0xfe00, 0xfe0f), (0xfe20, 0xfe2f), (0xfeff, 0xfeff),
    (0xff9e, 0xff9f), (0xfff0, 0xfffb), (0xfffe, 0xffff), (0xe0000, 0x10ffff)]

def isHidden (c : Char) : Bool :=
  c.toNat < 0x20 || hiddenRanges.any fun (low, high) => low ≤ c.toNat && c.toNat ≤ high

def quoteChar (c : Char) : List Char :=
  match c with
  | '"' => ['\\', '"']
  | '\\' => ['\\', '\\']
  | '\n' => ['\\', 'n']
  | '\r' => ['\\', 'r']
  | '\t' => ['\\', 't']
  | '\x00' => ['\\', '0']
  | _ =>
    if isHidden c then ['\\', 'u', '{'] ++ Nat.toDigits 16 c.toNat ++ ['}']
    else [c]

def quote (text : String) : String :=
  "\"" ++ String.ofList (text.toList.flatMap quoteChar) ++ "\""

def describe (lexis : Lexis) : String :=
  let value? := match lexis with
    | .ident name => some (quote name)
    | .string value => some (quote value)
    | .integer value => some (toString value)
    | .real value => some (Number.realText .value value)
    | .longReal value => some (Number.realText .value value)
    | .charCode code => some (toString code.toNat)
    | _ => none
  match value? with
  | some value => lexis.label ++ "(" ++ value ++ ")"
  | none => lexis.label

def line (t : Token) : String :=
  describe t.lexis ++ " @ " ++ toString t.span.start ++ ".." ++ toString t.span.stop ++ "\n"

def lines : List Lexeme → Except (LexicalFault × Span) String
  | [] => .ok ""
  | .token t :: rest =>
    match lines rest with
    | .ok text => .ok (line t ++ text)
    | .error e => .error e
  | .fault f span :: _ => .error (f, span)

end Listing

def tokenListing (source : String) : Except (LexicalFault × Span) String :=
  match Listing.lines (scan source) with
  | .ok text => .ok (text ++ Listing.line (Token.endOf source.utf8ByteSize))
  | .error e => .error e

end Oberon
