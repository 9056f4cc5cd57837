/-!
# Oberon.Builtin

The predefined procedures.
-/

namespace Oberon

inductive Builtin where
  | new | free | inc | dec | incl | excl | abs | odd | lsl | asr | ror | floor | flt | ord | chr
  | cap | len | halt | assert | size | max | min | long | short | copy | pack | unpk
deriving DecidableEq

namespace Builtin

def all : List Builtin :=
  [new, free, inc, dec, incl, excl, abs, odd, lsl, asr, ror, floor, flt, ord, chr,
    cap, len, halt, assert, size, max, min, long, short, copy, pack, unpk]

def name : Builtin → String
  | new => "NEW"
  | free => "FREE"
  | inc => "INC"
  | dec => "DEC"
  | incl => "INCL"
  | excl => "EXCL"
  | abs => "ABS"
  | odd => "ODD"
  | lsl => "LSL"
  | asr => "ASR"
  | ror => "ROR"
  | floor => "FLOOR"
  | flt => "FLT"
  | ord => "ORD"
  | chr => "CHR"
  | cap => "CAP"
  | len => "LEN"
  | halt => "HALT"
  | assert => "ASSERT"
  | size => "SIZE"
  | max => "MAX"
  | min => "MIN"
  | long => "LONG"
  | short => "SHORT"
  | copy => "COPY"
  | pack => "PACK"
  | unpk => "UNPK"

end Builtin
end Oberon
