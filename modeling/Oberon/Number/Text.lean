import Oberon.Number.Shortest

/-!
# Oberon.Number.Text

Texts of reals and integers. Which reals are written positionally and whether a whole real
keeps a fraction digit are decisions of a `RealLayout`; the digits are always the shortest ones.
-/

namespace Oberon
namespace Number

structure RealLayout where
  /-- Is a real with this exponent of its leading digit written without an exponent part? -/
  positional : Int → Bool
  wholeSuffix : String

/-- Values: positional from `1e-4` up to below `1e16`, always with a fraction digit. -/
def RealLayout.value : RealLayout := ⟨fun e => -5 < e && e < 16, ".0"⟩

/-- Tokens: never an exponent part, no fraction digit unless it is needed. -/
def RealLayout.plain : RealLayout := ⟨fun _ => true, ""⟩

def zeros (n : Nat) : String := String.ofList (List.replicate n '0')

def trimZeros (digits : List Char) : List Char :=
  (digits.reverse.dropWhile (· == '0')).reverse

/-- Text of the positive number `0.d1d2… * 10 ^ point` given by its digits. -/
def positionalText (layout : RealLayout) (digits : List Char) (point : Int) : String :=
  if point ≤ 0 then "0." ++ zeros (-point).toNat ++ String.ofList digits
  else if (digits.length : Int) ≤ point then
    String.ofList digits ++ zeros (point - digits.length).toNat ++ layout.wholeSuffix
  else
    String.ofList (digits.take point.toNat) ++ "." ++ String.ofList (digits.drop point.toNat)

/-- One leading digit, the others behind a point, and the exponent of the leading digit. -/
def scientificText (digits : List Char) (exponent : Int) : String :=
  let fraction := digits.drop 1
  let behind := if fraction.isEmpty then "" else "." ++ String.ofList fraction
  String.ofList (digits.take 1) ++ behind ++ "e" ++ toString exponent

def realText (layout : RealLayout) (x : Float) : String :=
  let bits := x.toBits.toNat
  let magnitude := bits % 0x8000000000000000
  if x.isNaN then "NaN"
  else
    let sign := if bits < 0x8000000000000000 then "" else "-"
    if magnitude = 0x7ff0000000000000 then sign ++ "inf"
    else if magnitude = 0 then sign ++ "0" ++ layout.wholeSuffix
    else
      let (n, p) := shortest magnitude
      let all := Nat.toDigits 10 n
      let digits := trimZeros all
      let point : Int := p + all.length
      sign ++ (if layout.positional (point - 1) then positionalText layout digits point
        else scientificText digits (point - 1))

def hexText (n : Nat) : String := (String.ofList (Nat.toDigits 16 n)).toUpper

end Number
end Oberon
