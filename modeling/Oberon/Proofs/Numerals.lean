import Mathlib.Data.Nat.Digits.Defs
import Oberon.Proofs.Spelling

/-!
# Oberon.Proofs.Numerals

What a numeral stands for. Its digits weigh the powers of the base, counted from the right, so zeros in
front do not matter however many they are. A value that is too large for its kind of token makes the
whole numeral a fault.
-/

namespace Oberon

open List

namespace Scan

/-- The digits in the order of their values. -/
def digitChars : List Char := "0123456789ABCDEF".toList

/-- The number that digits stand for. -/
def numeral (base : Nat) (digits : List Char) : Nat :=
  Nat.ofDigits base (digits.reverse.map digitChars.idxOf)

/-- The lexeme over a numeral that starts at byte `pos`: a token if the value fits, else a fault. -/
def numeralAt (pos : Nat) (text : List Char) (lexis : Lexis) (fits : Bool) : Lexeme :=
  let span : Span := ⟨pos, pos + text.length⟩
  if fits then .token ⟨lexis, span⟩ else .fault (.badNumber (String.ofList text)) span

lemma hexDigit_spec (h : isHexDigit c) : c.utf8Size = 1 ∧ digitValue c = digitChars.idxOf c := by
  have hlt : c.toNat < 128 := by
    simp only [isHexDigit, isDigit, Bool.or_eq_true, Bool.and_eq_true, decide_eq_true_eq] at h
    rcases h with h | h <;> exact Nat.lt_of_le_of_lt (UInt32.le_iff_toNat_le.1 h.2) (by decide)
  have hascii : ∀ n : Fin 128, isHexDigit (Char.ofNat n) →
      (Char.ofNat n).utf8Size = 1 ∧ digitValue (Char.ofNat n) = digitChars.idxOf (Char.ofNat n) := by
    decide
  rw [← Char.ofNat_toNat c] at h ⊢
  exact hascii ⟨c.toNat, hlt⟩ h

/-- Reading digits from the left gives each its weight from the right. -/
lemma valueOf_eq_numeral (base : Nat) (hds : ∀ c ∈ ds, isHexDigit c) :
    valueOf base ds = numeral base ds := by
  rw [valueOf, numeral, foldl_eq_foldr_reverse]
  have hrev : ∀ c ∈ ds.reverse, isHexDigit c := fun c hc => hds c (mem_reverse.1 hc)
  generalize ds.reverse = rs at hrev
  induction rs with
  | nil => rfl
  | cons c rs ih =>
    rw [forall_mem_cons] at hrev
    rw [foldr_cons, map_cons, Nat.ofDigits_cons, ih hrev.2, (hexDigit_spec hrev.1).2, Nat.mul_comm,
      Nat.add_comm]

lemma signed64_eq_toInt (h : n < 0x10000000000000000) :
    signed64 n = (BitVec.ofNat 64 n).toInt := by
  rw [BitVec.toInt_eq_toNat_cond, BitVec.toNat_ofNat, Nat.mod_eq_of_lt h, signed64]
  split <;> split <;> omega

lemma utf8Len_of_ascii (h : ∀ c ∈ text, c.utf8Size = 1) : String.utf8Len text = text.length := by
  induction text with
  | nil => rfl
  | cons c text ih =>
    rw [forall_mem_cons] at h
    rw [String.utf8Len_cons, h.1, ih h.2, length_cons]

/-- A step over a numeral yields its lexeme, and the scan goes on behind it. -/
lemma lexemes_numeral {fits : Prop} [Decidable fits] (hd : isDigit d)
    (hascii : ∀ c ∈ d :: more, c.utf8Size = 1) (h : number (d :: more ++ rest) =
      ⟨if fits then .token lexis else numberFault (d :: more), (d :: more).length⟩) (pos) :
    lexemes 0 pos (d :: more ++ rest) = numeralAt pos (d :: more) lexis fits ::
      lexemes 0 (pos + (d :: more).length) rest := by
  have hstep := (step_of_isDigit hd (more ++ rest)).trans h
  rw [cons_append, lexemes_cons, hstep, ← cons_append, take_left, drop_left, utf8Len_of_ascii hascii]
  simp only [numeralAt, decide_eq_true_eq]
  split <;> rfl

/-- Hexadecimal digits and the letter behind them are one numeral. -/
lemma number_hex (hds : ∀ c ∈ ds, isHexDigit c) (rest : List Char) :
    number (ds ++ ['H'] ++ rest) = ⟨if valueOf 16 ds < 0x10000000000000000 then
      .token (.integer (signed64 (valueOf 16 ds))) else numberFault (ds ++ ['H']), ds.length + 1⟩ ∧
    number (ds ++ ['X'] ++ rest) = ⟨if valueOf 16 ds < 256 then
      .token (.charCode (valueOf 16 ds).toUInt8) else numberFault (ds ++ ['X']), ds.length + 1⟩ := by
  rw [← append_cons, ← append_cons]
  unfold number
  constructor
  all_goals
    rw [takeWhile_append_of_head hds (ends_of_head rfl), dropWhile_append_of_head hds (ends_of_head rfl),
      apply_ite (Step.mk · _)]
    rfl

/-- Numerals have the values of their digits. Decimal digits that nothing goes on with are an integer
below `2 ^ 63`. Behind a first decimal digit and hexadecimal ones, `H` makes an integer of 64 bits in
two's complement and `X` a character code. A value that does not fit makes the whole numeral a fault. -/
theorem numerals_valued (pos : Nat) (d : Char) (ds rest : List Char) (hd : isDigit d = true) :
    ((∀ c ∈ ds, isDigit c = true) →
      (∀ c ∈ rest.head?, isHexDigit c = false ∧ c ≠ 'H' ∧ c ≠ 'X' ∧ c ≠ '.') →
      lexemes 0 pos (d :: ds ++ rest) =
        numeralAt pos (d :: ds) (.integer (numeral 10 (d :: ds)))
          (numeral 10 (d :: ds) < 0x8000000000000000) :: lexemes 0 (pos + (d :: ds).length) rest) ∧
    ((∀ c ∈ ds, isHexDigit c = true) →
      lexemes 0 pos (d :: ds ++ ['H'] ++ rest) =
        numeralAt pos (d :: ds ++ ['H']) (.integer (BitVec.ofNat 64 (numeral 16 (d :: ds))).toInt)
          (numeral 16 (d :: ds) < 0x10000000000000000) ::
          lexemes 0 (pos + (d :: ds ++ ['H']).length) rest ∧
      lexemes 0 pos (d :: ds ++ ['X'] ++ rest) =
        numeralAt pos (d :: ds ++ ['X']) (.charCode (.ofNat (numeral 16 (d :: ds))))
          (numeral 16 (d :: ds) < 256) :: lexemes 0 (pos + (d :: ds ++ ['X']).length) rest) := by
  have hhex_of_digit (c) (hc : isDigit c) : isHexDigit c := by simp [isHexDigit, hc]
  refine ⟨fun hds hend => ?_, fun hds => ?_⟩
  · have hdigits : ∀ c ∈ d :: ds, isDigit c := forall_mem_cons.2 ⟨hd, hds⟩
    have hhex (c) (hc : c ∈ d :: ds) := hhex_of_digit c (hdigits c hc)
    rw [← valueOf_eq_numeral 10 hhex]
    exact lexemes_numeral hd (fun c hc => (hexDigit_spec (hhex c hc)).1) (number_append hdigits hend) pos
  · have hhex : ∀ c ∈ d :: ds, isHexDigit c := forall_mem_cons.2 ⟨hhex_of_digit d hd, hds⟩
    have hascii (l : Char) (hl : l.utf8Size = 1) : ∀ c ∈ d :: ds ++ [l], c.utf8Size = 1 :=
      forall_mem_append.2 ⟨fun c hc => (hexDigit_spec (hhex c hc)).1, forall_mem_singleton.2 hl⟩
    obtain ⟨hH, hX⟩ := number_hex hhex rest
    rw [valueOf_eq_numeral 16 hhex] at hH hX
    refine ⟨lexemes_numeral hd (hascii 'H' rfl) (hH.trans ?_) pos,
      lexemes_numeral hd (hascii 'X' rfl) (hX.trans ?_) pos⟩
    · congr 1
      · split
        · next hlt => rw [signed64_eq_toInt hlt]
        · rfl
      · simp
    · simp

/-- The same digits with each ending. -/
theorem numerals_valued_zero : isDigit '0' = true ∧
    lexemes 0 2 ['0', '4', '1', ';'] = .token ⟨.integer 41, ⟨2, 5⟩⟩ :: lexemes 0 5 [';'] ∧
    lexemes 0 2 ['0', '4', '1', 'H', ';'] = .token ⟨.integer 65, ⟨2, 6⟩⟩ :: lexemes 0 6 [';'] ∧
    lexemes 0 2 ['0', '4', '1', 'X', ';'] = .token ⟨.charCode 65, ⟨2, 6⟩⟩ :: lexemes 0 6 [';'] := by
  obtain ⟨hdecimal, hhex⟩ := numerals_valued 2 '0' ['4', '1'] [';'] rfl
  obtain ⟨hH, hX⟩ := hhex (all_eq_true.1 rfl)
  exact ⟨rfl, hdecimal (all_eq_true.1 rfl) (ends_of_head (by decide)), hH, hX⟩

end Scan
end Oberon
