import Oberon.Proofs.Covering

/-!
# Oberon.Proofs.Spelling

Which texts spell a sequence of tokens. Blanks and comments may stand anywhere between tokens, and a
token ends where the next character could not go on with it. Scanning such a text yields the tokens and
no faults.
-/

namespace Oberon

open Bool List Scan

variable {cs : List Char}

/-- May the character directly follow the symbol? If not, both belong to a longer symbol or open a
comment. -/
def Symbol.endsBefore : Symbol → Char → Bool
  | .colon, c | .lt, c | .gt, c => c != '='
  | .dot, c | .dotDot, c => c != '.'
  | .leftParen, c => c != '*'
  | _, _ => true

namespace Scan

/-- The text spells the tokens, each up to a character that cannot belong to it. -/
inductive Spells : List Lexis → List Char → Prop
  | nil : Spells [] []
  | blank {ls : List Lexis} {c : Char} {cs : List Char} (hc : isBlank c = true) (h : Spells ls cs) :
      Spells ls (c :: cs)
  | comment {ls : List Lexis} {cs : List Char} {n : Nat} (hn : closeComment 0 cs = some n)
      (h : Spells ls (cs.drop n)) : Spells ls ('(' :: '*' :: cs)
  | symbol {ls : List Lexis} {cs : List Char} (mark : Symbol)
      (hend : ∀ c ∈ cs.head?, mark.endsBefore c = true) (h : Spells ls cs) :
      Spells (.symbol mark :: ls) (mark.text.toList ++ cs)
  | keyword {ls : List Lexis} {cs : List Char} (word : Keyword)
      (hend : ∀ c ∈ cs.head?, isIdentChar c = false) (h : Spells ls cs) :
      Spells (.keyword word :: ls) (word.text.toList ++ cs)
  | ident {ls : List Lexis} {cs : List Char} (c : Char) (name : List Char) (hc : isLetter c = true)
      (hname : ∀ c ∈ name, isIdentChar c = true)
      (hword : Keyword.ofText? (String.ofList (c :: name)) = none)
      (hend : ∀ c ∈ cs.head?, isIdentChar c = false) (h : Spells ls cs) :
      Spells (.ident (String.ofList (c :: name)) :: ls) (c :: name ++ cs)
  | number {ls : List Lexis} {cs : List Char} (digits : List Char) (hne : digits ≠ [])
      (hdigits : ∀ c ∈ digits, isDigit c = true) (hvalue : valueOf 10 digits < 0x8000000000000000)
      (hend : ∀ c ∈ cs.head?, isHexDigit c = false ∧ c ≠ 'H' ∧ c ≠ 'X' ∧ c ≠ '.')
      (h : Spells ls cs) : Spells (.integer (valueOf 10 digits) :: ls) (digits ++ cs)

/-- Only the first character behind a token matters. -/
lemma ends_of_head {p : Char → Prop} (h : p c) : ∀ x ∈ (c :: cs).head?, p x := by
  intro x hx
  cases hx
  exact h

/-! ## Steps of the scan -/

lemma takeWhile_append_of_head (hxs : ∀ c ∈ xs, p c) (hend : ∀ c ∈ cs.head?, p c = false) :
    (xs ++ cs).takeWhile p = xs := by
  rw [takeWhile_append_of_pos hxs]
  cases cs with
  | nil => simp
  | cons c cs => simp [hend c rfl]

lemma dropWhile_append_of_head (hxs : ∀ c ∈ xs, p c) (hend : ∀ c ∈ cs.head?, p c = false) :
    (xs ++ cs).dropWhile p = cs := by
  rw [dropWhile_append_of_pos hxs]
  cases cs with
  | nil => rfl
  | cons c cs => simp [hend c rfl]

lemma number_append (hdigits : ∀ c ∈ digits, isDigit c)
    (hend : ∀ c ∈ cs.head?, isHexDigit c = false ∧ c ≠ 'H' ∧ c ≠ 'X' ∧ c ≠ '.') :
    number (digits ++ cs) = ⟨if valueOf 10 digits < 0x8000000000000000 then
      .token (.integer (valueOf 10 digits)) else numberFault digits, digits.length⟩ := by
  have hhex (c) (hc : c ∈ digits) : isHexDigit c := by simp [isHexDigit, hdigits c hc]
  have hall : (!digits.all isDigit) = false := by simpa using hdigits
  unfold number
  rw [takeWhile_append_of_head hhex fun c hc => (hend c hc).1,
    dropWhile_append_of_head hhex fun c hc => (hend c hc).1, apply_ite (Step.mk · digits.length)]
  cases cs with
  | nil => simp only [hall, false_eq_true, if_false]
  | cons c cs =>
    obtain ⟨_, hH, hX, hdot⟩ := hend c rfl
    split
    · next h => exact absurd (cons.inj h).1 hH
    · next h => exact absurd (cons.inj h).1 hX
    · simp only [hall, false_eq_true, if_false]
      split
      · next h => exact absurd (cons.inj h).1 hdot
      · rfl

lemma word_append (hletters : ∀ c ∈ letters, isIdentChar c)
    (hend : ∀ c ∈ cs.head?, isIdentChar c = false)
    (hlexis : (Keyword.ofText? (String.ofList letters)).elim (.ident (String.ofList letters))
     .keyword = lexis) : word (letters ++ cs) = ⟨.token lexis, letters.length⟩ := by
  subst hlexis
  simp only [word, takeWhile_append_of_head hletters hend]
  cases Keyword.ofText? (String.ofList letters) <;> rfl

lemma keyword_text (word : Keyword) : (∃ c cs, word.text.toList = c :: cs ∧ isLetter c) ∧
    (∀ c ∈ word.text.toList, isIdentChar c) ∧ Keyword.ofText? word.text = some word := by
  cases word <;> exact ⟨⟨_, _, rfl, rfl⟩, all_eq_true.1 rfl, by decide⟩

lemma isBlank_of_isDigit (h : isDigit c) : isBlank c = false := by
  refine eq_false_iff.2 fun hb => ?_
  simp only [isBlank, or_eq_true, beq_iff_eq] at hb
  rcases hb with (((rfl | rfl) | rfl) | rfl) | rfl <;> cases h

lemma isBlank_of_isLetter (h : isLetter c) : isBlank c = false ∧ isDigit c = false := by
  refine ⟨eq_false_iff.2 fun hb => ?_, eq_false_iff.2 fun hd => ?_⟩
  · simp only [isBlank, or_eq_true, beq_iff_eq] at hb
    rcases hb with (((rfl | rfl) | rfl) | rfl) | rfl <;> cases h
  · simp only [isLetter, isDigit, or_eq_true, and_eq_true, decide_eq_true_eq] at h hd
    rcases h with h | h
    iterate 2
      · exact absurd (Char.le_trans h.1 hd.2) (by decide)

lemma step_of_isDigit (h : isDigit c) (cs) : step c cs = number (c :: cs) := by
  unfold step
  rw [if_neg (by simp [isBlank_of_isDigit h]), if_pos h]

lemma step_of_isLetter (h : isLetter c) (cs) : step c cs = word (c :: cs) := by
  obtain ⟨hblank, hdigit⟩ := isBlank_of_isLetter h
  unfold step
  rw [if_neg (by simp [hblank]), if_neg (by simp [hdigit]), if_pos h]

/-- A symbol is read up to a character that cannot go on with it. -/
lemma step_symbol (mark : Symbol) : ∃ c more, mark.text.toList = c :: more ∧ ∀ cs : List Char,
    (∀ c ∈ cs.head?, mark.endsBefore c) → step c (more ++ cs) =
    ⟨.token (.symbol mark), more.length + 1⟩ := by
  have hends {P : List Char → Prop} (d : Char) (hnil : P []) (hcons : ∀ c cs, c ≠ d → P (c :: cs)) (cs)
      (hend : ∀ c ∈ cs.head?, (c != d)) : P cs := by
    cases cs with
    | nil => exact hnil
    | cons c cs => exact hcons c cs (by simpa using hend c rfl)
  cases mark with
  | lt =>
    refine ⟨'<', [], rfl, hends '=' rfl fun c cs hc => ?_⟩
    simp [step, isBlank, isDigit, isLetter, mark, hc]
  | gt =>
    refine ⟨'>', [], rfl, hends '=' rfl fun c cs hc => ?_⟩
    simp [step, isBlank, isDigit, isLetter, mark, hc]
  | colon =>
    refine ⟨':', [], rfl, hends '=' rfl fun c cs hc => ?_⟩
    simp [step, isBlank, isDigit, isLetter, mark, hc]
  | dot =>
    refine ⟨'.', [], rfl, hends '.' rfl fun c cs hc => ?_⟩
    simp [step, isBlank, isDigit, isLetter, mark, hc]
  | dotDot =>
    refine ⟨'.', ['.'], rfl, hends '.' rfl fun c cs hc => ?_⟩
    simp [step, isBlank, isDigit, isLetter, mark, hc]
  | leftParen =>
    refine ⟨'(', [], rfl, hends '*' rfl fun c cs hc => ?_⟩
    simp [step, isBlank, isDigit, isLetter, mark, hc]
  | _ => exact ⟨_, _, rfl, fun cs hend => rfl⟩

/-! ## Whole texts -/

lemma lexemes_blank (h : step c cs = ⟨.blank, n + 1⟩) (pos) : ∃ pos', lexemes 0 pos (c :: cs) =
    lexemes 0 pos' (cs.drop n) := ⟨_, by rw [lexemes_cons, h]; rfl⟩

lemma lexemes_token (h : step c (more ++ cs) = ⟨.token lexis, more.length + 1⟩) (pos) :
    ∃ span pos', lexemes 0 pos (c :: more ++ cs) = .token ⟨lexis, span⟩ :: lexemes 0 pos' cs :=
  ⟨_, _, by rw [List.cons_append, lexemes_cons, h, List.drop_succ_cons, List.drop_left]; rfl⟩

/-- Scanning a text yields the tokens that it spells. -/
lemma Spells.lexemes (h : Spells ls cs) : ∀ pos, ∃ ts : List Token, lexemes 0 pos cs =
    ts.map .token ∧ ts.map Token.lexis = ls := by
  have htoken {c more cs lexis ls}
      (hstep : step c (more ++ cs) = ⟨.token lexis, more.length + 1⟩)
      (ih : ∀ pos, ∃ ts : List Token, Scan.lexemes 0 pos cs = ts.map .token ∧
        ts.map Token.lexis = ls) (pos : Nat) :
      ∃ ts : List Token, Scan.lexemes 0 pos (c :: more ++ cs) = ts.map .token ∧
        ts.map Token.lexis = lexis :: ls := by
    obtain ⟨span, pos', hlex⟩ := lexemes_token hstep pos
    obtain ⟨ts, hts, rfl⟩ := ih pos'
    exact ⟨⟨lexis, span⟩ :: ts, by rw [hlex, hts, map_cons], rfl⟩
  induction h with
  | nil => exact fun pos => ⟨[], rfl, rfl⟩
  | @blank ls c cs hc h ih =>
    intro pos
    obtain ⟨pos', hlex⟩ := lexemes_blank (n := 0) (show step c cs = ⟨.blank, 1⟩ by simp [step, hc]) pos
    rw [hlex]
    exact ih pos'
  | @comment ls cs n hn h ih =>
    intro pos
    have hstep : step '(' ('*' :: cs) = ⟨.blank, n + 1 + 1⟩ := by
      show Scan.comment cs = _
      rw [Scan.comment, hn]
    obtain ⟨pos', hlex⟩ := lexemes_blank hstep pos
    rw [hlex]
    exact ih pos'
  | symbol mark hend h ih =>
    obtain ⟨c, more, htext, hstep⟩ := step_symbol mark
    rw [htext]
    exact htoken (hstep _ hend) ih
  | keyword word hend h ih =>
    obtain ⟨⟨c, more, htext, hc⟩, hall, hof⟩ := keyword_text word
    rw [htext] at hall ⊢
    refine htoken ((step_of_isLetter hc _).trans (word_append hall hend ?_)) ih
    rw [← htext, String.ofList_toList, hof]
    rfl
  | ident c name hc hname hword hend h ih =>
    have hall : ∀ x ∈ c :: name, isIdentChar x :=
      forall_mem_cons.2 ⟨by simp [isIdentChar, hc], hname⟩
    refine htoken ((step_of_isLetter hc _).trans (word_append hall hend ?_)) ih
    rw [hword]
    rfl
  | @number ls digits cs hne hdigits hvalue hend h ih =>
    obtain ⟨c, more, rfl⟩ := exists_cons_of_ne_nil hne
    have hc := hdigits c mem_cons_self
    refine htoken ((step_of_isDigit hc _).trans ((number_append hdigits hend).trans ?_)) ih
    rw [if_pos hvalue]
    rfl

end Scan
end Oberon
