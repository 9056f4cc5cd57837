import Mathlib.Data.String.Basic
import Oberon.Token.Lookahead

/-!
# Oberon.Proofs.Covering

Scanning covers the source. Each step of the scan takes at least one character and at most what is
left; what it takes without a lexeme is white space or a complete comment. So the spans of the
lexemes follow one another, and all that stands between them is blank.
-/

namespace Oberon

open List Option

variable {c : Char}
namespace Scan

open String (utf8Len utf8Len_cons)

lemma byteCount_eq_utf8Len (cs) : byteCount cs = utf8Len cs := by
  suffices h : ∀ n, cs.foldl (fun n c => n + c.utf8Size) n = n + utf8Len cs by
    rw [byteCount, h, Nat.zero_add]
  induction cs with
  | nil => intro n; rfl
  | cons c cs ih =>
    intro n
    rw [foldl_cons, ih, utf8Len_cons]
    omega

/-! ## Blank text -/

/-- Does a text begin with a delimiter of comments? -/
def isDelimited : List Char → Bool
  | '(' :: '*' :: _ => true
  | '*' :: ')' :: _ => true
  | _ => false

/-- What follows the `(*` of a comment, up to and including its own `*)`. -/
inductive Closing : List Char → Prop where
  | close : Closing ['*', ')']
  | nest {inner rest : List Char} (hinner : Closing inner) (hrest : Closing rest) :
      Closing ('(' :: '*' :: inner ++ rest)
  | char {c : Char} (hc : isDelimited (c :: rest) = false)
      (hrest : Closing rest) : Closing (c :: rest)

/-- White space and complete comments. -/
inductive Blank : List Char → Prop where
  | nil : Blank []
  | space {c : Char} (hc : isBlank c = true) (hrest : Blank rest) :
      Blank (c :: rest)
  | comment {body rest : List Char} (hbody : Closing body) (hrest : Blank rest) :
      Blank ('(' :: '*' :: body ++ rest)

lemma Blank.append (h : Blank cs) (h' : Blank cs') : Blank (cs ++ cs') := by
  induction h with
  | nil => exact h'
  | space hc _ ih => exact .space hc ih
  | comment hbody _ ih =>
    simp only [cons_append, append_assoc]
    exact .comment hbody ih

/-- The ends of several comments, the innermost first. -/
def Closings : Nat → List Char → Prop
  | 0, cs => cs = []
  | n + 1, cs => ∃ inner rest, cs = inner ++ rest ∧ Closing inner ∧ Closings n rest

lemma isDelimited_mono (hp : cs <+: cs') (h : isDelimited (c :: cs') = false) :
    isDelimited (c :: cs) = false := by
  obtain ⟨rest, rfl⟩ := hp
  cases cs with
  | nil => unfold isDelimited; split <;> simp_all
  | cons d cs => unfold isDelimited at h ⊢; split <;> simp_all

lemma not_isDelimited (hopen : ∀ rest, c = '(' → cs = '*' :: rest → False)
    (hclose : ∀ rest, c = '*' → cs = ')' :: rest → False) : isDelimited (c :: cs) = false := by
  unfold isDelimited
  split
  · rename_i heq
    cases heq
    exact (hopen _ rfl rfl).elim
  · rename_i heq
    cases heq
    exact (hclose _ rfl rfl).elim
  · rfl

/-- The number that `closeComment` finds is that of the characters that close as many comments. -/
lemma closings_of_closeComment (h : closeComment depth cs = some n) : n ≤ cs.length ∧
    Closings (depth + 1) (cs.take n) := by
  fun_induction closeComment depth cs generalizing n with
  | case1 => cases h
  | case2 depth cs ih =>
    obtain ⟨k, hk, rfl⟩ := map_eq_some_iff.1 h
    obtain ⟨hle, inner, rest, htake, hinner, outer, rest', rfl, houter, hrest⟩ := ih hk
    refine ⟨by simpa using hle, '(' :: '*' :: inner ++ outer, rest', ?_, .nest hinner houter, hrest⟩
    simp [htake]
  | case3 cs =>
    cases h
    exact ⟨by simp, ['*', ')'], [], by simp, .close, rfl⟩
  | case4 cs outer ih =>
    obtain ⟨k, hk, rfl⟩ := map_eq_some_iff.1 h
    obtain ⟨hle, hrest⟩ := ih hk
    exact ⟨by simpa using hle, ['*', ')'], cs.take k, by simp, .close, hrest⟩
  | case5 depth c cs hopen hclose ih =>
    obtain ⟨k, hk, rfl⟩ := map_eq_some_iff.1 h
    obtain ⟨hle, inner, rest, htake, hinner, hrest⟩ := ih hk
    have hinit : inner <+: cs := (htake ▸ prefix_append _ _).trans ( take_prefix _ _)
    exact ⟨by simpa using hle, c :: inner, rest, by simp [htake],
      .char (isDelimited_mono hinit (not_isDelimited hopen hclose)) hinner, hrest⟩

/-! ## One step -/

/-- A step takes some of the text `cs`, and a blank one takes blank text. -/
structure Step.Fits (s : Step) (cs : List Char) : Prop where
  pos : 0 < s.size
  le : s.size ≤ cs.length
  blank : s.reading = .blank → Blank (cs.take s.size)
  ne_eof : s.reading ≠ .token .eof

section

variable {size : Nat}

lemma Step.Fits.token (hpos : 0 < size) (hle : size ≤ cs.length) (hl : lexis ≠ .eof) :
    Step.Fits ⟨.token lexis, size⟩ cs where
  pos := hpos
  le := hle
  blank h := by cases h
  ne_eof h := hl (Reading.token.inj h)

lemma Step.Fits.fault {fault : LexicalFault} (hpos : 0 < size) (hle : size ≤ cs.length) :
    Step.Fits ⟨.fault fault, size⟩ cs where
  pos := hpos
  le := hle
  blank h := by cases h
  ne_eof h := by cases h

lemma Step.Fits.blanks (hpos : 0 < size) (hle : size ≤ cs.length) (h : Blank (cs.take size)) :
    Step.Fits ⟨.blank, size⟩ cs where
  pos := hpos
  le := hle
  blank _ := h
  ne_eof h := by cases h

end

lemma length_takeWhile_add_dropWhile (p) (cs : List Char) :
    (cs.takeWhile p).length + (cs.dropWhile p).length = cs.length := by
  rw [← length_append, takeWhile_append_dropWhile]

lemma length_exponent? (h : exponent? cs = some (e, n)) : n ≤ cs.length := by
  have hunsigned {cs : List Char} {r : Nat × Nat} (h : exponent?.unsigned cs = some r) :
      r.2 ≤ cs.length := by
    unfold exponent?.unsigned at h
    dsimp only at h
    split at h
    · cases h
    · cases h
      exact (takeWhile_sublist _).length_le
  unfold exponent? at h
  split at h
  all_goals
    obtain ⟨r, hr, heq⟩ := map_eq_some_iff.1 h
    have hle := hunsigned hr
    cases heq
    grind

lemma fits_real {whole fraction rest : List Char} (hwhole : 0 < whole.length)
    (hle : whole.length + 1 + fraction.length + rest.length ≤ cs.length) :
    (real whole fraction rest).Fits cs := by
  have hplain {lexis} (hl : lexis ≠ .eof) :
      Step.Fits ⟨.token lexis, whole.length + 1 + fraction.length⟩ cs :=
    .token (by omega) (by omega) hl
  unfold real
  dsimp only
  split
  all_goals try split
  all_goals try exact hplain (by simp)
  all_goals
    rename_i he
    have hexp := length_exponent? he
    rw [length_cons] at hle
    exact .token (by omega) (by omega) (by simp)

/-- A number starts with a digit. -/
lemma fits_number (cs : List Char) (hc : isDigit c) : (number (c :: cs)).Fits (c :: cs) := by
  have hhex : 0 < ((c :: cs).takeWhile isHexDigit).length := by
    rw [takeWhile_cons_of_pos (by simp [isHexDigit, hc])]
    exact Nat.succ_pos _
  have hlength := length_takeWhile_add_dropWhile isHexDigit (c :: cs)
  unfold number numberFault
  dsimp only
  split
  iterate 2
    · rename_i hdrop
      rw [hdrop, length_cons] at hlength
      split
      · exact .token (by omega) (by omega) (by simp)
      · exact .fault (by omega) (by omega)
  · split
    · exact .fault hhex (by omega)
    · have hwhole : Step.Fits (if valueOf 10 ((c :: cs).takeWhile isHexDigit) < 0x8000000000000000
          then ⟨.token (.integer (valueOf 10 ((c :: cs).takeWhile isHexDigit))),
            ((c :: cs).takeWhile isHexDigit).length⟩
          else ⟨.fault (.badNumber (String.ofList ((c :: cs).takeWhile isHexDigit))),
            ((c :: cs).takeWhile isHexDigit).length⟩) (c :: cs) := by
        split
        · exact .token hhex (by omega) (by simp)
        · exact .fault hhex (by omega)
      split
      · rename_i behind hdot
        rw [hdot, length_cons] at hlength
        split
        · exact hwhole
        · refine fits_real hhex ?_
          have := length_takeWhile_add_dropWhile isDigit behind
          omega
      · exact hwhole

lemma fits_word (cs) (hc : isLetter c) : (word (c :: cs)).Fits (c :: cs) := by
  refine .token ?_ (takeWhile_sublist _).length_le ?_
  · rw [takeWhile_cons_of_pos (by simp [isIdentChar, hc])]
    exact Nat.succ_pos _
  · split <;> simp

lemma fits_quoted (quote : Char) (cs) : (quoted quote cs).Fits (quote :: cs) := by
  unfold quoted
  dsimp only
  split
  · rename_i hlt
    exact .token (by omega) (by rw [length_cons]; omega) (by simp)
  · exact .fault (Nat.succ_pos _) (Nat.le_refl _)

lemma fits_comment (cs : List Char) : (comment cs).Fits ('(' :: '*' :: cs) := by
  unfold comment
  split
  · rename_i n hn
    obtain ⟨hle, inner, rest, htake, hinner, rfl⟩ := closings_of_closeComment hn
    refine .blanks (by omega) (by simpa using hle) ?_
    have hblank := Blank.comment hinner .nil
    simpa [htake] using hblank
  · exact .fault (Nat.succ_pos _) (Nat.le_refl _)

/-- What one step of the scan can do. -/
lemma fits_step (c : Char) (cs) : (step c cs).Fits (c :: cs) := by
  unfold step mark
  split
  · rename_i hc
    exact .blanks Nat.one_pos (by simp) (.space hc .nil)
  · split
    · exact fits_number cs ‹_›
    · split
      · exact fits_word cs ‹_›
      · split
        · exact fits_comment _
        · exact fits_quoted _ _
        · exact fits_quoted _ _
        all_goals first
          | exact .token (by omega) (by simp) (by simp)
          | exact .fault Nat.one_pos (by simp)

/-! ## All steps -/

/-- The lexeme that a step yields over a span, if any. -/
def Reading.lexemes (span : Span) : Reading → List Lexeme
  | .blank => []
  | .token lexis => [.token ⟨lexis, span⟩]
  | .fault f => [.fault f span]

lemma lexemes_drop (cs) : ∀ n pos, lexemes n pos cs =
    lexemes 0 (pos + utf8Len (cs.take n)) (cs.drop n) := by
  induction cs with
  | nil => intro n pos; simp [lexemes]
  | cons c cs ih =>
    intro n pos
    cases n with
    | zero => rfl
    | succ n =>
      rw [take_succ_cons, drop_succ_cons, utf8Len_cons, lexemes, ih]
      congr 1
      omega

/-- A text is scanned by one step and from where it ends. -/
lemma lexemes_cons (c : Char) (cs : List Char) (pos : Nat) :
    let taken := (c :: cs).take (step c cs).size
    lexemes 0 pos (c :: cs) =
      (step c cs).reading.lexemes ⟨pos, pos + utf8Len taken⟩ ++
        lexemes 0 (pos + utf8Len taken) ((c :: cs).drop (step c cs).size) := by
  obtain ⟨k, hk⟩ := Nat.exists_eq_succ_of_ne_zero (Nat.ne_of_gt (fits_step c cs).pos)
  have hrest : lexemes k (pos + c.utf8Size) cs =
      lexemes 0 (pos + utf8Len ((c :: cs).take (step c cs).size))
        ((c :: cs).drop (step c cs).size) := by
    rw [lexemes_drop, hk, take_succ_cons, drop_succ_cons, utf8Len_cons]
    congr 1
    omega
  rw [lexemes]
  have hsize : (step c cs).size - 1 = k := by omega
  simp only [byteCount_eq_utf8Len, hsize, hrest]
  cases (step c cs).reading <;> rfl

/-- What holds of the empty text, and of every other one if it holds of what the first step leaves,
holds of all texts. -/
lemma stepwise {motive : Nat → List Char → Prop} (nil : ∀ pos, motive pos [])
    (cons : ∀ pos c cs, motive (pos + utf8Len ((c :: cs).take (step c cs).size)) ((c :: cs).drop
     (step c cs).size) → motive pos (c :: cs)) (pos cs) : motive pos cs := by
  induction hn : cs.length using Nat.strongRecOn generalizing pos cs with
  | ind n ih =>
    cases cs with
    | nil => exact nil pos
    | cons c cs =>
      refine cons pos c cs (ih _ ?_ _ _ rfl)
      have hpos := (fits_step c cs).pos
      rw [length_drop, ← hn, length_cons]
      omega

/-- Lexemes over the text `cs` behind `pre`: each stands for a part that is not empty, and the text
before, between and behind them is blank. -/
inductive Tiles : (pre cs : List Char) → List Lexeme → Prop where
  | blank {pre gap : List Char} (hgap : Blank gap) : Tiles pre gap []
  | lexeme {pre gap text rest : List Char} {l : Lexeme} {ls : List Lexeme}
      (hgap : Blank gap) (htext : text ≠ [])
      (hspan : l.span = ⟨utf8Len (pre ++ gap), utf8Len (pre ++ gap) + utf8Len text⟩)
      (hrest : Tiles (pre ++ gap ++ text) rest ls) : Tiles pre (gap ++ (text ++ rest)) (l :: ls)

lemma Tiles.prepend (hgap : Blank gap) (h : Tiles (pre ++ gap) cs ls) :
    Tiles pre (gap ++ cs) ls := by
  cases h with
  | blank hgap' => exact .blank (hgap.append hgap')
  | @lexeme _ gap' text rest l ls hgap' htext hspan hrest =>
    rw [append_assoc pre gap gap'] at hspan hrest
    rw [← append_assoc]
    exact .lexeme (hgap.append hgap') htext hspan hrest

lemma tiles_lexemes (pos : Nat) (cs) : ∀ pre, pos = utf8Len pre →
    Tiles pre cs (lexemes 0 pos cs) := by
  induction pos, cs using stepwise with
  | nil pos => exact fun _ _ => .blank .nil
  | cons pos c cs ih =>
    rintro pre rfl
    have hfits := fits_step c cs
    have htaken : (c :: cs).take (step c cs).size ≠ [] := by simp [Nat.ne_of_gt hfits.pos]
    have ih := ih (pre ++ (c :: cs).take (step c cs).size) (String.utf8Len_append _ _).symm
    rw [lexemes_cons]
    generalize hcs : (c :: cs).take (step c cs).size = taken at *
    generalize hrest : (c :: cs).drop (step c cs).size = rest at *
    rw [← take_append_drop (step c cs).size (c :: cs), hcs, hrest]
    have hlexeme {l : Lexeme} (hl : l.span = ⟨utf8Len pre, utf8Len pre + utf8Len taken⟩) :
        Tiles pre (taken ++ rest) (l :: lexemes 0 (utf8Len pre + utf8Len taken) rest) :=
      @Tiles.lexeme pre [] taken rest l _ .nil htaken (by rw [append_nil, hl])
        (by rw [append_nil]; exact ih)
    cases hr : (step c cs).reading with
    | blank => exact .prepend (hcs ▸ hfits.blank hr) ih
    | token lexis | fault f => exact hlexeme rfl

lemma token_ne_eof {t : Token} (h : .token t ∈ lexemes 0 pos cs) : t.lexis ≠ .eof := by
  induction pos, cs using stepwise with
  | nil pos => cases h
  | cons pos c cs ih =>
    have hne := (fits_step c cs).ne_eof
    rw [lexemes_cons, mem_append] at h
    refine h.elim (fun h => ?_) ih
    generalize (step c cs).reading = r at h hne
    cases r with
    | token lexis =>
      cases mem_singleton.1 h
      exact fun he => hne (congrArg Reading.token he)
    | blank => cases h
    | fault f => cases mem_singleton.1 h

end Scan

/-! ## Spans -/

/-- A span of a source: from one of its character boundaries to the same one or a later one. -/
structure Span.Within (source : String) (span : Span) : Prop where
  le : span.start ≤ span.stop
  stop_le : span.stop ≤ source.utf8ByteSize
  start_valid : String.Pos.Raw.IsValid source ⟨span.start⟩
  stop_valid : String.Pos.Raw.IsValid source ⟨span.stop⟩

/-- The characters of a source that a span covers. -/
def Span.textIn (source : String) (span : Span) : List Char :=
  (String.Pos.Raw.extract source ⟨span.start⟩ ⟨span.stop⟩).toList

namespace Scan

open String (utf8Len)

variable {source : String}

/-- The spans before, between and behind lexemes, from `pos` to `stop`. -/
def gaps (pos stop : Nat) : List Lexeme → List Span
  | [] => [⟨pos, stop⟩]
  | l :: ls => ⟨pos, l.span.start⟩ :: gaps l.span.stop stop ls

lemma utf8ByteSize_eq_utf8Len (source : String) : source.utf8ByteSize =
    utf8Len source.toList := by
  rw [← String.utf8ByteSize_ofList, String.ofList_toList]

lemma isValid_utf8Len (h : source.toList = pre ++ cs) :
    String.Pos.Raw.IsValid source ⟨utf8Len pre⟩ := by
  refine String.Pos.Raw.isValid_iff_exists_append.2 ⟨.ofList pre, .ofList cs, ?_, ?_⟩
  · rw [← String.ofList_append, ← h, String.ofList_toList]
  · rw [String.rawEndPos, String.utf8ByteSize_ofList]

/-- A part of a text between two others has a span, which covers it. -/
lemma within_of_append (h : source.toList = pre ++ (text ++ cs)) :
    Span.Within source ⟨utf8Len pre, utf8Len pre + utf8Len text⟩ where
  le := Nat.le_add_right _ _
  stop_le := by
    rw [utf8ByteSize_eq_utf8Len, h, String.utf8Len_append, String.utf8Len_append, ← Nat.add_assoc]
    exact Nat.le_add_right _ _
  start_valid := isValid_utf8Len h
  stop_valid := by
    rw [← String.utf8Len_append]
    exact isValid_utf8Len (h.trans (append_assoc _ _ _).symm)

lemma textIn_of_append (h : source.toList = pre ++ (text ++ cs)) :
    Span.textIn source ⟨utf8Len pre, utf8Len pre + utf8Len text⟩ = text := by
  have hsource : source = .ofList (pre ++ text ++ cs) := by
    rw [append_assoc, ← h, String.ofList_toList]
  rw [Span.textIn, hsource, String.extract_of_valid, String.toList_ofList]

/-- Every lexeme has a span of its own behind what was read before. -/
lemma Tiles.within (h : Tiles pre cs ls) (hsource : source.toList = pre ++ cs) : ∀ l ∈ ls,
    utf8Len pre ≤ l.span.start ∧ l.span.start < l.span.stop ∧ l.span.Within source := by
  induction h with
  | blank => intro l hl; cases hl
  | @lexeme pre gap text rest l ls hgap htext hspan hrest ih =>
    have hpos : 0 < utf8Len text := Nat.pos_of_ne_zero (htext ∘ String.utf8Len_eq_zero.1)
    rw [← append_assoc] at hsource
    rw [forall_mem_cons, hspan]
    refine ⟨⟨?_, Nat.lt_add_of_pos_right hpos, within_of_append hsource⟩, fun l' hl => ?_⟩
    · rw [String.utf8Len_append]
      exact Nat.le_add_right _ _
    · obtain ⟨hle, hl'⟩ := ih (hsource.trans (append_assoc _ _ _).symm) l' hl
      rw [String.utf8Len_append, String.utf8Len_append] at hle
      exact ⟨by omega, hl'⟩

lemma Tiles.pairwise (h : Tiles pre cs ls) (hsource : source.toList = pre ++ cs) :
    ls.Pairwise fun l l' => l.span.stop ≤ l'.span.start := by
  induction h with
  | blank => exact .nil
  | @lexeme pre gap text rest l ls hgap htext hspan hrest ih =>
    have hsplit : source.toList = pre ++ gap ++ text ++ rest := by simpa using hsource
    refine .cons (fun l' hl => ?_) (ih hsplit)
    rw [hspan, ← String.utf8Len_append]
    exact (hrest.within hsplit l' hl).1

lemma Tiles.blank_of_mem_gaps (h : Tiles pre cs ls) (hsource : source.toList = pre ++ cs) :
    ∀ gap ∈ gaps (utf8Len pre) source.utf8ByteSize ls, gap.Within source ∧
    Blank (gap.textIn source) := by
  have hgap {pre gap rest} (h : source.toList = pre ++ (gap ++ rest)) (hb : Blank gap) :
      Span.Within source ⟨utf8Len pre, utf8Len pre + utf8Len gap⟩ ∧
        Blank (Span.textIn source ⟨utf8Len pre, utf8Len pre + utf8Len gap⟩) :=
    ⟨within_of_append h, (textIn_of_append h).symm ▸ hb⟩
  induction h with
  | @blank pre gap hb =>
    intro g hg
    cases mem_singleton.1 hg
    rw [utf8ByteSize_eq_utf8Len, hsource, String.utf8Len_append]
    have hend : source.toList = pre ++ (gap ++ []) := by simpa using hsource
    exact hgap hend hb
  | @lexeme pre gap text rest l ls hb htext hspan hrest ih =>
    rw [gaps, forall_mem_cons, hspan, String.utf8Len_append]
    refine ⟨hgap hsource hb, ?_⟩
    rw [← String.utf8Len_append, ← String.utf8Len_append]
    exact ih (by simpa using hsource)

lemma tiles_scan (source : String) : Tiles [] source.toList (scan source) :=
  tiles_lexemes 0 source.toList [] rfl

end Scan

/-! ## Repeated scanning -/

/-- A lexeme as the answer of a reading. -/
def Lexeme.answer : Lexeme → Lookahead.Answer Token
  | token t => .ok t
  | fault f span => .error (f, span)

namespace Lookahead

/-- The answers to reading a number of times. -/
def answers : Nat → Lookahead → List (Answer Token)
  | 0, _ => []
  | n + 1, s => s.next.1 :: answers n s.next.2

lemma answers_eq (ls : List Lexeme) (length n) : answers (ls.length + n) ⟨[], ls, length⟩ =
    ls.map Lexeme.answer ++ replicate n (.ok (Token.endOf length)) := by
  induction ls with
  | nil =>
    induction n with
    | zero => rfl
    | succ n ih => exact congrArg (_ :: ·) ih
  | cons l ls ih =>
    rw [length_cons, Nat.add_right_comm]
    cases l with
    | token t | fault f span => exact congrArg (_ :: ·) ih

end Lookahead

/-- Reading yields one answer for each lexeme and then the end of the source for ever. The lexemes
stand for parts of the source that are not empty and follow one another, each from one character
boundary to another; what is before, between and behind them is white space and complete comments. -/
theorem scan_covers (source : String) :
    (∀ n, (Lookahead.ofSource source).answers ((scan source).length + n) =
     (scan source).map Lexeme.answer ++ List.replicate n (.ok (Token.endOf source.utf8ByteSize))) ∧
    (∀ l ∈ scan source, l.span.start < l.span.stop ∧ l.span.Within source) ∧
    ((scan source).Pairwise fun l l' => l.span.stop ≤ l'.span.start) ∧
    ∀ gap ∈ Scan.gaps 0 source.utf8ByteSize (scan source), gap.Within source ∧
    Scan.Blank (gap.textIn source) := by
  have htiles := Scan.tiles_scan source
  refine ⟨Lookahead.answers_eq (scan source) source.utf8ByteSize, fun l hl => ?_,
    htiles.pairwise rfl, htiles.blank_of_mem_gaps rfl⟩
  exact (htiles.within rfl l hl).2

/-- A nested comment between a name and an unclosed string. -/
theorem scan_covers_commented :
    let source := "x (*é(**)*)'"
    (scan source).map Lexeme.span = [⟨0, 1⟩, ⟨12, 13⟩] ∧
      (⟨12, 13⟩ : Span).Within source ∧ Scan.Blank (Span.textIn source ⟨1, 12⟩) := by
  intro source
  have hspans : (scan source).map Lexeme.span = [⟨0, 1⟩, ⟨12, 13⟩] := by decide +kernel
  have hcovers := scan_covers source
  obtain ⟨l, hl, hspan⟩ := mem_map.1 (hspans ▸ mem_cons_of_mem _ mem_cons_self :
    (⟨12, 13⟩ : Span) ∈ (scan source).map Lexeme.span)
  exact ⟨hspans, hspan ▸ (hcovers.2.1 l hl).2, (hcovers.2.2.2 ⟨1, 12⟩ (by decide +kernel)).2⟩

end Oberon
