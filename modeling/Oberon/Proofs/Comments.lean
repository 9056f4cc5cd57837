import Oberon.Proofs.Covering

/-!
# Oberon.Proofs.Comments

Where a comment ends. Its text is read from the left, delimiter by delimiter, none of which shares a
character with another. A comment takes no more than closes it, and all that is left if nothing
does.
-/

namespace Oberon

open List

namespace Scan

/-- How many comments are open behind a text that follows an opening delimiter. -/
def openBehind : List Char → Int
  | [] => 1
  | '(' :: '*' :: cs => openBehind cs + 1
  | '*' :: ')' :: cs => openBehind cs - 1
  | _ :: cs => openBehind cs

/-- The first `n` characters behind an opening delimiter close the comment, and no fewer do. -/
abbrev ClosesAt (n : Nat) (cs : List Char) : Prop :=
  openBehind (cs.take n) = 0 ∧ ∀ k < n, openBehind (cs.take k) ≠ 0

/-- A character outside of all delimiters is passed over. -/
lemma passes_char (h : isDelimited (c :: cs) = false) : openBehind (c :: cs) = openBehind cs ∧
    ∀ depth, closeComment depth (c :: cs) = (closeComment depth cs).map (· + 1) := by
  rw [openBehind]
  · refine ⟨rfl, fun depth => ?_⟩
    rw [closeComment]
    all_goals
      rintro cs rfl rfl
      cases h
  all_goals
    rintro cs rfl rfl
    cases h

/-- Where a text has closed a comment and `depth` more around it, their end has been found. -/
lemma closeComment_le (depth : Nat) (h : openBehind (cs.take k) = -depth) :
    ∃ n ≤ k, closeComment depth cs = some n := by
  have hempty {depth : Nat} : (1 : Int) ≠ -depth := by omega
  fun_induction closeComment depth cs generalizing k with
  | case1 =>
    rw [take_nil] at h
    exact (hempty h).elim
  | case2 depth cs ih | case4 cs depth ih =>
    obtain _ | _ | k := k
    · exact (hempty h).elim
    · exact (hempty h).elim
    · simp only [take_succ_cons, openBehind] at h
      obtain ⟨n, hle, hn⟩ := @ih k (by omega)
      exact ⟨n + 2, by omega, by rw [hn]; rfl⟩
  | case3 cs =>
    obtain _ | _ | k := k
    · cases h
    · cases h
    · exact ⟨2, by omega, rfl⟩
  | case5 depth c cs hopen hclose ih =>
    obtain _ | k := k
    · exact (hempty h).elim
    · have htake := take_prefix k cs
      have hc := isDelimited_mono htake (not_isDelimited hopen hclose)
      obtain ⟨n, hle, hn⟩ := ih ((passes_char hc).1 ▸ h)
      exact ⟨n + 1, by omega, by rw [hn]; rfl⟩

namespace Closing

lemma not_isDelimited_append (h : Closing cs) (hc : isDelimited (c :: cs) = false) (rest) :
    isDelimited (c :: (cs ++ rest)) = false := by
  have hhead (d cs) : isDelimited (c :: d :: cs) = isDelimited [c, d] := by
    simp only [isDelimited]
    split <;> simp_all
  cases h
  all_goals
    simp only [cons_append, hhead] at hc ⊢
    exact hc

/-- A nested comment is passed over as a whole, whatever follows. -/
lemma passes (h : Closing body) (rest) : openBehind (body ++ rest) = openBehind rest - 1 ∧
    closeComment 0 (body ++ rest) = some body.length ∧ ∀ depth,
    closeComment (depth + 1) (body ++ rest) = (closeComment depth rest).map (· + body.length) := by
  induction h generalizing rest with
  | close => exact ⟨rfl, rfl, fun depth => rfl⟩
  | @nest inner more _ _ ihi ihr =>
    simp [openBehind, closeComment, ihi (more ++ rest), ihr rest, Function.comp_def, Nat.add_assoc,
      Nat.add_left_comm]
  | char hc h ih =>
    have hc := passes_char (h.not_isDelimited_append hc rest)
    simp [hc.1, hc.2, ih rest, Function.comp_def, Nat.add_assoc]

lemma suffix (h : Closing body) : ['*', ')'] <:+ body := by
  induction h with
  | close => exact suffix_rfl
  | @nest inner _ _ _ _ ih => exact ih.trans (suffix_append ('(' :: '*' :: inner) _)
  | char _ _ ih => exact ih.trans (suffix_cons _ _)

end Closing

/-- The end of a comment is where its text closes it for the first time. -/
lemma closeComment_eq_some_iff : closeComment 0 cs = some n ↔ ClosesAt n cs := by
  have hcloses {n} (h : closeComment 0 cs = some n) : openBehind (cs.take n) = 0 := by
    obtain ⟨_, body, rest, htake, hbody, rfl⟩ := closings_of_closeComment h
    rw [htake, (hbody.passes []).1]
    rfl
  refine ⟨fun h => ⟨hcloses h, fun k hlt hk => ?_⟩, fun h => ?_⟩
  · obtain ⟨m, hle, hm⟩ := closeComment_le 0 hk
    cases h.symm.trans hm
    omega
  · obtain ⟨m, hle, hm⟩ := closeComment_le 0 h.1
    have hge : n ≤ m := Nat.le_of_not_lt fun hlt => h.2 m hlt (hcloses hm)
    rw [hm, Nat.le_antisymm hle hge]

/-- A comment is read as blank if and only if some text behind its opening delimiter closes it. It
takes the shortest such text, which ends with the matching delimiter, and otherwise is a fault over
all that is left. What a nested comment takes does not depend on what follows it. -/
theorem comment_takes_shortest (cs : List Char) :
    ((step '(' ('*' :: cs)).reading = .blank ↔ ∃ n, openBehind (cs.take n) = 0) ∧
    (∀ n, ClosesAt n cs → step '(' ('*' :: cs) = ⟨.blank, n + 2⟩ ∧ Closing (cs.take n) ∧
      ['*', ')'] <:+ cs.take n) ∧
    ((∀ n, openBehind (cs.take n) ≠ 0) →
      step '(' ('*' :: cs) = ⟨.fault .openComment, cs.length + 2⟩) ∧
    ∀ body rest, Closing body → step '(' ('*' :: (body ++ rest)) = ⟨.blank, body.length + 2⟩ := by
  have hstep (cs) : step '(' ('*' :: cs) = comment cs := rfl
  simp only [hstep, comment]
  refine ⟨⟨fun hr => ?_, ?_⟩, fun n hn => ?_, fun hn => ?_, fun body rest hbody => ?_⟩
  · cases h : closeComment 0 cs with
    | none =>
      rw [h] at hr
      cases hr
    | some n => exact ⟨n, (closeComment_eq_some_iff.1 h).1⟩
  · rintro ⟨k, hk⟩
    obtain ⟨n, _, hn⟩ := closeComment_le 0 hk
    rw [hn]
  · have h := closeComment_eq_some_iff.2 hn
    obtain ⟨_, body, rest, htake, hbody, rfl⟩ := closings_of_closeComment h
    rw [append_nil] at htake
    rw [h, htake]
    exact ⟨rfl, hbody, hbody.suffix⟩
  · cases h : closeComment 0 cs with
    | none => rfl
    | some n => exact (hn n (closeComment_eq_some_iff.1 h).1).elim
  · rw [(hbody.passes rest).2.1]

/-- A bracket behind a delimiter takes no part in the next one. -/
theorem comment_takes_shortest_nested :
    (∀ rest, step '(' ('*' :: ("(*)*)*)".toList ++ rest)) = ⟨.blank, 9⟩) ∧
      step '(' ['*', '*'] = ⟨.fault .openComment, 3⟩ := by
  have hbody := ((comment_takes_shortest "(*)*)*)".toList).2.1 7 (by decide)).2.1
  refine ⟨fun rest => (comment_takes_shortest []).2.2.2 _ rest hbody,
    (comment_takes_shortest ['*']).2.2.1 ?_⟩
  rintro (_ | n) <;> simp [openBehind]

end Scan
end Oberon
