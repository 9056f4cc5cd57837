import Oberon.Proofs.Realizing

/-!
# Oberon.Proofs.Windows

The order in which an import lays out its types. While a record or a pointer is being rebuilt, it has
its place, and everything that is made until it is finished stands behind it: a window of the store,
which is what the type leads to on ways that do not pass an earlier place. The level of a record is
taken from its base when that one may still be unfinished, and the windows tell when it is.
-/

namespace Oberon

open List

variable {f : Form}
namespace Store

open Interface (recordLevel)

variable {s s' s'' : Store}

/-! ## Ways -/

/-- The types that the type at a place refers to. -/
def refs (s : Store) (k : Nat) : List Ty := ((s.form? (.composite k)).map s.parts).getD []

lemma refs_of_form? (h : s.form? (.composite k) = some f) : s.refs k = s.parts f := by
  rw [refs, h]
  rfl

lemma mem_refs (h : u ∈ s.refs k) : ∃ f, s.form? (.composite k) = some f ∧ u ∈ s.parts f := by
  rw [refs] at h
  cases hf : s.form? (.composite k) with
  | none =>
    rw [hf] at h
    cases h
  | some f =>
    rw [hf] at h
    exact ⟨f, rfl, h⟩

/-- A way from one type to another that passes places from `n` on only. -/
inductive Reach (s : Store) (n : Nat) : Nat → Nat → Prop
  | refl {k : Nat} (h : n ≤ k) : Reach s n k k
  | step {j k l : Nat} (h : n ≤ j) (hk : .composite k ∈ s.refs j) (hl : Reach s n k l) :
      Reach s n j l

lemma Reach.le_right (h : s.Reach n j k) : n ≤ k := by
  induction h with
  | refl h => exact h
  | step _ _ _ ih => exact ih

lemma Reach.mono (h : s.Reach n j k) (hn : n' ≤ n)
    (hr : ∀ l, n ≤ l → ∀ u ∈ s.refs l, u ∈ s'.refs l) : s'.Reach n' j k := by
  induction h with
  | refl h => exact .refl (Nat.le_trans hn h)
  | step h hk _ ih => exact .step (Nat.le_trans hn h) (hr _ h _ hk) ih

/-- The places from `j` to `m` are those that `j` leads to without passing an earlier one. -/
structure Window (s : Store) (j m : Nat) : Prop where
  lt : j < m
  le : m ≤ s.types.size
  closed : ∀ k, j ≤ k → k < m → ∀ u ∈ s.refs k, u.Below m
  reach : ∀ k, j ≤ k → k < m → s.Reach j j k

lemma Window.lt_of_reach (h : s.Window j m) (hk : s.Reach j j k) : k < m := by
  have hstay {i} (hi : s.Reach j i k) (hlt : i < m) : k < m := by
    induction hi with
    | refl _ => exact hlt
    | step hi hk _ ih => exact ih hk (h.closed _ hi hlt _ ‹_› _ rfl)
  exact hstay hk h.lt

/-- Other stores have the same window if they have the same types from its start on. -/
lemma Window.congr (h : s.Window j m) (hsize : s.types.size ≤ s'.types.size)
    (hr : ∀ l, j ≤ l → l < s.types.size → s'.refs l = s.refs l) : s'.Window j m := by
  refine ⟨h.lt, Nat.le_trans h.le hsize, fun k hj hk => ?_, fun k hj hk => ?_⟩
  · rw [hr k hj (Nat.lt_of_lt_of_le hk h.le)]
    exact h.closed k hj hk
  · refine (h.reach k hj hk).mono (Nat.le_refl _) fun l hl u hu => ?_
    obtain ⟨f, hf, _⟩ := mem_refs hu
    rw [hr l hl (lt_of_form? hf)]
    exact hu

lemma refs_congr (hs : s.Closed) (hw : s.Widens s')
    (hf : s'.form? (.composite k) = s.form? (.composite k)) : s'.refs k = s.refs k := by
  cases hk : s.form? (.composite k) with
  | none =>
    rw [refs, hf, refs, hk]
    rfl
  | some f =>
    rw [refs_of_form? hk, refs_of_form? (hf.trans hk), hw.parts (hs.fits _ f hk).members]

lemma Preserves.refs (h : s.Preserves s') (hs : s.Closed) (hk : k < s.types.size) :
    s'.refs k = s.refs k := refs_congr hs h.toWidens (h.form? (.composite hk))

/-! ## Levels -/

/-- The level of the record at `k` is one more than that of its base, unless its base leads to it. -/
def Leveled (s : Store) (n k : Nat) (r : RecordForm) : Prop :=
  (∃ j, n ≤ j ∧ r.base = some (.composite j) ∧ s.isRecord (.composite j) = true ∧
    s.Reach j j k ∧ r.level = 1) ∨
  (∀ j, n ≤ j → r.base = some (.composite j) → s.isRecord (.composite j) = true →
    ¬ s.Reach j j k) ∧ r.level = recordLevel s r.base

lemma recordLevel_congr (h : ∀ t ∈ base, s'.form? t = s.form? t) : recordLevel s' base =
    recordLevel s base := by
  cases base with
  | none => rfl
  | some t =>
    simp only [recordLevel, Option.bind_some, record?_congr (h t rfl)]

/-- In another store, the same ways lead from the base and it is the same record. -/
lemma Leveled.congr (h : s.Leveled n k r) (hb : ∀ t ∈ r.base, s'.form? t = s.form? t)
    (hr : ∀ j, n ≤ j → r.base = some (.composite j) → (s'.Reach j j k ↔ s.Reach j j k)) :
    s'.Leveled n k r := by
  have hrecord {j} (hj : r.base = some (.composite j)) :
      s'.isRecord (.composite j) = s.isRecord (.composite j) := by
    rw [isRecord, record?_congr (hb _ hj), ← isRecord]
  rcases h with ⟨j, hn, hj, hrec, hreach, hlevel⟩ | ⟨hno, hlevel⟩
  · exact .inl ⟨j, hn, hj, (hrecord hj).trans hrec, (hr j hn hj).2 hreach, hlevel⟩
  · refine .inr ⟨fun j hn hj hrec hreach => ?_, hlevel.trans (recordLevel_congr hb).symm⟩
    exact hno j hn hj ((hrecord hj).symm.trans hrec) ((hr j hn hj).1 hreach)

lemma Leveled.mono (h : s.Leveled n k r)
    (hn : ∀ j, r.base = some (.composite j) → (n' ≤ j ↔ n ≤ j)) : s.Leveled n' k r := by
  rcases h with ⟨j, hj, hb, h⟩ | ⟨hno, hlevel⟩
  · exact .inl ⟨j, (hn j hb).2 hj, hb, h⟩
  · exact .inr ⟨fun j hj hb => hno j ((hn j hb).1 hj) hb, hlevel⟩

lemma recordLevel_of_not_isRecord (h : ¬ s.isRecord t) : recordLevel s (some t) = 0 := by
  have hnone : s.record? t = none := by simpa [isRecord] using h
  simp only [recordLevel, Option.bind_some, hnone]

/-! ## Growing by windows -/

/-- All new types have windows, and the new records their levels. -/
structure Unfolds (s s' : Store) : Prop where
  preserves : s.Preserves s'
  windows : ∀ j, s.types.size ≤ j → j < s'.types.size → ∃ m, s'.Window j m
  levels : ∀ k r, s.types.size ≤ k → s'.record? (.composite k) = some r →
    s'.Leveled s.types.size k r

namespace Unfolds

protected lemma refl (s : Store) : s.Unfolds s := by
  refine ⟨.refl s, fun j hj hlt => ?_, fun k r hk hr => ?_⟩
  · omega
  · have := lt_of_form? (record?_eq_some.1 hr)
    omega

lemma window_iff (hw : s.Window j m) (hw' : s'.Window j m) : s'.Reach j j k ↔ s.Reach j j k :=
  ⟨fun h => hw.reach k h.le_right (hw'.lt_of_reach h),
    fun h => hw'.reach k h.le_right (hw.lt_of_reach h)⟩

protected lemma trans (h : s.Unfolds s') (h' : s'.Unfolds s'') (hs' : s'.Closed) :
    s.Unfolds s'' := by
  have hle := h.preserves.types_le
  have hle' := h'.preserves.types_le
  have hkeep {j m} (hw : s'.Window j m) : s''.Window j m :=
    hw.congr hle' fun l _ hl => h'.preserves.refs hs' hl
  refine ⟨h.preserves.trans h'.preserves, fun j hj hlt => ?_, fun k r hk hr => ?_⟩
  · by_cases hj' : j < s'.types.size
    · obtain ⟨m, hw⟩ := h.windows j hj hj'
      exact ⟨m, hkeep hw⟩
    · exact h'.windows j (by omega) hlt
  · by_cases hk' : k < s'.types.size
    · have hform := record?_eq_some.1 hr
      rw [h'.preserves.form? (.composite hk')] at hform
      have hbase (t) (ht : t ∈ r.base) : s'.Has t :=
        (hs'.fits _ _ hform).parts t (List.mem_append_left _ (Option.mem_toList.2 ht))
      refine (h.levels k r hk (record?_eq_some.2 hform)).congr
        (fun t ht => h'.preserves.form? (hbase t ht)) fun j hj hb => ?_
      obtain ⟨m, hw⟩ := h.windows j hj (hbase _ hb j rfl)
      exact window_iff hw (hkeep hw)
    · -- the window of an earlier base was closed before this record was made
      rcases h'.levels k r (by omega) hr with ⟨j, hj, hb, hrec, hreach⟩ | ⟨hno, hlevel⟩
      · exact .inl ⟨j, by omega, hb, hrec, hreach⟩
      · refine .inr ⟨fun j hj hb hrec hreach => ?_, hlevel⟩
        by_cases hj' : j < s'.types.size
        · obtain ⟨m, hw⟩ := h.windows j hj hj'
          have := (hkeep hw).lt_of_reach hreach
          have := hw.le
          omega
        · exact hno j (by omega) hb hrec hreach

/-- A store with the same forms unfolds in the same way. -/
lemma congr (h : s.Unfolds s') (hs' : s'.Closed) (hw : s'.Widens s'')
    (hsize : s''.types.size = s'.types.size) (hf : ∀ t, s''.form? t = s'.form? t)
    (hpres : s.Preserves s'') : s.Unfolds s'' := by
  have hrefs (l) : s''.refs l = s'.refs l := refs_congr hs' hw (hf _)
  have hreach {j k} : s''.Reach j j k ↔ s'.Reach j j k :=
    ⟨fun h => h.mono (Nat.le_refl _) fun l _ u hu => hrefs l ▸ hu,
      fun h => h.mono (Nat.le_refl _) fun l _ u hu => (hrefs l).symm ▸ hu⟩
  refine ⟨hpres, fun j hj hlt => ?_, fun k r hk hr => ?_⟩
  · obtain ⟨m, hm⟩ := h.windows j hj (by omega)
    exact ⟨m, hm.congr (Nat.le_of_eq hsize.symm) fun l _ _ => hrefs l⟩
  · rw [record?_congr (hf _)] at hr
    exact (h.levels k r hk hr).congr (fun t _ => hf t) fun _ _ _ => hreach

/-- An array or a procedure type is a window of its own. -/
lemma addLate (hs : s.Closed) (hf : s.Fits f) (hlate : f.isLate) : s.Unfolds (s.addType f).2 := by
  have hclosed := hs.addType hf
  have hsize : (s.addType f).2.types.size = s.types.size + 1 := by simp
  have hform : (s.addType f).2.form? (.composite s.types.size) = some f := form?_addType_self s f
  refine ⟨.addType s f, fun j hj hlt => ?_, fun k r hk hr => ?_⟩
  · obtain rfl : j = s.types.size := by omega
    refine ⟨s.types.size + 1, by omega, by omega, fun k hj hk u hu => ?_, fun k hj hk => ?_⟩
    · obtain rfl : k = s.types.size := by omega
      rw [refs_of_form? hform] at hu
      exact (hclosed.earlier _ f hform hlate u hu).mono (by omega)
    · obtain rfl : k = s.types.size := by omega
      exact .refl (Nat.le_refl _)
  · have hr := record?_eq_some.1 hr
    have := lt_of_form? hr
    obtain rfl : k = s.types.size := by omega
    rw [hform] at hr
    cases hr
    cases hlate

end Unfolds

/-! ## Finishing a type -/

/-- The parts of the record or the pointer that got the place behind `s`, as `f0`, have been built. It
is about to become `f`. -/
structure Completes (s : Store) (f0 : Form) (s' : Store) (f : Form) : Prop where
  unfolds : (s.addType f0).2.Unfolds s'
  closed : s'.Closed
  fits : s'.Fits f
  early : f.isLate = false
  reach : ∀ k, s.types.size < k → k < s'.types.size →
    ∃ j, .composite j ∈ s'.parts f ∧ s'.Reach (s.types.size + 1) j k
  record : ∀ r, f = .record r → f0 = .record ⟨[], none, 0⟩ ∧ r.level = recordLevel s' r.base
  other : (∀ r, f ≠ .record r) → ∀ r, f0 ≠ .record r

namespace Completes

lemma form_before (h : s.Completes f0 s' f) : s'.form? (.composite s.types.size) = some f0 :=
  (h.unfolds.preserves.form? (has_addType s f0)).trans (form?_addType_self s f0)

lemma form_self (h : s.Completes f0 s' f) :
    (s'.setForm (.composite s.types.size) f).form? (.composite s.types.size) = some f := by
  simp only [form?_setForm, if_pos, h.form_before, Option.map_some]

lemma form_other (ht : t ≠ .composite s.types.size) :
    (s'.setForm (.composite s.types.size) f).form? t = s'.form? t :=
  form?_setForm_of_ne (Ne.symm ht) f

lemma ne_of_lt (h : n < k) : Ty.composite k ≠ .composite n := by
  intro heq
  cases heq
  exact Nat.lt_irrefl _ h

section

variable (h : s.Completes f0 s' f)
include h

lemma refs (hk : s.types.size < k) : (s'.setForm (.composite s.types.size) f).refs k =
    s'.refs k :=
  refs_congr h.closed (.modifyType _ _ _) (form_other (ne_of_lt hk))

/-- Behind the type the ways are the same. -/
lemma reach_iff (hj : s.types.size < j) : (s'.setForm (.composite s.types.size) f).Reach j j k ↔
    s'.Reach j j k := by
  have hrefs (l) (hl : j ≤ l) := h.refs (Nat.lt_of_lt_of_le hj hl)
  constructor
  · intro hway
    exact hway.mono (Nat.le_refl _) fun l hl u hu => hrefs l hl ▸ hu
  · intro hway
    exact hway.mono (Nat.le_refl _) fun l hl u hu => (hrefs l hl).symm ▸ hu

/-- The type leads to everything behind it. -/
lemma reach_all (hk : s.types.size ≤ k) (hk' : k < s'.types.size) :
    (s'.setForm (.composite s.types.size) f).Reach s.types.size s.types.size k := by
  by_cases heq : s.types.size = k
  · exact heq ▸ .refl (Nat.le_refl _)
  · obtain ⟨j, hj, hway⟩ := h.reach k (by omega) hk'
    have hw : s'.Widens (s'.setForm (.composite s.types.size) f) := .modifyType _ _ _
    refine .step (k := j) (Nat.le_refl _) ?_ (hway.mono (Nat.le_succ _) fun l hl u hu => ?_)
    · rw [refs_of_form? h.form_self, hw.parts h.fits.members]
      exact hj
    · rw [h.refs hl]
      exact hu

/-- The level of a record that is made while its base is being built. -/
lemma recordLevel_before :
    recordLevel s' (some (.composite s.types.size)) =
      if (s'.setForm (.composite s.types.size) f).isRecord (.composite s.types.size)
      then 1 else 0 := by
  by_cases hr : ∃ r, f = .record r
  · obtain ⟨r, rfl⟩ := hr
    obtain ⟨rfl, _⟩ := h.record r rfl
    rw [if_pos (isRecord_iff.2 ⟨r, h.form_self⟩)]
    simp only [recordLevel, Option.bind_some, record?_eq_some.2 h.form_before]
  · rw [if_neg, recordLevel_of_not_isRecord]
    · intro hrecord
      obtain ⟨r, hform⟩ := isRecord_iff.1 hrecord
      rw [h.form_before] at hform
      cases hform
      exact h.other (fun r hf => hr ⟨r, hf⟩) r rfl
    · intro hrecord
      obtain ⟨r, hform⟩ := isRecord_iff.1 hrecord
      rw [h.form_self] at hform
      cases hform
      exact hr ⟨r, rfl⟩

end

/-- The level of the record itself. -/
lemma leveled_self (h : s.Completes f0 s' (.record r)) :
    (s'.setForm (.composite s.types.size) (.record r)).Leveled s.types.size s.types.size r := by
  obtain ⟨_, hlevel⟩ := h.record r rfl
  by_cases hb : r.base = some (.composite s.types.size)
  · have hrecord := isRecord_iff.2 ⟨r, h.form_self⟩
    rw [hb, h.recordLevel_before, if_pos hrecord] at hlevel
    exact .inl ⟨_, Nat.le_refl _, hb, hrecord, .refl (Nat.le_refl _), hlevel⟩
  · refine .inr ⟨fun j hj hbase _ hway => ?_, hlevel.trans (recordLevel_congr fun t ht => ?_).symm⟩
    · have := hway.le_right
      obtain rfl : j = s.types.size := by omega
      exact hb hbase
    · refine form_other ?_
      rintro rfl
      exact hb ht

/-- The levels of the records behind it. -/
lemma leveled_inner (h : s.Completes f0 s' f) (hk : s.types.size < k)
    (hr : s'.record? (.composite k) = some r) :
    (s'.setForm (.composite s.types.size) f).Leveled s.types.size k r := by
  have hlt := lt_of_form? (record?_eq_some.1 hr)
  have hsize : (s.addType f0).2.types.size = s.types.size + 1 := by simp
  have hinner := h.unfolds.levels k r (by omega) hr
  by_cases hb : r.base = some (.composite s.types.size)
  · -- the base was met again before it was finished
    rcases hinner with ⟨j, hj, hbase, _⟩ | ⟨_, hlevel⟩
    · rw [hb] at hbase
      cases hbase
      omega
    · rw [hb, h.recordLevel_before] at hlevel
      split at hlevel
      · next hrecord =>
        exact .inl ⟨_, Nat.le_refl _, hb, hrecord, h.reach_all (Nat.le_of_lt hk) hlt, hlevel⟩
      · next hrecord =>
        refine .inr ⟨fun j _ hbase hj => ?_, ?_⟩
        · rw [hb] at hbase
          cases hbase
          exact absurd hj hrecord
        · rw [hlevel, hb, recordLevel_of_not_isRecord hrecord]
  · have hne (j : Nat) (hj : r.base = some (.composite j)) : j ≠ s.types.size := by
      rintro rfl
      exact hb hj
    refine (hinner.congr (fun t ht => form_other ?_) fun j hj _ => h.reach_iff ?_).mono
      fun j hj => ?_
    · rintro rfl
      exact hb ht
    · omega
    · have := hne j hj
      omega

lemma unfolded (h : s.Completes f0 s' f) :
    s.Unfolds (s'.setForm (.composite s.types.size) f) := by
  have hclosed := h.closed.setForm h.fits h.early (.composite s.types.size)
  have hsize : (s'.setForm (.composite s.types.size) f).types.size = s'.types.size := by
    simp [setForm]
  refine ⟨?_, fun j hj hlt => ?_, fun k r hk hr => ?_⟩
  · exact ((Preserves.addType s f0).trans h.unfolds.preserves).modifyType (Nat.le_refl _) _
  · by_cases heq : s.types.size = j
    · subst heq
      refine ⟨_, hlt, Nat.le_refl _, fun k _ hk u hu => ?_, fun k hk hk' => ?_⟩
      · obtain ⟨g, hg, hu⟩ := mem_refs hu
        exact (hclosed.fits _ g hg).parts u hu
      · exact h.reach_all hk (by omega)
    · obtain ⟨m, hm⟩ := h.unfolds.windows j (by simp; omega) (by omega)
      exact ⟨m, hm.congr (Nat.le_of_eq hsize.symm) fun l hl _ => h.refs (by omega)⟩
  · by_cases heq : s.types.size = k
    · subst heq
      have hform := record?_eq_some.1 hr
      rw [h.form_self] at hform
      cases hform
      exact h.leveled_self
    · have hlt : s.types.size < k := by omega
      rw [record?_congr (form_other (ne_of_lt hlt))] at hr
      exact h.leveled_inner hlt hr

end Completes
end Store

/-! ## Imports -/

namespace Interface

open Store

/-- The types a phrase was built for. -/
def BuildPhrase.roots (s : Store) : BuildPhrase → List Ty
  | .type _ built => [built]
  | .option _ built => built.toList
  | .members _ _ ids => ids.map s.typeOf

end Interface

namespace Store

variable {s s' s'' : Store}

/-- The store unfolds, and the roots lead to every new type. -/
structure Lays (s s' : Store) (roots : List Ty) : Prop where
  unfolds : s.Unfolds s'
  spans : ∀ k, s.types.size ≤ k → k < s'.types.size →
    ∃ j, .composite j ∈ roots ∧ s'.Reach s.types.size j k

namespace Lays

protected lemma refl (s : Store) (roots) : s.Lays s roots :=
  ⟨.refl s, fun k hk hk' => by omega⟩

section

variable (h : s.Lays s' roots)
include h

lemma mono (hroots : ∀ t ∈ roots, t ∈ roots') : s.Lays s' roots' := by
  refine ⟨h.unfolds, fun k hk hk' => ?_⟩
  obtain ⟨j, hj, hway⟩ := h.spans k hk hk'
  exact ⟨j, hroots _ hj, hway⟩

/-- First one thing was built, then another. -/
protected lemma trans (h' : s'.Lays s'' roots') (hs' : s'.Closed) :
    s.Lays s'' (roots ++ roots') := by
  have hle := h.unfolds.preserves.types_le
  refine ⟨h.unfolds.trans h'.unfolds hs', fun k hk hk' => ?_⟩
  by_cases hlt : k < s'.types.size
  · obtain ⟨j, hj, hway⟩ := h.spans k hk hlt
    refine ⟨j, List.mem_append_left _ hj, hway.mono (Nat.le_refl _) fun l _ u hu => ?_⟩
    obtain ⟨f, hf, _⟩ := mem_refs hu
    rw [h'.unfolds.preserves.refs hs' (lt_of_form? hf)]
    exact hu
  · obtain ⟨j, hj, hway⟩ := h'.spans k (by omega) hk'
    exact ⟨j, List.mem_append_right _ hj, hway.mono hle fun _ _ _ hu => hu⟩

lemma congr (hs' : s'.Closed) (hw : s'.Widens s'') (hsize : s''.types.size = s'.types.size)
    (hf : ∀ t, s''.form? t = s'.form? t) (hpres : s.Preserves s'') : s.Lays s'' roots := by
  refine ⟨h.unfolds.congr hs' hw hsize hf hpres, fun k hk hk' => ?_⟩
  obtain ⟨j, hj, hway⟩ := h.spans k hk (by omega)
  refine ⟨j, hj, hway.mono (Nat.le_refl _) fun l _ u hu => ?_⟩
  rw [refs_congr hs' hw (hf _)]
  exact hu

lemma addDecl (hs' : s'.Closed) (d) : s.Lays (s'.addDecl d).2 roots :=
  h.congr hs' (.addDecl _ d) rfl (fun _ => form?_eq_of_types rfl _)
    (h.unfolds.preserves.trans (.addDecl _ d))

/-- The parts of an array or a procedure type were built, and then the type. -/
lemma addLate (hs' : s'.Closed) (hf : s'.Fits f) (hlate : f.isLate)
    (hroots : ∀ t ∈ roots, t ∈ s'.parts f) :
    s.Lays (s'.addType f).2 [.composite s'.types.size] := by
  have hle := h.unfolds.preserves.types_le
  have hpres := Preserves.addType s' f
  have hsize : (s'.addType f).2.types.size = s'.types.size + 1 := by simp
  refine ⟨h.unfolds.trans (.addLate hs' hf hlate) hs', fun k hk hk' => ?_⟩
  refine ⟨_, List.mem_singleton_self _, ?_⟩
  by_cases hlt : k < s'.types.size
  · obtain ⟨j, hj, hway⟩ := h.spans k hk hlt
    refine .step (k := j) hle ?_ (hway.mono (Nat.le_refl _) fun l _ u hu => ?_)
    · rw [refs_of_form? (form?_addType_self s' f), hpres.parts hf.members]
      exact hroots _ hj
    · obtain ⟨g, hg, _⟩ := mem_refs hu
      rw [hpres.refs hs' (lt_of_form? hg)]
      exact hu
  · obtain rfl : k = s'.types.size := by omega
    exact .refl hk

end

lemma addRows (hs : s.Closed) (hm : s.Has member) (lengths) :
    s.Lays (s.addRows member lengths).2 (s.addRows member lengths).1 := by
  induction lengths with
  | nil => exact .refl s _
  | cons n rest ih =>
    obtain ⟨hclosed, htypes⟩ := addRows_spec hs hm rest
    refine (ih.addLate (f := .array ⟨n :: rest, (s.addRows member rest).1⟩) hclosed
      (fits_array htypes) rfl fun t ht => ht).mono fun t ht => ?_
    exact List.mem_cons.2 (.inl (mem_singleton.1 ht))

lemma addArray (h : s.Lays s' [member]) (hs' : s'.Closed) (hm : s'.Has member) (lengths) :
    s.Lays (s'.addArray lengths member).2 [(s'.addArray lengths member).1] := by
  obtain ⟨hclosed, htypes⟩ := addRows_spec hs' hm lengths.tail
  refine (h.trans (addRows hs' hm lengths.tail) hs').addLate hclosed (fits_array htypes) rfl
    fun t ht => ?_
  rcases List.mem_append.1 ht with ht | ht
  · rw [mem_singleton.1 ht]
    exact mem_of_getLast? (Interface.getLast?_addRows s' member lengths.tail)
  · exact ht

/-- The parts of a record or a pointer were built behind its place. -/
lemma complete (h : (s.addType f0).2.Lays s' roots) (hs' : s'.Closed) (hf : s'.Fits f)
    (hearly : f.isLate = false) (hroots : ∀ t ∈ roots, t ∈ s'.parts f)
    (hrecord : ∀ r, f = .record r → f0 = .record ⟨[], none, 0⟩ ∧ r.level =
     Interface.recordLevel s' r.base) (hother : (∀ r, f ≠ .record r) → ∀ r, f0 ≠ .record r) :
    s.Lays (s'.setForm (.composite s.types.size) f) [.composite s.types.size] := by
  have hsize : (s.addType f0).2.types.size = s.types.size + 1 := by simp
  have hcompletes : s.Completes f0 s' f := by
    refine ⟨h.unfolds, hs', hf, hearly, fun k hk hk' => ?_, hrecord, hother⟩
    obtain ⟨j, hj, hway⟩ := h.spans k (by omega) hk'
    rw [hsize] at hway
    exact ⟨j, hroots _ hj, hway⟩
  refine ⟨hcompletes.unfolded, fun k hk hk' => ⟨_, List.mem_singleton_self _, ?_⟩⟩
  exact hcompletes.reach_all hk (by simpa [setForm] using hk')

/-- A type is named after it has been built. -/
lemma nameType (h : s.Lays s' roots) (hs' : s'.Closed) (hk : s.types.size ≤ k) (name) :
    s.Lays (Interface.nameType s' (.composite k) name) roots := by
  refine h.congr hs' (Interface.widens_nameType _ _ name) ?_
    (fun t => Interface.form?_nameType s' (.composite k) t name)
    (Interface.preserves_nameType h.unfolds.preserves hk name)
  cases name with
  | none => rfl
  | some n => simp [Interface.nameType, setNaming, Store.addDecl]

/-- A field or a parameter is declared once its type has been built. -/
lemma member {ids : List DeclId} (h' : (s'.addDecl d).2.Lays s'' (ids.map s''.typeOf))
    (h : s.Lays s' [d.type]) (hs' : s'.Closed) (hd : s'.Has d.type) :
    s.Lays s'' ((⟨s'.decls.size⟩ :: ids).map s''.typeOf) := by
  have htype : s''.typeOf ⟨s'.decls.size⟩ = d.type := by
    rw [h'.unfolds.preserves.typeOf (by simp), typeOf, decl_addDecl_self]
  rw [List.map_cons, htype]
  exact (h.addDecl hs' d).trans h' (hs'.addDecl hd)

end Lays
end Store

/-! ## Imports -/

namespace Interface

open Store

variable {lost : Prop}

lemma Builds.lays (h : Builds i lost r p r') (hr : r.Sound) :
    r.store.Lays r'.store (p.roots r'.store) := by
  induction h with
  | basic r b | pseudo r p | known h | lost r index h => exact .refl _ _
  | @array r r1 index name lengths member m hp hi hm ih =>
    obtain ⟨hr1, hmember⟩ := hm.sound hr
    obtain ⟨k, hk, ht⟩ := addArray_fst r1.store lengths m
    have harray := (ih hr).addArray hr1.closed hmember lengths
    have hle := Nat.le_trans (ih hr).unfolds.preserves.types_le hk
    rw [ht] at harray ⊢
    exact harray.nameType (hr1.closed.addArray hmember lengths) hle name
  | @pointer r r1 index name base b hp hi hb ih =>
    have hopen : r.store.Fits (.pointer Option.none) := fits_pointer fun t ht => by cases ht
    have hstart := hr.start hopen index
    obtain ⟨hr1, hbase⟩ := hb.sound hstart
    have hfits := fits_pointer hbase
    have hlays : r.store.Lays (r1.store.setForm (.composite r.store.types.size) (.pointer b))
        [.composite r.store.types.size] :=
      (ih hstart).complete hr1.closed hfits rfl (fun t ht => ht) (fun _ h => by cases h)
        fun _ _ h => by cases h
    exact hlays.nameType (hr1.closed.setForm hfits rfl _) (Nat.le_refl _) name
  | @record r r1 r2 index name base b fields ids hp hi hb hf ihb ihf =>
    have hopen : r.store.Fits (.record ⟨[], Option.none, 0⟩) :=
      hr.closed.fits_record 0 (fun id hid => by cases hid) fun t ht => by cases ht
    have hstart := hr.start hopen index
    obtain ⟨hr1, hbase⟩ := hb.sound hstart
    obtain ⟨hr2, hids⟩ := hf.sound hr1
    have hfits := hr2.closed.fits_record (recordLevel r1.store b) hids
      fun t ht => hf.preserves.has (hbase t ht)
    -- the fields leave the base as it was when the level was taken
    have hlevel : recordLevel r1.store b = recordLevel r2.store b :=
      (recordLevel_congr fun t ht => hf.preserves.form? (hbase t ht)).symm
    have hlays : r.store.Lays (r2.store.setForm (.composite r.store.types.size)
        (.record ⟨ids, b, recordLevel r1.store b⟩)) [.composite r.store.types.size] := by
      refine ((ihb hstart).trans (ihf hr1) hr1.closed).complete hr2.closed hfits rfl
        (fun t ht => ht) (fun _ h => ?_) fun h => absurd rfl (h _)
      cases h
      exact ⟨rfl, hlevel⟩
    exact hlays.nameType (hr2.closed.setForm hfits rfl _) (Nat.le_refl _) name
  | @procedure r r1 r2 index name params result t variadic ids hp hi hs hr' ihs ihr =>
    obtain ⟨hr1, hids⟩ := hs.sound hr
    obtain ⟨hr2, hresult⟩ := hr'.sound hr1
    have hfits : r2.store.Fits (.procedure ⟨ids, t, variadic⟩) :=
      hr2.closed.fits_procedure (hr'.preserves.hasMembers hids) hresult
    have htypes : ids.map r1.store.typeOf = ids.map r2.store.typeOf :=
      List.map_congr_left fun id hid => (hr'.preserves.typeOf (hids id hid).1).symm
    have hparts : r.store.Lays r2.store (r2.store.parts (.procedure ⟨ids, t, variadic⟩)) := by
      rw [parts, ← htypes]
      exact (ihs hr).trans (ihr hr1) hr1.closed
    refine (hparts.addLate hr2.closed hfits rfl fun t ht => ht).nameType (hr2.closed.addType hfits)
      hparts.unfolds.preserves.types_le name
  | none r => exact .refl _ _
  | some h ih => exact ih hr
  | noMembers r index => exact .refl _ _
  | member ht hrest iht ihr =>
    obtain ⟨hr1, hhas⟩ := ht.sound hr
    have hrest := ihr (hr1.withStore (hr1.closed.addDecl hhas) (.addDecl _ _))
    exact hrest.member (iht hr) hr1.closed hhas

lemma Brings.unfolds {exports : List Export} (h : Brings i lost r exports ids r') (hr : r.Sound) : r.store.Unfolds r'.store := by
  induction h with
  | nil r => exact .refl _
  | named ht _ _ _ _ ih =>
    obtain ⟨hr1, _⟩ := ht.sound hr
    exact (ht.lays hr).unfolds.trans (ih hr1) hr1.closed
  | @added r r1 r2 e t rest ids ht _ ih =>
    obtain ⟨hr1, hhas⟩ := ht.sound hr
    have hclosed : (r1.store.addDecl (importedDecl i.name e.name (e.role i.name) t true)).2.Closed :=
      hr1.closed.addDecl hhas
    exact ((ht.lays hr).addDecl hr1.closed _).unfolds.trans
      (ih (hr1.withStore hclosed (.addDecl _ _))) hclosed

/-- Every import lays out its types in windows. -/
lemma unfolds_importInto (i : Interface) {s : Store} (hs : s.Closed) (scopes) :
    s.Unfolds (i.importInto s scopes).1 := by
  obtain ⟨ids, r, hb, hrun⟩ := i.importInto_brings s scopes
  rw [hrun]
  exact hb.unfolds (sound_opening hs)

end Interface
end Oberon
