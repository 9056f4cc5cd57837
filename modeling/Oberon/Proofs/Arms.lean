import Mathlib
import Oberon.Proofs.Forest

/-!
# Oberon.Proofs.Arms

What is reported about the arms of a CASE statement. In a CASE statement over integers or characters
there is one error for each label that shares a value with an earlier label of its arm, and one for each
arm that shares a value with an earlier arm. In a CASE statement over types the arms that are reported
are those that no value can select.
-/

namespace Oberon

open List

/-- The analysis with more diagnostics. -/
def Analysis.noted (a : Analysis) (ds : List (Diagnostic Message)) : Analysis :=
  { a with log := { a.log with entries := a.log.entries ++ ds.toArray } }

lemma Analysis.noted_nil (a : Analysis) : a.noted [] = a := by simp [noted]

lemma Analysis.noted_noted (a : Analysis) (ds ds') :
    (a.noted ds).noted ds' = a.noted (ds ++ ds') := by simp [noted]

/-- What has been reported on the way from `a` to `b`. -/
def Analysis.reported (a b : Analysis) : List (Diagnostic Message) :=
  (b.log.since a.log.entries.size).entries.toList

lemma Analysis.reported_noted (a : Analysis) (ds) : a.reported (a.noted ds) = ds := by
  simp [noted, reported, Log.since]

namespace Analyze

open Analysis

/-! ## Values -/

/-- A label and the integers it stands for. -/
inductive StandsFor : Expr → List Int → Prop
  | constant {e : Expr} {v : Int} (h : labelValue? e = some v) : StandsFor e [v]
  | range {lower upper : Expr} {low high : Int} (note : Note) (hl : labelValue? lower = some low)
      (hh : labelValue? upper = some high) (h : low < high) :
      StandsFor (.range lower upper note) (interval low high)

/-- Integers for integers, characters for characters. -/
structure Suits (type : Ty) (label : Expr) : Prop where
  isDiscrete : isDiscrete label.type = true
  isEntire : label.type.isEntire = type.isEntire
  isChar : label.type.isChar = type.isChar

/-- How many of the lists have a value that is in an earlier one. -/
def overlaps (vss : List (List Int)) : Nat :=
  (List.range vss.length).countP fun i => vss[i]?.any fun vs =>
    vs.any fun v => (vss.take i).any fun ws => ws.contains v

lemma overlaps_concat (vss vs) : overlaps (vss ++ [vs]) =
    overlaps vss + if vs.any (fun v => vss.any fun ws => ws.contains v) then 1 else 0 := by
  simp only [overlaps, length_append, length_singleton, range_succ, countP_append,
    countP_singleton]
  congr 1
  · refine countP_congr fun i hi => ?_
    have hi := mem_range.1 hi
    rw [List.getElem?_append_left hi, List.take_append_of_le_length (Nat.le_of_lt hi)]
  · simp

lemma overlaps_eq_zero_iff (vss) : overlaps vss = 0 ↔ vss.Pairwise List.Disjoint := by
  induction vss using List.reverseRecOn with
  | nil => simp [overlaps]
  | append_singleton vss vs ih =>
    have hshared : (vs.any fun v => vss.any fun ws => ws.contains v) = false ↔
        ∀ ws ∈ vss, List.Disjoint ws vs := by
      simp only [any_eq_false, any_eq_true, contains_iff_mem, not_exists, not_and]
      exact ⟨fun h ws hws v hv hv' => h v hv' ws hws hv, fun h v hv' ws hws hv => h ws hws hv hv'⟩
    rw [overlaps_concat, Nat.add_eq_zero_iff, ih, pairwise_append]
    simp [← hshared]

/-- The labels of a whole statement are disjoint if those of each arm are and the arms are. -/
lemma sum_overlaps_eq_zero_iff (vsss : List (List (List Int))) :
    (vsss.map overlaps).sum + overlaps (vsss.map flatten) = 0 ↔
    vsss.flatten.Pairwise List.Disjoint := by
  rw [Nat.add_eq_zero_iff, overlaps_eq_zero_iff, pairwise_flatten, pairwise_map]
  refine and_congr ?_ ?_
  · induction vsss with
    | nil => simp
    | cons vss rest ih => simp [Nat.add_eq_zero_iff, overlaps_eq_zero_iff, ih]
  · have hflat {xs ys : List (List Int)} : List.Disjoint xs.flatten ys.flatten ↔
        ∀ x ∈ xs, ∀ y ∈ ys, List.Disjoint x y := by
      simp only [List.Disjoint, mem_flatten]
      exact ⟨fun h x hx y hy v hv hv' => h ⟨x, hx, hv⟩ ⟨y, hy, hv'⟩, by
        rintro h v ⟨x, hx, hv⟩ ⟨y, hy, hv'⟩
        exact h x hx y hy hv hv'⟩
    simp only [hflat]

/-- A "duplicate case labels" error. -/
def IsDuplicate (d : Diagnostic Message) : Prop :=
  d.severity = .error ∧ d.message = .cases .duplicateLabels

/-- There are `n` more errors about duplicate labels, and nothing else has changed. -/
def Complains (a : Analysis) (n : Nat) (b : Analysis) : Prop :=
  ∃ ds, b = a.noted ds ∧ ds.length = n ∧ ∀ d ∈ ds, IsDuplicate d

lemma Complains.refl (a) : Complains a 0 a :=
  ⟨[], a.noted_nil.symm, rfl, fun _ h => by cases h⟩

lemma Complains.trans (h : Complains a m b) (h' : Complains b n c) : Complains a (m + n) c := by
  obtain ⟨ds, rfl, rfl, hds⟩ := h
  obtain ⟨ds', rfl, rfl, hds'⟩ := h'
  exact ⟨ds ++ ds', a.noted_noted ds ds', length_append, forall_mem_append.2 ⟨hds, hds'⟩⟩

lemma complains_reportIf (a condition span) :
    Complains a (if condition then 1 else 0)
      (reportIf condition span (.cases .duplicateLabels) a).2 := by
  cases condition with
  | false => exact .refl a
  | true =>
    refine ⟨[⟨.error, .cases .duplicateLabels, span⟩], rfl, rfl, ?_⟩
    exact forall_mem_singleton.2 ⟨rfl, rfl⟩

lemma labelValues_run (h : StandsFor label vs) (a) : labelValues label a = (some vs, a) := by
  cases h with
  | @constant e v h =>
    cases label with
    | range => cases h
    | _ => simp only [labelValues, h]; rfl
  | range note hl hh h => simp only [labelValues, hl, hh, if_pos h]; rfl

/-- Going through labels: `done` are the values of those in front of them. -/
lemma scanLabels_run (h : List.Forall₂ (fun l vs => Suits type l ∧ StandsFor l vs) labels vss)
    (frame second) {scan : LabelScan} {done : List (List Int)}
    (hv : scan.values.map Prod.fst = done.flatten) (hg : scan.guard = none)
    (hc : scan.chars = none ∨ scan.chars = some type.isChar) (a) : ∃ final b n,
    scanLabels frame second scan labels a = (final, b) ∧ Complains a n b ∧
    final.values.map Prod.fst = (done ++ vss).flatten ∧ final.guard = none ∧ overlaps done + n =
    overlaps (done ++ vss) := by
  induction h generalizing scan done a with
  | nil => exact ⟨scan, a, 0, rfl, .refl a, by simpa using hv, hg, by simp⟩
  | @cons label vs labels vss h _ ih =>
    obtain ⟨hs, hden⟩ := h
    let shared := vs.any fun v => scan.values.any fun seen => seen.1 == v
    let next : LabelScan :=
      { scan with values := scan.values ++ vs.map fun v => (v, label.span), chars := some type.isChar }
    have hmixed : (scan.chars == some !type.isChar) = false := by
      rcases hc with hc | hc <;> rw [hc]
      · rfl
      · cases type.isChar <;> rfl
    have hlabel : discreteLabel scan label a =
        (next, (reportIf shared label.span (.cases .duplicateLabels) a).2) := by
      simp only [discreteLabel, hmixed, Bool.false_eq_true, if_false, bind_run,
        labelValues_run hden, pure_run, hs.isChar]
      rfl
    obtain ⟨final, b, n, hrun, hcomplains, hvalues, hguard, hcount⟩ :=
      @ih next (done ++ [vs]) (by simp [next, hv, Function.comp_def]) hg (.inr rfl)
        (reportIf shared label.span (.cases .duplicateLabels) a).2
    have hshared : shared = vs.any fun v => done.any fun ws => ws.contains v := by
      refine congrArg vs.any (funext fun v => ?_)
      rw [Bool.eq_iff_iff]
      have hmem : v ∈ scan.values.map Prod.fst ↔ v ∈ done.flatten := by rw [hv]
      simpa using hmem
    refine ⟨final, b, _, ?_, (complains_reportIf a shared label.span).trans hcomplains, ?_, hguard, ?_⟩
    · simp only [scanLabels, hs.isDiscrete, if_true, bind_run, hlabel]
      exact hrun
    · simpa using hvalues
    · rw [append_assoc] at hcount
      rw [← singleton_append, ← hcount, overlaps_concat, hshared]
      omega

lemma caseLabels_run (h : List.Forall₂ (fun l vs => Suits type l ∧ StandsFor l vs) labels vss)
    (span a) : (caseLabels span labels a).1.labels = labels ∧
    (caseLabels span labels a).1.values.map Prod.fst = vss.flatten ∧
    Complains a (overlaps vss) (caseLabels span labels a).2 := by
  have hframe : (caseFrame a).2 = a := by
    simp only [caseFrame, get_bind_run]
    cases a.cases <;> rfl
  obtain ⟨final, b, n, hrun, hcomplains, hvalues, _, hcount⟩ :=
    scanLabels_run h (caseFrame a).1 labels[1]?
      (show ({} : LabelScan).values.map Prod.fst = ([] : List (List Int)).flatten from rfl) rfl (.inl rfl) a
  rw [nil_append] at hcount
  rw [← hcount]
  simp only [caseLabels, bind_run, hframe, hrun]
  exact ⟨rfl, hvalues, by simpa [overlaps] using hcomplains⟩

lemma caseArm_run {labels : CaseLabels} (h : ∀ l ∈ labels.labels, Suits type l)
    (ha : a.cases = ⟨type, none, declared⟩ :: frames) (body) : caseArm labels body a =
    (.mk labels body, a) := by
  have hdomain : checkDomain ⟨type, none, declared⟩ labels a = ((), a) := by
    simp only [checkDomain, getStore_bind_run]
    cases hfound : (labels.labels.map Expr.type).find? isDiscrete with
    | none => rfl
    | some found =>
      obtain ⟨l, hl, rfl⟩ := mem_map.1 (mem_of_find?_eq_some hfound)
      have htype : (a.store.isPointer type || a.store.isRecord type) = false := by
        cases type with
        | composite k =>
          have hd := (h l hl).isDiscrete
          rw [isDiscrete, (h l hl).isEntire, (h l hl).isChar] at hd
          cases hd
        | _ => rfl
      simp [(h l hl).isEntire, (h l hl).isChar, htype, reportIf]
  unfold caseArm
  rw [get_bind_run, ha]
  dsimp only
  rw [bind_run, hdomain]
  rfl

lemma complains_checkDisjoint (arms) (done : List (List Int)) (a) : ∃ n,
    Complains a n (checkDisjoint done.flatten arms a).2 ∧ overlaps done + n =
    overlaps (done ++ arms.map fun arm => arm.labels.values.map Prod.fst) := by
  induction arms generalizing done a with
  | nil => exact ⟨0, .refl a, by simp⟩
  | cons arm rest ih =>
    let vs := arm.labels.values.map Prod.fst
    let shared := vs.any fun v => done.any fun ws => ws.contains v
    obtain ⟨b, hreport, hrun⟩ : ∃ b, Complains a (if shared then 1 else 0) b ∧
        checkDisjoint done.flatten (arm :: rest) a = checkDisjoint (done ++ [vs]).flatten rest b := by
      have hshared : shared = (arm.labels.values.find? fun v => done.flatten.contains v.1).isSome := by
        rw [Bool.eq_iff_iff, find?_isSome]
        simp [shared, vs]
      simp only [checkDisjoint, flatten_append, flatten_singleton]
      cases hfound : arm.labels.values.find? fun v => done.flatten.contains v.1 with
      | none =>
        rw [hshared, hfound]
        exact ⟨a, .refl a, rfl⟩
      | some found =>
        rw [hshared, hfound]
        exact ⟨_, complains_reportIf a true found.2, rfl⟩
    obtain ⟨n, hcomplains, hcount⟩ := ih (done ++ [vs]) b
    rw [hrun]
    refine ⟨_, hreport.trans hcomplains, ?_⟩
    rw [append_assoc, overlaps_concat] at hcount
    rw [map_cons, ← singleton_append, ← hcount]
    exact (Nat.add_assoc _ _ _).symm

/-- The arms of a CASE statement are gone through one after the other. The labels of an arm stand for
`vss`. Of the statements of the arm, which lead from `b` to `c`, it is only known that they leave the
CASE statements around them alone. `ds` are the diagnostics of all the rest. -/
inductive ReadsArms (type : Ty) : Analysis → List (List (List Int)) → List Arm →
    List (Diagnostic Message) → Analysis → Prop
  | nil (a : Analysis) : ReadsArms type a [] [] [] a
  | cons {a b c d e : Analysis} {span : Span} {labels : List Expr} {vss : List (List Int)}
      {ls : CaseLabels} {body : List Statement} {arm : Arm} {vsss : List (List (List Int))}
      {arms : List Arm} {ds : List (Diagnostic Message)}
      (hd : List.Forall₂ (fun l vs => Suits type l ∧ StandsFor l vs) labels vss)
      (hl : caseLabels span labels a = (ls, b)) (hb : c.cases = b.cases)
      (ha : caseArm ls body c = (arm, d)) (h : ReadsArms type d vsss arms ds e) :
      ReadsArms type a (vss :: vsss) (arm :: arms) (a.reported b ++ c.reported d ++ ds) e

lemma Complains.reported (h : Complains a n b) : (a.reported b).length = n ∧
    (∀ d ∈ a.reported b, IsDuplicate d) ∧ b.cases = a.cases := by
  obtain ⟨ds, rfl, hlength, hall⟩ := h
  rw [reported_noted]
  exact ⟨hlength, hall, rfl⟩

lemma ReadsArms.counts (h : ReadsArms type a vsss arms ds b)
    (ha : a.cases = ⟨type, none, declared⟩ :: frames) :
    arms.map (fun arm => arm.labels.values.map Prod.fst) = vsss.map flatten ∧ ds.length =
    (vsss.map overlaps).sum ∧ ∀ d ∈ ds, IsDuplicate d := by
  induction h with
  | nil => exact ⟨rfl, rfl, fun d hd => by cases hd⟩
  | @cons a b c d e span labels vss ls body arm vsss arms ds hd hl hb harm _ ih =>
    obtain ⟨hlabels, hvalues, hcomplains⟩ := caseLabels_run hd span a
    rw [hl] at hlabels hvalues hcomplains
    obtain ⟨hlength, hall, hcases⟩ := hcomplains.reported
    have hc : c.cases = ⟨type, none, declared⟩ :: frames := by rw [hb, hcases, ha]
    have hsuits : ∀ l ∈ ls.labels, Suits type l := by
      rw [hlabels]
      intro l hl
      obtain ⟨vs, _, h⟩ := exists_of_forall₂ hd.flip hl
      exact h.1
    rw [caseArm_run hsuits hc body] at harm
    cases harm
    have hnone : c.reported c = [] := by simpa [noted_nil] using c.reported_noted []
    obtain ⟨hvs, hsum, hds⟩ := ih hc
    rw [hnone, append_nil]
    refine ⟨?_, ?_, ?_⟩
    · rw [map_cons, map_cons, hvs]
      exact congrArg (· :: _) hvalues
    · simp [hlength, hsum]
    · exact forall_mem_append.2 ⟨hall, hds⟩

/-- The values of an arm are those its labels stand for, in order. There is one error for each label
with a value of an earlier label of its arm, and one for each arm with a value of an earlier arm. So
there is none exactly if the labels of the statement are disjoint. -/
theorem duplicates_counted {subject : Expr} (hs : isDiscrete subject.type = true)
    {vsss : List (List (List Int))} {arms : List Arm} {ds : List (Diagnostic Message)}
    (h : ReadsArms subject.type (beginCase subject a).2 vsss arms ds b) (span : Span)
    (otherwise : Option (List Statement)) (c : Analysis) :
    let all := ds ++ c.reported (endCase span subject arms otherwise c).2
    arms.map (fun arm => arm.labels.values.map Prod.fst) = vsss.map flatten ∧
    (∀ d ∈ all, IsDuplicate d) ∧
    all.length = (vsss.map overlaps).sum + overlaps (vsss.map flatten) ∧
    (all = [] ↔ vsss.flatten.Pairwise List.Disjoint) := by
  intro all
  have hbegin : (beginCase subject a).2.cases = ⟨subject.type, none, subject.type⟩ :: a.cases := by
    have hno : (a.store.isPointer subject.type || a.store.isRecord subject.type) = false := by
      cases ht : subject.type with
      | composite k => rw [ht] at hs; cases hs
      | _ => rfl
    unfold beginCase
    rw [getStore_bind_run]
    simp only [hno]
    rfl
  obtain ⟨hvalues, hsum, hds⟩ := h.counts hbegin
  let c' := { c with cases := c.cases.tail }
  obtain ⟨n, hcomplains, hcount⟩ := complains_checkDisjoint arms [] c'
  have hall : all = ds ++ c'.reported (checkDisjoint [] arms c').2 := by
    simp only [all, endCase, hs, if_true]
    rfl
  obtain ⟨hlength, hds', _⟩ := hcomplains.reported
  have htotal : all.length = (vsss.map overlaps).sum + overlaps (vsss.map flatten) := by
    rw [nil_append, hvalues] at hcount
    rw [hall, length_append, hsum, ← hcount]
    simpa [overlaps] using hlength
  refine ⟨hvalues, hall ▸ forall_mem_append.2 ⟨hds, hds'⟩, htotal, ?_⟩
  rw [← length_eq_zero_iff, htotal, sum_overlaps_eq_zero_iff]

/-- The integer `v` as an expression. -/
def numeral (v : Int) : Expr := .literal (.integer v) { type := .basic .integer, span := .none }

/-- In `CASE 0 OF 1, 1 .. 2: | 2: END` the second label of the first arm and the second arm repeat a
value. -/
theorem duplicates_counted_twice :
    ∃ (arms : List Arm) (b : Analysis) (ds : List (Diagnostic Message)),
    ReadsArms (numeral 0).type (beginCase (numeral 0) (start {} {})).2 [[[1], [1, 2]],
     [[2]]] arms ds b ∧ (ds ++ b.reported (endCase .none (numeral 0) arms none b).2).length =
    2 := by
  have hsuits (v : Int) : Suits (numeral 0).type (numeral v) := ⟨rfl, rfl, rfl⟩
  have hrange : StandsFor (.range (numeral 1) (numeral 2) (numeral 1).note) (interval 1 2) :=
    .range _ rfl rfl (by decide)
  have hfirst : List.Forall₂ (fun l vs => Suits (numeral 0).type l ∧ StandsFor l vs)
      [numeral 1, .range (numeral 1) (numeral 2) (numeral 1).note] [[1], [1, 2]] :=
    .cons ⟨hsuits 1, .constant rfl⟩ (.cons ⟨⟨rfl, rfl, rfl⟩, hrange⟩ .nil)
  have harms := ReadsArms.cons (a := (beginCase (numeral 0) (start {} {})).2) hfirst
    (rfl : caseLabels .none _ _ = _) rfl (rfl : caseArm _ [] _ = _)
    (.cons (.cons ⟨hsuits 2, .constant rfl⟩ .nil) (rfl : caseLabels .none _ _ = _) rfl
      (rfl : caseArm _ [] _ = _) (.nil _))
  exact ⟨_, _, _, harms, (duplicates_counted rfl harms .none none _).2.2.1⟩

/-! ## Types -/

/-- The types of the arms. -/
def guards (arms : List Arm) : List Ty := arms.filterMap fun arm => arm.labels.guard

/-- The arm that a value of type `t` selects: the first whose type it extends. -/
def selectedArm? (s : Store) (arms : List Arm) (t : Ty) : Option Nat :=
  arms.findIdx? fun arm => arm.labels.guard.any (s.isExtension t)

/-- What is reported at `span` about an arm of the given type behind arms of the types `earlier`. -/
def guardReports (a : Analysis) (earlier : List Ty) (span : Span) (guard : Ty) :
    List (Diagnostic Message) :=
  if earlier.contains guard then [⟨.error, .cases .duplicateLabels, span⟩]
  else if earlier.any (a.store.isExtension guard) then
    [⟨if a.log.strict then .error else .warning, .cases .unreachableArm, span⟩]
  else []

lemma checkGuards_cons {arm : Arm} {guard : Ty} (h : arm.labels.guard = some guard)
    (earlier rest a) : checkGuards earlier (arm :: rest) a =
    checkGuards (earlier ++ [guard]) rest (a.noted (guardReports a earlier arm.labels.span guard)) :=
      by
  simp only [checkGuards, h, getStore_bind_run, guardReports]
  split
  · rfl
  · split
    · rfl
    · rw [noted_nil]

lemma checkGuards_append (xs ys : List Arm) (earlier a) : (checkGuards earlier (xs ++ ys) a).2 =
    (checkGuards (earlier ++ guards xs) ys (checkGuards earlier xs a).2).2 := by
  induction xs generalizing earlier a with
  | nil => simp [guards, checkGuards]
  | cons arm rest ih =>
    rw [cons_append]
    cases hg : arm.labels.guard with
    | none => simp only [checkGuards, hg, ih, guards, filterMap_cons]
    | some guard => simp [checkGuards_cons hg, ih, guards, hg]

lemma noted_checkGuards (arms earlier a) : ∃ ds, (checkGuards earlier arms a).2 = a.noted ds := by
  induction arms generalizing earlier a with
  | nil => exact ⟨[], a.noted_nil.symm⟩
  | cons arm rest ih =>
    cases hg : arm.labels.guard with
    | none =>
      simp only [checkGuards, hg]
      exact ih earlier a
    | some guard =>
      rw [checkGuards_cons hg]
      obtain ⟨ds, hds⟩ := ih (earlier ++ [guard]) (a.noted (guardReports a earlier arm.labels.span guard))
      exact ⟨_, hds.trans (a.noted_noted _ ds)⟩

lemma endCase_types {subject : Expr}
    (hs : (a.store.isPointer subject.type || a.store.isRecord subject.type)) (span arms otherwise) :
    (endCase span subject arms otherwise a).2 =
      (checkGuards [] arms { a with cases := a.cases.tail }).2 := by
  have hd : isDiscrete subject.type = false := by
    cases ht : subject.type with
    | composite k => rfl
    | _ => rw [ht] at hs; cases hs
  unfold endCase
  rw [bind_run, getStore_bind_run]
  simp only [hd, modify_run, hs]
  rfl

lemma guardReports_ne_nil_iff (a earlier span guard) : guardReports a earlier span guard ≠ [] ↔
    ∃ g ∈ earlier, a.store.isExtension guard g := by
  have hmem : earlier.contains guard → ∃ g ∈ earlier, a.store.isExtension guard g :=
    fun h => ⟨guard, by simpa using h, a.store.isExtension_refl guard⟩
  unfold guardReports
  split
  · next h => simpa using hmem h
  · split
    · next h => simpa using h
    · next h => simpa using h

lemma selectedArm?_eq_length_iff (s) {arm : Arm} {guard : Ty} (hg : arm.labels.guard = some guard)
    (before after t) : selectedArm? s (before ++ arm :: after) t = some before.length ↔
    s.isExtension t guard ∧ ¬ ∃ g ∈ guards before, s.isExtension t g := by
  have hbefore : before.findIdx? (fun arm => arm.labels.guard.any (s.isExtension t)) = none ↔
      ¬ ∃ g ∈ guards before, s.isExtension t g := by
    simp only [findIdx?_eq_none_iff, guards, mem_filterMap, Option.any_eq_false]
    grind
  rw [← hbefore, selectedArm?, findIdx?_append, findIdx?_cons]
  cases hfound : before.findIdx? fun arm => arm.labels.guard.any (s.isExtension t) with
  | none => cases h : s.isExtension t guard <;> simp [hg, h] <;> grind
  | some i =>
    have hi := (findIdx?_eq_some_iff_getElem.1 hfound).1
    simp
    omega

/-- An arm is reported exactly if no value selects it: what extends its type extends the type of an
earlier arm. -/
theorem reported_iff_never_selected {subject : Expr} {arm : Arm} {guard : Ty}
    (hs : (a.store.isPointer subject.type || a.store.isRecord subject.type) = true)
    (hg : arm.labels.guard = some guard) (before after : List Arm) (span : Span)
    (otherwise : Option (List Statement)) :
    let ending arms := (endCase span subject arms otherwise a).2
    let flags := (ending before).reported (ending (before ++ [arm]))
    (∃ later, a.reported (ending (before ++ arm :: after)) =
      a.reported (ending before) ++ flags ++ later) ∧
    (flags = [] ∨ flags = [⟨.error, .cases .duplicateLabels, arm.labels.span⟩] ∨
      flags = [⟨if a.log.strict then .error else .warning, .cases .unreachableArm, arm.labels.span⟩]) ∧
    (flags ≠ [] ↔ ∀ t, a.store.isExtension t guard = true →
      ∃ g ∈ guards before, a.store.isExtension t g = true) ∧
    (flags ≠ [] ↔ ∀ t, selectedArm? a.store (before ++ arm :: after) t ≠ some before.length) := by
  intro ending flags
  let a' := { a with cases := a.cases.tail }
  obtain ⟨ds, hbefore⟩ := noted_checkGuards before [] a'
  let b := a'.noted ds
  let reports := guardReports a (guards before) arm.labels.span guard
  have hending : ending before = b := (endCase_types hs span before otherwise).trans hbefore
  have hrest (rest : List Arm) : ending (before ++ arm :: rest) =
      (checkGuards (guards before ++ [guard]) rest (b.noted reports)).2 := by
    simp only [ending, endCase_types hs, checkGuards_append, hbefore, nil_append,
      checkGuards_cons hg, a']
    rfl
  have hflags : flags = reports := by
    simp only [flags, hending, hrest []]
    exact b.reported_noted reports
  have hiff : flags ≠ [] ↔ ∀ t, a.store.isExtension t guard = true →
      ∃ g ∈ guards before, a.store.isExtension t g = true := by
    rw [hflags, guardReports_ne_nil_iff]
    -- the type of the arm itself is the one that tells
    constructor
    · rintro ⟨g, hg, h⟩ t ht
      exact ⟨g, hg, Store.isExtension_trans ht h⟩
    · exact fun h => h guard (a.store.isExtension_refl guard)
  refine ⟨?_, ?_, hiff, hiff.trans ?_⟩
  · obtain ⟨later, hlater⟩ := noted_checkGuards after (guards before ++ [guard]) (b.noted reports)
    refine ⟨later, ?_⟩
    have hfirst : a.reported b = ds := a'.reported_noted ds
    rw [hrest, hlater, hflags, hending, hfirst, noted_noted, noted_noted, ← append_assoc]
    exact a'.reported_noted _
  · rw [hflags]
    simp only [reports, guardReports]
    split
    · exact .inr (.inl rfl)
    · split
      · exact .inr (.inr rfl)
      · exact .inl rfl
  · refine forall_congr' fun t => ?_
    rw [ne_eq, selectedArm?_eq_length_iff _ hg, not_and_not_right]

/-- A record and an extension of it. -/
def family : Store where
  types := #[{ form := .record ⟨[], none, 0⟩ }, { form := .record ⟨[], some (.composite 0), 1⟩ }]

/-- An arm for the type at `k`. -/
def typeArm (k : Nat) : Arm := .mk ⟨[], [], some (.composite k), .none⟩ []

/-- Behind the arm for the record, nothing selects the arm for the extension. -/
theorem reported_iff_never_selected_extension : family.isRecord (.composite 0) = true ∧
    (typeArm 1).labels.guard = some (.composite 1) ∧ ∀ t,
    selectedArm? family [typeArm 0, typeArm 1] t ≠ some 1 := by
  let a : Analysis := { start {} {} with store := family }
  let subject : Expr := .literal .nil { type := .composite 0, span := .none }
  have hs : (a.store.isPointer subject.type || a.store.isRecord subject.type) = true := rfl
  have hg : (typeArm 1).labels.guard = some (.composite 1) := rfl
  have hflagged := (reported_iff_never_selected hs hg [typeArm 0] [] .none none).2.2.2
  exact ⟨rfl, hg, hflagged.1 (cons_ne_nil _ _)⟩

end Analyze
end Oberon
