import Oberon.Proofs.Levels
import Oberon.Proofs.Whole

/-!
# Oberon.Proofs.Forest

Extension as an order. It is reflexive and transitive in every store, whatever pointers lead to in it:
a walk along pointers and bases never needs more steps than the store has types. In the store of an
accepted module the base chains come to an end, imported ones included, so on records extension is an
order, and what a record extends is a chain. A pointer extends another as its base extends the other's.
-/

namespace Oberon

open List Option Store Universe
namespace Store

variable {s : Store}

/-! ## Fuel -/

/-- `n` pointers lead from one to the other, and the last one to a record. -/
inductive Leads (s : Store) : Ty → Nat → Prop
  | record {t : Ty} {r : RecordForm} (h : s.form? t = some (.record r)) : Leads s t 0
  | pointer {t b : Ty} {n : Nat} (h : s.form? t = some (.pointer (some b))) (hb : Leads s b n) :
      Leads s t (n + 1)

lemma Leads.unique (h : s.Leads t m) (h' : s.Leads t n) : m = n := by
  induction h generalizing n with
  | record h =>
    cases h' with
    | record => rfl
    | pointer h' =>
      rw [h] at h'
      cases h'
  | pointer h _ ih =>
    cases h' with
    | record h' =>
      rw [h] at h'
      cases h'
    | pointer h' hb =>
      rw [h] at h'
      cases h'
      rw [ih hb]

/-- No pointer comes twice on the way to a record. -/
lemma Leads.pointers (h : s.Leads t n) : ∃ ps : List Ty, ps.length = n ∧ ps.Nodup ∧ ∀ p ∈ ps,
    (∃ b, s.form? p = some (.pointer (some b))) ∧ ∃ k ≤ n, s.Leads p k := by
  induction h with
  | record => exact ⟨[], rfl, .nil, fun p hp => by cases hp⟩
  | @pointer t b n h hb ih =>
    obtain ⟨ps, hlength, hnodup, hps⟩ := ih
    refine ⟨t :: ps, by rw [length_cons, hlength], nodup_cons.2 ⟨fun ht => ?_, hnodup⟩, ?_⟩
    · obtain ⟨_, k, hk, ht⟩ := hps t ht
      have := ht.unique (.pointer h hb)
      omega
    · refine forall_mem_cons.2 ⟨⟨⟨b, h⟩, n + 1, Nat.le_refl _, .pointer h hb⟩, fun p hp => ?_⟩
      obtain ⟨hp, k, hk, hlead⟩ := hps p hp
      exact ⟨hp, k, Nat.le_succ_of_le hk, hlead⟩

/-- The fuel is enough to go on to a record and along all others. -/
def Suffices (s : Store) (fuel : Nat) (t : Ty) : Prop :=
  ∀ (n : Nat) (ts : List Ty), s.Leads t n → ts.Nodup → (∀ x ∈ ts, ∃ r, s.form? x = some (.record r)) →
    n + ts.length ≤ fuel

lemma suffices_size (s : Store) (t) : s.Suffices s.types.size t := by
  intro n ts hlead hnodup hts
  obtain ⟨ps, rfl, hnodup', hps⟩ := hlead.pointers
  rw [← length_append]
  refine length_le_of_nodup (nodup_append.2 ⟨hnodup', hnodup, ?_⟩) fun x hx => ?_
  · rintro p hp q hq rfl
    obtain ⟨⟨b, hb⟩, _⟩ := hps p hp
    obtain ⟨r, hr⟩ := hts p hq
    rw [hb] at hr
    cases hr
  · rcases mem_append.1 hx with hx | hx
    · exact ⟨_, (hps x hx).1.choose_spec⟩
    · exact ⟨_, (hts x hx).choose_spec⟩

lemma Suffices.base (h : s.Suffices (fuel + 1) t) (ht : s.form? t = some (.pointer (some b))) :
    s.Suffices fuel b := by
  intro n ts hlead hnodup hts
  have := h (n + 1) ts (.pointer ht hlead) hnodup hts
  omega

lemma Suffices.extendsWithin (h : s.Suffices fuel t) (ht : s.isRecord t) (hu : s.isRecord u)
    (he : s.Extends t u) : s.extendsWithin fuel t u := by
  obtain ⟨ts, hnodup, hwalk⟩ := he.walk
  obtain ⟨r, hr⟩ := isRecord_iff.1 ht
  have := h 0 ts (.record hr) hnodup hwalk.record
  exact hwalk.extendsWithin hu fuel (by omega)

/-! ## Extension in any store -/

/-- A step of the walk: to the base of a record, or to the bases of two pointers. -/
lemma extendsWithin_succ : s.extendsWithin (fuel + 1) t u ↔ t = u ∨
    (s.isRecord t ∧ s.isRecord u ∧ ∃ r b, s.record? t = some r ∧ r.base = some b ∧
     s.extendsWithin fuel b u) ∨ ∃ a b, s.form? t = some (.pointer (some a)) ∧ s.form? u =
    some (.pointer (some b)) ∧ s.extendsWithin fuel a b := by
  simp only [extendsWithin, Bool.or_eq_true, beq_iff_eq, isRecord_iff, record?_eq_some]
  refine or_congr_right ⟨fun h => ?_, ?_⟩
  · split at h
    · next r r' hr hr' =>
      split at h
      · next b hb => exact .inl ⟨⟨r, hr⟩, ⟨r', hr'⟩, r, b, hr, hb, h⟩
      · cases h
    · next a b ha hb => exact .inr ⟨a, b, ha, hb, h⟩
    · cases h
  · rintro (⟨_, ⟨r', hr'⟩, r, b, hr, hb, h⟩ | ⟨a, b, ha, hb, h⟩)
    · simp only [hr, hr', hb, h]
    · simp only [ha, hb, h]

lemma extendsWithin_refl (s : Store) (fuel t) : s.extendsWithin fuel t t := by
  cases fuel <;> simp [extendsWithin]

lemma isExtension_refl (s : Store) (t) : s.isExtension t t := s.extendsWithin_refl _ t

lemma isRecord_of_extendsWithin (ht : s.isRecord t) (h : s.extendsWithin fuel t u) :
    s.isRecord u := by
  cases fuel with
  | zero => rwa [← eq_of_beq h]
  | succ fuel =>
    rcases extendsWithin_succ.1 h with rfl | ⟨_, hu, _⟩ | ⟨a, b, ha, _⟩
    · exact ht
    · exact hu
    · obtain ⟨r, hr⟩ := isRecord_iff.1 ht
      rw [hr] at ha
      cases ha

lemma extendsWithin_trans (hf : s.Suffices fuel t) (htu : s.extendsWithin fuel t u)
    (huv : s.extendsWithin fuel u v) : s.extendsWithin fuel t v := by
  induction fuel generalizing t u v with
  | zero => rwa [eq_of_beq htu]
  | succ fuel ih =>
    rcases extendsWithin_succ.1 htu with rfl | ⟨ht, hu, _⟩ | ⟨a, b, ha, hb, hab⟩
    · exact huv
    · -- along the chain of `u` to `v`
      have hv := isRecord_of_extendsWithin hu huv
      exact hf.extendsWithin ht hv
        ((extends_of_extendsWithin hu _ t htu).trans (extends_of_extendsWithin hv _ u huv))
    · rcases extendsWithin_succ.1 huv with rfl | ⟨hu, _⟩ | ⟨b', c, hb', hc, hbc⟩
      · exact htu
      · obtain ⟨r, hr⟩ := isRecord_iff.1 hu
        rw [hb] at hr
        cases hr
      · -- all three go on to their bases
        rw [hb] at hb'
        cases hb'
        exact extendsWithin_succ.2 (.inr (.inr ⟨a, c, ha, hc, ih (hf.base ha) hab hbc⟩))

lemma isExtension_trans (htu : s.isExtension t u) (huv : s.isExtension u v) : s.isExtension t v :=
  extendsWithin_trans (s.suffices_size t) htu huv

lemma isExtension_total (ht : s.isRecord t) (hu : s.isExtension t u) (hv : s.isExtension t v) :
    s.isExtension u v ∨ s.isExtension v u := by
  have hur := isRecord_of_extendsWithin ht hu
  have hvr := isRecord_of_extendsWithin ht hv
  rw [isExtension_iff hvr, isExtension_iff hur]
  exact ((isExtension_iff hur).1 hu).total ((isExtension_iff hvr).1 hv)

/-! ## Base chains that end -/

lemma Extends.depth (h : s.Extends t u) (hd : s.Depth t n) : ∃ m ≤ n, s.Depth u m ∧
    (m = n → t = u) := by
  induction h generalizing n with
  | refl t => exact ⟨n, Nat.le_refl n, hd, fun _ => rfl⟩
  | step hr hb _ ih =>
    cases hd with
    | root hr' hb' =>
      rw [hr] at hr'
      cases hr'
      rw [hb] at hb'
      cases hb'
    | extension hr' hb' hd =>
      rw [hr] at hr'
      cases hr'
      rw [hb] at hb'
      cases hb'
      obtain ⟨m, hm, hdu, _⟩ := ih hd
      exact ⟨m, Nat.le_succ_of_le hm, hdu, fun h => by omega⟩

lemma Grounded.antisymm (hs : s.Grounded) (ht : s.isRecord t) (htu : s.isExtension t u)
    (hut : s.isExtension u t) : t = u := by
  obtain ⟨r, hr⟩ := isSome_iff_exists.1 ht
  obtain ⟨n, hd⟩ := hs.depth hr
  have hu := isRecord_of_extendsWithin ht htu
  obtain ⟨m, hm, hdu, heq⟩ := ((isExtension_iff hu).1 htu).depth hd
  obtain ⟨k, hk, hdt, _⟩ := ((isExtension_iff ht).1 hut).depth hdu
  have := hdt.unique hd
  exact heq (by omega)

lemma isExtension_pointer_iff (hp : s.form? p = some (.pointer (some a)))
    (hq : s.form? q = some (.pointer (some b))) (hb : s.isRecord b ∨ b = .any) : s.isExtension p q ↔
    s.isExtension a b := by
  have hpos : 0 < s.types.size := by
    cases p with
    | composite k => exact Nat.lt_of_le_of_lt (Nat.zero_le k) (lt_of_form? hp)
    | _ => cases hp
  obtain ⟨fuel, hfuel⟩ : ∃ fuel, s.types.size = fuel + 1 := ⟨s.types.size - 1, by omega⟩
  have hsuffices : s.Suffices fuel a := (hfuel ▸ s.suffices_size p : s.Suffices (fuel + 1) p).base hp
  -- less fuel than for the pointers is enough for their bases
  have hbases : s.extendsWithin fuel a b ↔ s.isExtension a b := by
    rcases hb with hb | rfl
    · rw [isExtension_iff hb]
      refine ⟨extends_of_extendsWithin hb fuel a, fun h => ?_⟩
      cases h with
      | refl => exact s.extendsWithin_refl fuel a
      | step hr hbase hu =>
        exact hsuffices.extendsWithin (isSome_iff_exists.2 ⟨_, hr⟩) hb (.step hr hbase hu)
    · have hany (k : Nat) : s.extendsWithin k a .any ↔ a = .any := by
        refine ⟨fun h => ?_, fun h => h ▸ s.extendsWithin_refl k _⟩
        cases k with
        | zero => exact eq_of_beq h
        | succ k =>
          rcases extendsWithin_succ.1 h with h | ⟨_, h, _⟩ | ⟨_, _, _, h, _⟩
          · exact h
          · cases h
          · cases h
      exact (hany fuel).trans (hany _).symm
  rw [← hbases, isExtension, hfuel, extendsWithin_succ]
  constructor
  · rintro (rfl | ⟨hr, _⟩ | ⟨a', b', ha', hb', h⟩)
    · rw [hp] at hq
      cases hq
      exact s.extendsWithin_refl fuel a
    · obtain ⟨r, hr⟩ := isRecord_iff.1 hr
      rw [hp] at hr
      cases hr
    · rw [hp] at ha'
      rw [hq] at hb'
      cases ha'
      cases hb'
      exact h
  · exact fun h => .inr (.inr ⟨a, b, hp, hq, h⟩)

end Store

/-! ## Accepted modules -/

lemma Universe.pointer?_standard (h : standard.store.pointer? (.composite k) = some base) : base = some .any := by
  have hall : (range standard.store.types.size).all
      (fun k => (standard.store.pointer? (.composite k)).all (· == some .any)) := by
    decide +kernel
  have hk := lt_of_form? (pointer?_eq_some.1 h)
  have hany := all_eq_true.1 hall k (mem_range.2 hk)
  rw [h] at hany
  exact eq_of_beq hany

namespace Outcome

/-- The predefined types stay as they are. -/
lemma Accepts.form?_standard (h : (ofSource features library source).Accepts m)
    (hk : k < standard.store.types.size) :
    (ofSource features library source).store.form? (.composite k) =
    standard.store.form? (.composite k) := by
  obtain ⟨b, c, hb, hi, _, _, hphase⟩ := h.phases
  have hstore : b.store = standard.store := hb.store
  rw [← hstore] at hk ⊢
  obtain ⟨f, hf⟩ := form?_of_has hk
  rw [hf]
  rw [← hi.preserves.form? (.composite hk)] at hf
  refine (hphase False False.elim).store.form_eq hf (.inl (Nat.lt_of_lt_of_le hk ?_))
  exact hi.preserves.types_le

/-- Every pointer has a base, which is a record unless the pointer is predefined. -/
lemma Accepts.pointer_base (h : (ofSource features library source).Accepts m) (hl : library.Built)
    (hp : (ofSource features library source).store.isPointer p) : ∃ b,
    (ofSource features library source).store.form? p = some (.pointer (some b)) ∧
    ((ofSource features library source).store.isRecord b ∨ b = .any) := by
  have hwhole := h.whole hl.whole
  obtain ⟨base, hbase⟩ := isSome_iff_exists.1 hp
  have hform := pointer?_eq_some.1 hbase
  cases base with
  | none => exact absurd hform (hwhole.based p)
  | some b =>
    refine ⟨b, hform, ?_⟩
    cases p with
    | composite k =>
      by_cases hk : standard.store.types.size ≤ k
      · exact .inl (hwhole.pointing (.composite k) b hk hform)
      · rw [h.form?_standard (Nat.lt_of_not_le hk)] at hform
        exact .inr (some.inj (pointer?_standard (pointer?_eq_some.2 hform)))
    | _ => cases hform

/-- Extension is a forest order on the records of an accepted module, imported ones included, and
pointers are ordered as their bases are. -/
theorem extension_forest (features : Features) (library : Library) (source : String) (m : Module)
    (hl : library.Built) (h : (ofSource features library source).Accepts m) :
    let s := (ofSource features library source).store
    (∀ t, s.isExtension t t = true) ∧
    (∀ t u v, s.isExtension t u = true → s.isExtension u v = true → s.isExtension t v = true) ∧
    (∀ t u, s.isRecord t = true → s.isExtension t u = true → s.isExtension u t = true → t = u) ∧
    (∀ t u v, s.isRecord t = true → s.isExtension t u = true → s.isExtension t v = true →
      s.isExtension u v = true ∨ s.isExtension v u = true) ∧
    ∀ p q, s.isPointer p = true → s.isPointer q = true → ∃ a b,
      s.pointer? p = some (some a) ∧ s.pointer? q = some (some b) ∧
      (s.isExtension p q = true ↔ s.isExtension a b = true) := by
  intro s
  have hground : s.Grounded := (h.levels hl.ofGrounded).1
  refine ⟨s.isExtension_refl, fun _ _ _ => Store.isExtension_trans, fun _ _ => hground.antisymm,
    fun _ _ _ => Store.isExtension_total, fun p q hp hq => ?_⟩
  obtain ⟨a, ha, _⟩ := h.pointer_base hl hp
  obtain ⟨b, hb, hrecord⟩ := h.pointer_base hl hq
  exact ⟨a, b, Store.pointer?_eq_some.2 ha, Store.pointer?_eq_some.2 hb,
    Store.isExtension_pointer_iff ha hb hrecord⟩

/-- Of two imported records one extends the other, and not the other way round. -/
theorem extension_forest_chain : ∃ t u : Ty, (ofSource {} chain chainUser).store.isExtension t u =
    true ∧ (ofSource {} chain chainUser).store.isExtension u t = false := by
  obtain ⟨m, t, r, hm, hr, _, hdepth⟩ := chain_spec
  obtain ⟨hrefl, _, hanti, _⟩ := extension_forest {} chain chainUser m chain_built hm
  cases hdepth with
  | @extension _ u r' _ hr' hb hd =>
    have hu : (ofSource {} chain chainUser).store.isExtension t u = true :=
      (Store.isExtension_iff hd.isRecord).2 (.step hr' hb (.refl u))
    refine ⟨t, u, hu, Bool.eq_false_iff.2 fun hut => ?_⟩
    -- otherwise they are the same, but the base chain of the one is shorter
    have heq := hanti t u (Option.isSome_iff_exists.2 ⟨r, hr⟩) hu hut
    rw [← heq] at hd
    have := hd.unique (.extension hr' hb (heq ▸ hd))
    omega

end Outcome
end Oberon
