import Oberon.Proofs.Libraries

/-!
# Oberon.Proofs.Extending

When a record may be passed for another. A record extends what is on its chain of bases, and the walk
along the chain is never cut short. A type that was imported twice is there twice, and the two copies
are on no common chain: a record goes for a parameter of an imported procedure exactly if its chain
runs through the copy that came with that procedure.
-/

namespace Oberon

open Store Ty

variable {ts : List Ty}
namespace Store

variable {s : Store}

/-! ## Chains of bases -/

/-- `u` is on the chain of bases of `t`. -/
inductive Extends (s : Store) : Ty → Ty → Prop
  | refl (t : Ty) : Extends s t t
  | step {t b u : Ty} {r : RecordForm} (h : s.record? t = some r) (hb : r.base = some b)
      (hu : Extends s b u) : Extends s t u

/-- A walk along the chain, with the records that are left behind. -/
inductive Walk (s : Store) : List Ty → Ty → Ty → Prop
  | refl (t : Ty) : Walk s [] t t
  | step {ts : List Ty} {t b u : Ty} {r : RecordForm} (h : s.record? t = some r)
      (hb : r.base = some b) (hu : Walk s ts b u) : Walk s (t :: ts) t u

lemma Walk.record (h : s.Walk ts t u) : ∀ x ∈ ts, ∃ r, s.form? x = some (.record r) := by
  induction h with
  | refl => exact fun x hx => by cases hx
  | step h _ _ ih => exact List.forall_mem_cons.2 ⟨⟨_, record?_eq_some.1 h⟩, ih⟩

/-- A walk may be started at any record on it. -/
lemma Walk.suffix (h : s.Walk ts t u) (hx : x ∈ ts) : ∃ ts', ts' <:+ ts ∧ s.Walk ts' x u := by
  induction h with
  | refl => cases hx
  | @step ts t b u r h hb hu ih =>
    rcases List.mem_cons.1 hx with rfl | hx
    · exact ⟨_, List.suffix_refl _, .step h hb hu⟩
    · obtain ⟨ts', hsuffix, hwalk⟩ := ih hx
      exact ⟨ts', hsuffix.trans (List.suffix_cons _ _), hwalk⟩

/-- No record need be visited twice. -/
lemma Extends.walk (h : s.Extends t u) : ∃ ts, ts.Nodup ∧ s.Walk ts t u := by
  induction h with
  | refl t => exact ⟨[], .nil, .refl t⟩
  | @step t b u r h hb _ ih =>
    obtain ⟨ts, hnodup, hwalk⟩ := ih
    by_cases hmem : t ∈ ts
    · obtain ⟨ts', hsuffix, hwalk'⟩ := hwalk.suffix hmem
      exact ⟨ts', hnodup.sublist hsuffix.sublist, hwalk'⟩
    · exact ⟨t :: ts, List.nodup_cons.2 ⟨hmem, hnodup⟩, .step h hb hwalk⟩

lemma length_le_of_nodup (hnodup : ts.Nodup) (h : ∀ x ∈ ts, ∃ f, s.form? x = some f) :
    ts.length ≤ s.types.size := by
  have hsub : ts ⊆ (List.range s.types.size).map composite := by
    intro x hx
    obtain ⟨f, hf⟩ := h x hx
    cases x with
    | composite k => exact List.mem_map_of_mem (List.mem_range.2 (lt_of_form? hf))
    | _ => cases hf
  simpa using (List.Nodup.subperm hnodup hsub).length_le

lemma Extends.trans (h : s.Extends t u) (h' : s.Extends u v) : s.Extends t v := by
  induction h with
  | refl => exact h'
  | step h hb _ ih => exact .step h hb (ih h')

/-- Chains do not branch. -/
lemma Extends.total (h : s.Extends t u) (h' : s.Extends t v) : s.Extends u v ∨ s.Extends v u := by
  induction h with
  | refl => exact .inl h'
  | step h hb hu ih =>
    cases h' with
    | refl => exact .inr (.step h hb hu)
    | step h' hb' hv =>
      rw [h] at h'
      cases h'
      rw [hb] at hb'
      cases hb'
      exact ih hv

lemma extends_of_extendsWithin (hu : s.isRecord u) (fuel) : ∀ t, s.extendsWithin fuel t u →
    s.Extends t u := by
  obtain ⟨ru, hru⟩ := isRecord_iff.1 hu
  induction fuel with
  | zero =>
    intro t h
    rw [eq_of_beq h]
    exact .refl u
  | succ fuel ih =>
    intro t h
    simp only [extendsWithin, Bool.or_eq_true, beq_iff_eq, hru] at h
    rcases h with rfl | h
    · exact .refl t
    · split at h
      · next r r' hr _ =>
        split at h
        · next b hb => exact .step (record?_eq_some.2 hr) hb (ih b h)
        · cases h
      · next heq => cases heq
      · cases h

lemma Walk.extendsWithin (h : s.Walk ts t u) (hu : s.isRecord u) : ∀ fuel, ts.length ≤ fuel →
    s.extendsWithin fuel t u := by
  obtain ⟨ru, hru⟩ := isRecord_iff.1 hu
  induction h with
  | refl t =>
    intro fuel _
    cases fuel <;> simp [Store.extendsWithin]
  | @step ts t b u r h hb _ ih =>
    intro fuel hfuel
    cases fuel with
    | zero => exact absurd hfuel (Nat.not_succ_le_zero _)
    | succ fuel =>
      simp only [Store.extendsWithin, record?_eq_some.1 h, hru, hb, Bool.or_eq_true]
      exact .inr (ih hu hru fuel (Nat.le_of_succ_le_succ hfuel))

lemma isExtension_iff (hu : s.isRecord u) : s.isExtension t u ↔ s.Extends t u := by
  refine ⟨extends_of_extendsWithin hu _ t, fun h => ?_⟩
  obtain ⟨ts, hnodup, hwalk⟩ := h.walk
  refine hwalk.extendsWithin hu _ (length_le_of_nodup hnodup fun x hx => ?_)
  obtain ⟨r, hr⟩ := hwalk.record x hx
  exact ⟨_, hr⟩

/-! ## Compatibility -/

lemma mismatchWithin_of_sameType (h : s.sameType u t) (fuel behind) :
    s.mismatchWithin (fuel + 1) u t behind = none := by
  simp only [sameType, Bool.or_eq_true] at h
  simp only [mismatchWithin]
  rw [if_pos]
  rcases h with h | h <;> simp [h]

/-- Composite types are first compared by their names. -/
lemma mismatchWithin_composite (h : s.sameType (.composite k) t = false) : ((composite k == t
    || composite k == .any || s.sameName (.composite k) t) = false) ∧ (composite
    k).isNumericFamily = false ∧ (composite k).isNumeric = false := by
  simp only [sameType, Bool.or_eq_false_iff] at h
  exact ⟨by simp [h], rfl, rfl⟩

lemma mismatchWithin_record_iff (ht : s.isRecord t) (hu : s.isRecord u) (fuel behind) :
    s.mismatchWithin (fuel + 1) u t behind = none ↔ s.sameType u t ∨ s.Extends t u := by
  obtain ⟨r, hr⟩ := isRecord_iff.1 hu
  cases hsame : s.sameType u t with
  | true => simp [mismatchWithin_of_sameType hsame]
  | false =>
    cases u with
    | composite k =>
      obtain ⟨hnames, hfamily, hnumeric⟩ := mismatchWithin_composite hsame
      simp only [mismatchWithin, hnames, hfamily, hnumeric, hr, ht, Bool.false_and, Bool.true_and,
        Bool.false_eq_true, if_false, false_or, ← isExtension_iff hu]
      split <;> simp_all
    | _ => cases hr

lemma mismatch?_pointer_iff (ht : s.pointer? t = some (some base))
    (hu : s.pointer? u = some (some base')) (hb : s.isRecord base) (hb' : s.isRecord base') :
    s.mismatch? u t = none ↔ s.sameType u t ∨ s.sameType base' base ∨ s.Extends base base' := by
  have hf := pointer?_eq_some.1 hu
  have hf' := pointer?_eq_some.1 ht
  cases hsame : s.sameType u t with
  | true => simp [mismatch?, mismatchWithin_of_sameType hsame]
  | false =>
    cases u with
    | composite k =>
      obtain ⟨hnames, hfamily, hnumeric⟩ := mismatchWithin_composite hsame
      have hlt : k < s.types.size := lt_of_form? hf
      obtain ⟨fuel, hfuel⟩ : ∃ fuel, s.types.size = fuel + 1 := ⟨s.types.size - 1, by omega⟩
      have hnil : (t == Ty.nil) = false := by
        cases t with
        | composite j => rfl
        | _ => cases hf'
      -- the walk from pointer to pointer goes along the chain of their bases
      have hext : s.isExtension t (.composite k) → s.Extends base base' := by
        intro h
        simp only [isExtension, hfuel, extendsWithin, hf, hf', Bool.or_eq_true, beq_iff_eq] at h
        rcases h with rfl | h
        · simp [sameType] at hsame
        · exact extends_of_extendsWithin hb' _ _ h
      simp only [mismatch?, mismatchWithin, hnames, hfamily, hnumeric, hf, ht, hnil, Bool.false_and,
        Bool.false_eq_true, if_false, false_or, Bool.false_or]
      split
      · next h => simp [hext h]
      · rw [hfuel, mismatchWithin_record_iff hb hb']
    | _ => cases hf

/-! ## Names -/

/-- The name of a type and the module that declares it. -/
def nameOf? (s : Store) (t : Ty) : Option Interface.TypeName :=
  (s.entry? t).bind (Interface.typeName? s)

/-- Declared in `module`, or without a name. -/
def IsOf (s : Store) (module : String) (t : Ty) : Prop :=
  ∀ n, s.nameOf? t = some n → n.module = module

lemma nameOf?_of_naming (hs : s.Closed) {id : DeclId} (h : s.naming? t = some id) : ∃ module,
    (s.decl id).module = some module ∧ s.nameOf? t = some ⟨module, (s.decl id).name⟩ := by
  obtain ⟨module, hm⟩ := Option.isSome_iff_exists.1 (hs.named t id h).2.2
  refine ⟨module, hm, ?_⟩
  unfold naming? at h
  obtain ⟨entry, he, hn⟩ := Option.bind_eq_some_iff.1 h
  simp [nameOf?, he, Interface.typeName?, hn, hm]

lemma nameOf?_of_sameName (hs : s.Closed) (h : s.sameName (.composite k) t) : ∃ n,
    s.nameOf? (.composite k) = some n ∧ s.nameOf? t = some n := by
  simp only [sameName] at h
  split at h
  · next id id' hid hid' =>
    simp only [Bool.and_eq_true, beq_iff_eq] at h
    obtain ⟨module, hm, hn⟩ := nameOf?_of_naming hs hid
    obtain ⟨module', hm', hn'⟩ := nameOf?_of_naming hs hid'
    rw [hm, hm'] at h
    cases h.2
    exact ⟨_, hn, by rw [hn', h.1]⟩
  · cases h

/-- Types of different modules are not the same. -/
lemma sameType_eq_false (hs : s.Closed)
    (hu : ∀ n, s.nameOf? (.composite k) = some n → n.module ≠ module) (ht : s.IsOf module t)
    (hne : t ≠ .composite k) : s.sameType (.composite k) t = false := by
  simp only [sameType, Bool.or_eq_false_iff, beq_eq_false_iff_ne]
  refine ⟨Ne.symm hne, Bool.eq_false_iff.2 fun h => ?_⟩
  obtain ⟨n, hn, hn'⟩ := nameOf?_of_sameName hs h
  exact hu n hn (ht n hn')

/-- Records and pointers of different modules differ in their places. -/
lemma ne_of_name (hu : s.nameOf? u = some n) (hn : n.module ≠ module) (ht : s.IsOf module t) :
    t ≠ u := by
  rintro rfl
  exact hn (ht n hu)

end Store

/-! ## Chains through imports -/

section Regions

variable {exports : List ((String × String) × DeclId)}
 

/-- A chain that enters the region of an import stays in it. -/
lemma Regions.extends (h : Regions s exports region) (hext : s.Extends t u) : ∀ k j, t =
    .composite k → u = .composite j → region module k → region module j := by
  induction hext with
  | refl t =>
    rintro k j rfl heq hr
    cases heq
    exact hr
  | @step t b u r hrec hb hu ih =>
    rintro k j rfl rfl hr
    cases b with
    | composite b =>
      refine ih b j rfl rfl (h.parts module k _ hr (record?_eq_some.1 hrec)
        (fun a ha => by cases ha) b ?_)
      exact List.mem_append_left _ (by simp [hb])
    | _ =>
      cases hu with
      | step hrec' => cases hrec'

/-- Two imports never meet on a chain. -/
lemma Regions.not_extends (h : Regions s exports region) (hk : region module k)
    (hk' : region module' k') (hne : module ≠ module') (hext : s.Extends t (.composite k)) :
    ¬ s.Extends t (.composite k') := by
  intro hext'
  rcases hext.total hext' with hto | hto
  · exact hne (h.disjoint _ _ k' (h.extends hto k k' rfl rfl hk) hk')
  · exact hne (h.disjoint _ _ k hk (h.extends hto k' k rfl rfl hk'))

/-- What an imported declaration refers to is in the region of its module. -/
lemma Regions.lookup {scopes : Scopes} (h : Regions s scopes.exports region) {id : DeclId}
    (hl : scopes.lookupInModule module name = some id) (hk : s.typeOf id = .composite k) :
    region module k := by
  unfold Scopes.lookupInModule at hl
  split at hl
  · exact (h.exports _ (mem_of_lookup hl)).2.2 k hk
  · cases hl

end Regions

namespace Outcome

/-- A parameter of a procedure that `module` exports. -/
def IsParameterOf (o : Outcome) (module : String) (x : DeclId) : Prop :=
  ∃ name p sig, o.analysis.scopes.lookupInModule module name = some p ∧
    o.store.signature? (o.store.typeOf p) = some sig ∧ x ∈ sig.params

/-- The base chain of `t` runs through a type that another module than `module` exports. -/
def ComesFromElsewhere (o : Outcome) (module : String) (t : Ty) : Prop :=
  ∃ other name id, other ≠ module ∧ o.analysis.scopes.lookupInModule other name = some id ∧
    o.store.isRecord (o.store.typeOf id) = true ∧ o.store.Extends t (o.store.typeOf id)

section Regions

variable {o : Outcome} {module : String}

lemma IsParameterOf.mem_region (hx : o.IsParameterOf module x)
    (h : Regions o.store o.analysis.scopes.exports region) (hk : o.store.typeOf x = .composite k) :
    region module k := by
  obtain ⟨name, p, sig, hl, hs, hx⟩ := hx
  have hform := signature?_eq_some.1 hs
  cases hp : o.store.typeOf p with
  | composite j =>
    rw [hp] at hform
    refine h.parts module j _ (h.lookup hl hp) hform (fun a ha => by cases ha) k ?_
    exact List.mem_append_left _ (List.mem_map.2 ⟨x, hx, hk⟩)
  | _ =>
    rw [hp] at hform
    cases hform

lemma ComesFromElsewhere.not_extends (hc : o.ComesFromElsewhere module t)
    (h : Regions o.store o.analysis.scopes.exports region) (hk : region module k) :
    ¬ o.store.Extends t (.composite k) := by
  obtain ⟨other, name, id, hne, hl, hr, hext⟩ := hc
  cases hid : o.store.typeOf id with
  | composite j =>
    rw [hid] at hext
    exact h.not_extends (h.lookup hl hid) hk hne hext
  | _ =>
    rw [hid] at hr
    cases hr

end Regions

/-- A record of a module goes for a parameter of an imported procedure exactly if its chain of bases
contains the very copy of the parameter's type that was imported with the procedure. If its chain
comes from another import, even from that of the module that declares the type, it is refused. The
same holds for pointers to the records. -/
theorem covariant_iff_same_import (features : Features) (library : Library) (source : String)
    (m : Module) (hl : library.Built) (h : (ofSource features library source).Accepts m)
    (exporter : String) (x : DeclId) (name : Interface.TypeName) (record : Ty) :
    let o := ofSource features library source
    o.IsParameterOf exporter x → name.module ≠ m.name →
    o.store.isRecord record = true → o.store.IsOf m.name record →
    (o.store.isRecord (o.store.typeOf x) = true → o.store.nameOf? (o.store.typeOf x) = some name →
      (o.store.mismatch? (o.store.typeOf x) record = none ↔
        o.store.Extends record (o.store.typeOf x)) ∧
      (o.ComesFromElsewhere exporter record →
        o.store.mismatch? (o.store.typeOf x) record ≠ none)) ∧
    ∀ base pointer, o.store.pointer? (o.store.typeOf x) = some (some base) →
      o.store.isRecord base = true → o.store.nameOf? base = some name →
      (∀ n, o.store.nameOf? (o.store.typeOf x) = some n → n.module ≠ m.name) →
      o.store.pointer? pointer = some (some record) → o.store.IsOf m.name pointer →
      (o.store.mismatch? (o.store.typeOf x) pointer = none ↔ o.store.Extends record base) ∧
      (o.ComesFromElsewhere exporter record →
        o.store.mismatch? (o.store.typeOf x) pointer ≠ none) := by
  intro o hx hmodule hrecord hof
  have hclosed : o.store.Closed := h.closed
  obtain ⟨region, hregion⟩ := h.regions hl
  have hdistinct {k : Nat} (hn : o.store.nameOf? (.composite k) = some name) :
      o.store.sameType (.composite k) record = false := by
    refine Store.sameType_eq_false hclosed (fun n hn' => ?_) hof (Store.ne_of_name hn hmodule hof)
    rw [hn] at hn'
    cases hn'
    exact hmodule
  refine ⟨fun hr hn => ?_, fun base pointer hp hr hn hown hp' hof' => ?_⟩
  · cases hk : o.store.typeOf x with
    | composite k =>
      rw [hk] at hr hn
      have hiff : o.store.mismatch? (.composite k) record = none ↔
          o.store.Extends record (.composite k) := by
        rw [Store.mismatch?, Store.mismatchWithin_record_iff hrecord hr, hdistinct hn]
        simp
      exact ⟨hiff, fun hc hnone => hc.not_extends hregion (hx.mem_region hregion hk) (hiff.1 hnone)⟩
    | _ =>
      rw [hk] at hr
      cases hr
  · cases hk : o.store.typeOf x with
    | composite k =>
      rw [hk] at hp hown
      cases base with
      | composite j =>
        have hne : pointer ≠ .composite k := by
          rintro rfl
          rw [hp] at hp'
          cases hp'
          exact Store.ne_of_name hn hmodule hof rfl
        have hiff : o.store.mismatch? (.composite k) pointer = none ↔
            o.store.Extends record (.composite j) := by
          rw [Store.mismatch?_pointer_iff hp' hp hrecord hr,
            Store.sameType_eq_false hclosed hown hof' hne, hdistinct hn]
          simp
        have hbase : region exporter j := by
          refine hregion.parts exporter k _ (hx.mem_region hregion hk) (Store.pointer?_eq_some.1 hp)
            (fun a ha => by cases ha) j ?_
          exact List.mem_singleton_self _
        exact ⟨hiff, fun hc hnone => hc.not_extends hregion hbase (hiff.1 hnone)⟩
      | _ => cases hr
    | _ =>
      rw [hk] at hp
      cases hp

/-- A module that exports a record, and one that exports an extension of it and a procedure for it. -/
def pair : Library := (Library.compiled {} "MODULE A; TYPE T* = RECORD END; END A.").compiled
    ("MODULE B; IMPORT A; TYPE U* = RECORD (A.T) END; " ++
      "PROCEDURE P*(t: A.T); END P; END B.")

lemma pair_built : pair.Built := by
  refine .compiled (.compiled .empty ?_) ?_
  · decide +kernel
  · decide +kernel

/-- A module that imports both. One of its records extends the type itself, the other one the
extension. -/
def diamond : String :=
  "MODULE C; IMPORT A, B; TYPE D = RECORD (A.T) END; E = RECORD (B.U) END; END C."

/-- The base of a record type. -/
def base? (o : Outcome) (t : Ty) : Option Ty := (o.store.record? t).bind RecordForm.base

lemma extends_of_base? {o : Outcome} (h : o.base? t = some b) (hu : o.store.Extends b u) :
    o.store.Extends t u := by
  obtain ⟨r, hr, hb⟩ := Option.bind_eq_some_iff.1 h
  exact .step hr hb hu

lemma isRecord_of_base? {o : Outcome} (h : o.base? t = some b) : o.store.isRecord t := by
  obtain ⟨r, hr, _⟩ := Option.bind_eq_some_iff.1 h
  rw [isRecord, hr]
  rfl

/-- The parameter of the procedure of `B` and the two records of `C`. -/
def diamondTypes (o : Outcome) : Option (Module × DeclId × DeclId × DeclId) := do
  let m ← o.module
  let p ← o.analysis.scopes.lookupInModule "B" "P"
  let sig ← o.store.signature? (o.store.typeOf p)
  return (m, ← sig.params.head?, ← m.block.types[0]?, ← m.block.types[1]?)

/-- What `diamond` shows: both records extend `A.T`, the second one by the copy that came with `B`. -/
def IsDiamond (o : Outcome) (m : Module) (x d e : DeclId) : Prop :=
  m.name = "C" ∧ o.store.isRecord (o.store.typeOf x) = true ∧
  o.store.nameOf? (o.store.typeOf x) = some ⟨"A", "T"⟩ ∧
  (o.base? (o.store.typeOf d)).bind o.store.nameOf? = some ⟨"A", "T"⟩ ∧
  o.store.mismatch? (o.store.typeOf x) (o.store.typeOf d) ≠ none ∧
  o.store.nameOf? (o.store.typeOf e) = some ⟨"C", "E"⟩ ∧
  (o.base? (o.store.typeOf e)).bind o.base? = some (o.store.typeOf x)

instance (o : Outcome) (m : Module) (x d e : DeclId) : Decidable (o.IsDiamond m x d e) := by
  unfold IsDiamond
  infer_instance

lemma diamond_eval :
    let o := ofSource {} pair diamond
    o.analysis.abandoned = false ∧ (o.log false).hasErrors = false ∧
    o.diamondTypes.any (fun y => decide (o.IsDiamond y.1 y.2.1 y.2.2.1 y.2.2.2)) := by
  decide +kernel

lemma diamond_spec :
    let o := ofSource {} pair diamond
    ∃ m x d e, o.Accepts m ∧ o.IsParameterOf "B" x ∧ d ∈ m.block.types ∧ e ∈ m.block.types ∧
      o.IsDiamond m x d e := by
  obtain ⟨hcomplete, hclean, hany⟩ := diamond_eval
  generalize ofSource {} pair diamond = o at hcomplete hclean hany ⊢
  cases hy : o.diamondTypes with
  | none =>
    rw [hy] at hany
    cases hany
  | some y =>
    rw [hy] at hany
    simp only [diamondTypes, Option.bind_eq_bind, Option.bind_eq_some_iff, Option.pure_def,
      Option.some.injEq] at hy
    obtain ⟨m, hm, p, hp, sig, hsig, x, hx, d, hd, e, he, rfl⟩ := hy
    exact ⟨m, x, d, e, ⟨hm, hcomplete, false, hclean⟩,
      ⟨"P", p, sig, hp, hsig, List.mem_of_mem_head? hx⟩, List.mem_of_getElem? hd,
      List.mem_of_getElem? he, of_decide_eq_true hany⟩

/-- The record that extends `A.T` itself is refused for a parameter of that type. -/
theorem refused_through_own_import :
    pair.Built ∧
    let o := ofSource {} pair diamond
    ∃ m x d base, o.Accepts m ∧ o.IsParameterOf "B" x ∧
      o.store.nameOf? (o.store.typeOf x) = some ⟨"A", "T"⟩ ∧
      d ∈ m.block.types ∧ o.store.Extends (o.store.typeOf d) base ∧
      o.store.nameOf? base = some ⟨"A", "T"⟩ ∧
      o.store.mismatch? (o.store.typeOf x) (o.store.typeOf d) ≠ none := by
  obtain ⟨m, x, d, e, hm, hx, hd, _, _, _, hname, hbase, hrefused, _⟩ := diamond_spec
  obtain ⟨base, hbase, hbasename⟩ := Option.bind_eq_some_iff.1 hbase
  exact ⟨pair_built, m, x, d, base, hm, hx, hname, hd, extends_of_base? hbase (.refl _), hbasename,
    hrefused⟩

/-- The record that extends `A.T` through an extension of `B` is accepted for it. -/
theorem covariant_iff_same_import_diamond :
    let o := ofSource {} pair diamond
    ∃ m x e, o.Accepts m ∧ o.IsParameterOf "B" x ∧ e ∈ m.block.types ∧
      o.store.nameOf? (o.store.typeOf x) = some ⟨"A", "T"⟩ ∧
      o.store.isRecord (o.store.typeOf e) = true ∧
      o.store.mismatch? (o.store.typeOf x) (o.store.typeOf e) = none := by
  obtain ⟨m, x, d, e, hm, hx, _, he, hmodule, hrecord, hname, _, _, hown, hchain⟩ := diamond_spec
  obtain ⟨middle, hmiddle, hbase⟩ := Option.bind_eq_some_iff.1 hchain
  have hrecord' := isRecord_of_base? hmiddle
  have hextends := extends_of_base? hmiddle (extends_of_base? hbase (.refl _))
  have hof : (ofSource {} pair diamond).store.IsOf m.name
      ((ofSource {} pair diamond).store.typeOf e) := by
    intro n hn
    rw [hown] at hn
    cases hn
    exact hmodule.symm
  refine ⟨m, x, e, hm, hx, he, hname, hrecord', ?_⟩
  have hiff := covariant_iff_same_import {} pair diamond m pair_built hm "B" x ⟨"A", "T"⟩ _ hx
    (by rw [hmodule]; decide) hrecord' hof
  exact ((hiff.1 hrecord hname).1).2 hextends

end Outcome
end Oberon
