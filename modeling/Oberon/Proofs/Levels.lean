import Oberon.Proofs.Extending
import Oberon.Proofs.Windows

/-!
# Oberon.Proofs.Levels

The level of a record type and the length of its base chain. They agree for everything a module
declares. An import takes the level of a record from its base as it is then, and where the base leads
back to the record, it is not finished. So the levels of a module are right exactly if no imported
record with a base leads to an extension of itself.
-/

namespace Oberon

open Store

open List hiding pure_def

open Option

open Interface (recordLevel)

namespace Store

variable {s s' : Store}

/-- A record with `n` records on its base chain. -/
inductive Depth (s : Store) : Ty → Nat → Prop
  | root {t : Ty} {r : RecordForm} (h : s.record? t = some r) (hb : r.base = none) : Depth s t 0
  | extension {t b : Ty} {r : RecordForm} {n : Nat} (h : s.record? t = some r)
      (hb : r.base = some b) (hd : Depth s b n) : Depth s t (n + 1)

/-- A record and the records on its base chain. -/
inductive Chain (s : Store) : Ty → List RecordForm → Prop
  | root {t : Ty} {r : RecordForm} (h : s.record? t = some r) (hb : r.base = none) : Chain s t [r]
  | extension {t b : Ty} {r : RecordForm} {rs : List RecordForm} (h : s.record? t = some r)
      (hb : r.base = some b) (hc : Chain s b rs) : Chain s t (r :: rs)

/-- The fields of several records. -/
def fieldsOf (rs : List RecordForm) : List DeclId := rs.flatMap RecordForm.fields

def fieldNames (s : Store) (rs : List RecordForm) : List String :=
  (fieldsOf rs).map fun f => (s.decl f).name

/-- The record at `j` is an extension itself, and leads to an extension of it at `k` on a way that
passes no earlier place. -/
def LeadsToExtension (s : Store) (j k : Nat) : Prop :=
  ∃ r e, s.record? (.composite j) = some r ∧ r.base ≠ none ∧
    s.record? (.composite k) = some e ∧ e.base = some (.composite j) ∧ s.Reach j j k

/-- Every base is a record. -/
def Based (s : Store) : Prop :=
  ∀ t r b, s.record? t = some r → r.base = some b → s.isRecord b = true

/-- Every base chain comes to an end, and no two fields on it have the same name. -/
def Grounded (s : Store) : Prop :=
  ∀ t r, s.record? t = some r → ∃ rs, s.Chain t rs ∧ (s.fieldNames rs).Nodup

section Chains

lemma Chain.mono (h : ∀ t r, s.record? t = some r → s'.record? t = some r) (hc : s.Chain t rs) :
    s'.Chain t rs := by
  induction hc with
  | root hr hb => exact .root (h _ _ hr) hb
  | extension hr hb _ ih => exact .extension (h _ _ hr) hb ih

lemma Chain.unique (h : s.Chain t rs) (h' : s.Chain t rs') : rs = rs' := by
  induction h generalizing rs' with
  | root hr hb =>
    cases h' with
    | root hr' =>
      rw [hr] at hr'
      cases hr'
      rfl
    | extension hr' hb' =>
      rw [hr] at hr'
      cases hr'
      rw [hb] at hb'
      cases hb'
  | extension hr hb _ ih =>
    cases h' with
    | root hr' hb' =>
      rw [hr] at hr'
      cases hr'
      rw [hb] at hb'
      cases hb'
    | extension hr' hb' hc' =>
      rw [hr] at hr'
      cases hr'
      rw [hb] at hb'
      cases hb'
      rw [ih hc']

lemma depth_iff_chain : s.Depth t n ↔ ∃ rs, s.Chain t rs ∧ rs.length = n + 1 := by
  constructor
  · intro h
    induction h with
    | root hr hb => exact ⟨_, .root hr hb, rfl⟩
    | extension hr hb _ ih =>
      obtain ⟨rs, hc, hlength⟩ := ih
      exact ⟨_, .extension hr hb hc, congrArg (· + 1) hlength⟩
  · rintro ⟨rs, hc, hlength⟩
    induction hc generalizing n with
    | root hr hb =>
      cases hlength
      exact .root hr hb
    | @extension _ _ _ rs hr hb hc ih =>
      obtain ⟨k, rfl⟩ : ∃ k, n = k + 1 := by
        cases hc <;> exact ⟨n - 1, by simp at hlength; omega⟩
      exact .extension hr hb (ih (Nat.succ.inj hlength))

/-- Every record on the chain is one of the store. -/
lemma Chain.record (h : s.Chain t rs) : ∀ r ∈ rs, ∃ u, s.record? u = some r := by
  induction h with
  | root hr _ => exact forall_mem_singleton.2 ⟨_, hr⟩
  | extension hr _ _ ih => exact forall_mem_cons.2 ⟨⟨_, hr⟩, ih⟩

/-- No record comes twice on the chain. -/
lemma Chain.length_le (h : s.Chain t rs) : rs.length ≤ s.types.size := by
  have htypes : ∃ ts : List Ty, ts.length = rs.length ∧ ts.Nodup ∧
      ∀ x ∈ ts, ∃ rs', s.Chain x rs' ∧ rs'.length ≤ rs.length := by
    induction h with
    | @root t r hr hb => exact ⟨[t], rfl, nodup_singleton t, by simpa using ⟨_, .root hr hb, by simp⟩⟩
    | @extension t b r rs hr hb hc ih =>
      obtain ⟨ts, hlength, hnodup, hts⟩ := ih
      refine ⟨t :: ts, by simp [hlength], nodup_cons.2 ⟨fun ht => ?_, hnodup⟩, forall_mem_cons.2
        ⟨⟨_, .extension hr hb hc, Nat.le_refl _⟩, fun x hx => ?_⟩⟩
      · obtain ⟨rs', hc', hle⟩ := hts t ht
        rw [hc'.unique (.extension hr hb hc), length_cons] at hle
        omega
      · obtain ⟨rs', hc', hle⟩ := hts x hx
        exact ⟨rs', hc', Nat.le_succ_of_le hle⟩
  obtain ⟨ts, hlength, hnodup, hts⟩ := htypes
  rw [← hlength]
  refine length_le_of_nodup hnodup fun x hx => ?_
  obtain ⟨rs', hc, _⟩ := hts x hx
  cases hc with
  | root hr | extension hr => exact ⟨_, record?_eq_some.1 hr⟩

/-- Fields are looked for along the chain. -/
lemma Chain.findField? (h : s.Chain t rs) (name) : s.findField? t name =
    (fieldsOf rs).find? fun f => (s.decl f).name == name := by
  have hwithin (fuel) (hfuel : rs.length ≤ fuel) : s.findFieldWithin name fuel t =
      (fieldsOf rs).find? fun f => (s.decl f).name == name := by
    induction h generalizing fuel with
    | root hr hb =>
      obtain ⟨fuel, rfl⟩ : ∃ k, fuel = k + 1 := ⟨fuel - 1, by simp at hfuel; omega⟩
      simp only [findFieldWithin, hr, hb, fieldsOf, flatMap_cons, flatMap_nil, append_nil]
      split <;> simp [*]
    | extension hr hb _ ih =>
      obtain ⟨fuel, rfl⟩ : ∃ k, fuel = k + 1 := ⟨fuel - 1, by simp at hfuel; omega⟩
      simp only [findFieldWithin, hr, hb, fieldsOf, flatMap_cons, find?_append]
      rw [bind_some, ih fuel (by simpa using hfuel)]
      split <;> simp [*, fieldsOf]
  exact hwithin _ h.length_le

/-- The names of the fields stay what they are. -/
lemma Chain.fieldNames_eq (h : s.Chain t rs) (hs : s.Closed)
    (hd : ∀ id : DeclId, id.In s → (s'.decl id).name = (s.decl id).name) : s'.fieldNames rs =
    s.fieldNames rs := by
  refine map_congr_left fun f hf => ?_
  obtain ⟨r, hr, hf⟩ := mem_flatMap.1 hf
  obtain ⟨u, hu⟩ := h.record r hr
  exact hd f ((hs.fits u _ (record?_eq_some.1 hu)).members f hf).1

end Chains

lemma Depth.isRecord (h : s.Depth t n) : s.isRecord t := by
  cases h with
  | root hr _ | extension hr _ _ => exact isSome_iff_exists.2 ⟨_, hr⟩

lemma Grounded.depth (h : s.Grounded) (hr : s.record? t = some r) : ∃ n, s.Depth t n := by
  obtain ⟨rs, hc, _⟩ := h t r hr
  refine ⟨rs.length - 1, depth_iff_chain.2 ⟨rs, hc, ?_⟩⟩
  cases hc <;> simp

lemma Grounded.based (h : s.Grounded) : s.Based := by
  intro t r b hr hb
  obtain ⟨n, hd⟩ := h.depth hr
  cases hd with
  | root hr' hb' =>
    rw [hr] at hr'
    cases hr'
    rw [hb] at hb'
    cases hb'
  | extension hr' hb' hd =>
    rw [hr] at hr'
    cases hr'
    rw [hb] at hb'
    cases hb'
    exact hd.isRecord

lemma Depth.unique (h : s.Depth t m) (h' : s.Depth t n) : m = n := by
  obtain ⟨rs, hc, hm⟩ := depth_iff_chain.1 h
  obtain ⟨rs', hc', hn⟩ := depth_iff_chain.1 h'
  cases hc.unique hc'
  omega

lemma recordLevel_some (h : s.record? t = some r) : recordLevel s (some t) = r.level + 1 := by
  simp only [recordLevel, bind_some, h]

/-- Levels are depths if each is one more than that of the base. -/
lemma depth_of_levels (hb : s.Based)
    (hl : ∀ t r, s.record? t = some r → r.level = recordLevel s r.base) (n) : ∀ t r, s.record? t =
    some r → r.level = n → s.Depth t n := by
  induction n with
  | zero =>
    intro t r hr hn
    cases hbase : r.base with
    | none => exact .root hr hbase
    | some b =>
      obtain ⟨rb, hrb⟩ := isSome_iff_exists.1 (hb t r b hr hbase)
      have := hl t r hr
      rw [hbase, recordLevel_some hrb] at this
      omega
  | succ n ih =>
    intro t r hr hn
    cases hbase : r.base with
    | none =>
      have := hl t r hr
      rw [hbase] at this
      simp [recordLevel] at this
      omega
    | some b =>
      obtain ⟨rb, hrb⟩ := isSome_iff_exists.1 (hb t r b hr hbase)
      have := hl t r hr
      rw [hbase, recordLevel_some hrb] at this
      exact .extension hr hbase (ih b rb hrb (by omega))

lemma depth_iff (hb : s.Based) (hl : ∀ k r, s.record? (.composite k) = some r → s.Leveled 0 k r) :
    (∀ t r, s.record? t = some r → s.Depth t r.level) ↔ ¬ ∃ j k, s.LeadsToExtension j k := by
  constructor
  · rintro hall ⟨j, k, r, e, hr, hbase, he, hext, hway⟩
    rcases hl k e he with ⟨_, _, _, _, _, hlevel⟩ | ⟨hno, _⟩
    · -- the chain of the extension has at least two records
      have hj := hall _ _ hr
      have hk := hall _ _ he
      rw [hlevel] at hk
      cases hk with
      | extension he' hext' hd =>
        rw [he] at he'
        cases he'
        rw [hext] at hext'
        cases hext'
        cases hd with
        | root hr' hnone =>
          rw [hr] at hr'
          cases hr'
          exact hbase hnone
    · exact hno j (Nat.zero_le _) hext (isRecord_iff.2 ⟨r, record?_eq_some.1 hr⟩) hway
  · intro hnone t r hr
    refine depth_of_levels hb (fun t r hr => ?_) r.level t r hr rfl
    cases t with
    | composite k =>
      rcases hl k r hr with ⟨j, _, hbase, hrec, hway, hlevel⟩ | ⟨_, hlevel⟩
      · -- a base that leads to its extension has no base, and so the level 0
        obtain ⟨rb, hrb⟩ := isSome_iff_exists.1 hrec
        have hroot : rb.base = none := by
          by_contra hbb
          exact hnone ⟨j, k, rb, r, hrb, hbb, hr, hbase, hway⟩
        have hzero : rb.level = 0 := by
          rcases hl j rb hrb with ⟨_, _, hbb, _⟩ | ⟨_, hlevel⟩
          · rw [hroot] at hbb
            cases hbb
          · rw [hlevel, hroot]
            rfl
        rw [hlevel, hbase, recordLevel_some hrb, hzero]
      · exact hlevel
    | _ => cases hr

/-! ## Declared records -/

/-- A record that a module declared: everything it refers to is earlier. -/
structure Declared (s : Store) (n : Nat) (t : Ty) (r : RecordForm) : Prop where
  place : n ≤ t.place
  members : s.HasMembers r.fields
  own : s.Own r.fields
  below : ∀ u ∈ s.parts (.record r), u.Below t.place
  base : ∀ b ∈ r.base, s.isRecord b = true
  level : r.level = recordLevel s r.base

lemma Builds.isRecord (h : Builds module low strict s s') (ht : s.isRecord t) :
    s'.isRecord t := by
  obtain ⟨r, hr⟩ := isRecord_iff.1 ht
  exact isRecord_iff.2 ⟨r, h.form_eq hr (.inr fun _ h => by cases h)⟩

lemma Declared.builds (h : s.Declared n t r) (hb : Builds module low strict s s') :
    s'.Declared n t r where
  place := h.place
  members := h.members.builds hb
  own := h.own.builds hb
  below := by
    rw [hb.parts_eq (f := .record r) h.members]
    exact h.below
  base b hbase := hb.isRecord (h.base b hbase)
  level := by
    refine h.level.trans (recordLevel_congr fun b hbase => ?_).symm
    obtain ⟨rb, hrb⟩ := isRecord_iff.1 (h.base b hbase)
    rw [hrb, hb.form_eq hrb (.inr fun _ h => by cases h)]

/-- The records of a module are those it started with and those it declared. -/
lemma Builds.record_cases (h : Builds module low strict s s') (hs : s.Closed)
    (hr : s'.record? t = some r) : s.record? t = some r ∨ s'.Declared s.types.size t r := by
  have hkeep {s1 s2 : Store} (h : Builds module low strict s1 s2) {t : Ty} {r : RecordForm}
      (hr : s.record? t = some r ∨ s1.Declared s.types.size t r) :
      s.record? t = some r ∨ s2.Declared s.types.size t r := hr.imp_right fun hd => hd.builds h
  induction h generalizing t r with
  | refl => exact .inl hr
  | addDecl _ hd ih =>
    rw [record?_congr (form?_eq_of_types rfl _)] at hr
    exact hkeep (.addDecl .refl hd) (ih hr)
  | addArray _ ht hc ih =>
    rw [record?_addType_of_ne fun _ h => by cases h] at hr
    exact hkeep (.addArray .refl ht hc) (ih hr)
  | @addRecord s' fields base h hf hm hb hc ha ih =>
    refine hkeep (.addRecord .refl hf hm hb hc ha) ?_
    by_cases ht : t = .composite s'.types.size
    · have hform := record?_eq_some.1 hr
      rw [ht, form?_addType_self] at hform
      cases hform
      rw [ht]
      refine .inr ⟨h.types_le, hf, hm, fun u hu => ?_, hb, rfl⟩
      exact ((h.closed hs).fits_record 0 hf fun b hbase => has_of_isRecord (hb b hbase)).parts u hu
    · have hsame := form?_addType s' (.record ⟨fields, base, recordLevel s' base⟩) t
      rw [if_neg ht] at hsame
      exact ih ((record?_congr hsame).symm.trans hr)
  | addPointer _ ih =>
    rw [record?_addType_of_ne fun _ h => by cases h] at hr
    exact hkeep (.addPointer .refl) (ih hr)
  | addProcedure _ hp hm hr' ih =>
    rw [record?_addType_of_ne fun _ h => by cases h] at hr
    exact hkeep (.addProcedure .refl hp hm hr') (ih hr)
  | @setBase s' pointer base h hl hp hb hc ih =>
    have hne : pointer ≠ t := by
      rintro rfl
      have hform := record?_eq_some.1 hr
      rw [form?_setForm, if_pos rfl] at hform
      obtain ⟨_, _, hform⟩ := map_eq_some_iff.1 hform
      cases hform
    rw [record?_congr (form?_setForm_of_ne hne _)] at hr
    exact hkeep (.setBase .refl hl hp hb hc) (ih hr)
  | setNaming _ hid hr' hm hn ih =>
    rw [record?_congr (form?_setNaming _ _ _ _)] at hr
    exact hkeep (.setNaming .refl hid hr' hm hn) (ih hr)
  | sign _ hid hp hm hr' ih =>
    rw [record?_congr (form?_setType _ _ _ _), record?_addType_of_ne fun _ h => by cases h] at hr
    exact hkeep (.sign .refl hid hp hm hr') (ih hr)

/-- What a declared record leads to is earlier. -/
lemma Declared.eq_of_reach (h : s.Declared n (.composite j) r)
    (hr : s.record? (.composite j) = some r) (hway : s.Reach j j k) : k = j := by
  cases hway with
  | refl => rfl
  | @step _ l _ _ hl hway =>
    rw [refs_of_form? (record?_eq_some.1 hr)] at hl
    have hlt : l < j := h.below _ hl l rfl
    cases hway <;> omega

end Store

/-! ## Imported records -/

namespace Interface

/-- An interface of a store in which base chains end and have no name twice. -/
def OfGrounded (i : Interface) : Prop := ∃ s ids t, s.Closed ∧ s.Grounded ∧ Depicts s ids t i

/-- A copy of a record has a base chain with the same names on it. -/
lemma bisimulation_chain {s s' : Store} (h : s.Bisimulation s' R) (hc : s.Chain u rs)
    (hu : R u u') : ∃ rs', s'.Chain u' rs' ∧ s'.fieldNames rs' = s.fieldNames rs := by
  have hcopy {u u' r} (hr : s.record? u = some r) (hu : R u u') :
      ∃ r', s'.record? u' = some r' ∧ Option.Rel R r.base r'.base ∧
        s'.fieldNames [r'] = s.fieldNames [r] := by
    have hform := record?_eq_some.1 hr
    rcases h u u' hu with ⟨_, hne⟩ | ⟨entry, entry', he, he', _, halike⟩
    · cases u with
      | composite k => exact absurd rfl (hne k)
      | _ => cases hform
    · simp only [form?, he, map_some, some.injEq] at hform
      rw [hform] at halike
      generalize hf : entry'.form = f' at halike
      cases halike with
      | @record _ r' hb hfields =>
        refine ⟨r', record?_eq_some.2 (by simp only [form?, he', map_some, hf]), hb, ?_⟩
        simp only [fieldNames, fieldsOf, flatMap_singleton]
        generalize r.fields = fields, r'.fields = fields' at hfields
        induction hfields with
        | nil => rfl
        | cons hname _ ih => rw [map_cons, map_cons, ih, hname.1]
  have hcons (s : Store) (r rs) :
      s.fieldNames (r :: rs) = s.fieldNames [r] ++ s.fieldNames rs := by
    simp [fieldNames, fieldsOf]
  induction hc generalizing u' with
  | root hr hb =>
    obtain ⟨r', hr', hrel, hnames⟩ := hcopy hr hu
    rw [hb] at hrel
    cases hb' : r'.base with
    | none => exact ⟨_, .root hr' hb', hnames⟩
    | some b' =>
      rw [hb'] at hrel
      cases hrel
  | extension hr hb _ ih =>
    obtain ⟨r', hr', hrel, hnames⟩ := hcopy hr hu
    rw [hb] at hrel
    cases hb' : r'.base with
    | none =>
      rw [hb'] at hrel
      cases hrel
    | some b' =>
      rw [hb'] at hrel
      cases hrel with
      | some hrel =>
        obtain ⟨rs', hc', hrest⟩ := ih hrel
        exact ⟨_, .extension hr' hb' hc', by rw [hcons, hcons s, hnames, hrest]⟩

/-- The base chains of imported records end, as they did where they were declared. -/
lemma OfGrounded.importInto {i : Interface} (hi : i.OfGrounded) {s : Store} (hs : s.Closed)
    (hg : s.Grounded) (scopes) : (i.importInto s scopes).1.Grounded := by
  obtain ⟨s0, ids0, table, hclosed, hground, hdep⟩ := hi
  obtain ⟨ids, copied, r, hrun, _, hadv, hfinished, _⟩ := hdep.copies hclosed s scopes
  have hpres : s.Preserves r.store := hadv.preserves
  have hbisim := hdep.bisimulation hfinished
  rw [hrun]
  intro t f hf
  cases t with
  | composite k =>
    by_cases hk : k < s.types.size
    · rw [record?_congr (hpres.form? (.composite hk))] at hf
      obtain ⟨rs, hc, hnodup⟩ := hg _ f hf
      refine ⟨rs, hc.mono fun t r hr => ?_, ?_⟩
      · rw [record?_congr (hpres.form? (has_of_form? (record?_eq_some.1 hr)))]
        exact hr
      · rwa [hc.fieldNames_eq hs fun id hid => by rw [hpres.decl id hid]]
    · -- a copy of a record
      obtain ⟨p, hp⟩ := hadv.records k f (Nat.le_of_not_lt hk) hf
      obtain ⟨item, entry, hfin⟩ := hfinished p k hp
      have hlt := (Array.getElem?_eq_some_iff.1 hfin.item_eq).1
      rw [hdep.types] at hlt
      obtain ⟨id, hid⟩ := hdep.sound.onto p hlt
      rcases hbisim (.composite id) (.composite k)
        ⟨.composite p, ⟨p, hid, rfl⟩, k, hp, rfl⟩ with ⟨_, hne⟩ | ⟨e0, e, he0, he, _, halike⟩
      · exact absurd rfl (hne id)
      · have hform := record?_eq_some.1 hf
        simp only [form?, he, map_some, some.injEq] at hform
        rw [hform] at halike
        generalize hf0 : e0.form = f0 at halike
        cases halike with
        | @record r0 _ _ _ =>
          obtain ⟨rs, hc, hnodup⟩ := hground (.composite id) r0
            (record?_eq_some.2 (by simp only [form?, he0, map_some, hf0]))
          obtain ⟨rs', hc', hnames⟩ := bisimulation_chain hbisim hc ⟨.composite p, ⟨p, hid, rfl⟩, k, hp, rfl⟩
          exact ⟨rs', hc', hnames ▸ hnodup⟩
  | _ => cases hf

end Interface

/-! ## Accepted modules -/

lemma Universe.record?_standard (t) : standard.store.record? t = none := by
  have hall : (range standard.store.types.size).all
      (fun k => (standard.store.record? (.composite k)).isNone) := by decide +kernel
  cases hr : standard.store.record? t with
  | none => rfl
  | some r =>
    have hform := record?_eq_some.1 hr
    cases t with
    | composite k =>
      have hnone := all_eq_true.1 hall k (mem_range.2 (lt_of_form? hform))
      rw [hr] at hnone
      cases hnone
    | _ => cases hform

section Builds

variable {s0 s s' : Store}

/-- Records and the names of fields stay what they are. -/
lemma Store.Grounded.of_records (hg : s.Grounded) (hs : s.Closed)
    (hr : ∀ t, s'.record? t = s.record? t)
    (hd : ∀ id : DeclId, id.In s → (s'.decl id).name = (s.decl id).name) : s'.Grounded := by
  intro t r h
  obtain ⟨rs, hc, hnodup⟩ := hg t r (hr t ▸ h)
  exact ⟨rs, hc.mono fun t r h => (hr t).trans h, by rwa [hc.fieldNames_eq hs hd]⟩

/-- The fields of a new record are told apart from those of its base. -/
lemma Store.Grounded.addRecord (hg : s.Grounded) (hb : ∀ t ∈ base, s.isRecord t)
    (ha : s.Apart base fields) : (s.addType (.record ⟨fields, base, level⟩)).2.Grounded := by
  have hnames (rs) :
      (s.addType (.record ⟨fields, base, level⟩)).2.fieldNames rs = s.fieldNames rs := rfl
  have hmono {t rs} (hc : s.Chain t rs) :
      (s.addType (.record ⟨fields, base, level⟩)).2.Chain t rs := by
    refine hc.mono fun t r hr => record?_eq_some.2 ?_
    rw [form?_addType, if_neg, record?_eq_some.1 hr]
    rintro rfl
    exact Nat.lt_irrefl _ (lt_of_form? (record?_eq_some.1 hr))
  intro t r hr
  by_cases ht : t = .composite s.types.size
  · have hform := record?_eq_some.1 hr
    rw [ht, form?_addType_self] at hform
    cases hform
    cases base with
    | none => exact ⟨_, .root hr rfl, by rw [hnames]; simpa [fieldNames, fieldsOf] using ha.1⟩
    | some b =>
      obtain ⟨rb, hrb⟩ := isSome_iff_exists.1 (hb b rfl)
      obtain ⟨rs, hc, hnodup⟩ := hg b rb hrb
      refine ⟨_, .extension hr rfl (hmono hc), ?_⟩
      rw [hnames, fieldNames, fieldsOf, flatMap_cons, map_append]
      refine nodup_append.2 ⟨ha.1, hnodup, ?_⟩
      rintro _ hx _ hy rfl
      obtain ⟨f, hf, rfl⟩ := mem_map.1 hx
      obtain ⟨g, hg, heq⟩ := mem_map.1 hy
      have hnone := ha.2 f hf
      rw [bind_some, hc.findField?, find?_eq_none] at hnone
      exact hnone g hg (beq_iff_eq.2 heq)
  · have hsame := form?_addType s (.record ⟨fields, base, level⟩) t
    rw [if_neg ht] at hsame
    obtain ⟨rs, hc, hnodup⟩ := hg t r ((record?_congr hsame).symm.trans hr)
    exact ⟨rs, hmono hc, hnodup⟩

lemma Store.Grounded.builds (hg : s.Grounded) (hs : s.Closed) (h : s.Builds module low strict s') : s'.Grounded := by
  have hname {s1 s2 : Store} (h : s1.Builds module low strict s2) (id : DeclId)
      (hid : id.In s1) : (s2.decl id).name = (s1.decl id).name := by rw [h.decl hid]
  induction h with
  | refl => exact hg
  | addDecl h hd ih =>
    exact ih.of_records (h.closed hs) (fun t => record?_congr (form?_eq_of_types rfl _))
      (hname (.addDecl .refl hd))
  | addArray h ht hc ih =>
    exact ih.of_records (h.closed hs) (record?_addType_of_ne fun _ h => by cases h)
      (hname (.addArray .refl ht hc))
  | addRecord h _ _ hb _ ha ih => exact ih.addRecord hb ha
  | addPointer h ih =>
    exact ih.of_records (h.closed hs) (record?_addType_of_ne fun _ h => by cases h)
      (hname (.addPointer .refl))
  | addProcedure h hp hm hr ih =>
    exact ih.of_records (h.closed hs) (record?_addType_of_ne fun _ h => by cases h)
      (hname (.addProcedure .refl hp hm hr))
  | @setBase s' pointer base h hl hp hb hc ih =>
    refine ih.of_records (h.closed hs) (fun t => ?_) (hname (.setBase .refl hl hp hb hc))
    by_cases ht : pointer = t
    · subst ht
      obtain ⟨b, hform⟩ := isSome_iff_exists.1 hp
      simp [record?, form?_setForm, pointer?_eq_some.1 hform]
    · exact record?_congr (form?_setForm_of_ne ht _)
  | setNaming h hid hr hm hn ih =>
    exact ih.of_records (h.closed hs) (fun t => record?_congr (form?_setNaming _ _ _ _))
      (hname (.setNaming .refl hid hr hm hn))
  | sign h hid hp hm hr ih =>
    refine ih.of_records (h.closed hs) (fun t => ?_) (hname (.sign .refl hid hp hm hr))
    rw [record?_congr (form?_setType _ _ _ _), record?_addType_of_ne fun _ h => by cases h]

/-- The window of an imported record ends before the block. -/
lemma Store.Builds.window (h : s.Builds module s.types.size strict s') (hu : s0.Unfolds s)
    (h0 : ∀ t, s0.record? t = none) (hs : s.Closed) (hr : s.record? (.composite j) = some r) :
    s0.types.size ≤ j ∧ ∃ m, s.Window j m ∧ s'.Window j m := by
  have hj := lt_of_form? (record?_eq_some.1 hr)
  have hle : s0.types.size ≤ j := by
    by_contra hlt
    rw [record?_congr (hu.preserves.form? (.composite (by omega))), h0] at hr
    cases hr
  obtain ⟨m, hm⟩ := hu.windows j hle hj
  refine ⟨hle, m, hm, hm.congr h.types_le fun l _ hl => ?_⟩
  obtain ⟨f, hf⟩ := form?_of_has hl
  rw [refs_of_form? hf, refs_of_form? (h.form_eq hf (.inl hl)), h.parts_eq (hs.fits _ f hf).members]

lemma Store.Builds.leveled (h : s.Builds module s.types.size strict s') (hu : s0.Unfolds s)
    (h0 : ∀ t, s0.record? t = none) (hs : s.Closed) (hb : s.Based)
    (hr : s'.record? (.composite k) = some r) : s'.Leveled 0 k r := by
  rcases h.record_cases hs hr with hold | hnew
  · have hbase {j : Nat} (hj : r.base = some (.composite j)) :
        ∃ rb, s.record? (.composite j) = some rb := isSome_iff_exists.1 (hb _ r _ hold hj)
    obtain ⟨hk, _⟩ := h.window hu h0 hs hold
    refine ((hu.levels k r hk hold).congr (fun t ht => ?_) fun j _ hj => ?_).mono fun j hj => ?_
    · obtain ⟨rb, hrb⟩ := isRecord_iff.1 (hb _ r t hold ht)
      rw [hrb, h.form_eq hrb (.inr fun _ h => by cases h)]
    · obtain ⟨rb, hrb⟩ := hbase hj
      obtain ⟨_, m, hm, hm'⟩ := h.window hu h0 hs hrb
      exact Unfolds.window_iff hm hm'
    · obtain ⟨rb, hrb⟩ := hbase hj
      have := (h.window hu h0 hs hrb).1
      omega
  · refine .inr ⟨fun j _ hj hrec hway => ?_, hnew.level⟩
    -- the base is earlier, and leads only to earlier records
    have hlt : j < k := hnew.below _ (mem_append_left _ (by rw [hj]; exact mem_singleton_self _)) j rfl
    have hplace : s.types.size ≤ k := hnew.place
    obtain ⟨rb, hrb⟩ := isSome_iff_exists.1 hrec
    rcases h.record_cases hs hrb with hold' | hnew'
    · obtain ⟨_, m, hm, hm'⟩ := h.window hu h0 hs hold'
      have := hm'.lt_of_reach hway
      have := hm.le
      omega
    · have := hnew'.eq_of_reach hrb hway
      omega

end Builds

/-- What a module has imported. -/
lemma Analysis.Imports.levels {a b : Analysis} (h : a.Imports b) (ha : a.store.Closed)
    (hground : a.store.Grounded) (hl : ∀ i ∈ a.library.interfaces, i.OfGrounded) :
    a.store.Unfolds b.store ∧ b.store.Grounded := by
  refine (h.store_induction (P := fun s => s.Closed ∧ a.store.Unfolds s ∧ s.Grounded)
    ⟨ha, .refl _, hground⟩ fun i hi s scopes hs => ?_).2
  obtain ⟨hclosed, hunfolds, hs⟩ := hs
  exact ⟨i.closed_importInto hclosed scopes,
    hunfolds.trans (i.unfolds_importInto hclosed scopes) hclosed, (hl i hi).importInto hclosed hs scopes⟩

namespace Outcome

lemma Accepts.levels (h : (ofSource features library source).Accepts m)
    (hl : ∀ i ∈ library.interfaces, i.OfGrounded) :
    (ofSource features library source).store.Grounded ∧ ∀ k r,
    (ofSource features library source).store.record? (.composite k) = some r →
    (ofSource features library source).store.Leveled 0 k r := by
  obtain ⟨b, c, hb, hi, hopened, _, hphase⟩ := h.phases
  have hbuilds := hphase False False.elim
  have hnone (t) : b.store.record? t = none := by
    rw [hb.store]
    exact Universe.record?_standard t
  have hground : b.store.Grounded := by
    intro t r hr
    rw [hnone] at hr
    cases hr
  obtain ⟨hunfolds, hc⟩ := hi.levels hb.closed hground (by rw [hb.library]; exact hl)
  exact ⟨hc.builds hopened.closed hbuilds.store,
    fun k r hr => hbuilds.store.leveled hunfolds hnone hopened.closed hc.based hr⟩

end Outcome

lemma Library.Built.ofGrounded {library : Library} (h : library.Built) : ∀ i ∈ library.interfaces,
    i.OfGrounded := by
  refine h.all fun features library source m _ hl h => ?_
  obtain ⟨t, hdep⟩ := h.depicts
  exact ⟨_, _, t, h.closed, (h.levels hl).1, hdep⟩

/-- All levels of a module are the depths of its records, unless it has imported an extension that
leads to an extension of itself. -/
theorem Outcome.levels_iff (features : Features) (library : Library) (source : String) (m : Module)
    (hl : library.Built) (h : (ofSource features library source).Accepts m) :
    let s := (ofSource features library source).store
    (∀ t r, s.record? t = some r → s.Depth t r.level) ↔ ¬ ∃ j k, s.LeadsToExtension j k := by
  obtain ⟨hground, hlevels⟩ := h.levels hl.ofGrounded
  exact depth_iff hground.based hlevels

/-! ## A chain that leads back -/

namespace Outcome

/-- A module in which an extension refers to its own extension. -/
def chain : Library :=
  Library.compiled {} ("MODULE A; TYPE B* = RECORD END; T* = RECORD (B) p*: POINTER TO E END; " ++
    "E* = RECORD (T) END; END A.")

lemma chain_built : chain.Built := .compiled .empty (by decide +kernel)

/-- A module that imports it. -/
def chainUser : String := "MODULE C; IMPORT A; END C."

/-- Two extensions, one of the other, and their levels. -/
def chainLevels (o : Outcome) : Option (List (Nat × Bool)) := do
  let id ← o.analysis.scopes.lookupInModule "A" "E"
  let e ← o.store.record? (o.store.typeOf id)
  let t ← e.base.bind o.store.record?
  let b ← t.base.bind o.store.record?
  return [(e.level, e.base.isSome), (t.level, t.base.isSome), (b.level, b.base.isSome)]

lemma chain_eval :
    (ofSource {} chain chainUser).acceptsWith (fun o _ => o.chainLevels == some [(1, true), (1,
     true), (0, false)]) := by
  decide +kernel

lemma chain_spec :
    let o := ofSource {} chain chainUser
    ∃ m t r, o.Accepts m ∧ o.store.record? t = some r ∧ r.level = 1 ∧ o.store.Depth t 2 := by
  obtain ⟨m, hm, hlevels⟩ := exists_of_acceptsWith chain_eval
  have hlevels := eq_of_beq hlevels
  generalize ofSource {} chain chainUser = o at hm hlevels ⊢
  simp only [chainLevels, bind_eq_bind, bind_eq_some_iff, pure_def,
    some.injEq, cons.injEq, Prod.mk.injEq] at hlevels
  obtain ⟨id, _, e, he, t, ⟨tt, htt, ht⟩, b, ⟨bt, hbt, hb⟩, ⟨hlevel, _⟩, _, ⟨_, hroot⟩, _⟩ := hlevels
  refine ⟨m, _, e, hm, he, hlevel, .extension he htt ?_⟩
  exact .extension ht hbt (.root hb (by simpa using hroot))

/-- An imported record with two records on its base chain has the level 1. -/
theorem level_of_unfinished_base :
    chain.Built ∧
    let o := ofSource {} chain chainUser
    ∃ m t r, o.Accepts m ∧ o.store.record? t = some r ∧ r.level = 1 ∧ o.store.Depth t 2 :=
  ⟨chain_built, chain_spec⟩

theorem levels_iff_chain : ∃ j k, (ofSource {} chain chainUser).store.LeadsToExtension j k := by
  obtain ⟨m, t, r, hm, hr, hlevel, hdepth⟩ := chain_spec
  by_contra hnone
  have hright := (levels_iff {} chain chainUser m chain_built hm).2 hnone t r hr
  rw [hlevel] at hright
  have := hright.unique hdepth
  omega

end Outcome
end Oberon
