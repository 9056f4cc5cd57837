import Mathlib.Data.Finset.Card
import Oberon.Interface.Import
import Oberon.Proofs.Growth

/-!
# Oberon.Proofs.Rebuilding

How the types of an interface are rebuilt, rule by rule and without a bound on the depth.
`Builds i lost r p r'` says that building the phrase `p` takes the state from `r` to `r'`; under the
condition `lost` a type may be given up. Rebuilding follows the rules whatever the bound
(`rebuild_builds`), and if only records and pointers can be met again while they are being built, the
bound that importing uses loses nothing (`rebuild_builds_all`).
-/

namespace Oberon

variable {r : Rebuilding}
namespace Interface

/-! ## Parts of an interface -/

namespace Shape

/-- The types a shape refers to. -/
def parts : Shape → List Ty
  | .array _ member => [member]
  | .record base fields => base.toList ++ fields.map Field.type
  | .pointer base => base.toList
  | .procedure params result _ => params.map Param.type ++ result.toList

/-- Made behind its parts. -/
def isLate : Shape → Bool
  | .array _ _ => true
  | .procedure _ _ _ => true
  | _ => false

end Shape

/-! ## States -/

/-- Declare the name of a type. -/
def nameType (s : Store) (t : Ty) : Option TypeName → Store
  | none => s
  | some n =>
    (s.addDecl (importedDecl n.module n.name .type t false)).2.setNaming t ⟨s.decls.size⟩

namespace Rebuilding

/-- The type at a place of the interface, if it is there already. -/
def placed? (r : Rebuilding) (index : Nat) : Option Ty := r.types[index]?.join

def withStore (r : Rebuilding) (store : Store) : Rebuilding := { r with store }

def setPlace (r : Rebuilding) (index : Nat) (t : Ty) : Rebuilding :=
  { r with types := r.types.setIfInBounds index (some t) }

/-- Start on a type that may be met again while it is being built. -/
def start (r : Rebuilding) (index : Nat) (f : Form) : Rebuilding :=
  (r.withStore (r.store.addType f).2).setPlace index (.composite r.store.types.size)

/-- A type is complete. -/
def finish (r : Rebuilding) (index : Nat) (t : Ty) (name : Option TypeName) : Rebuilding :=
  (r.withStore (nameType r.store t name)).setPlace index t

lemma placed?_setPlace (r : Rebuilding) (index other t) :
    (r.setPlace index t).placed? other =
      if index = other ∧ index < r.types.size then some t else r.placed? other := by
  simp only [placed?, setPlace, Array.getElem?_setIfInBounds]
  by_cases hi : index = other
  · subst hi
    by_cases hlt : index < r.types.size
    · simp [hlt]
    · simp [hlt]
  · simp [hi]

lemma placed?_finish (r : Rebuilding) (index other t name) :
    (r.finish index t name).placed? other =
      if index = other ∧ index < r.types.size then some t else r.placed? other :=
  placed?_setPlace _ _ _ _

@[simp]
lemma size_types_finish (r : Rebuilding) (index t name) : (r.finish index t name).types.size =
    r.types.size := by
  simp [finish, setPlace, withStore]

end Rebuilding

/-! ## Rules -/

/-- A field, or a parameter with its mode: is it passed by reference? -/
structure Member where
  name : String
  mode : Option Bool
  type : Ty
  exported : Bool

def Field.member (f : Field) : Member := ⟨f.name, none, f.type, f.exported⟩

def Param.member (p : Param) : Member := ⟨p.name, p.byReference, p.type, true⟩

def Member.declared (m : Member) (module : String) (index : Nat) (t : Ty) : Declaration :=
  importedDecl module m.name (m.mode.elim (.field index) (.parameter · index)) t m.exported

inductive BuildPhrase where
  | type (t built : Ty)
  | option (t built : Option Ty)
  | members (index : Nat) (ms : List Member) (ids : List DeclId)

inductive Builds (i : Interface) (lost : Prop) : Rebuilding → BuildPhrase → Rebuilding → Prop
  | basic (r : Rebuilding) (b : Basic) : Builds i lost r (.type (.basic b) (.basic b)) r
  | pseudo (r : Rebuilding) (p : Pseudo) : Builds i lost r (.type (.pseudo p) (.pseudo p)) r
  | known {r : Rebuilding} {index : Nat} {t : Ty} (h : r.placed? index = some t) :
      Builds i lost r (.type (.composite index) t) r
  | lost (r : Rebuilding) (index : Nat) (h : lost) :
      Builds i lost r (.type (.composite index) .undefined) r
  | array {r r1 : Rebuilding} {index : Nat} {name : Option TypeName} {lengths : List Nat}
      {member m : Ty} (hp : r.placed? index = none)
      (hi : i.types[index]? = some ⟨name, .array lengths member⟩)
      (hm : Builds i lost r (.type member m) r1) :
      Builds i lost r (.type (.composite index) (r1.store.addArray lengths m).1)
        ((r1.withStore (r1.store.addArray lengths m).2).finish index
          (r1.store.addArray lengths m).1 name)
  | pointer {r r1 : Rebuilding} {index : Nat} {name : Option TypeName} {base b : Option Ty}
      (hp : r.placed? index = none) (hi : i.types[index]? = some ⟨name, .pointer base⟩)
      (hb : Builds i lost (r.start index (.pointer none)) (.option base b) r1) :
      Builds i lost r (.type (.composite index) (.composite r.store.types.size))
        ((r1.withStore (r1.store.setForm (.composite r.store.types.size) (.pointer b))).finish index
          (.composite r.store.types.size) name)
  | record {r r1 r2 : Rebuilding} {index : Nat} {name : Option TypeName} {base b : Option Ty}
      {fields : List Field} {ids : List DeclId} (hp : r.placed? index = none)
      (hi : i.types[index]? = some ⟨name, .record base fields⟩)
      (hb : Builds i lost (r.start index (.record ⟨[], none, 0⟩)) (.option base b) r1)
      (hf : Builds i lost r1 (.members 0 (fields.map Field.member) ids) r2) :
      Builds i lost r (.type (.composite index) (.composite r.store.types.size))
        ((r2.withStore (r2.store.setForm (.composite r.store.types.size)
          (.record ⟨ids, b, recordLevel r1.store b⟩))).finish index
          (.composite r.store.types.size) name)
  | procedure {r r1 r2 : Rebuilding} {index : Nat} {name : Option TypeName} {params : List Param}
      {result t : Option Ty} {variadic : Bool} {ids : List DeclId} (hp : r.placed? index = none)
      (hi : i.types[index]? = some ⟨name, .procedure params result variadic⟩)
      (hs : Builds i lost r (.members 0 (params.map Param.member) ids) r1)
      (hr : Builds i lost r1 (.option result t) r2) :
      Builds i lost r (.type (.composite index) (.composite r2.store.types.size))
        ((r2.withStore (r2.store.addType (.procedure ⟨ids, t, variadic⟩)).2).finish index
          (.composite r2.store.types.size) name)
  | none (r : Rebuilding) : Builds i lost r (.option none none) r
  | some {r r1 : Rebuilding} {t u : Ty} (h : Builds i lost r (.type t u) r1) :
      Builds i lost r (.option (some t) (some u)) r1
  | noMembers (r : Rebuilding) (index : Nat) : Builds i lost r (.members index [] []) r
  | member {r r1 r2 : Rebuilding} {index : Nat} {m : Member} {rest : List Member} {t : Ty}
      {ids : List DeclId} (ht : Builds i lost r (.type m.type t) r1)
      (hr : Builds i lost (r1.withStore (r1.store.addDecl (m.declared i.name index t)).2)
        (.members (index + 1) rest ids) r2) :
      Builds i lost r (.members index (m :: rest) (⟨r1.store.decls.size⟩ :: ids)) r2

/-! ## Rebuilding follows the rules -/

section Rebuild

variable {ready : Rebuilding → Ty → Prop}

lemma builds_rebuildOption
    (hb : ∀ t r, ready r t → Builds i lost r (.type t (build t r).1) (build t r).2) (t r)
    (ht : ∀ u ∈ t, ready r u) :
    Builds i lost r (.option t (rebuildOption build t r).1) (rebuildOption build t r).2 := by
  cases t with
  | none => exact .none r
  | some t => exact .some (hb t r (ht t rfl))

/-- What can be built now can be built later. -/
def Lasting (i : Interface) (lost : Prop) (ready : Rebuilding → Ty → Prop) : Prop :=
  (∀ r p r', Builds i lost r p r' → ∀ t, ready r t → ready r' t) ∧
    ∀ r store t, ready r t → ready (r.withStore store) t

lemma builds_rebuildFields (hk : Lasting i lost ready)
    (hb : ∀ t r, ready r t → Builds i lost r (.type t (build t r).1) (build t r).2) (fields) :
    ∀ index r, (∀ f ∈ fields, ready r f.type) →
    Builds i lost r (.members index (fields.map Field.member) (rebuildFields i.name build index fields r).1)
     (rebuildFields i.name build index fields r).2 := by
  induction fields with
  | nil => exact fun index r _ => .noMembers r index
  | cons f rest ih =>
    intro index r hf
    rw [List.forall_mem_cons] at hf
    have ht := hb f.type r hf.1
    exact .member (m := f.member) ht (ih _ _ fun g hg => hk.2 _ _ _ (hk.1 _ _ _ ht _ (hf.2 g hg)))

lemma builds_rebuildParams (hk : Lasting i lost ready)
    (hb : ∀ t r, ready r t → Builds i lost r (.type t (build t r).1) (build t r).2) (params) :
    ∀ index r, (∀ p ∈ params, ready r p.type) →
    Builds i lost r (.members index (params.map Param.member) (rebuildParams i.name build index params r).1)
     (rebuildParams i.name build index params r).2 := by
  induction params with
  | nil => exact fun index r _ => .noMembers r index
  | cons p rest ih =>
    intro index r hp
    rw [List.forall_mem_cons] at hp
    have ht := hb p.type r hp.1
    exact .member (m := p.member) ht (ih _ _ fun g hg => hk.2 _ _ _ (hk.1 _ _ _ ht _ (hp.2 g hg)))

/-- The parts of a type are built once it has its place, those of arrays and procedure types
before. -/
lemma builds_rebuildShape (hk : Lasting i lost ready)
    (hb : ∀ t r, ready r t → Builds i lost r (.type t (build t r).1) (build t r).2)
    (hp : r.placed? index = none) (hi : i.types[index]? = some item)
    (hlate : item.shape.isLate → ∀ u ∈ item.shape.parts, ready r u)
    (hearly : item.shape.isLate = false → ∀ f, ∀ u ∈ item.shape.parts, ready (r.start index f) u) :
    Builds i lost r (.type (.composite index) (rebuildShape i.name build index item.shape r).1)
     ((rebuildShape i.name build index item.shape r).2.finish index (rebuildShape i.name build index
     item.shape r).1 item.name) := by
  obtain ⟨name, shape⟩ := item
  cases shape with
  | array lengths member =>
    exact .array hp hi (hb member r (hlate rfl member (List.mem_singleton_self _)))
  | pointer base =>
    refine .pointer hp hi (builds_rebuildOption hb base _ fun u hu => ?_)
    exact hearly rfl _ u (Option.mem_toList.2 hu)
  | record base fields =>
    have hbase := builds_rebuildOption hb base (r.start index (.record ⟨[], none, 0⟩)) fun u hu =>
      hearly rfl _ u (List.mem_append_left _ (Option.mem_toList.2 hu))
    refine .record hp hi hbase (builds_rebuildFields hk hb fields 0 _ fun f hf => ?_)
    exact hk.1 _ _ _ hbase _ (hearly rfl _ f.type (List.mem_append_right _ (List.mem_map_of_mem hf)))
  | procedure params result variadic =>
    have hparams := builds_rebuildParams hk hb params 0 r fun p hp =>
      hlate rfl p.type (List.mem_append_left _ (List.mem_map_of_mem hp))
    refine .procedure hp hi hparams (builds_rebuildOption hb result _ fun u hu => ?_)
    exact hk.1 _ _ _ hparams _ (hlate rfl u (List.mem_append_right _ (Option.mem_toList.2 hu)))

lemma rebuild_known (h : r.placed? index = some t) : rebuild i (fuel + 1) (.composite index) r =
    (t, r) := by
  have h : r.types[index]?.join = some t := h
  simp only [rebuild, bind, StateT.bind, get, getThe, MonadStateOf.get, StateT.get, pure, h]
  rfl

lemma rebuild_absent (h : r.placed? index = none) (hi : i.types[index]? = none) :
    rebuild i (fuel + 1) (.composite index) r = (.undefined, r) := by
  have h : r.types[index]?.join = none := h
  simp only [rebuild, bind, StateT.bind, get, getThe, MonadStateOf.get, StateT.get, pure, h, hi]
  rfl

lemma rebuild_item (h : r.placed? index = none) (hi : i.types[index]? = some item) :
    rebuild i (fuel + 1) (.composite index) r =
    ((rebuildShape i.name (rebuild i fuel) index item.shape r).1, (rebuildShape i.name (rebuild i
     fuel) index item.shape r).2.finish index (rebuildShape i.name (rebuild i fuel) index item.shape
     r).1 item.name) := by
  have h : r.types[index]?.join = none := h
  simp only [rebuild, bind, StateT.bind, get, getThe, MonadStateOf.get, StateT.get, pure, h, hi]
  obtain ⟨name, shape⟩ := item
  cases name <;> rfl

lemma rebuild_builds (i fuel) : ∀ t r,
    Builds i True r (.type t (rebuild i fuel t r).1) (rebuild i fuel t r).2 := by
  induction fuel with
  | zero =>
    intro t r
    cases t with
    | basic b => exact .basic r b
    | pseudo p => exact .pseudo r p
    | composite index => exact .lost r index trivial
  | succ fuel ih =>
    intro t r
    cases t with
    | basic b => exact .basic r b
    | pseudo p => exact .pseudo r p
    | composite index =>
      cases hp : r.placed? index with
      | some t =>
        rw [rebuild_known hp]
        exact .known hp
      | none =>
        cases hi : i.types[index]? with
        | none =>
          rw [rebuild_absent hp hi]
          exact .lost r index trivial
        | some item =>
          rw [rebuild_item hp hi]
          have hk : Lasting i True fun _ _ => True :=
            ⟨fun _ _ _ _ _ _ => trivial, fun _ _ _ _ => trivial⟩
          exact builds_rebuildShape hk (fun t r _ => ih t r) hp hi (fun _ _ _ => trivial)
            fun _ _ _ _ => trivial

end Rebuild

/-! ## The bound on the depth -/

variable {lost : Prop}

/-- Places stay, and the number of places does. -/
lemma Builds.placed (h : Builds i lost r p r') : r'.types.size = r.types.size ∧ ∀ index,
    (r.placed? index).isSome → (r'.placed? index).isSome := by
  have hfinish {r : Rebuilding} {store index t} {name : Option TypeName} :
      ((r.withStore store).finish index t name).types.size = r.types.size ∧ ∀ other,
        (r.placed? other).isSome →
          (((r.withStore store).finish index t name).placed? other).isSome := by
    refine ⟨by simp [Rebuilding.withStore], fun other ho => ?_⟩
    rw [Rebuilding.placed?_finish]
    split
    · rfl
    · exact ho
  have hstart {r : Rebuilding} {index f} : (r.start index f).types.size = r.types.size ∧
      ∀ other, (r.placed? other).isSome → ((r.start index f).placed? other).isSome := by
    refine ⟨by simp [Rebuilding.start, Rebuilding.setPlace, Rebuilding.withStore], fun other ho => ?_⟩
    rw [Rebuilding.start, Rebuilding.placed?_setPlace]
    split
    · rfl
    · exact ho
  induction h with
  | basic r b | pseudo r p | known h | lost r index h => exact ⟨rfl, fun _ h => h⟩
  | array hp hi hm ih =>
    exact ⟨hfinish.1.trans ih.1, fun other ho => hfinish.2 other (ih.2 other ho)⟩
  | pointer hp hi hb ih =>
    exact ⟨hfinish.1.trans (ih.1.trans hstart.1),
      fun other ho => hfinish.2 other (ih.2 other (hstart.2 other ho))⟩
  | record hp hi hb hf ihb ihf =>
    exact ⟨hfinish.1.trans (ihf.1.trans (ihb.1.trans hstart.1)),
      fun other ho => hfinish.2 other (ihf.2 other (ihb.2 other (hstart.2 other ho)))⟩
  | procedure hp hi hs hr ihs ihr =>
    exact ⟨hfinish.1.trans (ihr.1.trans ihs.1),
      fun other ho => hfinish.2 other (ihr.2 other (ihs.2 other ho))⟩
  | none r => exact ⟨rfl, fun _ h => h⟩
  | some h ih => exact ih
  | noMembers r index => exact ⟨rfl, fun _ h => h⟩
  | member ht hr iht ihr => exact ⟨ihr.1.trans iht.1, fun other ho => ihr.2 other (iht.2 other ho)⟩

/-- Is there a record or a pointer at a place? -/
def isEarly (i : Interface) (index : Nat) : Bool :=
  i.types[index]?.any fun item => !item.shape.isLate

/-- All parts are in the table, and along the parts of arrays and procedure types a rank falls. -/
structure Layered (i : Interface) (rank : Nat → Nat) : Prop where
  inside : ∀ (index : Nat) (item : Item), i.types[index]? = some item →
    ∀ j, .composite j ∈ item.shape.parts → j < i.types.size
  rank_le : ∀ j, rank j ≤ i.types.size
  early : ∀ j, isEarly i j = true → rank j = 0
  late : ∀ (index : Nat) (item : Item), i.types[index]? = some item → item.shape.isLate = true →
    ∀ j, .composite j ∈ item.shape.parts → rank j < rank index

/-- The records and pointers that are not there yet. -/
def missing (i : Interface) (r : Rebuilding) : Finset Nat :=
  {index ∈ Finset.range i.types.size | isEarly i index = true ∧ r.placed? index = none}

/-- A type that `fuel` is enough for. -/
def Ready (i : Interface) (rank : Nat → Nat) (fuel : Nat) (r : Rebuilding) (t : Ty) : Prop :=
  r.types.size = i.types.size ∧ ∀ index, t = .composite index → index < i.types.size ∧
    (missing i r).card * (i.types.size + 1) + rank index < fuel

lemma missing_subset (h : ∀ index, (r.placed? index).isSome → (r'.placed? index).isSome) :
    missing i r' ⊆ missing i r := by
  intro index hm
  simp only [missing, Finset.mem_filter] at hm ⊢
  refine ⟨hm.1, hm.2.1, ?_⟩
  cases hp : r.placed? index with
  | none => rfl
  | some t =>
    have := h index (by rw [hp]; rfl)
    rw [hm.2.2] at this
    cases this

lemma Ready.mono (h : Ready i rank fuel r t) (hsize : r'.types.size = r.types.size)
    (hp : ∀ index, (r.placed? index).isSome → (r'.placed? index).isSome) : Ready i rank fuel r' t :=
    by
  refine ⟨hsize.trans h.1, fun index ht => ?_⟩
  obtain ⟨hlt, hfuel⟩ := h.2 index ht
  have hcard := Finset.card_le_card (missing_subset (i := i) hp)
  refine ⟨hlt, Nat.lt_of_le_of_lt ?_ hfuel⟩
  exact Nat.add_le_add_right (Nat.mul_le_mul_right _ hcard) _

lemma lasting_ready (i) (lost : Prop) (rank fuel) : Lasting i lost (Ready i rank fuel) :=
  ⟨fun _ _ _ h _ ht => ht.mono h.placed.1 h.placed.2, fun _ _ _ ht =>
    ht.mono rfl fun _ h => h⟩

/-- What has got its place is no longer missing. -/
lemma card_missing_start (hlt : index < i.types.size) (he : isEarly i index)
    (hsize : r.types.size = i.types.size) (hp : r.placed? index = none) (f) :
    (missing i (r.start index f)).card < (missing i r).card := by
  refine Finset.card_lt_card (Finset.ssubset_iff_subset_ne.2 ⟨?_, fun heq => ?_⟩)
  · refine missing_subset fun other ho => ?_
    rw [Rebuilding.start, Rebuilding.placed?_setPlace]
    split
    · rfl
    · exact ho
  · have hmem : index ∈ missing i r := by simp [missing, hlt, he, hp]
    rw [← heq] at hmem
    have hnone := (Finset.mem_filter.1 hmem).2.2
    rw [Rebuilding.start, Rebuilding.placed?_setPlace,
      if_pos ⟨rfl, by simpa [Rebuilding.withStore, hsize] using hlt⟩] at hnone
    cases hnone

lemma rebuild_builds_all (hl : Layered i rank) (fuel) : ∀ t r, Ready i rank fuel r t →
    Builds i False r (.type t (rebuild i fuel t r).1) (rebuild i fuel t r).2 := by
  induction fuel with
  | zero =>
    intro t r hr
    cases t with
    | basic b => exact .basic r b
    | pseudo p => exact .pseudo r p
    | composite index => exact absurd (hr.2 index rfl).2 (Nat.not_lt_zero _)
  | succ fuel ih =>
    intro t r hr
    cases t with
    | basic b => exact .basic r b
    | pseudo p => exact .pseudo r p
    | composite index =>
      obtain ⟨hlt, hfuel⟩ := hr.2 index rfl
      cases hp : r.placed? index with
      | some t =>
        rw [rebuild_known hp]
        exact .known hp
      | none =>
        have hi : i.types[index]? = some i.types[index] := Array.getElem?_eq_getElem hlt
        rw [rebuild_item hp hi]
        refine builds_rebuildShape (lasting_ready i False rank fuel) ih hp hi (fun hlate u hu => ?_)
          fun hearly f u hu => ?_
        · -- the rank falls
          refine ⟨hr.1, ?_⟩
          rintro j rfl
          have := hl.late index _ hi hlate j hu
          exact ⟨hl.inside index _ hi j hu, by omega⟩
        · -- there is one missing type less
          have hisearly : isEarly i index := by simp [isEarly, hi, hearly]
          have hcard := card_missing_start hlt hisearly hr.1 hp f
          refine ⟨by simp [Rebuilding.start, Rebuilding.setPlace, Rebuilding.withStore, hr.1], ?_⟩
          rintro j rfl
          have hrank := hl.rank_le j
          rw [hl.early index hisearly] at hfuel
          have hmul := Nat.mul_le_mul_right (i.types.size + 1) (Nat.succ_le_of_lt hcard)
          rw [Nat.succ_mul] at hmul
          exact ⟨hl.inside index _ hi j hu, by omega⟩

/-- The bound that importing uses is enough for every type. -/
lemma ready_depth (hl : Layered i rank) (hsize : r.types.size = i.types.size)
    (ht : ∀ index, t = .composite index → index < i.types.size) : Ready i rank i.depth r t := by
  refine ⟨hsize, fun index hi => ⟨ht index hi, ?_⟩⟩
  have hcard : (missing i r).card ≤ i.types.size := by
    simpa [missing] using Finset.card_filter_le (Finset.range i.types.size)
      fun index => isEarly i index ∧ r.placed? index = none
  have hrank := hl.rank_le index
  have hmul := Nat.mul_le_mul_right (i.types.size + 1) hcard
  rw [depth, Nat.succ_mul]
  omega

end Interface
end Oberon
