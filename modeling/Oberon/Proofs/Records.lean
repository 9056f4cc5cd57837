import Oberon.Proofs.Blocks
import Oberon.Proofs.Extending

/-!
# Oberon.Proofs.Records

Which records may be used for others. A record goes for those it extends, and also for a record that
was declared under the same name of the same module, be it in another procedure. Within one block all
names are different, so there extension decides alone.
-/

namespace Oberon

open Analyze Analysis List

variable {s : Store}

/-- Both types were declared, under one name of one module. -/
def Store.DeclaredAlike (s : Store) (t u : Ty) : Prop :=
  ∃ x y, s.naming? t = some x ∧ s.naming? u = some y ∧ (s.decl x).name = (s.decl y).name ∧
    (s.decl x).module = (s.decl y).module

lemma Store.sameName_record_iff (ht : s.isRecord t) (u) : s.sameName t u ↔
    s.DeclaredAlike t u := by
  obtain ⟨r, hr⟩ := isRecord_iff.1 ht
  cases t with
  | composite k =>
    simp only [sameName, DeclaredAlike]
    split
    · next x y hx hy => simp [hx, hy]
    · next hnone =>
      refine ⟨by simp, ?_⟩
      rintro ⟨x, y, hx, hy, _⟩
      exact absurd hy (hnone x y hx)
  | _ => cases hr

/-- Every type extends itself. -/
lemma Store.mismatch?_record_iff (he : s.isRecord expected) (ha : s.isRecord actual) :
    s.mismatch? expected actual = none ↔ s.Extends actual expected ∨
    s.DeclaredAlike expected actual := by
  rw [mismatch?, mismatchWithin_record_iff ha he, sameType, Bool.or_eq_true, beq_iff_eq,
    sameName_record_iff he]
  constructor
  · rintro ((rfl | hname) | hext)
    · exact .inl (.refl _)
    · exact .inr hname
    · exact .inl hext
  · rintro (hext | hname)
    · exact .inr hext
    · exact .inl (.inr hname)

/-! ## Names of one block -/

/-- What a block declares is in the scope of its body, under names that are all different. -/
lemma Block.ReadIn.eq_of_name {strict : Prop} {start a last : Analysis} {block : Block}
    (h : block.ReadIn low strict start a last) (hx : x ∈ block.members [])
    (hy : y ∈ block.members []) (hname : (last.store.decl x).name = (last.store.decl y).name) : x =
    y := by
  obtain ⟨n, hn⟩ := h.entered x hx
  obtain ⟨k, hk⟩ := h.entered y hy
  have hlists := h.before.sound.names _ mem_cons_self
  have hlater {id name} (hid : (name, id) ∈ a.scopes.inner) :
      (last.store.decl id).name = name := by
    obtain ⟨hlt, heq⟩ := hlists.names _ hid
    rw [h.after.store.decl hlt]
    exact heq
  rw [hlater hn, hlater hk] at hname
  subst hname
  have heq := inj_on_of_nodup_map hlists.nodup hn hk rfl
  cases heq
  rfl

lemma Block.types_subset_members (block : Block) : block.types ⊆ block.members [] := by
  cases block
  simp only [Block.types, Block.members]
  intro x hx
  simp [hx]

namespace Outcome

variable {features : Features} {library : Library}

lemma Accepts.eq_of_name (h : (ofSource features library source).Accepts m)
    (hb : block ∈ m.blocks) (hx : x ∈ block.types) (hy : y ∈ block.types)
    (hname : ((ofSource features library source).store.decl x).name =
     ((ofSource features library source).store.decl y).name) : x = y := by
  obtain ⟨_, _, _, _, _, hblocks⟩ := h.blocks
  obtain ⟨⟨f, hf, _⟩, htrees⟩ := hblocks False False.elim
  rcases mem_cons.1 hb with rfl | hb
  · exact hf.eq_of_name (m.block.types_subset_members hx) (m.block.types_subset_members hy) hname
  · obtain ⟨p, hp, rfl⟩ := mem_map.1 hb
    rcases (htrees p hp).block with hempty | ⟨f, hf, _⟩
    · rw [hempty] at hx
      cases hx
    · exact hf.eq_of_name (p.block.types_subset_members hx) (p.block.types_subset_members hy) hname

/-- A record goes for another exactly if it is the same or extends it, or if both were declared under
one name of one module. The latter takes two blocks: among the records that one block of an accepted
module declares, it is extension alone that counts. -/
theorem compatible_records_iff (features : Features) (library : Library) (source : String)
    {expected actual : Ty} (he : (ofSource features library source).store.isRecord expected = true)
    (ha : (ofSource features library source).store.isRecord actual = true) :
    ((ofSource features library source).store.mismatch? expected actual = none ↔
     (ofSource features library source).store.Extends actual expected ∨
     (ofSource features library source).store.DeclaredAlike expected actual) ∧ ∀ m,
    (ofSource features library source).Accepts m → ∀ block ∈ m.blocks, ∀ x ∈ block.types,
    ∀ y ∈ block.types, x ≠ y → (ofSource features library source).store.naming? expected = some x →
    (ofSource features library source).store.naming? actual = some y →
    ((ofSource features library source).store.mismatch? expected actual = none ↔
     (ofSource features library source).store.Extends actual expected) := by
  have hiff := Store.mismatch?_record_iff he ha
  refine ⟨hiff, fun m h block hb x hx y hy hne hex hay => ?_⟩
  rw [hiff, or_iff_left_iff_imp]
  rintro ⟨x', y', hx', hy', hname, _⟩
  rw [hex] at hx'
  rw [hay] at hy'
  cases hx'
  cases hy'
  exact absurd (h.eq_of_name hb hx hy hname) hne

/-- A record and an extension of it, and in a procedure another record under the name of the first. -/
def shadowedRecord : String :=
  "MODULE M; TYPE T = RECORD a: INTEGER END; U = RECORD (T) END; VAR x: T; " ++
    "PROCEDURE P; TYPE T = RECORD b: REAL END; VAR y: T; BEGIN x := y END P; END M."

lemma shadowedRecord_eval :
    (ofSource {} {} shadowedRecord).acceptsWith (fun o m =>
      m.preorder.any fun p => m.block.types.any fun x => p.block.types.any fun y =>
        let s := o.store
        s.isRecord (s.typeOf x) && s.isRecord (s.typeOf y) &&
          (s.mismatch? (s.typeOf x) (s.typeOf y)).isNone &&
          !s.isExtension (s.typeOf y) (s.typeOf x)) ∧
    (ofSource {} {} shadowedRecord).acceptsWith (fun o m =>
      m.block.types.any fun x => m.block.types.any fun y =>
        let s := o.store
        s.isRecord (s.typeOf x) && s.isRecord (s.typeOf y) &&
          (s.mismatch? (s.typeOf x) (s.typeOf y)).isNone &&
          (s.mismatch? (s.typeOf y) (s.typeOf x)).isSome && x != y &&
          s.naming? (s.typeOf x) == some x && s.naming? (s.typeOf y) == some y) := by
  decide +kernel

/-- The record of the procedure goes for that of the module, which it does not extend. -/
theorem shadowedRecord_compatible : ∃ m, (ofSource {} {} shadowedRecord).Accepts m ∧
    ∃ p ∈ m.preorder, ∃ x ∈ m.block.types, ∃ y ∈ p.block.types,
    (ofSource {} {} shadowedRecord).store.isRecord ((ofSource {} {} shadowedRecord).store.typeOf x)
     = true ∧
    (ofSource {} {} shadowedRecord).store.isRecord ((ofSource {} {} shadowedRecord).store.typeOf y)
     = true ∧
    (ofSource {} {} shadowedRecord).store.mismatch? ((ofSource {} {} shadowedRecord).store.typeOf x)
     ((ofSource {} {} shadowedRecord).store.typeOf y) = none ∧
    ¬ (ofSource {} {} shadowedRecord).store.Extends ((ofSource {} {} shadowedRecord).store.typeOf y)
     ((ofSource {} {} shadowedRecord).store.typeOf x) := by
  obtain ⟨m, haccepts, hany⟩ := exists_of_acceptsWith shadowedRecord_eval.1
  generalize ofSource {} {} shadowedRecord = o at haccepts hany ⊢
  obtain ⟨p, hp, hany⟩ := List.any_eq_true.1 hany
  obtain ⟨x, hx, hany⟩ := List.any_eq_true.1 hany
  obtain ⟨y, hy, h⟩ := List.any_eq_true.1 hany
  simp only [Bool.and_eq_true, Option.isNone_iff_eq_none, Bool.not_eq_true'] at h
  obtain ⟨⟨⟨hrx, hry⟩, hnone⟩, hext⟩ := h
  refine ⟨m, haccepts, p, hp, x, hx, y, hy, hrx, hry, hnone, fun h => ?_⟩
  rw [(Store.isExtension_iff hrx).2 h] at hext
  cases hext

/-- The record of the module and its extension, to which both parts of the theorem apply. -/
theorem compatible_records_iff_shadowed : ∃ expected actual : Ty,
    (ofSource {} {} shadowedRecord).store.isRecord expected = true ∧
    (ofSource {} {} shadowedRecord).store.isRecord actual = true ∧
    (ofSource {} {} shadowedRecord).store.mismatch? expected actual = none ∧
    (ofSource {} {} shadowedRecord).store.mismatch? actual expected ≠ none ∧
    ((ofSource {} {} shadowedRecord).store.Extends actual expected ∨
     (ofSource {} {} shadowedRecord).store.DeclaredAlike expected actual) ∧
    (ofSource {} {} shadowedRecord).store.Extends actual expected := by
  obtain ⟨m, haccepts, hany⟩ := exists_of_acceptsWith shadowedRecord_eval.2
  obtain ⟨x, hx, hany⟩ := List.any_eq_true.1 hany
  obtain ⟨y, hy, h⟩ := List.any_eq_true.1 hany
  simp only [Bool.and_eq_true, Option.isNone_iff_eq_none, Option.isSome_iff_ne_none, beq_iff_eq,
    bne_iff_ne] at h
  obtain ⟨⟨⟨⟨⟨⟨hrx, hry⟩, hnone⟩, hsome⟩, hne⟩, hnx⟩, hny⟩ := h
  obtain ⟨hiff, hblock⟩ := compatible_records_iff {} {} shadowedRecord hrx hry
  refine ⟨_, _, hrx, hry, hnone, hsome, hiff.1 hnone, ?_⟩
  exact (hblock m haccepts m.block List.mem_cons_self x hx y hy hne hnx hny).1 hnone

end Outcome
end Oberon
