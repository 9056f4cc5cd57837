import Oberon.Proofs.Levels

/-!
# Oberon.Proofs.Fields

What the name of a field denotes. In an accepted module no two fields of a record and of the records it
extends have the same name, imported records included. So a name denotes the only field that has it, and
in an extension what it denotes in the base.
-/

namespace Oberon

open List

/-- Names are different for different fields. -/
lemma Store.Grounded.findField?_eq_some_iff {s : Store} (hc : s.Chain t rs)
    (hn : (s.fieldNames rs).Nodup) : s.findField? t name = some f ↔ f ∈ fieldsOf rs ∧
    (s.decl f).name = name := by
  rw [hc.findField?]
  refine ⟨fun h => ⟨mem_of_find?_eq_some h, by simpa using find?_some h⟩, ?_⟩
  rintro ⟨hf, rfl⟩
  cases hfind : (fieldsOf rs).find? fun g => (s.decl g).name == (s.decl f).name with
  | none => exact absurd (beq_self_eq_true _) (find?_eq_none.1 hfind f hf)
  | some g =>
    have heq : (s.decl g).name = (s.decl f).name := by simpa using find?_some hfind
    rw [inj_on_of_nodup_map hn (mem_of_find?_eq_some hfind) hf heq]

namespace Outcome

/-- In an accepted module the fields on the base chain of a record have different names. A name denotes
the only field of the chain that has it, and an extension keeps what names denote in its base. -/
theorem fields_unambiguous (features : Features) (library : Library) (source : String) (m : Module)
    (hl : library.Built) (h : (ofSource features library source).Accepts m) :
    let s := (ofSource features library source).store
    ∀ t r, s.record? t = some r → ∃ rs, s.Chain t rs ∧ (s.fieldNames rs).Nodup ∧
      (∀ name f, s.findField? t name = some f ↔ f ∈ Store.fieldsOf rs ∧ (s.decl f).name = name) ∧
      ∀ b ∈ r.base, ∀ name f, s.findField? b name = some f → s.findField? t name = some f := by
  intro s t r hr
  have hground : s.Grounded := (h.levels hl.ofGrounded).1
  obtain ⟨rs, hc, hnodup⟩ := hground t r hr
  refine ⟨rs, hc, hnodup, fun name f => Store.Grounded.findField?_eq_some_iff hc hnodup, fun b hb name f hf => ?_⟩
  rw [Store.Grounded.findField?_eq_some_iff hc hnodup]
  cases hc with
  | root hr' hb' =>
    rw [hr] at hr'
    cases hr'
    rw [hb'] at hb
    cases hb
  | extension hr' hb' hc' =>
    rw [hr] at hr'
    cases hr'
    rw [Option.mem_def.1 hb] at hb'
    cases hb'
    rw [hc'.findField?] at hf
    exact ⟨List.mem_append_right _ (List.mem_of_find?_eq_some hf), by simpa using List.find?_some hf⟩

/-- The chain of the imported record that extends two others has one field. -/
theorem fields_unambiguous_chain : ∃ t r rs, (ofSource {} chain chainUser).store.record? t =
    some r ∧ (ofSource {} chain chainUser).store.Chain t rs ∧ rs.length = 3 ∧
    ((ofSource {} chain chainUser).store.fieldNames rs).Nodup := by
  obtain ⟨m, t, r, hm, hr, _, hdepth⟩ := chain_spec
  obtain ⟨rs, hc, hnodup, _⟩ := fields_unambiguous {} chain chainUser m chain_built hm t r hr
  obtain ⟨rs', hc', hlength⟩ := Store.depth_iff_chain.1 hdepth
  exact ⟨t, r, rs, hr, hc, hc.unique hc' ▸ hlength, hnodup⟩

end Outcome
end Oberon
