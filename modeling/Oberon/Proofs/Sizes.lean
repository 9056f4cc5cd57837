import Oberon.Proofs.Extending

/-!
# Oberon.Proofs.Sizes

How much room types take. The bytes of an array stop at the largest number of 32 bits, but its elements
are counted, and the fields of a record added up, modulo `2 ^ 32`. Sizes are those of arithmetic as long
as neither of these two gets there.
-/

namespace Oberon

open List

namespace Store

variable {s : Store}

/-- What fields take in all. -/
def total (bytes : DeclId → Nat) (fields : List DeclId) : Nat :=
  fields.foldl (fun n f => n + bytes f) 0

/-- The bytes of a type within the types `outer`. No type is a part of itself, no array has too many
elements to be counted, and no record too many bytes. -/
inductive Fills (s : Store) : List Ty → Ty → Nat → Prop
  | basic (outer : List Ty) (b : Basic) : Fills s outer (.basic b) b.size
  | pseudo (outer : List Ty) (p : Pseudo) : Fills s outer (.pseudo p) 0
  | openArray {a : ArrayForm} (ht : t ∉ outer) (h : s.form? t = some (.array a)) (ho : a.isOpen = true) :
      Fills s outer t 0
  | array {a : ArrayForm} (ht : t ∉ outer) (h : s.form? t = some (.array a)) (ho : a.isOpen = false)
      (hl : a.lengths.foldl (· * ·) 1 < 0x100000000) (hm : Fills s (t :: outer) a.member n) :
      Fills s outer t (a.lengths.foldl (· * ·) 1 * n)
  | record {r : RecordForm} {bytes : DeclId → Nat} (ht : t ∉ outer)
      (h : s.form? t = some (.record r))
      (hf : ∀ f ∈ r.fields, Fills s (t :: outer) (s.typeOf f) (bytes f))
      (hb : ∀ b ∈ r.base, Fills s (t :: outer) b inherited) (hn : r.base = none → inherited = 0)
      (hsum : total bytes r.fields + inherited < 0x100000000) :
      Fills s outer t (total bytes r.fields + inherited)
  | pointer (ht : t ∉ outer) (h : s.form? t = some (.pointer base)) : Fills s outer t 8
  | procedure (ht : t ∉ outer) (h : s.form? t = some (.procedure sig)) : Fills s outer t 8

lemma bytes_le_total (bytes) (h : f ∈ fields) : bytes f ≤ total bytes fields := by
  have hfold (fields : List DeclId) : ∀ n, n ≤ fields.foldl (fun n f => n + bytes f) n ∧
      ∀ f ∈ fields, bytes f ≤ fields.foldl (fun n f => n + bytes f) n := by
    induction fields with
    | nil => simp
    | cons f fields ih =>
      intro n
      obtain ⟨hle, hall⟩ := ih (n + bytes f)
      rw [foldl_cons, forall_mem_cons]
      exact ⟨by omega, by omega, hall⟩
  exact (hfold fields 0).2 f h

/-- A multiple of a saturated size is saturated where that of the size is. -/
lemma saturate32_mul (h : k < 0x100000000) (n) :
    saturate32 (wrap32 k * saturate32 n) = saturate32 (k * n) := by
  rw [wrap32, Nat.mod_eq_of_lt h, saturate32, saturate32, saturate32]
  rcases Nat.eq_zero_or_pos k with rfl | hk
  · rw [Nat.zero_mul, Nat.zero_mul]
  rcases Nat.le_total n 0xffffffff with hn | hn
  · rw [Nat.min_eq_left hn]
  · have hle := Nat.le_mul_of_pos_left 0xffffffff hk
    have hle' := Nat.mul_le_mul_left k hn
    rw [Nat.min_eq_right hn, Nat.min_eq_right hle, Nat.min_eq_right (Nat.le_trans hle hle')]

/-- The types of `outer` are there, none of them twice, and `fuel` is left for all others. -/
structure Within (s : Store) (outer : List Ty) (fuel : Nat) : Prop where
  nodup : outer.Nodup
  forms : ∀ u ∈ outer, ∃ f, s.form? u = some f
  enough : s.types.size ≤ fuel + outer.length

lemma Within.step (h : s.Within outer fuel) (ht : t ∉ outer) (hf : s.form? t = some f) :
    ∃ i k, t = .composite i ∧ fuel = k + 1 ∧ s.Within (t :: outer) k := by
  have hnodup := nodup_cons.2 ⟨ht, h.nodup⟩
  have hforms := forall_mem_cons.2 ⟨⟨f, hf⟩, h.forms⟩
  have hle := length_le_of_nodup hnodup hforms
  have henough := h.enough
  rw [length_cons] at hle
  cases t with
  | composite i => exact ⟨i, fuel - 1, rfl, by omega, hnodup, hforms, by rw [length_cons]; omega⟩
  | _ => cases hf

/-- The steps last along all that a type is made of, since no type comes twice. -/
lemma Fills.sizeWithin_eq (h : s.Fills outer t n) (hw : s.Within outer fuel) :
    s.sizeWithin fuel t = saturate32 n := by
  induction h generalizing fuel with
  | basic _ b => cases b <;> cases fuel <;> rfl
  | pseudo => cases fuel <;> rfl
  | openArray ht h ho =>
    obtain ⟨i, k, rfl, rfl, _⟩ := hw.step ht h
    simp [sizeWithin, h, ho, saturate32]
  | array ht h ho hl hm ih =>
    obtain ⟨i, k, rfl, rfl, hin⟩ := hw.step ht h
    simp only [sizeWithin, h, ho, Bool.false_eq_true, if_false]
    rw [ih hin, saturate32_mul hl]
  | @record outer t inherited r bytes ht h hf hb hn hsum ihf ihb =>
    obtain ⟨i, k, rfl, rfl, hin⟩ := hw.step ht h
    have hown : r.fields.foldl (fun n f => n + s.sizeWithin k (s.typeOf f)) 0 = total bytes r.fields := by
      refine foldl_ext _ _ _ fun n f hmem => ?_
      have hle := bytes_le_total bytes hmem
      rw [ihf f hmem hin, saturate32, Nat.min_eq_left (by omega)]
    have hall : wrap32 (total bytes r.fields + inherited) =
        saturate32 (total bytes r.fields + inherited) := by
      rw [wrap32, Nat.mod_eq_of_lt hsum, saturate32, Nat.min_eq_left (by omega)]
    rw [← hall]
    simp only [sizeWithin, h, hown]
    cases hr : r.base with
    | none => rw [hn hr]
    | some b =>
      have hbase := ihb b hr hin
      rw [saturate32, Nat.min_eq_left (by omega)] at hbase
      rw [← hbase]
  | pointer ht h | procedure ht h =>
    obtain ⟨i, k, rfl, rfl, _⟩ := hw.step ht h
    simp [sizeWithin, h, saturate32]

end Store
end Oberon
