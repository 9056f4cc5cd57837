import Oberon.Lifting.WriteBack
import Oberon.Proofs.Parts

/-!
# Oberon.Proofs.WriteBacks

What is written in front of RETURN statements. Each of them, however deeply it is nested, gets one
copy of it, and nothing else changes: without the copies the statements are what they were.
-/

namespace Oberon

open Statement (all allOf allOfOtherwise)

namespace Lifting

mutual

/-- A statement without the `n` statements in front of each RETURN in it. -/
def removeWithin (n : Nat) : Statement → Statement
  | .cond test body elsifs otherwise span => .cond test (removeBeforeReturns n body).2
      (removeInBranches n elsifs) (removeInOtherwise n otherwise) span
  | .select subject arms otherwise span =>
    .select subject (removeInArms n arms) (removeInOtherwise n otherwise) span
  | .loop body span => .loop (removeBeforeReturns n body).2 span
  | .while test body elsifs span =>
    .while test (removeBeforeReturns n body).2 (removeInBranches n elsifs) span
  | .repeat body test span => .repeat (removeBeforeReturns n body).2 test span
  | .for counter low high step body span =>
    .for counter low high step (removeBeforeReturns n body).2 span
  | s => s

/-- A sequence without them, and how many more are to be left out in front of it. -/
def removeBeforeReturns (n : Nat) : List Statement → Nat × List Statement
  | [] => (0, [])
  | .return value span :: rest => (n, .return value span :: (removeBeforeReturns n rest).2)
  | s :: rest =>
    match removeBeforeReturns n rest with
    | (0, rest) => (0, removeWithin n s :: rest)
    | (k + 1, rest) => (k, rest)

def removeInOtherwise (n : Nat) : Option (List Statement) → Option (List Statement)
  | none => none
  | some body => some (removeBeforeReturns n body).2

def removeInBranches (n : Nat) : List Branch → List Branch
  | [] => []
  | .mk test body span :: rest =>
    .mk test (removeBeforeReturns n body).2 span :: removeInBranches n rest

def removeInArms (n : Nat) : List Arm → List Arm
  | [] => []
  | .mk labels body :: rest => .mk labels (removeBeforeReturns n body).2 :: removeInArms n rest

end

/-- What becomes of a statement at any depth. -/
def withCopy (extra : List Statement) : Statement → List Statement
  | .return value span => allOf extra ++ [.return value span]
  | s => [insertWithin extra s]

/-- The sequence has no RETURN of its own. -/
def NoReturn (ss : List Statement) : Prop := ∀ value span, .return value span ∉ ss

variable {extra : List Statement}

/-- In front of a RETURN a copy is left out as a whole. -/
lemma removeBeforeReturns_append (hextra : NoReturn extra)
    (h : removeBeforeReturns n rest = (extra.length + k, ss)) :
    removeBeforeReturns n (extra ++ rest) = (k, ss) := by
  induction extra generalizing k with
  | nil => simpa using h
  | cons s extra ih =>
    have hs value span : s = .return value span → False := by
      rintro rfl
      exact hextra value span List.mem_cons_self
    rw [List.cons_append, removeBeforeReturns, ih (k := k + 1)]
    · exact fun value span hmem => hextra value span (List.mem_cons_of_mem _ hmem)
    · rw [h, List.length_cons, Nat.add_right_comm, Nat.add_assoc]
    · exact hs

lemma removeBeforeReturns_insert (hextra : NoReturn extra) (ss) :
    removeBeforeReturns extra.length (insertBeforeReturns extra ss) = (0, ss) := by
  apply insertBeforeReturns.induct
    (fun s => removeWithin extra.length (insertWithin extra s) = s)
    (fun as => removeInArms extra.length (insertInArms extra as) = as)
    (fun ss => removeBeforeReturns extra.length (insertBeforeReturns extra ss) = (0, ss))
    (fun o => removeInOtherwise extra.length (insertInOtherwise extra o) = o)
    (fun bs => removeInBranches extra.length (insertInBranches extra bs) = bs)
  case case12 =>
    intro value span rest ih
    rw [insertBeforeReturns, removeBeforeReturns_append hextra]
    rw [removeBeforeReturns, ih, Nat.add_zero]
  case case13 =>
    intro s rest hs ihs ih
    rw [insertBeforeReturns, removeBeforeReturns, ih, ihs]
    · cases s <;> simp_all [insertWithin]
    · exact hs
  all_goals
    intros
    simp_all [removeWithin, removeBeforeReturns, removeInArms, removeInOtherwise, removeInBranches,
      insertWithin, insertBeforeReturns, insertInArms, insertInOtherwise, insertInBranches]

lemma allOf_insertBeforeReturns (extra ss) : allOf (insertBeforeReturns extra ss) =
    (allOf ss).flatMap (withCopy extra) := by
  apply insertBeforeReturns.induct
    (fun s => (∀ value span, s ≠ .return value span) →
      (insertWithin extra s).all = s.all.flatMap (withCopy extra))
    (fun as => Arm.allOf (insertInArms extra as) = (Arm.allOf as).flatMap (withCopy extra))
    (fun ss => allOf (insertBeforeReturns extra ss) = (allOf ss).flatMap (withCopy extra))
    (fun o => allOfOtherwise (insertInOtherwise extra o) =
      (allOfOtherwise o).flatMap (withCopy extra))
    (fun bs => Branch.allOf (insertInBranches extra bs) =
      (Branch.allOf bs).flatMap (withCopy extra))
  all_goals
    intros
    simp_all [all, allOf, Statement.allOf_append, Arm.allOf, Branch.allOf, allOfOtherwise, withCopy,
      insertWithin, insertBeforeReturns, insertInArms, insertInOtherwise, insertInBranches]

/-- In front of every RETURN, however deeply it is nested, one copy of `extra` is inserted. Nothing
else changes: the sequence, and every statement in it, is what it was once the copies are removed. -/
theorem copies_inserted (extra ss : List Statement) (hextra : NoReturn extra) :
    allOf (insertBeforeReturns extra ss) = (allOf ss).flatMap (withCopy extra) ∧
    removeBeforeReturns extra.length (insertBeforeReturns extra ss) = (0, ss) ∧
    ∀ s, removeWithin extra.length (insertWithin extra s) = s := by
  refine ⟨allOf_insertBeforeReturns extra ss, removeBeforeReturns_insert hextra ss, fun s => ?_⟩
  have hsingle := removeBeforeReturns_insert hextra [s]
  cases s <;> simp_all [insertBeforeReturns, removeBeforeReturns, insertWithin, removeWithin]

/-- Two RETURN statements one behind the other, and a third around them. -/
theorem copies_inserted_nested :
    let extra : List Statement := [.exit ⟨1, 1⟩, .exit ⟨2, 2⟩]
    let ss : List Statement :=
      [.loop [.return none ⟨3, 3⟩, .return none ⟨4, 4⟩] ⟨5, 5⟩, .return none ⟨6, 6⟩]
    NoReturn extra ∧ insertBeforeReturns extra ss =
      [.loop (extra ++ .return none ⟨3, 3⟩ :: extra ++ [.return none ⟨4, 4⟩]) ⟨5, 5⟩] ++ extra ++
        [.return none ⟨6, 6⟩] ∧ removeBeforeReturns 2 (insertBeforeReturns extra ss) = (0, ss) := by
  intro extra ss
  have hextra : NoReturn extra := by simp [extra, NoReturn]
  exact ⟨hextra, rfl, (copies_inserted extra ss hextra).2.1⟩

end Lifting
end Oberon
