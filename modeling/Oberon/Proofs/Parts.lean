import Mathlib.Tactic.Lemma
import Oberon.Module

/-!
# Oberon.Proofs.Parts

The expressions that occur in a phrase. Those of an expression are the expression itself and what
occurs in its operands and selectors; those of statements are listed with the use that is made of
them.
-/

namespace Oberon

open List

variable {e : Expr} {id : DeclId}

mutual

/-- All expressions in an expression, itself first. -/
def Expr.parts : Expr → List Expr
  | .literal v note => [.literal v note]
  | .designator ident decl selectors note =>
    .designator ident decl selectors note :: Selector.partsOf selectors
  | .unary op x note => .unary op x note :: x.parts
  | .binary op x y note => .binary op x y note :: (x.parts ++ y.parts)
  | .range x y note => .range x y note :: (x.parts ++ y.parts)
  | .set xs note => .set xs note :: Expr.partsOf xs

def Expr.partsOf : List Expr → List Expr
  | [] => []
  | x :: xs => x.parts ++ Expr.partsOf xs

def Selector.parts : Selector → List Expr
  | .index xs _ => Expr.partsOf xs
  | .call xs _ => Expr.partsOf xs
  | .field _ _ _ => []
  | .deref _ _ => []
  | .guard _ _ _ => []

def Selector.partsOf : List Selector → List Expr
  | [] => []
  | s :: rest => s.parts ++ Selector.partsOf rest

end

namespace Expr

lemma partsOf_eq_flatMap (xs) : partsOf xs = xs.flatMap parts := by
  induction xs with
  | nil => rfl
  | cons x xs ih => rw [partsOf, ih, flatMap_cons]

lemma mem_partsOf : e ∈ partsOf xs ↔ ∃ x ∈ xs, e ∈ x.parts := by
  rw [partsOf_eq_flatMap, mem_flatMap]

lemma partsOf_append (xs ys) : partsOf (xs ++ ys) = partsOf xs ++ partsOf ys := by
  simp only [partsOf_eq_flatMap, flatMap_append]

lemma self_mem_parts (e : Expr) : e ∈ e.parts := by
  cases e <;> simp [parts]

end Expr

namespace Selector

lemma partsOf_eq_flatMap (ss) : partsOf ss = ss.flatMap parts := by
  induction ss with
  | nil => rfl
  | cons s rest ih => rw [partsOf, ih, flatMap_cons]

lemma partsOf_append (ss rest) : partsOf (ss ++ rest) = partsOf ss ++ partsOf rest := by
  simp only [partsOf_eq_flatMap, flatMap_append]

end Selector

/-! ## Roots -/

/-- The declarations that the designators in an expression are rooted at. -/
def Expr.roots (e : Expr) : List DeclId := e.parts.filterMap Expr.root?

def Expr.rootsOf (xs : List Expr) : List DeclId := (Expr.partsOf xs).filterMap Expr.root?

def Selector.roots (s : Selector) : List DeclId := s.parts.filterMap Expr.root?

def Selector.rootsOf (ss : List Selector) : List DeclId :=
  (Selector.partsOf ss).filterMap Expr.root?

namespace Expr

@[simp]
lemma roots_literal (v note) : (literal v note).roots = [] := rfl

@[simp]
lemma roots_designator (ident decl ss note) : (designator ident decl ss note).roots =
    decl.toList ++ Selector.rootsOf ss := by
  cases decl with
  | none => rfl
  | some id => simp [roots, parts, root?, Selector.rootsOf]

lemma mem_roots_of_root? (h : e.root? = some id) : id ∈ e.roots := by
  unfold root? at h
  split at h
  · simp [h]
  · cases h

@[simp]
lemma roots_unary (op x note) :
    (unary op x note).roots = x.roots := rfl

@[simp]
lemma roots_binary (op x y note) :
    (binary op x y note).roots = x.roots ++ y.roots := filterMap_append

@[simp]
lemma roots_range (x y note) : (range x y note).roots = x.roots ++ y.roots :=
  filterMap_append

@[simp]
lemma roots_set (xs note) : (set xs note).roots = rootsOf xs := rfl

@[simp]
lemma roots_withNote (note) (e : Expr) : (e.withNote note).roots = e.roots := by
  cases e <;> simp [withNote]

@[simp]
lemma rootsOf_nil : rootsOf [] = [] := rfl

@[simp]
lemma rootsOf_cons (x xs) : rootsOf (x :: xs) = x.roots ++ rootsOf xs := by
  simp [rootsOf, partsOf, roots]

@[simp]
lemma rootsOf_append (xs ys) : rootsOf (xs ++ ys) = rootsOf xs ++ rootsOf ys := by
  simp [rootsOf, partsOf_append]

lemma mem_rootsOf : id ∈ rootsOf xs ↔ ∃ x ∈ xs, id ∈ x.roots := by
  rw [rootsOf, partsOf_eq_flatMap, filterMap_flatMap, mem_flatMap]
  rfl

end Expr

namespace Selector

@[simp]
lemma roots_index (xs mark) : (index xs mark).roots = Expr.rootsOf xs := rfl

@[simp]
lemma roots_call (xs mark) : (call xs mark).roots = Expr.rootsOf xs := rfl

@[simp]
lemma roots_field (name decl mark) :
    (field name decl mark).roots = [] := rfl

@[simp]
lemma roots_deref (implicit mark) : (deref implicit mark).roots = [] := rfl

@[simp]
lemma roots_guard (ident type mark) :
    (guard ident type mark).roots = [] := rfl

@[simp]
lemma rootsOf_nil : rootsOf [] = [] := rfl

@[simp]
lemma rootsOf_cons (s rest) : rootsOf (s :: rest) = s.roots ++ rootsOf rest := by
  simp [rootsOf, partsOf, roots]

@[simp]
lemma rootsOf_append (ss rest) : rootsOf (ss ++ rest) = rootsOf ss ++ rootsOf rest := by
  simp [rootsOf, partsOf_append]

lemma mem_rootsOf : id ∈ rootsOf ss ↔ ∃ s ∈ ss, id ∈ s.roots := by
  rw [rootsOf, partsOf_eq_flatMap, filterMap_flatMap, mem_flatMap]
  rfl

end Selector

/-! ## Statements -/

/-- What an expression of a statement is there for. -/
inductive Use where
  /-- To be evaluated or, as a target, to be located. -/
  | value
  /-- To be called. -/
  | call
  /-- To select an arm of a CASE statement. -/
  | label

mutual

/-- All statements in a statement, itself first. -/
def Statement.all : Statement → List Statement
  | .assign target value span => [.assign target value span]
  | .call e span => [.call e span]
  | .cond test body elsifs otherwise span =>
    .cond test body elsifs otherwise span ::
      (Statement.allOf body ++ Branch.allOf elsifs ++ Statement.allOfOtherwise otherwise)
  | .select subject arms otherwise span =>
    .select subject arms otherwise span ::
      (Arm.allOf arms ++ Statement.allOfOtherwise otherwise)
  | .loop body span => .loop body span :: Statement.allOf body
  | .while test body elsifs span =>
    .while test body elsifs span :: (Statement.allOf body ++ Branch.allOf elsifs)
  | .repeat body test span => .repeat body test span :: Statement.allOf body
  | .for counter low high step body span =>
    .for counter low high step body span :: Statement.allOf body
  | .exit span => [.exit span]
  | .return value span => [.return value span]

def Statement.allOf : List Statement → List Statement
  | [] => []
  | s :: rest => s.all ++ Statement.allOf rest

def Statement.allOfOtherwise : Option (List Statement) → List Statement
  | none => []
  | some body => Statement.allOf body

def Branch.allOf : List Branch → List Statement
  | [] => []
  | .mk _ body _ :: rest => Statement.allOf body ++ Branch.allOf rest

def Arm.allOf : List Arm → List Statement
  | [] => []
  | .mk _ body :: rest => Statement.allOf body ++ Arm.allOf rest

end

lemma Statement.allOf_append (ss rest) : allOf (ss ++ rest) = allOf ss ++ allOf rest := by
  induction ss with
  | nil => rfl
  | cons s ss ih => simp only [cons_append, allOf, ih, append_assoc]

lemma Branch.allOf_append (bs rest) : allOf (bs ++ rest) = allOf bs ++ allOf rest := by
  induction bs with
  | nil => rfl
  | cons b bs ih =>
    cases b
    simp only [cons_append, allOf, ih, append_assoc]

lemma Arm.allOf_append (as rest) : allOf (as ++ rest) = allOf as ++ allOf rest := by
  induction as with
  | nil => rfl
  | cons a as ih =>
    cases a
    simp only [cons_append, allOf, ih, append_assoc]

/-- The expressions of a statement that are not those of statements in it, with their uses. -/
def Statement.own : Statement → List (Use × Expr)
  | .assign target value _ => [(.value, target), (.value, value)]
  | .call e _ => [(.call, e)]
  | .cond test _ elsifs _ _ => (.value, test) :: elsifs.map fun b => (.value, b.test)
  | .select subject arms _ _ =>
    (.value, subject) :: arms.flatMap fun a => a.labels.labels.map (.label, ·)
  | .loop _ _ => []
  | .while test _ elsifs _ => (.value, test) :: elsifs.map fun b => (.value, b.test)
  | .repeat _ test _ => [(.value, test)]
  | .for counter low high step _ _ =>
    [(.value, counter), (.value, low), (.value, high), (.value, step)]
  | .exit _ => []
  | .return value _ => value.toList.map (.value, ·)

/-- The expressions of statements, none of them part of another, with their uses. -/
def Statement.usesOf (ss : List Statement) : List (Use × Expr) := (allOf ss).flatMap own

end Oberon
