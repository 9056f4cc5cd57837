import Oberon.Grammar.Module
import Oberon.Proofs.Quiet

/-!
# Oberon.Proofs.Keeps

What the actions of the analysis leave as it is, whatever they find. `Keeps E x` says that `x` leads
from every state to one that is related to it by `E`. All actions only add to the log. Most also
leave open what is open: scopes, procedures, loops, CASE statements and pointers that wait for their
base (`Steady`). As with `Quiet`, instances are found along the sequence of an action, and what
branches is split by hand.
-/

set_option synthInstance.maxSize 1000

namespace Oberon

namespace Analysis

variable {a b c : Analysis}

/-- What has been begun and not yet ended. -/
structure Context where
  outer : List Scope
  procedures : List DeclId
  loops : Nat
  cases : List CaseFrame

namespace Context

def OpensScope (x y : Context) : Prop := ∃ scope, y = { x with outer := scope :: x.outer }

def ClosesScope (x y : Context) : Prop := y = { x with outer := x.outer.tail }

def BeginsProcedure (x y : Context) : Prop :=
  ∃ scope id, y = { x with outer := scope :: x.outer, procedures := id :: x.procedures }

def EndsProcedure (x y : Context) : Prop :=
  y = { x with outer := x.outer.tail, procedures := x.procedures.tail }

def BeginsLoop (x y : Context) : Prop := y = { x with loops := x.loops + 1 }

def EndsLoop (x y : Context) : Prop := y = { x with loops := x.loops - 1 }

def BeginsCase (x y : Context) : Prop := ∃ frame, y = { x with cases := frame :: x.cases }

def EndsCase (x y : Context) : Prop := y = { x with cases := x.cases.tail }

/-- What `R` begins is ended by `S`. -/
class Brackets (R S : Context → Context → Prop) : Prop where
  closes {x y z : Context} : R x y → S y z → x = z

instance : Brackets OpensScope ClosesScope where
  closes h1 h2 := by
    obtain ⟨scope, rfl⟩ := h1
    cases h2
    rfl

instance : Brackets BeginsProcedure EndsProcedure where
  closes h1 h2 := by
    obtain ⟨scope, id, rfl⟩ := h1
    cases h2
    rfl

instance : Brackets BeginsLoop EndsLoop where
  closes h1 h2 := by
    cases h1
    cases h2
    rfl

instance : Brackets BeginsCase EndsCase where
  closes h1 h2 := by
    obtain ⟨frame, rfl⟩ := h1
    cases h2
    rfl

end Context

open Context

def context (a : Analysis) : Context := ⟨a.scopes.outer, a.procedures, a.loops, a.cases⟩

lemma level_eq_of_context (h : a.context = b.context) : a.scopes.level = b.scopes.level := by
  have houter : a.scopes.outer = b.scopes.outer := congrArg Context.outer h
  rw [Scopes.level, Scopes.level, houter]

/-- Messages have been added, what is open has changed by `R`, and the same pointers are waiting for
their base. -/
structure Shifts (R : Context → Context → Prop) (a b : Analysis) : Prop where
  logs : a.Logs b
  context : R a.context b.context
  forwards : b.forwards = a.forwards

/-- Messages have been added, and what is open is the same. -/
abbrev Steady : Analysis → Analysis → Prop := Shifts Eq

/-- As `Steady`, but that pointers may have been added that wait for their base. -/
structure Forwards (a b : Analysis) : Prop where
  logs : a.Logs b
  context : a.context = b.context
  forwards : ∃ new, b.forwards = new ++ a.forwards ∧ ∀ f ∈ new, f.level = a.scopes.level

/-- As `Shifts R`, if only pointers of the blocks around were waiting for their base. -/
structure Settles (R : Context → Context → Prop) (a b : Analysis) : Prop where
  logs : a.Logs b
  context : R a.context b.context
  forwards : (∀ f ∈ a.forwards, f.level < a.scopes.level) → b.forwards = a.forwards

/-- A way in which states may be related over any number of actions. -/
class Order (E : Analysis → Analysis → Prop) : Prop where
  of_steady {a b : Analysis} : a.Steady b → E a b
  trans {a b c : Analysis} : E a b → E b c → E a c

lemma Silent.steady (h : a.Silent b) : a.Steady b := ⟨h.logs, by rw [h.rest]; rfl, h.forwards⟩

lemma Shifts.after (h1 : a.Steady b) (h2 : b.Shifts R c) : a.Shifts R c :=
  ⟨h1.logs.trans h2.logs, h1.context ▸ h2.context, h2.forwards.trans h1.forwards⟩

lemma Shifts.before (h1 : a.Shifts R b) (h2 : b.Steady c) : a.Shifts R c :=
  ⟨h1.logs.trans h2.logs, h2.context ▸ h1.context, h2.forwards.trans h1.forwards⟩

lemma Shifts.close [Brackets R S] (h1 : a.Shifts R b) (h2 : b.Shifts S c) : a.Steady c :=
  ⟨h1.logs.trans h2.logs, Brackets.closes h1.context h2.context, h2.forwards.trans h1.forwards⟩

lemma Order.of_silent [Order E] (h : a.Silent b) : E a b :=
  Order.of_steady h.steady

lemma Order.refl [Order E] (a) : E a a :=
  Order.of_silent (.refl a)

instance : Order Logs := ⟨Shifts.logs, Logs.trans⟩

instance : Order Steady where
  of_steady h := h
  trans h1 h2 := .after h1 h2

lemma Forwards.settled (h : a.Forwards b) (hlogs : b.Logs c) (hcontext : b.context = c.context)
    (hc : c.forwards = b.forwards.dropWhile fun f => b.scopes.level ≤ f.level) :
    a.Settles Eq c := by
  refine ⟨h.logs.trans hlogs, h.context.trans hcontext, fun hold => ?_⟩
  obtain ⟨new, hnew, hlevel⟩ := h.forwards
  rw [hc, hnew, ← level_eq_of_context h.context]
  have hdrop : ∀ f ∈ new, decide (a.scopes.level ≤ f.level) := by
    intro f hf
    simp [hlevel f hf]
  rw [List.dropWhile_append_of_pos hdrop]
  cases hf : a.forwards with
  | nil => rfl
  | cons f rest =>
    have := hold f (by rw [hf]; exact List.mem_cons_self)
    rw [List.dropWhile_cons_of_neg]
    simp only [decide_eq_true_eq]
    omega

instance : Order Forwards where
  of_steady h := ⟨h.logs, h.context, [], h.forwards, nofun⟩
  trans h1 h2 := by
    refine ⟨h1.logs.trans h2.logs, h1.context.trans h2.context, ?_⟩
    obtain ⟨new1, hb, h1'⟩ := h1.forwards
    obtain ⟨new2, hc, h2'⟩ := h2.forwards
    refine ⟨new2 ++ new1, by rw [hc, hb, List.append_assoc], fun f hf => ?_⟩
    cases List.mem_append.mp hf with
    | inl hf => rw [h2' f hf, ← level_eq_of_context h1.context]
    | inr hf => exact h1' f hf

section

lemma Shifts.settles (h : a.Shifts R b) : a.Settles R b := ⟨h.logs, h.context, fun _ => h.forwards⟩

lemma Settles.after (h1 : a.Settles Eq b) (h2 : b.Settles R c) : a.Settles R c := by
  refine ⟨h1.logs.trans h2.logs, h1.context ▸ h2.context, fun h => ?_⟩
  have hb := h1.forwards h
  rw [h2.forwards (by rw [hb, ← level_eq_of_context h1.context]; exact h), hb]

instance : Order (Settles Eq) where
  of_steady h := h.settles
  trans h1 h2 := h1.after h2

/-- A way that also takes in what happens to the pointers of a block. -/
class Coarse (E : Analysis → Analysis → Prop) : Prop extends Order E where
  of_settles {a b : Analysis} : a.Settles Eq b → E a b

instance : Coarse Logs := ⟨Settles.logs⟩

/-- Pointers that wait for their base around a procedure do so in it. -/
lemma Settles.close (h1 : a.Shifts BeginsProcedure b) (h2 : b.Settles EndsProcedure c) :
    a.Settles Eq c := by
  refine ⟨h1.logs.trans h2.logs, Brackets.closes h1.context h2.context, fun h => ?_⟩
  have hlevel : b.scopes.level = a.scopes.level + 1 := by
    obtain ⟨scope, id, hb⟩ := h1.context
    have houter : b.scopes.outer = scope :: a.scopes.outer := congrArg outer hb
    rw [Scopes.level, Scopes.level, houter, List.length_cons]
    omega
  have hb : ∀ f ∈ b.forwards, f.level < b.scopes.level := by
    rw [h1.forwards, hlevel]
    exact fun f hf => Nat.lt_succ_of_lt (h f hf)
  rw [h2.forwards hb, h1.forwards]

/-- Whatever pointers have been added before, those of the blocks around are left waiting. -/
def Concludes (a b : Analysis) : Prop := ∀ a0 : Analysis, a0.Forwards a → a0.Settles Eq b

lemma Concludes.after (h1 : a.Forwards b) (h2 : b.Concludes c) : a.Concludes c :=
  fun _ h0 => h2 _ (Order.trans h0 h1)

lemma Concludes.before (h1 : a.Concludes b) (h2 : b.Settles Eq c) : a.Concludes c :=
  fun _ h0 => (h1 _ h0).after h2

lemma Concludes.settles (h : a.Concludes b) : a.Settles Eq b := h a (Order.refl a)

end

/-! ### Readers -/

/-- Who takes warnings for errors, if `strict`, and may know how many loops are open. -/
structure Reader where
  strict : Bool := false
  loops : Option Nat := none

/-- The state as a strict reader has it, if `strict`. -/
def under (strict : Bool) (a : Analysis) : Analysis := bif strict then a.strictly else a

/-- What the reader knows is so. -/
def Within (r : Reader) (a : Analysis) : Prop := ∀ k ∈ r.loops, a.loops = k

lemma within_under : (a.under strict).Within r ↔ a.Within r := by cases strict <;> exact Iff.rfl

/-- Over `E`, the reader `r` becomes `r'`. -/
class Leads (E : Analysis → Analysis → Prop) (r : Reader) (r' : outParam Reader) : Prop where
  strict : r'.strict = r.strict
  within {a b : Analysis} : E a b → a.Within r → b.Within r'

lemma Leads.ignorant (E r) : Leads E r ⟨r.strict, none⟩ := ⟨rfl, fun _ _ _ h => by cases h⟩

lemma Leads.of_loops (h : ∀ {a b}, E a b → a.loops = b.loops) : Leads E r r :=
  ⟨rfl, fun hE hw k hk => (h hE).symm.trans (hw k hk)⟩

instance : Leads E ⟨strict, none⟩ ⟨strict, none⟩ := .ignorant E _

instance : Leads Steady r r := .of_loops fun h => congrArg Context.loops h.context

instance : Leads Forwards r r := .of_loops fun h => congrArg Context.loops h.context

instance : Leads (Settles Eq) r r := .of_loops fun h => congrArg Context.loops h.context

instance : Leads Concludes r r := .of_loops fun h => congrArg Context.loops h.settles.context

instance : Leads (Shifts OpensScope) r r := .of_loops fun h => by
  obtain ⟨scope, h⟩ := h.context
  exact (congrArg Context.loops h).symm

instance : Leads (Shifts BeginsProcedure) r r := .of_loops fun h => by
  obtain ⟨scope, id, h⟩ := h.context
  exact (congrArg Context.loops h).symm

instance : Leads (Shifts BeginsCase) r r := .of_loops fun h => by
  obtain ⟨frame, h⟩ := h.context
  exact (congrArg Context.loops h).symm

instance : Leads (Shifts BeginsLoop) ⟨strict, some k⟩ ⟨strict, some (k + 1)⟩ :=
  ⟨rfl, fun h hw l hl => by
    cases hl
    exact (congrArg Context.loops h.context).trans (congrArg Nat.succ (hw k rfl))⟩

end Analysis

/-! ## Scopes and imports -/

lemma Scopes.outer_addModule (s : Scopes) (name) : (s.addModule name).outer = s.outer := by
  unfold addModule
  split <;> rfl

lemma Scopes.outer_closeScope (s : Scopes) : s.closeScope.outer = s.outer.tail := by
  unfold closeScope
  split <;> simp [*]

namespace Interface

lemma outer_rebuildExports (i : Interface) (exports) : ∀ scopes r,
    (i.rebuildExports exports scopes r).1.outer = scopes.outer := by
  induction exports with
  | nil => intro scopes r; rfl
  | cons e rest ih => intro scopes r; exact (ih _ _).trans (Scopes.outer_addModule _ _)

lemma outer_importInto (i : Interface) (store scopes) : (i.importInto store scopes).2.outer =
    scopes.outer :=
  (i.outer_rebuildExports _ _ _).trans (Scopes.outer_addModule _ _)

end Interface

/-! ## Actions -/

namespace Analyze

open Analysis Analysis.Context

/-- An action that leads to a related state from every state. -/
class Keeps (E : Analysis → Analysis → Prop) (x : Analyze α) : Prop where
  keeps : ∀ a : Analysis, E a (x a).2
  strict : Relabels x

lemma Relabels.under {x : Analyze α} (h : Relabels x) (strict a) :
    x (a.under strict) = ((x a).1, (x a).2.under strict) := by
  cases strict with
  | false => rfl
  | true => exact h a

/-- An action that only adds to the log. -/
abbrev Appends (x : Analyze α) : Prop := Keeps Logs x

instance (priority := low) {x : Analyze α} [Order E] [h : Keeps Steady x] : Keeps E x :=
  ⟨fun a => Order.of_steady (h.keeps a), h.strict⟩

instance (priority := low) {x : Analyze α} [h : Quiet x] : Keeps Steady x :=
  ⟨fun a => (h.silent a).steady, h.strict⟩

instance Keeps.bind [Order E] {x : Analyze α} {f : α → Analyze β} [hx : Keeps E x]
    [hf : ∀ v, Keeps E (f v)] : Keeps E (x >>= f) :=
  ⟨fun a => Order.trans (hx.keeps a) ((hf _).keeps _), .bind hx.strict fun _ => (hf _).strict⟩

lemma Keeps.andThen [Order E] {x : Analyze α} {f : α → Analyze β} [Keeps E x]
    (hf : ∀ v, Keeps E (f v)) : Keeps E (x >>= f) :=
  inferInstance

lemma Keeps.getThen {f : Analysis → Analyze α} (hs : ∀ a : Analysis, f a.strictly = f a)
    (hf : ∀ a, Keeps E (f a)) : Keeps E (get >>= f) :=
  ⟨fun a => (hf a).keeps a, .get hs fun a => (hf a).strict⟩

instance {p : Prop} [Decidable p] {x y : Analyze α} [hx : Keeps E x] [hy : Keeps E y] :
    Keeps E (if p then x else y) := by
  split <;> assumption

section

variable {x : Analyze α}

instance [hx : Keeps Steady x] [hf : ∀ v, Keeps (Shifts R) (f v)] : Keeps (Shifts R) (x >>= f) :=
  ⟨fun a => .after (hx.keeps a) ((hf _).keeps _), .bind hx.strict fun _ => (hf _).strict⟩

lemma Keeps.steadyThen [Keeps Steady x] (hf : ∀ v, Keeps (Shifts R) (f v)) :
    Keeps (Shifts R) (x >>= f) :=
  inferInstance

instance [hx : Keeps (Shifts R) x] [hf : ∀ v, Keeps Steady (f v)] : Keeps (Shifts R) (x >>= f) :=
  ⟨fun a => .before (hx.keeps a) ((hf _).keeps _), .bind hx.strict fun _ => (hf _).strict⟩

lemma Keeps.thenSteady [Keeps (Shifts R) x] (hf : ∀ v, Keeps Steady (f v)) :
    Keeps (Shifts R) (x >>= f) :=
  inferInstance

/-- A change of the state that keeps its log. -/
lemma Appends.of_log {x : Analyze α} (h : ∀ a, (x a).2.log = a.log) (hs : Relabels x) :
    Appends x :=
  ⟨fun a => by simp [Logs, h a], hs⟩

/-- An action that changes in one way what is open. -/
class Moves (x : Analyze α) (R : outParam (Context → Context → Prop)) : Prop where
  shifts : Keeps (Shifts R) x

instance [h : Moves x R] : Keeps (Shifts R) x := h.shifts

instance [h : Moves x R] : Appends x := ⟨fun a => (h.shifts.keeps a).logs, h.shifts.strict⟩

/-- A change of the state that keeps its log and the pointers that wait for their base. -/
lemma Keeps.shifts
    (h : ∀ a, (x a).2.log = a.log ∧ (x a).2.forwards = a.forwards ∧ R a.context (x a).2.context)
    (hs : Relabels x) : Keeps (Shifts R) x :=
  ⟨fun a => ⟨by simp [Logs, (h a).1], (h a).2.2, (h a).2.1⟩, hs⟩

end

variable (span : Span) (body : List Statement) (test low high step : Option Expr)
  (elsifs : List Branch) (frame : CaseFrame) (subject : Expr) (scan : LabelScan)
  (labels : List Expr) (arms : List Arm) (otherwise : Option (List Statement)) (member pointer : Ty)
  (fields params : List DeclId) (dimensions index : Nat) (name : String) (ident : IdentDef)
  (role : Role) (id : DeclId) (type : Option Ty) (byReference : Bool) (block : Block)
  (names : List IdentDef)

/-! ## Statements -/

instance : Moves beginLoop BeginsLoop := ⟨.shifts (fun _ => ⟨rfl, rfl, Eq.refl _⟩) fun _ => rfl⟩

instance : Moves endLoop EndsLoop := ⟨.shifts (fun _ => ⟨rfl, rfl, Eq.refl _⟩) fun _ => rfl⟩

instance : Moves (loop span body) EndsLoop := ⟨by unfold loop; infer_instance⟩

instance : Moves (whileLoop span test body elsifs) EndsLoop := ⟨by unfold whileLoop; infer_instance⟩

instance : Moves (repeatLoop span test body) EndsLoop := ⟨by unfold repeatLoop; infer_instance⟩

instance (ident : QualIdent) : Moves (forLoop span ident low high step body) EndsLoop := by
  refine ⟨?_⟩
  unfold forLoop
  refine .thenSteady fun _ => ?_
  repeat refine .andThen fun _ => ?_
  split <;> infer_instance

instance : Moves (modify fun a : Analysis => { a with cases := frame :: a.cases }) BeginsCase :=
  ⟨.shifts (fun _ => ⟨rfl, rfl, frame, rfl⟩) fun _ => rfl⟩

instance : Moves (beginCase subject) BeginsCase := by
  refine ⟨?_⟩
  unfold beginCase
  refine .steadyThen fun store => ?_
  dsimp only
  repeat' split
  all_goals infer_instance

instance (f : Store → Store) :
    Keeps Steady (modifyStore f) := .shifts (fun _ => ⟨rfl, rfl, rfl⟩) fun _ => rfl

instance (label : Expr) : Keeps Steady (typeLabel frame scan label) := by
  unfold typeLabel
  refine .andThen fun store => ?_
  dsimp only
  repeat' split
  all_goals infer_instance

instance (second : Option Expr) : Keeps Steady (scanLabels frame second scan labels) := by
  induction labels generalizing scan with
  | nil => unfold scanLabels; infer_instance
  | cons label rest ih =>
    unfold scanLabels
    repeat' split
    all_goals infer_instance

instance : Keeps Steady (caseLabels span labels) := by unfold caseLabels; infer_instance

instance (labels : CaseLabels) : Keeps Steady (caseArm labels body) := by
  unfold caseArm
  refine .getThen (fun _ => rfl) fun a => ?_
  dsimp only
  repeat' split
  all_goals infer_instance

instance : Keeps (Shifts EndsCase) (modify fun a : Analysis => { a with cases := a.cases.tail }) :=
  .shifts (fun _ => ⟨rfl, rfl, Eq.refl _⟩) fun _ => rfl

instance : Moves (endCase span subject arms otherwise) EndsCase := ⟨by unfold endCase; infer_instance⟩

/-! ## Types -/

instance (form : Form) :
    Keeps Steady (addType form) := .shifts (fun _ => ⟨rfl, rfl, rfl⟩) fun _ => rfl

instance (lengths : List Nat) : Keeps Steady (addArray lengths member) :=
  .shifts (fun _ => ⟨rfl, rfl, rfl⟩) fun _ => rfl

instance (dimensions : List (Option Expr)) (member : Option Ty) :
    Keeps Steady (arrayType span dimensions member) := by
  unfold arrayType
  refine .andThen fun lengths => ?_
  split
  · infer_instance
  · infer_instance
  · refine .andThen fun store => ?_
    split <;> infer_instance

instance (base : Option QualIdent) : Keeps Steady (recordType base fields) := by
  unfold recordType
  dsimp only
  split <;> infer_instance

instance : Keeps Steady beginPointer := by unfold beginPointer; infer_instance

instance (base : Ty) : Keeps Steady (setBase span pointer base) := by unfold setBase; infer_instance

instance (base : Option Ty) : Keeps Steady (endPointer span pointer base) := by
  unfold endPointer
  split <;> infer_instance

instance (ident : QualIdent) : Appends (forwardPointer pointer ident) :=
  .andThen fun _ => Appends.of_log (fun _ => rfl) fun _ => rfl

instance (ident : QualIdent) : Keeps Forwards (forwardPointer pointer ident) :=
  .andThen fun _ => ⟨fun a => ⟨.refl _, rfl, [⟨pointer, ident, a.scopes.level⟩], rfl, by simp⟩, fun _ => rfl⟩

instance (f : Forward) : Keeps Steady (settle f) := by
  unfold settle
  refine .getThen (fun _ => rfl) fun a => ?_
  split <;> infer_instance

instance (forwards : List Forward) : Keeps Steady (settleAll forwards) := by
  induction forwards with
  | nil | cons f rest ih => unfold settleAll; infer_instance

lemma settleForwards_run (a) :
    (settleForwards a).2 = (settleAll (a.forwards.takeWhile fun f => a.scopes.level ≤ f.level)
      { a with forwards := a.forwards.dropWhile fun f => a.scopes.level ≤ f.level }).2 :=
  rfl

instance : Keeps Concludes settleForwards := by
  have hall (a : Analysis) : Keeps Steady
    (settleAll (a.forwards.takeWhile fun f => a.scopes.level ≤ f.level)) := inferInstance
  let left (a : Analysis) : Analysis :=
    { a with forwards := a.forwards.dropWhile fun f => a.scopes.level ≤ f.level }
  refine ⟨fun a a0 h0 => ?_, fun a => (hall a).strict (left a)⟩
  have h := (hall a).keeps (left a)
  exact h0.settled h.logs h.context h.forwards

instance : Appends settleForwards :=
  have h : Keeps Concludes settleForwards := inferInstance
  ⟨fun a => (h.keeps a).settles.logs, h.strict⟩

instance (variadic : Bool) (result : Option Ty) :
    Keeps Steady (procedureType span params variadic result) := by
  unfold procedureType
  split <;> infer_instance

instance : Keeps Steady (addOpenArray dimensions member) :=
  .shifts (fun _ => ⟨rfl, rfl, rfl⟩) fun _ => rfl

instance (ident : QualIdent) : Keeps Steady (typeReference ident dimensions) := by
  unfold typeReference
  refine .getThen (fun _ => rfl) fun a => ?_
  split <;> infer_instance

/-! ## Declarations -/

instance (ident : Ident) : Appends (beginModule ident) := .of_log (fun _ => rfl) fun _ => rfl

instance : Keeps Steady (makeKnown name) := by
  refine .shifts (fun a => ?_) fun a => ?_ <;> simp only [makeKnown, get_bind_run, ite_run, strictly]
  · split
    · exact ⟨rfl, rfl, rfl⟩
    · cases a.library.find? name with
      | none => exact ⟨rfl, rfl, rfl⟩
      | some i => exact ⟨rfl, rfl, by simp [context, i.outer_importInto]⟩
  · split
    · rfl
    · cases a.library.find? name <;> rfl

instance (localName module : String) : Keeps Steady
    (modify fun a : Analysis => { a with scopes := a.scopes.addAlias localName module }) :=
  .shifts (fun _ => ⟨rfl, rfl, rfl⟩) fun _ => rfl

instance (rename : Option Ident) (ident : Ident) (earlier : List Import) :
    Keeps Steady (importModule span rename ident earlier) := by
  unfold importModule
  dsimp only
  split
  · infer_instance
  · exact .getThen (fun _ => rfl) fun _ => inferInstance

instance : Moves openScope OpensScope := ⟨.shifts (fun a => ⟨rfl, rfl, a.scopes.inner, rfl⟩) fun _ => rfl⟩

instance : Moves closeScope ClosesScope :=
  ⟨.shifts (fun a => ⟨rfl, rfl, by simp [closeScope, context, ClosesScope, Scopes.outer_closeScope]⟩) fun _ => rfl⟩

instance (type : Ty) : Keeps Steady (addDecl ident role type) :=
  .shifts (fun _ => ⟨rfl, rfl, rfl⟩) fun _ => rfl

instance : Keeps Steady (modify fun a : Analysis => { a with scopes := a.scopes.insert name id }) :=
  .shifts (fun _ => ⟨rfl, rfl, rfl⟩) fun _ => rfl

instance : Keeps Steady (enter name span id) := .getThen (fun _ => rfl) fun _ => inferInstance

instance (type : Ty) : Keeps Steady (declare ident role type) := by unfold declare; infer_instance

instance (value : Option Expr) : Keeps Steady (declareConstant ident value) := by
  unfold declareConstant; infer_instance

instance : Keeps Steady (declareType ident type) := by unfold declareType; infer_instance

instance : Keeps Steady (declareVariable ident type index) := by
  unfold declareVariable; infer_instance

instance : Keeps Steady (declareField ident type index) := by unfold declareField; infer_instance

instance (ident : Ident) : Keeps Steady (declareParameter ident byReference type index) := by
  unfold declareParameter; infer_instance

instance : Appends (modify fun a : Analysis => { a with procedures := id :: a.procedures }) :=
  .of_log (fun _ => rfl) fun _ => rfl

instance : Appends (modify fun a : Analysis => { a with procedures := a.procedures.tail }) :=
  .of_log (fun _ => rfl) fun _ => rfl

instance : Moves (beginProcedure ident) BeginsProcedure := by
  refine ⟨?_⟩
  unfold beginProcedure
  refine .steadyThen fun id => .steadyThen fun _ => ?_
  exact ⟨fun a => ⟨.refl _, ⟨a.scopes.inner, id, rfl⟩, rfl⟩, fun _ => rfl⟩

instance (type : Ty) : Keeps Steady (setSignature id type) := by unfold setSignature; infer_instance

instance (ident : Ident) : Moves (endProcedure id block ident) EndsProcedure := by
  refine ⟨⟨fun a => ?_, .bind (fun _ => rfl) fun _ => .bind (fun _ => rfl) fun _ => Keeps.strict Steady⟩⟩
  unfold endProcedure
  rw [bind_run, bind_run]
  have hends : a.Shifts EndsProcedure
      { a with scopes := a.scopes.closeScope, procedures := a.procedures.tail } :=
    ⟨.refl _, by simp [context, EndsProcedure, Scopes.outer_closeScope], rfl⟩
  exact hends.before (Keeps.keeps (E := Steady) _)

instance (convention : Option (String × Span)) (type : Ty) (name : Option String) :
    Keeps Steady (declareExternal ident convention type name) := by
  unfold declareExternal
  repeat refine .andThen fun _ => ?_
  exact .getThen (fun _ => rfl) fun _ => inferInstance

instance {declare : α → Nat → Analyze DeclId} [∀ x index, Keeps Steady (declare x index)]
    (names : List α) (decls : List DeclId) :
    Keeps Steady (Grammar.declareEach declare names decls) := by
  induction names generalizing decls with
  | nil | cons ident rest ih => unfold Grammar.declareEach; infer_instance

instance (names : List Ident) :
    Keeps Steady (Grammar.declareParameters byReference type names params) := by
  unfold Grammar.declareParameters; infer_instance

instance : Keeps Steady (Grammar.declareFields type names fields) := by
  unfold Grammar.declareFields; infer_instance

instance : Keeps Steady (Grammar.declareVariables type names decls) := by
  unfold Grammar.declareVariables; infer_instance

end Analyze
end Oberon
