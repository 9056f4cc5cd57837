import Oberon.Proofs.Bindings
import Oberon.Proofs.Converting

/-!
# Oberon.Proofs.Locations

What an accepted module writes to. Whether something can be written is told from the declaration that
a designator starts with, and what is selected from it is left out of account. So everything that is
written is a location but for the results of calls, and but for arguments without a type, about which
nothing is checked.
-/

namespace Oberon

open Analyze Analysis Declaration

/-! ## Locations -/

def Expr.isDesignator : Expr → Bool
  | .designator _ _ _ _ => true
  | _ => false

/-- Is this the result of a call? -/
def Expr.endsInCall : Expr → Bool
  | .designator _ _ selectors _ => Analyze.endsInCall selectors
  | _ => false

/-- Does an expression denote a location of the module? That is a variable, which is not imported, a
parameter, which is not structured unless it is passed by reference, or a part of what a function
returns. -/
def Store.isLocation (s : Store) : Expr → Bool
  | .designator _ (some id) selectors _ =>
    !Analyze.endsInCall selectors && match (s.decl id).role with
      | .variable _ => !(s.decl id).imported
      | .parameter byReference _ => byReference || !s.isStructured (s.typeOf id)
      | .procedure _ => !selectors.isEmpty
      | _ => false
  | _ => false

lemma Analyze.endsInCall_cons (h : rest ≠ []) : endsInCall (selector :: rest) =
    endsInCall rest := by
  obtain ⟨next, rest, rfl⟩ := List.exists_cons_of_ne_nil h
  simp only [endsInCall, List.getLast?_cons_cons]

namespace Store

variable {s s' : Store}

lemma OneKind.isStructured (h : s.OneKind t u) : s.isStructured t = s.isStructured u := by
  have hpointer {t} (ht : s.isPointer t) : s.isStructured t = false := by
    obtain ⟨base, hform⟩ := isPointer_iff.1 ht
    simp [Store.isStructured, isArray, isRecord, array?, record?, hform]
  rcases h with ⟨ht, hu⟩ | ⟨ht, hu⟩
  · rw [hpointer ht, hpointer hu]
  · simp [Store.isStructured, ht, hu]

lemma Grows.isStructured (h : s.Grows s') (ht : s.Has t) : s'.isStructured t =
    s.isStructured t := by
  cases t with
  | composite i =>
    obtain ⟨f, hf⟩ := form?_of_has (ht i rfl)
    obtain ⟨f', hf', hbecomes⟩ := h.form _ f hf
    simp only [Store.isStructured, Store.isArray, Store.isRecord, Store.array?, Store.record?, hf, hf']
    cases f with
    | pointer =>
      cases f' with
      | pointer => rfl
      | _ => cases hbecomes
    | _ =>
      cases hbecomes
      rfl
  | _ => rfl

end Store

namespace Analysis.Precedes

variable {a last : Analysis} {id : DeclId}

/-- A variable or a parameter stays structured or not. -/
lemma isStructured (ha : a.Precedes last) (hid : id.In a.store)
    (hr : (a.store.decl id).role ≠ .procedure .defined) :
    last.store.isStructured (last.store.typeOf id) = a.store.isStructured (a.store.typeOf id) := by
  rcases ha.kind id hid hr with heq | hkind
  · rw [← heq]
    exact ha.grows.isStructured (ha.has id)
  · have hhas : a.store.Has (last.store.typeOf id) := by
      rcases hkind with ⟨_, hp⟩ | ⟨_, hr⟩
      · obtain ⟨_, hform⟩ := Store.isPointer_iff.1 hp
        exact Store.has_of_form? hform
      · exact Store.has_of_isRecord hr
    rw [ha.grows.isStructured hhas, hkind.isStructured]

/-- What can be written is a location, unless it is the result of a call. -/
lemma isLocation (ha : a.Precedes last) (hid : id.In a.store) (ident)
    (hw : a.store.unwritable? (.designator ident (some id) out note) = none)
    (hfield : ∀ index, (a.store.decl id).role ≠ .field index)
    (htype : (a.store.decl id).isType = false ∨ out = []) :
    last.store.isLocation (.designator ident (some id) out note) = !endsInCall out := by
  have himported : (last.store.decl id).imported = (a.store.decl id).imported := by
    rw [ha.grows.decl id hid]
  simp only [Store.unwritable?] at hw
  simp only [Store.isLocation, ha.grows.role hid, himported]
  cases hrole : (a.store.decl id).role with
  | «variable» index =>
    rw [hrole] at hw
    have hnative : (a.store.decl id).imported = false := by simpa using hw
    simp [hnative]
  | parameter byReference index =>
    rw [hrole] at hw
    have hplain := ha.isStructured hid (by simp [hrole])
    have hw : byReference ∨ a.store.isStructured (a.store.typeOf id) = false := by
      simpa [or_iff_not_imp_left, Store.typeOf] using hw
    rw [← hplain] at hw
    rcases hw with hw | hw <;> simp [hw]
  | procedure origin =>
    rw [hrole] at hw
    have hselected : out.isEmpty = false := by simpa using hw
    simp [hselected]
  | constant value =>
    rw [hrole] at hw
    cases hw
  | field index => exact absurd hrole (hfield index)
  | type =>
    rw [hrole] at hw
    have hselected : out.isEmpty = false := by simpa using hw
    rcases htype with h | rfl
    · simp [isType, hrole] at h
    · cases hselected

end Analysis.Precedes

/-! ## What has no type -/

namespace Analyze

variable {context : DeclId} {type : Ty}

lemma Walks.endsInCall_cons (h : Walks a P context base out type) (hb : base ≠ .undefined)
    (hu : type = .undefined) (selector) : endsInCall (selector :: out) = endsInCall out := by
  refine Analyze.endsInCall_cons ?_
  rintro rfl
  cases h
  exact hb hu

/-- Where selectors other than a call lead nowhere, a predefined procedure was called before. -/
lemma Walks.builtin_of_undefined (h : Walks a P context base out type) (ha : a.Ready)
    (hb : base ≠ .undefined) (hu : type = .undefined) (he : endsInCall out = false) :
    (a.store.decl context).builtin?.isSome := by
  induction h with
  | nil => exact absurd hu hb
  | index _ _ ht h ih | deref _ ht h ih =>
    rw [h.endsInCall_cons (ht.ne_pseudo _) hu] at he
    exact ih (ht.ne_pseudo _) hu he
  | field hf _ ht h ih =>
    -- A field is no procedure.
    rw [h.endsInCall_cons (ht.ne_pseudo _) hu] at he
    have hbuiltin := ih (ht.ne_pseudo _) hu he
    have hmember := (findFieldWithin_member ha _ _ hf).2
    unfold isMember at hmember
    unfold builtin? at hbuiltin
    split at hmember
    · next hrole => simp [hrole] at hbuiltin
    · next hrole => simp [hrole] at hbuiltin
    · cases hmember
  | guard _ ht _ h ih | call _ _ _ _ _ ht h ih =>
    rw [h.endsInCall_cons (ht.ne_pseudo _) hu] at he
    exact ih (ht.ne_pseudo _) hu he
  | proper => cases he
  | lost _ _ _ _ hbuiltin _ _ _ => exact hbuiltin

end Analyze

/-! ## What is written -/

namespace Analysis.Precedes

/-- What was read and can be written is a location, unless it is the result of a call. -/
lemma isLocation_of_writable (ha : a.Precedes last) (he : Elaborates a (.expr e))
    (hw : a.store.unwritable? e = none) : e.isDesignator ∧ last.store.isLocation e =
    !e.endsInCall := by
  cases e with
  | designator ident decl out note =>
    obtain ⟨id, rfl, hid, hdenotes⟩ := he.denotes ha.ready rfl
    have hlt := (ha.ready.known id (Scopes.knows_of_lookup hid)).lt
    refine ⟨rfl, ha.isLocation hlt ident hw ?_ ?_⟩
    · intro index hrole
      simp [isType, isVariable, isParameter,
        isProcedure, hrole] at hdenotes
    · rcases hdenotes with ⟨_, hout, _⟩ | ⟨hrole, _⟩
      · exact .inr hout
      · left
        cases hr : (a.store.decl id).role <;>
          simp [isType, isVariable, isParameter,
            isProcedure, hr] at hrole ⊢
  | _ => cases hw

/-- An argument that is passed by reference is a location exactly if it is a designator other than the
result of a call. Only one without a type is none. -/
lemma isLocation_of_reference (ha : a.Precedes last) (he : Elaborates a (.expr e))
    (hr : ByReference a.store param e) :
    (last.store.isLocation e ↔ e.isDesignator ∧ e.endsInCall = false) ∧
    (e.isDesignator = false → e.effectiveType = .undefined) := by
  cases hr with
  | location _ _ hw _ =>
    obtain ⟨hd, hlocation⟩ := ha.isLocation_of_writable he hw
    simp [hd, hlocation]
  | undefined hu =>
    refine ⟨?_, fun _ => hu⟩
    cases e with
    | designator ident decl out note =>
      obtain ⟨id, rfl, hid, hdenotes⟩ := he.denotes ha.ready rfl
      have hlt := (ha.ready.known id (Scopes.knows_of_lookup hid)).lt
      have hu : note.type = .undefined :=
        ((he.settled ha.ready : Expr.Settled _ _).effectiveType_eq_pseudo _).1 hu
      constructor
      · intro h
        simp only [Store.isLocation, Bool.and_eq_true, Bool.not_eq_true'] at h
        exact ⟨rfl, h.1⟩
      · rintro ⟨_, hend⟩
        have hend : endsInCall out = false := hend
        rcases hdenotes with ⟨_, _, ht⟩ | ⟨_, hden⟩
        · rw [ht] at hu
          cases hu
        · have hbuiltin := hden.walks.builtin_of_undefined ha.ready hden.grounds.ne_undefined hu hend
          have hne : out.isEmpty = false := by
            rw [List.isEmpty_eq_false_iff]
            intro hout
            exact (hden.bare hout).ne_pseudo _ hu
          unfold builtin? at hbuiltin
          simp only [Store.isLocation, ha.grows.role hlt, hend, Bool.not_false, Bool.true_and]
          split at hbuiltin
          · next hrole => simp [hrole, hne]
          · cases hbuiltin
    | _ => simp [Store.isLocation, Expr.isDesignator]

/-- The counter of a FOR statement is a location. -/
lemma isLocation_of_counts (ha : a.Precedes last) (hc : Counts a ident counter) : last.store.isLocation counter := by
  obtain ⟨hdesignates, hplain, hvar⟩ := hc
  cases hdesignates with
  | @location id out type hid hr h =>
    have hrole := hvar id rfl
    have hlt := (ha.ready.known id (Scopes.knows_of_lookup hid)).lt
    have himported := ha.plain id (Scopes.knowsPlainly_of_lookup hid hplain) hrole
    cases h
    have himported' : (last.store.decl id).imported = (a.store.decl id).imported := by
      rw [ha.grows.decl id hlt]
    unfold isVariable at hrole
    split at hrole
    · next heq =>
      simp [Store.isLocation, ha.grows.role hlt, heq, himported', himported, Analyze.endsInCall]
    · cases hrole
  | @type id hid hr _ =>
    have hvar := hvar id rfl
    unfold isType at hr
    unfold isVariable at hvar
    split at hr
    · next hrole => simp [hrole] at hvar
    · cases hr
  | @procedure id _ _ hid hr _ _ =>
    have hvar := hvar id rfl
    unfold isProcedure at hr
    unfold isVariable at hvar
    split at hr
    · next hrole => simp [hrole] at hvar
    · cases hr

end Analysis.Precedes

namespace Outcome

variable {features : Features} {library : Library}

/-- An accepted module writes to locations of its own, but for the results of calls: the target of an
assignment is a location exactly if it is no such result, the counter of a FOR statement is always one,
and an argument that is passed by reference is one exactly if it is a designator that is no such result.
Arguments that are no designators have no type. -/
theorem writes_locations_iff (h : (ofSource features library source).Accepts m)
    (hl : library.Built) :
    (∀ block ∈ m.blocks, ∀ s ∈ Statement.allOf block.body, (∀ target value span, s =
     .assign target value span → ((ofSource features library source).store.isLocation target =
     true ↔ target.endsInCall = false)) ∧ ∀ counter low high step body span, s =
     .for counter low high step body span →
     (ofSource features library source).store.isLocation counter = true) ∧
    ∀ b ∈ m.bindings (ofSource features library source).analysis,
    ((ofSource features library source).store.decl b.param).isVarParameter = true →
    ((ofSource features library source).store.isLocation b.arg = true ↔ b.arg.isDesignator = true ∧
     b.arg.endsInCall = false) ∧ (b.arg.isDesignator = false → b.arg.effectiveType = .undefined) :=
    by
  refine ⟨fun block hblock s hs => ?_, fun b hb hv => ?_⟩
  · obtain ⟨a, ha, hformed, hprecedes⟩ := h.formed hl block hblock s hs
    constructor
    · rintro target value span rfl
      cases hformed with
      | assign _ tspan ident chain hc ht hx hw =>
        have htarget := Elaborates.designator (fun s hs => (hc s hs).elaborates) ht
        have hlocation : (ofSource features library source).store.isLocation target =
          !target.endsInCall := (ha.isLocation_of_writable htarget hw).2
        rw [hlocation, Bool.not_eq_true']
    · rintro counter low high step body span rfl
      cases hformed with
      | «for» _ _ ident hb hc => exact (hprecedes _ hb).isLocation_of_counts hc
  · obtain ⟨a, ha, hlends⟩ := h.references hl b hb hv
    exact ha.isLocation_of_reference hlends.read hlends.accepted

/-- A field is assigned in a loop and then passed by reference. -/
def countedField : String := "MODULE M; TYPE T = RECORD a: INTEGER END; VAR t: T; i: INTEGER; " ++
    "PROCEDURE P(VAR x: INTEGER); END P; " ++
    "BEGIN FOR i := 0 TO 3 DO t.a := i END; P(t.a) END M."

lemma countedField_eval :
    (ofSource {} {} countedField).acceptsWith (fun o m => (m.assigns fun target _ =>
     !target.endsInCall) && (m.bindings o.analysis).any fun b => (o.store.decl
     b.param).isVarParameter && b.arg.isDesignator && !b.arg.endsInCall) := by
  decide +kernel

/-- Both the target and the argument are locations. -/
theorem countedField_written : ∃ m, (ofSource {} {} countedField).Accepts m ∧
    (∃ target value span, Statement.assign target value span ∈ Statement.allOf m.block.body ∧
     (ofSource {} {} countedField).store.isLocation target = true) ∧
    ∃ b ∈ m.bindings (ofSource {} {} countedField).analysis,
    ((ofSource {} {} countedField).store.decl b.param).isVarParameter = true ∧
    (ofSource {} {} countedField).store.isLocation b.arg = true := by
  obtain ⟨m, haccepts, hany⟩ := exists_of_acceptsWith countedField_eval
  rw [Bool.and_eq_true] at hany
  obtain ⟨target, value, span, hs, hend⟩ := m.exists_of_assigns hany.1
  obtain ⟨b, hb, hbound⟩ := List.any_eq_true.1 hany.2
  simp only [Bool.and_eq_true, Bool.not_eq_true'] at hend hbound
  obtain ⟨hstatements, hbindings⟩ := writes_locations_iff haccepts .empty
  refine ⟨m, haccepts, ⟨target, value, span, hs, ?_⟩, b, hb, hbound.1.1, ?_⟩
  · exact ((hstatements m.block List.mem_cons_self _ hs).1 _ _ _ rfl).2 hend
  · exact (hbindings b hb hbound.1.1).1.2 ⟨hbound.1.2, hbound.2⟩

/-- Something is assigned to the result of a function. -/
def assignedResult : String :=
  "MODULE M; PROCEDURE F(): INTEGER; BEGIN RETURN 1 END F; BEGIN F() := 1 END M."

lemma assignedResult_eval :
    (ofSource {} {} assignedResult).acceptsWith (fun o m => m.assigns fun target _ =>
     target.endsInCall && !o.store.isLocation target) := by
  decide +kernel

/-- The module is accepted, and the target of an assignment is no location. -/
theorem assignedResult_written : ∃ m, (ofSource {} {} assignedResult).Accepts m ∧
    ∃ target value span, Statement.assign target value span ∈ Statement.allOf m.block.body ∧
    target.endsInCall = true ∧ (ofSource {} {} assignedResult).store.isLocation target = false := by
  obtain ⟨m, haccepts, h⟩ := exists_of_acceptsWith assignedResult_eval
  obtain ⟨target, value, span, hs, h⟩ := m.exists_of_assigns h
  rw [Bool.and_eq_true, Bool.not_eq_true'] at h
  exact ⟨m, haccepts, target, value, span, hs, h.1, h.2⟩

end Outcome

end Oberon
