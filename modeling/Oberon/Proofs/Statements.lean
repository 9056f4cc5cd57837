import Oberon.Proofs.Chains
import Oberon.Proofs.Reading

/-!
# Oberon.Proofs.Statements

What the analysis makes of statements where nothing is reported: which statement it yields, and
how its expressions come from those that were read.
-/

namespace Oberon

variable (span : Span)
namespace Analyze

/-- What becomes of a value that is assigned to something of type `t`. Nothing is known where one of
the two has no type. -/
inductive Assigns (s : Store) (t : Ty) (x : Expr) : Expr → Prop
  | undefined (h : t = .undefined ∨ x.type = .undefined) : Assigns s t x x
  | same (ht : t ≠ .undefined) (h : t = x.type) : Assigns s t x x
  | converted (hm : s.mismatch? t x.type = none) (hx : x.type ≠ .undefined) :
      Assigns s t x (s.converted x t)

lemma Assigns.adapts (h : Assigns s t x e) : x.Adapts e := by
  cases h with
  | undefined h | same ht h => exact .refl _
  | converted hm hx => exact s.adapts_converted x t

lemma assignTo_ensures (target value) :
    (assignTo target value).Ensures a fun e _ => Assigns a.store target.type value e := by
  refine .ite (fun hu => .pure fun _ => .undefined ?_) fun hu => ?_
  · simpa using hu
  · simp only [Bool.or_eq_true, beq_iff_eq, not_or] at hu
    refine .bind (checkCompatible_ensures _ _ _) ?_
    rintro _ _ ⟨rfl, rfl, hm⟩
    refine .ite (fun h => by cases h) fun _ => ?_
    refine .ite (fun ht => .pure fun _ => .same hu.1 (beq_iff_eq.1 ht)) fun _ => .getStore ?_
    refine .bind (.quiet _) fun _ b hb => (convertValue_ensures _ _).mono fun e _ h => ?_
    rw [h, hb.store]
    exact .converted hm hu.2

/-- The value of an assignment is adapted to its target, which can be written. -/
lemma assignment_ensures (target value) :
    (assignment span target (some value)).Ensures a fun v _ => a.store.unwritable? target = none ∧
    ∃ value', v = some (.assign target value' span) ∧ Assigns a.store target.type value value' := by
  refine .getStore ?_
  dsimp only
  split
  · exact .reported
  · next hw =>
    exact .bind (assignTo_ensures target value) fun value' _ h =>
      .pure fun _ => ⟨hw, value', rfl, h⟩

/-! ## Conditions and loops -/

lemma condition_ensures (statement test) :
    (condition span statement (some test)).Ensures a fun v b => b = a ∧ v = some test ∧
    (test.type = .undefined ∨ test.type.isBoolean) := by
  refine .bind (.reportIf _ _ _) fun _ b hb => .pure fun _ => ⟨hb.2, rfl, ?_⟩
  have h := hb.1
  rw [Bool.and_eq_false_iff] at h
  exact h.imp (by simp) (by simp)

lemma conditional_ensures (test body elsifs otherwise) :
    (conditional span (some test) body elsifs otherwise).Ensures a fun v b => b = a ∧ v =
    some (.cond test body elsifs otherwise span) ∧ (test.type = .undefined ∨ test.type.isBoolean) :=
  .bind (condition_ensures _ _ _) fun _ _ h => .pure fun _ => ⟨h.1, by rw [h.2.1]; rfl, h.2.2⟩

lemma branch_ensures (test body) : (branch span (some test) body).Ensures a fun v b => b = a ∧ v =
    some (.mk test body span) ∧ (test.type = .undefined ∨ test.type.isBoolean) :=
  .bind (condition_ensures _ _ _) fun _ _ h => .pure fun _ => ⟨h.1, by rw [h.2.1]; rfl, h.2.2⟩

/-- Leaving a loop. -/
def leaveLoop (a : Analysis) : Analysis := { a with loops := a.loops - 1 }

lemma loop_ensures (body) : (Analyze.loop span body).Ensures a fun s b => s = .loop body span ∧
    ∃ c, a.Silent c ∧ b = leaveLoop c := by
  have hend (c) (hc : a.Silent c) :
      (do endLoop; return Statement.loop body span : Analyze Statement).Ensures c fun s b =>
        s = .loop body span ∧ ∃ c, a.Silent c ∧ b = leaveLoop c :=
    fun _ => ⟨rfl, c, hc, rfl⟩
  unfold Analyze.loop
  dsimp only
  exact .ite (fun _ => .bind (.quiet _) fun _ c hc => hend c hc) fun _ => hend a (.refl a)

lemma whileLoop_ensures (test body elsifs) :
    (whileLoop span (some test) body elsifs).Ensures a fun v b => b = leaveLoop a ∧ v =
    some (.while test body elsifs span) ∧ (test.type = .undefined ∨ test.type.isBoolean) :=
  .bind (P := fun _ b => b = leaveLoop a) (fun _ => rfl) fun _ b hb =>
    .bind (condition_ensures _ _ _) fun _ _ h => .pure fun _ =>
      ⟨h.1.trans hb, by rw [h.2.1]; rfl, h.2.2⟩

lemma repeatLoop_ensures (test body) : (repeatLoop span (some test) body).Ensures a fun v b => b =
    leaveLoop a ∧ v = some (.repeat body test span) ∧
    (test.type = .undefined ∨ test.type.isBoolean) :=
  .bind (P := fun _ b => b = leaveLoop a) (fun _ => rfl) fun _ b hb =>
    .bind (condition_ensures _ _ _) fun _ _ h => .pure fun _ =>
      ⟨h.1.trans hb, by rw [h.2.1]; rfl, h.2.2⟩

lemma forBound_ensures (type bound) :
    (forBound type bound).Ensures a fun v _ => bound.Adapts v := by
  unfold forBound
  split
  · exact .pure fun _ => .refl _
  · refine .ite (fun _ => .pure fun _ => .refl _) fun _ => .bind (.quiet _) fun _ _ _ => ?_
    exact .ite (fun _ => .getStore (.pure fun _ => Store.adapts_convert ..)) fun _ =>
      .pure fun _ => .refl _

/-- The step of a FOR statement, one if it is left out. -/
def StepOf (span : Span) (step : Option Expr) (e : Expr) : Prop :=
  (step = none ∧ e = .literal (.integer 1) { type := .integer, span }) ∨
    ∃ x, step = some x ∧ x.isLiteral ∧ x.Adapts e

lemma forStep_ensures (type step) :
    (forStep span type step).Ensures a fun v _ => StepOf span step v := by
  cases step with
  | none => exact .pure fun _ => .inl ⟨rfl, rfl⟩
  | some e =>
    simp only [forStep]
    split
    · exact .reported
    · exact .reported
    · next h => exact .pure fun _ => .inr ⟨e, rfl, by simp [Expr.isLiteral, h], .refl _⟩
    · next h =>
      have hl : e.isLiteral := by simp [Expr.isLiteral, h]
      refine .bind (.quiet _) fun _ _ _ => .ite (fun _ => ?_) fun _ => ?_
      · exact .getStore (.pure fun _ => .inr ⟨e, rfl, hl, Store.adapts_convert ..⟩)
      · exact .pure fun _ => .inr ⟨e, rfl, hl, .refl _⟩

lemma counterType_ensures (ident counter) : (counterType ident counter).Ensures a fun _ _ => ∀ id,
    counter.root? = some id → (a.store.decl id).isVariable := by
  refine .getStore ?_
  split
  · next hnone =>
    refine .pure fun _ id hid => ?_
    rw [hnone] at hid
    cases hid
  · next id hid =>
    refine .bind_of_appends (fun _ => by split <;> infer_instance) (.reportIf _ _ _)
      fun _ _ hv => ?_
    have hvar : ∀ id', counter.root? = some id' → (a.store.decl id').isVariable := by
      intro id' hid'
      rw [hid] at hid'
      cases hid'
      simpa using hv.1
    refine .ite (fun _ => .pure fun _ => hvar) fun _ => ?_
    exact .provided fun _ => .pure fun _ => hvar

/-- The counter is a variable that is named without a module. -/
structure Counts (a : Analysis) (ident : QualIdent) (counter : Expr) : Prop where
  designates : Designates a ident.span ident [] counter
  plain : ident.isQualified = false
  isVariable : ∀ id, counter.root? = some id → (a.store.decl id).isVariable = true

lemma forLoop_ensures (ident low high step body) :
    (forLoop span ident (some low) (some high) step body).Ensures a fun v b => (leaveLoop a).Silent
     b ∧ ∃ counter low' high' step', v = some (.for counter low' high' step' body span) ∧
    Counts (leaveLoop a) ident counter ∧ low.Adapts low' ∧ high.Adapts high' ∧
    StepOf span step step' := by
  refine .bind (P := fun _ b => b = leaveLoop a) (fun _ => rfl) ?_
  rintro _ _ rfl
  refine .bind (designates_of_designator _ _ _ (.refl _)).silently fun counter b hc => ?_
  refine .bind (.reportIf _ _ _) ?_
  rintro _ _ ⟨hplain, rfl⟩
  refine .bind (counterType_ensures ident counter).silently fun type d hd => ?_
  refine .bind (forBound_ensures type low).silently fun low' e he => ?_
  refine .bind (forBound_ensures type high).silently fun high' f hf => ?_
  refine .bind (forStep_ensures span type step).silently fun step' g hg => .pure fun _ => ?_
  have hvar := hd.2
  rw [hc.1.store] at hvar
  refine ⟨?_, counter, low', high', step', rfl, ⟨hc.2, hplain, hvar⟩, he.2, hf.2, hg.2⟩
  exact (((hc.1.trans hd.1).trans he.1).trans hf.1).trans hg.1

/-! ## Leaving -/

lemma exit_ensures : (exit span).Ensures a fun s _ => s = .exit span :=
  .get (.bind (.quiet _) fun _ _ _ => .pure fun _ => rfl)

/-- What becomes of a value that is returned where the result has type `t`. -/
inductive Returns (s : Store) (t : Ty) (x : Expr) : Expr → Prop
  | undefined (h : x.type = .undefined) : Returns s t x x
  | converted (hm : s.mismatch? t x.type = none) (hx : x.type ≠ .undefined) :
      Returns s t x (s.converted x t)

lemma Returns.adapts (h : Returns s t x e) : x.Adapts e := by
  cases h with
  | undefined h => exact .refl _
  | converted hm hx => exact s.adapts_converted x t

/-- The value of a RETURN statement, adapted if there is one. -/
def ResultOf (s : Store) (type : Option Ty) (value result : Option Expr) : Prop :=
  (value = none ∧ result = none) ∨
    ∃ t e e', type = some t ∧ value = some e ∧ result = some e' ∧ Returns s t e e'

lemma returnValue_ensures (type value) :
    (returnValue span type value).Ensures a fun v _ => ResultOf a.store type value v := by
  unfold returnValue
  split
  · exact .reported
  · next e t =>
    refine .ite (fun hu => .pure fun _ => ?_) fun hu => .bind (checkCompatible_ensures _ _ _) ?_
    · exact .inr ⟨t, e, e, rfl, rfl, rfl, .undefined (beq_iff_eq.1 hu)⟩
    · rintro _ _ ⟨rfl, rfl, hm⟩
      refine .ite (fun _ => .bind (convertValue_ensures e t) fun e' _ h => .pure fun _ => ?_)
        fun h => absurd rfl h
      subst h
      exact .inr ⟨t, e, _, rfl, rfl, rfl, .converted hm fun h => hu (beq_iff_eq.2 h)⟩
  · exact .reported
  · exact .pure fun _ => .inl ⟨rfl, rfl⟩

/-- The type of the result that the innermost procedure has to return. -/
def resultType (a : Analysis) : Option Ty :=
  a.procedures.head?.bind fun id =>
    (a.store.signature? (a.store.typeOf id)).bind Signature.result

lemma returnFrom_ensures (value) : (returnFrom span value).Ensures a fun s _ => ∃ result, s =
    .return result span ∧ ResultOf a.store (resultType a) value result := by
  refine .get ?_
  split
  · dsimp only
    split
    · exact .reported
    · exact .pure fun _ => ⟨none, rfl, .inl ⟨rfl, rfl⟩⟩
  · next id rest hp =>
    refine .bind (returnValue_ensures span _ value) fun result _ h => .pure fun _ => ⟨result, rfl, ?_⟩
    simpa only [resultType, hp, List.head?_cons, Option.bind_some] using h

/-! ## Calls -/

/-- What is called by a statement. A procedure that is named without a parameter list is called
without arguments. -/
inductive Calls (a : Analysis) (span : Span) (ident : QualIdent) (chain : List Selector) :
    Expr → Prop
  | bare {id : DeclId} {out : List Selector} {type : Ty} {signature formal : Signature}
      {result : Option Ty} {callSpan : Span} (hid : a.scopes.lookup ident = some id)
      (h : Resolves a id (a.store.typeOf id) chain out type)
      (hs : a.store.signature? type = some signature) (hr : signature.result = none)
      (hf : callSignature a ((lastField? out).getD id) signature [] = (formal, result))
      (hm : Matches a.store formal [] []) :
      Calls a span ident chain (.designator ident (some id)
        (out ++ [.call [] { span := callSpan, type := result.getD .undefined }])
        { type := result.getD .undefined, span })
  | call {id : DeclId} {out : List Selector} {type : Ty} (hid : a.scopes.lookup ident = some id)
      (h : Resolves a id (a.store.typeOf id) chain out type) (he : endsInCall out) :
      Calls a span ident chain (.designator ident (some id) out { type, span })

lemma callStatement_ensures (ident chain) (hb : a.Silent b) :
    (callStatement span ident chain).Ensures b fun v _ => ∃ e, v = some (.call e span) ∧
    Calls a span ident chain e := by
  refine .get ?_
  rw [hb.scopes, hb.store]
  split
  · exact .reported
  · next id hid =>
    refine .bind_of_appends (fun _ => .andThen fun _ => by split <;> infer_instance)
      (resolves_of_resolve id _ chain b hb).silently fun v c hv => .getStore ?_
    have hsilent : a.Silent c := hb.trans hv.1
    rw [hsilent.store]
    split
    · next signature hs =>
      refine .bind (P := fun s _ => ∃ e, s = .call e span ∧ Calls a span ident chain e) ?_
        fun s _ h => .pure fun _ => ?_
      rotate_left
      · obtain ⟨e, rfl, he⟩ := h
        exact ⟨e, rfl, he⟩
      refine .bind (.reportIf _ _ _) ?_
      rintro _ _ ⟨hr, rfl⟩
      have hr : signature.result = none := by simpa using hr
      refine .bind (call_ensures _ _ _ [] hsilent) fun w _ hw => .pure fun _ => ⟨_, rfl, ?_⟩
      obtain ⟨formal, _, hf, hc, hm⟩ := hw
      rw [hs] at hf
      cases hf
      refine .bare hid hv.2 hs hr hc ?_
      rwa [List.forall₂_nil_left_iff.1 hm.passes.adapts] at hm
    · refine .provided fun he => ?_
      exact .optional fun _ _ => .pure fun _ => ⟨_, rfl, .call hid hv.2 he⟩

/-! ## Cases -/

/-- A type case narrows its subject only if that is a plain variable. -/
lemma beginCase_ensures (subject) :
    (beginCase subject).Ensures a fun _ b => ∃ frame,
      b = { a with cases := frame :: a.cases } ∧ frame.type = subject.type ∧
      ∀ id, frame.decl = some id → frame.declared = a.store.typeOf id ∧
        a.store.Dynamic subject.type ∧
        ∃ ident note, subject = .designator ident (some id) [] note := by
  refine .getStore ?_
  dsimp only
  refine .ite (fun hd => ?_) fun _ _ => ⟨_, rfl, rfl, nofun⟩
  have ht : a.store.Dynamic subject.type := by simpa [Store.Dynamic] using hd
  clear hd
  split
  · next ident decl note =>
    refine .bind (.reportIf _ _ _) ?_
    rintro _ _ ⟨_, rfl⟩ _
    refine ⟨_, rfl, rfl, ?_⟩
    rintro id rfl
    exact ⟨rfl, ht, ident, note, rfl⟩
  · exact .reported

/-- The subject of a type case gets the types of declarations among `origins`. -/
inductive Narrows (frame : CaseFrame) (origins : DeclId → Prop) : Analysis → Analysis → Prop
  | done {a b : Analysis} (h : a.Silent b) : Narrows frame origins a b
  | step {a b c : Analysis} {id origin : DeclId} (h : a.Silent b)
      (hid : frame.decl = some id) (ho : origins origin)
      (ht : a.store.OneKind (a.store.typeOf origin) frame.type)
      (hn : Narrows frame origins
        { b with store := a.store.setType id (a.store.typeOf origin) } c) :
      Narrows frame origins a c

section

lemma Narrows.of_silent (hs : a.Silent b) (h : Narrows frame origins b c) :
    Narrows frame origins a c := by
  cases h with
  | done h => exact .done (hs.trans h)
  | step h hid ho ht hn =>
    rw [hs.store] at ht hn
    exact .step (hs.trans h) hid ho ht hn

lemma Narrows.trans (h : Narrows frame origins a b) (h' : Narrows frame origins b c) :
    Narrows frame origins a c := by
  induction h with
  | done h => exact h'.of_silent h
  | step h hid ho ht _ ih => exact .step h hid ho ht (ih h')

end

/-- A label by value is a constant or a range of constants. -/
def IsConstantLabel (label : Expr) : Prop :=
  label.isLiteral ∨ ∃ lower upper note, label = .range lower upper note ∧
    lower.isLiteral ∧ upper.isLiteral

lemma isLiteral_of_labelValue? (h : labelValue? e = some v) : e.isLiteral := by
  unfold labelValue? at h
  unfold Expr.isLiteral
  split at h
  · next hl => rw [hl]; rfl
  · next hl => rw [hl]; rfl
  · cases h

lemma labelValues_ensures (label) :
    (labelValues label).Ensures a fun _ _ => IsConstantLabel label := by
  unfold labelValues
  split
  · next lower upper note =>
    split
    · next low high hl hu =>
      refine .provided fun _ => .pure fun _ => ?_
      exact .inr ⟨lower, upper, note, rfl, isLiteral_of_labelValue? hl, isLiteral_of_labelValue? hu⟩
    · exact .reported
  · split
    · next hl => exact .pure fun _ => .inl (isLiteral_of_labelValue? hl)
    · exact .reported

lemma discreteLabel_ensures (scan label) :
    (discreteLabel scan label).Ensures a fun _ _ => IsConstantLabel label := by
  refine .otherwise fun _ => ?_
  refine .bind_of_appends (fun _ => by split <;> infer_instance) (labelValues_ensures label)
    fun _ _ h => ?_
  split
  · exact .pure fun _ => h
  · exact .bind (.quiet _) fun _ _ _ => .pure fun _ => h

lemma typeLabel_ensures (frame scan) {label : Expr}
    (ho : ∀ id, label.root? = some id → origins id) :
    (typeLabel frame scan label).Ensures a fun _ b => Narrows frame origins a b := by
  refine .getStore ?_
  split
  · exact .pure fun _ => .done (.refl a)
  · next id hid =>
    dsimp only
    refine .provided fun ht => ?_
    refine .provided fun _ => ?_
    have ht : a.store.OneKind (a.store.typeOf id) frame.type := by
      simp only [Bool.or_eq_true, Bool.and_eq_true] at ht
      exact ht
    split
    · next subject hs => exact fun _ => .step (.refl a) hs (ho id hid) ht (.done (.refl _))
    · exact .pure fun _ => .done (.refl a)

lemma scanLabels_ensures (frame second labels)
    (ho : ∀ label ∈ labels, ∀ id, label.root? = some id → origins id) : ∀ scan a,
    (scanLabels frame second scan labels).Ensures a fun _ b => Narrows frame origins a b ∧
    ∀ label ∈ labels, label.type = .undefined ∨ label.type = .typeName ∨ IsConstantLabel label := by
  induction labels with
  | nil => exact fun scan a => .pure fun _ => ⟨.done (.refl a), nofun⟩
  | cons label rest ih =>
    intro scan a
    rw [List.forall_mem_cons] at ho
    have hrest {b scan} (hb : Narrows frame origins a b)
        (hl : label.type = .undefined ∨ label.type = .typeName ∨ IsConstantLabel label) :
        (scanLabels frame second scan rest).Ensures b fun _ c => Narrows frame origins a c ∧
          ∀ l ∈ label :: rest, l.type = .undefined ∨ l.type = .typeName ∨ IsConstantLabel l :=
      (ih ho.2 scan b).mono fun _ _ h => ⟨hb.trans h.1, List.forall_mem_cons.2 ⟨hl, h.2⟩⟩
    refine .ite (fun _ => ?_) fun _ => .ite (fun ht => ?_) fun _ => ?_
    · refine .bind (discreteLabel_ensures scan label).silently fun _ _ h => ?_
      exact hrest (.done h.1) (.inr (.inr h.2))
    · split
      · exact .reported
      · refine .bind (typeLabel_ensures frame scan ho.1) fun _ _ h => ?_
        exact hrest h (.inr (.inl (beq_iff_eq.1 ht)))
    · refine .bind (.reportIf _ _ _) ?_
      rintro _ _ ⟨hu, rfl⟩
      exact hrest (.done (.refl _)) (.inl (by simpa using hu))

lemma caseLabels_ensures (labels) : (caseLabels span labels).Ensures a fun l b => l.labels =
    labels ∧
    (∃ frame, (frame.decl = none ∨ a.cases.head? = some frame) ∧
     Narrows frame (fun id => ∃ label ∈ labels, label.root? = some id) a b) ∧ ∀ label ∈ labels,
    label.type = .undefined ∨ label.type = .typeName ∨ IsConstantLabel label := by
  refine .bind (P := fun frame b => b = a ∧ (frame.decl = none ∨ a.cases.head? = some frame)) ?_ ?_
  · refine .get ?_
    split
    · next h => exact .pure fun _ => ⟨rfl, .inr (by rw [h]; rfl)⟩
    · exact .pure fun _ => ⟨rfl, .inl rfl⟩
  · rintro frame _ ⟨rfl, hframe⟩
    have horigins : ∀ label ∈ labels, ∀ id, label.root? = some id →
        ∃ label ∈ labels, label.root? = some id := fun label hl id hid => ⟨label, hl, hid⟩
    refine .bind (scanLabels_ensures frame _ labels horigins _ _) fun _ _ h => .pure fun _ => ?_
    exact ⟨rfl, ⟨frame, hframe, h.1⟩, h.2⟩

/-- The end of an arm gives the subject its declared type back. -/
lemma caseArm_ensures (labels body) :
    (caseArm labels body).Ensures a fun arm b => arm = .mk labels body ∧
      ((a.Silent b ∧ ∀ frame, a.cases.head? = some frame → frame.decl = none) ∨
        ∃ c frame id, a.Silent c ∧ a.cases.head? = some frame ∧
          frame.decl = some id ∧ b = { c with store := a.store.setType id frame.declared }) := by
  refine .get ?_
  dsimp only
  split
  · next hc => exact .pure fun _ => ⟨rfl, .inl ⟨.refl a, by simp [hc]⟩⟩
  · next frame _ hc =>
    refine .bind_of_appends (fun _ => by split <;> infer_instance) (.quiet _) fun _ c hs => ?_
    split
    · next id hid =>
      refine fun _ => ⟨rfl, .inr ⟨c, frame, id, hs, by rw [hc]; rfl, hid, ?_⟩⟩
      rw [← hs.store]
      rfl
    · next hid => exact .pure fun _ => ⟨rfl, .inl ⟨hs, by simp [hc, hid]⟩⟩

lemma endCase_ensures (subject arms otherwise) :
    (endCase span subject arms otherwise).Ensures a fun s b =>
      s = .select subject arms otherwise span ∧
        ({ a with cases := a.cases.tail } : Analysis).Silent b ∧
        (isDiscrete subject.type ∨ a.store.Dynamic subject.type ∨ subject.type = .undefined) := by
  refine .bind (P := fun _ b => b = { a with cases := a.cases.tail }) (fun _ => rfl) ?_
  rintro _ _ rfl
  refine .getStore ?_
  dsimp only
  refine .ite (fun hd => ?_) fun _ => .ite (fun ht => ?_) fun _ => ?_
  · exact .bind (.quiet _) fun _ _ hs => .pure fun _ => ⟨rfl, hs, .inl hd⟩
  · refine .bind (.quiet _) fun _ _ hs => .pure fun _ => ⟨rfl, hs, .inr (.inl ?_)⟩
    simpa [Store.Dynamic] using ht
  · refine .bind (.reportIf _ _ _) ?_
    rintro _ _ ⟨hu, rfl⟩
    exact .pure fun _ => ⟨rfl, .refl _, .inr (.inr (by simpa using hu))⟩

end Analyze
end Oberon
