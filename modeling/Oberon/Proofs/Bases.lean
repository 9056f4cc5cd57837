import Mathlib.Data.List.TakeWhile
import Oberon.Proofs.Building

/-!
# Oberon.Proofs.Bases

Pointers get their bases. A pointer type is made without one and is a stray until it gets its base or
is put among those that wait for it. Reading declarations leaves no new strays, and where the
declarations of a block end, what waits is settled.
-/

namespace Oberon

open Analyze Analysis Prod

/-! ## Pointers and their bases -/

namespace Store

variable {s s' : Store}

section

lemma pointer_of_addType (hf : f ≠ .pointer base)
    (h : (s.addType f).2.form? t = some (.pointer base)) : s.form? t = some (.pointer base) := by
  rw [form?_addType] at h
  split at h
  · exact absurd (Option.some.inj h) hf
  · exact h

lemma pointer_of_addRows (h : (s.addRows member lengths).2.form? t = some (.pointer base)) :
    s.form? t = some (.pointer base) := by
  induction lengths with
  | nil => exact h
  | cons n rest ih => exact ih (pointer_of_addType (by simp) h)

lemma pointer_of_addArray (h : (s.addArray lengths member).2.form? t = some (.pointer base)) :
    s.form? t = some (.pointer base) :=
  pointer_of_addRows (pointer_of_addType (by simp) h)

end

def Baseless (s : Store) (t : Ty) : Prop := s.form? t = some (.pointer none)

lemma Baseless.of_forms (hf : ∀ t, s'.form? t = s.form? t) (h : s'.Baseless t) :
    s.Baseless t := (hf t).symm.trans h

lemma Baseless.of_addType (hf : f ≠ .pointer none) (h : (s.addType f).2.Baseless t) :
    s.Baseless t := pointer_of_addType hf h

lemma Baseless.of_addArray
    (h : (s.addArray lengths member).2.Baseless t) : s.Baseless t := pointer_of_addArray h

lemma Baseless.of_setForm (hf : f ≠ .pointer none) (h : (s.setForm u f).Baseless t) :
    s.Baseless t ∧ t ≠ u := by
  unfold Baseless at h
  rw [form?_setForm] at h
  split at h
  · obtain ⟨_, _, heq⟩ := Option.map_eq_some_iff.1 h
    exact absurd heq hf
  · next hne => exact ⟨h, fun heq => hne heq.symm⟩

end Store

namespace Analysis

variable {a b c : Analysis}

/-- A pointer that has no base and does not wait for one. -/
structure Stray (a : Analysis) (t : Ty) : Prop where
  baseless : a.store.Baseless t
  unnoted : ∀ f ∈ a.forwards, f.pointer ≠ t

/-- Nothing was done that could make a stray. -/
structure Spares (a b : Analysis) : Prop where
  forwards : b.forwards = a.forwards
  baseless : ∀ t, b.store.Baseless t → a.store.Baseless t

/-- The pointers made from `a` to `b` have their base or are noted down, as of the current scope. -/
structure Attends (a b : Analysis) : Prop where
  level : b.scopes.level = a.scopes.level
  forwards : ∀ f ∈ b.forwards, f ∈ a.forwards ∨ f.level = a.scopes.level
  strays : ∀ t, b.Stray t → a.Stray t

/-- If nothing waits in `a`, nothing waits in `b`, and no pointer is left without its base. -/
def Completes (a b : Analysis) : Prop :=
  a.forwards = [] → b.forwards = [] ∧ ∀ t, b.store.Baseless t → a.store.Baseless t

protected lemma Spares.refl (a : Analysis) : a.Spares a := ⟨rfl, fun _ h => h⟩

protected lemma Spares.trans (h : a.Spares b) (h' : b.Spares c) : a.Spares c :=
  ⟨h'.forwards.trans h.forwards, fun t ht => h.baseless t (h'.baseless t ht)⟩

lemma Spares.stray (h : a.Spares b) (ht : b.Stray t) : a.Stray t :=
  ⟨h.baseless t ht.baseless, by rw [← h.forwards]; exact ht.unnoted⟩

lemma Silent.spares (h : a.Silent b) : a.Spares b :=
  ⟨h.forwards, fun t ht => by rwa [h.store] at ht⟩

lemma Spares.attends (h : a.Spares b) (hl : b.scopes.level = a.scopes.level) : a.Attends b :=
  ⟨hl, fun _ hf => .inl (h.forwards ▸ hf), fun _ ht => h.stray ht⟩

protected lemma Attends.refl (a : Analysis) : a.Attends a := (Spares.refl a).attends rfl

protected lemma Attends.trans (h : a.Attends b) (h' : b.Attends c) : a.Attends c where
  level := h'.level.trans h.level
  forwards f hf := by
    rcases h'.forwards f hf with hf | hf
    · exact h.forwards f hf
    · exact .inr (hf.trans h.level)
  strays t ht := h.strays t (h'.strays t ht)

lemma Silent.attends (h : a.Silent b) : a.Attends b := h.spares.attends h.continues.level

protected lemma Completes.trans (h : a.Completes b) (h' : b.Completes c) : a.Completes c := by
  intro ha
  obtain ⟨hb, hbases⟩ := h ha
  obtain ⟨hc, hbases'⟩ := h' hb
  exact ⟨hc, fun t ht => hbases t (hbases' t ht)⟩

lemma Spares.completes (h : a.Spares b) : a.Completes b :=
  fun ha => ⟨h.forwards.trans ha, h.baseless⟩

end Analysis

/-! ## Actions -/

variable {a b c d : Analysis}

lemma Analyze.Succeeds.keeps {α : Type} {x : Analyze α} {v : α} (h : x.Succeeds a v b)
    [hx : Keeps E x] : E a b := by
  have hab := hx.keeps a
  rwa [h.run] at hab

/-- The forms of all types stay. -/
lemma Analyze.Succeeds.spares {α : Type} {x : Analyze α} {v : α} [hx : Keeps Steady x]
    (h : x.Succeeds a v b) (hf : ∀ t, b.store.form? t = a.store.form? t) : a.Spares b :=
  ⟨(h.keeps (E := Steady)).forwards, fun _ ht => ht.of_forms hf⟩

/-- Actions that keep the scopes around and spare pointers. -/
lemma Analyze.Succeeds.attends {α : Type} {x : Analyze α} {v : α} [hx : Keeps Steady x]
    (h : x.Succeeds a v b) (hs : a.Spares b) : a.Attends b :=
  hs.attends (level_eq_of_context (h.keeps (E := Steady)).context).symm

lemma Analyze.spares_typeReference (h : (typeReference ident dimensions).Succeeds a t b) : a.Spares b := by
  refine ⟨(h.keeps (E := Steady)).forwards, fun u hu => ?_⟩
  obtain ⟨id, _, _, ⟨_, rfl⟩ | ⟨_, _, _, rfl⟩⟩ := h.ensures (typeReference_ensures ident dimensions)
  · exact hu
  · exact Store.Baseless.of_addArray hu

lemma Analyze.spares_procedureType (h : (procedureType span params variadic result).Succeeds a t b) : a.Spares b := by
  refine ⟨(h.keeps (E := Steady)).forwards, fun u hu => ?_⟩
  obtain ⟨_, _, rfl⟩ := h.ensures (procedureType_ensures span params variadic result)
  exact Store.Baseless.of_addType (by simp) hu

lemma Analyze.spares_arrayType {dimensions : List Expr}
    (h : (arrayType span (dimensions.map some) (some member)).Succeeds a t b) : a.Spares b := by
  refine ⟨(h.keeps (E := Steady)).forwards, fun u hu => ?_⟩
  obtain ⟨_, _, _, _, _, _, rfl⟩ := h.ensures (arrayType_ensures span dimensions member)
  exact Store.Baseless.of_addArray hu

lemma Analyze.spares_recordType (h : (recordType base fields).Succeeds a t b) : a.Spares b := by
  refine ⟨(h.keeps (E := Steady)).forwards, fun u hu => ?_⟩
  obtain ⟨_, _, _, _, _, rfl⟩ := h.ensures (recordType_ensures base fields)
  exact Store.Baseless.of_addType (by simp) hu

lemma Analyze.spares_declareType {id : DeclId}
    (h : (declareType ident (some t)).Succeeds a id b) : a.Spares b :=
  h.spares (h.ensures (declareType_ensures ident t)).forms

/-- A new pointer is a stray until its base is read. -/
lemma Analyze.stray_of_beginPointer (h : beginPointer.Succeeds a t b) (hu : b.Stray u)
    (hne : u ≠ t) : a.Stray u := by
  have hb := congrArg snd h.run
  have ht := congrArg fst h.run
  subst hb ht
  refine ⟨?_, hu.unnoted⟩
  have hform : (a.store.addType (.pointer none)).2.form? u = some (.pointer none) := hu.baseless
  rw [Store.form?_addType] at hform
  split at hform
  · next heq => exact absurd heq hne
  · exact hform

lemma Analyze.spares_declareExternal (h : (declareExternal ident convention t name).Succeeds a p b) : a.Spares b := by
  obtain ⟨_, c, _, _, _, hc, _, hd⟩ := h.ensures (declareExternal_ensures ident convention t name)
  exact h.spares fun t => by rw [hd.forms, hc.store]

lemma Analyze.baseless_settleAll (forwards) : ∀ a, (settleAll forwards).Ensures a fun _ b => ∀ t,
    b.store.Baseless t → a.store.Baseless t ∧ ∀ f ∈ forwards, f.pointer ≠ t := by
  induction forwards with
  | nil => exact fun a => .pure fun _ t ht => ⟨ht, by simp⟩
  | cons f rest ih =>
    intro a
    refine .bind (settle_ensures f) fun _ b hb => (ih b).mono fun _ c hc t ht => ?_
    obtain ⟨id, _, _, _, rfl⟩ := hb
    obtain ⟨hbaseless, hrest⟩ := hc t ht
    obtain ⟨hold, hne⟩ := Store.Baseless.of_setForm (by simp) hbaseless
    exact ⟨hold, List.forall_mem_cons.2 ⟨fun heq => hne heq.symm, hrest⟩⟩

/-- What waits in the current scope gets its base. -/
lemma Analyze.completes_settleForwards (hab : a.Attends b) (h : settleForwards.Succeeds b () c) :
    a.Completes c := by
  intro ha
  have hall (f) (hf : f ∈ b.forwards) : decide (b.scopes.level ≤ f.level) := by
    rcases hab.forwards f hf with hf | hf
    · rw [ha] at hf
      cases hf
    · simp [hf, hab.level]
  have hrun := congrArg snd h.run
  rw [settleForwards_run, List.takeWhile_eq_self_iff.2 hall,
    List.dropWhile_eq_nil_iff.2 hall] at hrun
  have hsettle := (baseless_settleAll b.forwards { b with forwards := [] })
    (by rw [hrun]; exact h.clean)
  rw [hrun] at hsettle
  have hsteady := Keeps.keeps (E := Steady) (x := settleAll b.forwards) { b with forwards := [] }
  rw [hrun] at hsteady
  refine ⟨hsteady.forwards, fun t ht => ?_⟩
  obtain ⟨hbaseless, hunnoted⟩ := hsettle t ht
  exact (hab.strays t ⟨hbaseless, hunnoted⟩).baseless

/-! ## Reading -/

lemma ReadsParams.spares (h : ReadsParams a ps b) : a.Spares b := by
  induction h with
  | none => exact .refl a
  | group ident dimensions byReference names _ ht _ h ih =>
    obtain ⟨_, _, hadds⟩ := h.ensures (Grammar.declareParameters_ensures byReference _ names _ _)
    exact (ih.trans (spares_typeReference ht)).trans (h.spares hadds.forms)
  | silent _ hs ih => exact ih.trans hs.spares

lemma ReadsFormals.spares (h : ReadsFormals a ps result b) : a.Spares b := by
  cases h with
  | proper hp => exact hp.spares
  | function ident hp ht => exact hp.spares.trans (spares_typeReference ht)

lemma ReadsSignature.spares (h : ReadsSignature a t b) : a.Spares b := by
  obtain @⟨b, c, d, _, _, _, _, span, variadic, ho, hf, hc, h⟩ := h
  have hopen : a.Spares b := by
    have hb := congrArg Prod.snd ho.run
    subst hb
    exact ⟨rfl, fun _ h => h⟩
  have hclose : c.Spares d := by
    have hd := congrArg Prod.snd hc.run
    subst hd
    exact ⟨rfl, fun _ h => h⟩
  exact ((hopen.trans hf.spares).trans hclose).trans (spares_procedureType h)

lemma ReadsSignature.attends (h : ReadsSignature a t b) : a.Attends b := by
  obtain ⟨c, ps, hc, _, hs⟩ := h.signs
  exact h.spares.attends (hc.trans hs.continues).level

/-- What reading a part of a type leaves. A pointer is no stray once its base is read. -/
def TypePhrase.Attends (a : Analysis) (p : TypePhrase) (b : Analysis) : Prop :=
  match p with
  | .base t => b.scopes.level = a.scopes.level ∧
      (∀ f ∈ b.forwards, f ∈ a.forwards ∨ f.level = a.scopes.level) ∧
      ∀ u, b.Stray u → a.Stray u ∧ u ≠ t
  | _ => a.Attends b

/-- A pointer together with its base. -/
lemma Analysis.Attends.pointer (h : beginPointer.Succeeds a t b) (hbc : b.Attends c)
    (hd : TypePhrase.Attends c (.base t) d) : a.Attends d := by
  have hb := (level_eq_of_context (h.keeps (E := Steady)).context).symm
  have hforwards := (h.keeps (E := Steady)).forwards
  obtain ⟨hlevel, hd, hstrays⟩ := hd
  refine ⟨hlevel.trans (hbc.level.trans hb), fun f hf => ?_, fun u hu => ?_⟩
  · rcases hd f hf with hf | hf
    · rw [← hforwards, ← hb]
      exact hbc.forwards f hf
    · exact .inr (hf.trans (hbc.level.trans hb))
  · obtain ⟨hu, hne⟩ := hstrays u hu
    exact stray_of_beginPointer h (hbc.strays u hu) hne

/-- The base is a type that has been read, so it is there. -/
lemma ReadsType.attends (h : ReadsType a p b) (ha : a.Sound low True) : p.Attends a b := by
  induction h with
  | name ident h => exact h.attends (spares_typeReference h)
  | array span dimensions hd hm h ih =>
    exact Analysis.Attends.trans (ih ha) (h.attends (spares_arrayType h))
  | record base hf h ih =>
    exact Analysis.Attends.trans (ih ha) (h.attends (spares_recordType h))
  | pointer h hb ih =>
    exact .pointer h (.refl _) (ih (builds_beginPointer h ha).1.sound)
  | procedure h => exact h.attends
  | noFields a => exact .refl a
  | fieldList names hf ht h ihf iht =>
    obtain ⟨new, _, hadds⟩ := h.ensures (Grammar.declareFields_ensures _ names _ _)
    have hb : Analysis.Builds low True _ _ ∧ _ := hf.builds ha
    exact (Analysis.Attends.trans (ihf ha) (iht hb.1.sound)).trans (h.attends (h.spares hadds.forms))
  | @base a b c t base span hb h ih =>
    have hbase : Analysis.Builds low True _ _ ∧ _ := hb.builds ha
    have hab : a.Attends b := ih ha
    rcases h.ensures (endPointer_ensures span t base) with ⟨hu, _⟩ | ⟨_, rfl⟩
    · exact absurd hu ((hbase.2.concrete trivial).ne_pseudo _)
    · refine ⟨hab.level, hab.forwards, fun u hu => ?_⟩
      obtain ⟨hbaseless, hne⟩ := Store.Baseless.of_setForm (by simp) hu.baseless
      exact ⟨hab.strays u ⟨hbaseless, hu.unnoted⟩, hne⟩
  | @forward a b t ident hd h =>
    have hb := congrArg Prod.snd h.run
    subst hb
    refine ⟨rfl, fun f hf => ?_, fun u hu => ⟨⟨hu.baseless, fun f hf => ?_⟩, ?_⟩⟩
    · rcases List.mem_cons.1 hf with rfl | hf
      · exact .inr rfl
      · exact .inl hf
    · exact hu.unnoted f (List.mem_cons_of_mem _ hf)
    · exact fun heq => hu.unnoted _ List.mem_cons_self heq.symm
  | @silent a b c d p hb h hd ih =>
    have ih := ih (ha.silent hb).sound
    cases p with
    | base t =>
      obtain ⟨hlevel, hforwards, hstrays⟩ := ih
      have hbl := hb.continues.level
      refine ⟨by rw [hd.scopes, hlevel, hbl], fun f hf => ?_, fun u hu => ?_⟩
      · rw [hd.forwards] at hf
        rw [← hbl, ← hb.forwards]
        exact hforwards f hf
      · obtain ⟨hu, hne⟩ := hstrays u (hd.spares.stray hu)
        exact ⟨hb.spares.stray hu, hne⟩
    | _ => exact (hb.attends.trans ih).trans hd.attends

lemma ReadsSection.attends (h : ReadsSection a p b) (ha : a.Sound low True) : a.Attends b := by
  induction h with
  | noConstants a => exact .refl a
  | constant ident _ _ hv hb h ih =>
    obtain ⟨_, _, hd⟩ := h.ensures (declareConstant_ensures ident _)
    exact ((ih ha).trans hb.attends).trans (h.attends (h.spares hd.forms))
  | noTypes a => exact .refl a
  | type ident _ hs ht h ih =>
    have hsound := (hs.builds ha).sound
    exact ((ih ha).trans (ht.attends hsound)).trans (h.attends (spares_declareType h))
  | pointer ident _ hs hp hd h ih =>
    have hpointer := builds_beginPointer hp (hs.builds ha).sound
    have hsound := (hd.ensures (builds_declareType ident hpointer.1.sound hpointer.2.1)).sound
    exact (ih ha).trans (.pointer hp (hd.attends (spares_declareType hd)) (h.attends hsound))
  | noVars a => exact .refl a
  | vars names hs ht _ h ih =>
    obtain ⟨_, _, hadds⟩ := h.ensures (Grammar.declareVariables_ensures _ names _ _)
    have hsound := (hs.builds ha).sound
    exact ((ih ha).trans (ht.attends hsound)).trans (h.attends (h.spares hadds.forms))
  | silent hb _ hd ih => exact (hb.attends.trans (ih (ha.silent hb).sound)).trans hd.attends

/-- No pointer is made between the name of a procedure and its block. -/
lemma ReadsBlock.spares_header {id : DeclId} (ident span variadic)
    (hi : (beginProcedure ident).Succeeds a id b) (hf : ReadsFormals b params result c)
    (ht : (procedureType span params variadic result).Succeeds c t d)
    (hs : (setSignature id t).Succeeds d () e) : a.Spares e := by
  have hbegin : a.Spares b := by
    refine ⟨(hi.keeps (E := Shifts Context.BeginsProcedure)).forwards, fun u hu => ?_⟩
    obtain ⟨b', hdecl, -, rfl⟩ := hi.ensures (beginProcedure_ensures ident)
    exact hu.of_forms hdecl.forms
  have hset : d.Spares e := by
    have he := congrArg Prod.snd hs.run
    subst he
    exact ⟨rfl, fun u hu => hu.of_forms fun t => Store.form?_setType _ _ _ _⟩
  exact ((hbegin.trans hf.spares).trans (spares_procedureType ht)).trans hset

lemma ReadsBlock.completes (h : ReadsBlock a p b) (ha : a.Sound low True) : a.Completes b := by
  induction h with
  | block hc ht hv hs hp hb ih =>
    have hbc := hc.builds ha
    have hbt := ht.builds hbc.sound
    have hbv := hv.builds hbt.sound
    have hbs := hs.ensures (builds_settleForwards hbv.sound)
    have hsections := ((hc.attends ha).trans (ht.attends hbc.sound)).trans (hv.attends hbt.sound)
    have hbody := hb.restores_body
    have hend : Analysis.Spares _ _ := ⟨hbody.forwards, fun u hu => by rwa [hbody.store] at hu⟩
    exact ((completes_settleForwards hsections hs).trans (ih hbs.sound)).trans hend.completes
  | external ident convention name _ ht hb h =>
    exact ((ht.spares.trans hb.spares).trans (spares_declareExternal h)).completes
  | @defined a b c d e f g id ps result t block p ident span variadic last _ hi hf ht hs hb h ih =>
    have hheader := ReadsBlock.spares_header ident span variadic hi hf ht hs
    have hsound := (ReadsBlock.builds_header ident span variadic ha hi hf ht hs).sound
    obtain ⟨_, hend, _⟩ := h.ensures (endProcedure_ensures _ _ last)
    have hclose : f.Spares g := by
      refine ⟨hend.forwards, fun u hu => ?_⟩
      rwa [hend.store] at hu
    exact (hheader.completes.trans (ih hsound)).trans hclose.completes
  | nil a => exact (Spares.refl a).completes
  | snoc hs h ihs ih => exact (ihs ha).trans (ih (hs.builds ha).sound)
  | silent hb _ hd ih =>
    exact (hb.spares.completes.trans (ih (ha.silent hb).sound)).trans hd.spares.completes

end Oberon
