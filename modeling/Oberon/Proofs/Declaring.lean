import Oberon.Proofs.Visible

/-!
# Oberon.Proofs.Declaring

What reading types and declarations does to the state of the analysis. The store grows, new names
are entered into the innermost scope, and pointers may be left waiting for their base; the rest
stays.
-/

namespace Oberon

open List hiding span

open Store

variable (ident : IdentDef)

variable {id : DeclId}

/-- The declaration is one of the module being compiled. -/
structure Store.Native (s : Store) (id : DeclId) : Prop where
  lt : id.index < s.decls.size
  imported : (s.decl id).imported = false

lemma Store.Native.grows {s s' : Store} (h : s.Native id) (hg : s.Grows s') : s'.Native id := by
  refine ⟨hg.lt h.lt, ?_⟩
  rw [hg.decl id h.lt]
  exact h.imported

namespace Analysis

variable {a b c : Analysis}

/-- Names denote declarations of the store, imported variables only with a qualifier, what waits for
a base is a pointer, and no CASE statement is open. -/
structure Regular (a : Analysis) : Prop where
  known : ∀ id, a.scopes.Knows id → id.index < a.store.decls.size
  plain : ∀ id, a.scopes.KnowsPlainly id → (a.store.decl id).isVariable = true →
    (a.store.decl id).imported = false
  forwards : ∀ f ∈ a.forwards, a.store.isPointer f.pointer = true
  cases : a.cases = []

/-- From `a` to `b` the declarations `ids` were entered into the innermost scope. -/
structure Continues (ids : List DeclId) (a b : Analysis) : Prop where
  grows : a.store.Grows b.store
  scopes : ∃ new : Scope, b.scopes = { a.scopes with inner := new ++ a.scopes.inner } ∧
    new.map Prod.snd = ids.reverse
  valid : ∀ id ∈ ids, b.store.Native id
  forwards : (∀ f ∈ a.forwards, a.store.isPointer f.pointer = true) →
    ∀ f ∈ b.forwards, b.store.isPointer f.pointer = true
  numbered : a.store.Numbered → b.store.Numbered
  rest : b = { a with
    store := b.store, scopes := b.scopes, forwards := b.forwards, loops := b.loops, log := b.log,
    abandoned := b.abandoned }

namespace Continues

section

variable (h : a.Continues ids b)
include h

lemma cases : b.cases = a.cases := by rw [h.rest]

lemma procedures : b.procedures = a.procedures := by rw [h.rest]

lemma module : b.module = a.module := by rw [h.rest]

lemma signatures : b.signatures = a.signatures := by rw [h.rest]

lemma outer : b.scopes.outer = a.scopes.outer := by
  obtain ⟨_, hs, _⟩ := h.scopes
  rw [hs]

lemma level : b.scopes.level = a.scopes.level := by
  simp only [Scopes.level, h.outer]

/-- What is known afterwards was known before or is new. -/
lemma knows_iff (id) : b.scopes.Knows id ↔ a.scopes.Knows id ∨ id ∈ ids := by
  obtain ⟨new, hs, hn⟩ := h.scopes
  have hmem : Scope.Knows b.scopes.inner id ↔ id ∈ ids ∨ Scope.Knows a.scopes.inner id := by
    rw [hs]
    simp only [Scope.Knows, map_append, mem_append, hn, mem_reverse]
  constructor
  · intro hk
    cases hk with
    | inner hk =>
      rcases hmem.1 hk with hk | hk
      · exact .inr hk
      · exact .inl (.inner hk)
    | outer hs' hk => exact .inl (.outer (by rw [hs] at hs'; exact hs') hk)
    | predefined hk => exact .inl (.predefined (by rw [hs] at hk; exact hk))
    | exported hk => exact .inl (.exported (by rw [hs] at hk; exact hk))
  · rintro (hk | hk)
    · cases hk with
      | inner hk => exact .inner (hmem.2 (.inr hk))
      | outer hs' hk => exact .outer (by rw [hs]; exact hs') hk
      | predefined hk => exact .predefined (by rw [hs]; exact hk)
      | exported hk => exact .exported (by rw [hs]; exact hk)
    · exact .inner (hmem.2 (.inl hk))

lemma knowsPlainly (hk : b.scopes.KnowsPlainly id) : a.scopes.KnowsPlainly id ∨ id ∈ ids := by
  obtain ⟨new, hs, hn⟩ := h.scopes
  rw [hs] at hk
  cases hk with
  | inner hk =>
    simp only [Scope.Knows, map_append, mem_append, hn, mem_reverse] at hk
    exact hk.symm.imp_left .inner
  | outer hs' hk => exact .inl (.outer hs' hk)
  | predefined hk => exact .inl (.predefined hk)

lemma regular (hr : a.Regular) : b.Regular where
  known id hid := by
    rcases (h.knows_iff id).1 hid with hid | hid
    · exact h.grows.lt (hr.known id hid)
    · exact (h.valid id hid).lt
  plain id hid hv := by
    rcases h.knowsPlainly hid with hid | hid
    · rw [h.grows.decl id (hr.known id hid.knows)] at hv ⊢
      exact hr.plain id hid hv
    · exact (h.valid id hid).imported
  forwards := h.forwards hr.forwards
  cases := h.cases.trans hr.cases

lemma trans (h' : b.Continues jds c) : a.Continues (ids ++ jds) c where
  grows := h.grows.trans h'.grows
  scopes := by
    obtain ⟨new, hs, hn⟩ := h.scopes
    obtain ⟨new', hs', hn'⟩ := h'.scopes
    refine ⟨new' ++ new, ?_, ?_⟩
    · rw [hs', hs, append_assoc]
    · rw [map_append, hn, hn', reverse_append]
  valid := fun id hid => (mem_append.1 hid).elim (fun hid => (h.valid id hid).grows h'.grows)
    (h'.valid id)
  forwards := fun hf => h'.forwards (h.forwards hf)
  numbered := fun hn => h'.numbered (h.numbered hn)
  rest := by rw [h'.rest, h.rest]

lemma followed (h' : b.Continues [] c) : a.Continues ids c := by
  have := h.trans h'
  rwa [append_nil] at this

end

end Continues

/-- Nothing was entered, and no type of a procedure was made. -/
lemma Continues.of_store (hg : a.store.Grows b.store)
    (hs : ∀ t sig, b.store.signature? t = some sig → a.store.signature? t = some sig)
    (hrest : b = { a with
      store := b.store, loops := b.loops, log := b.log, abandoned := b.abandoned }) :
    a.Continues [] b where
  grows := hg
  scopes := ⟨[], by rw [hrest]; rfl, rfl⟩
  valid := nofun
  forwards hf f hm := hg.isPointer (hf f (by rw [hrest] at hm; exact hm))
  numbered := hg.numbered fun t sig ht => .inl (hs t sig ht)
  rest := by rw [hrest]

lemma Silent.continues (h : a.Silent b) : a.Continues [] b :=
  .of_store (by rw [h.store]; exact .refl _) (fun t sig ht => by rwa [h.store] at ht)
    (by rw [h.rest])

lemma Continues.silent (h : a.Continues ids b) (hs : b.Silent c) : a.Continues ids c :=
  h.followed hs.continues

lemma Continues.refl (a : Analysis) : a.Continues [] a := (Silent.refl a).continues

/-! ## Declarations -/

/-- What is declared now under a name. -/
def declaration (a : Analysis) (ident : IdentDef) (role : Role) (type : Ty) : Declaration :=
  { name := ident.name, role, type, span := ident.span, exported := ident.exported,
    level := a.scopes.level, module := some a.module }

/-- `d` got the next place and was entered under its name, which is new to the innermost scope. A
type that had no name may have got this one. -/
structure Declares (a : Analysis) (d : Declaration) (id : DeclId) (b : Analysis) : Prop where
  own : d.imported = false
  fresh : a.scopes.isDuplicate d.name = false
  place : id = ⟨a.store.decls.size⟩
  store : b.store = (a.store.addDecl d).2 ∨ d.role = .type ∧
    (a.store.addDecl d).2.naming? d.type = none ∧ b.store = (a.store.addDecl d).2.setNaming d.type id
  rest : ({ a with store := b.store, scopes := a.scopes.insert d.name id } : Analysis).Silent b

namespace Declares

variable (h : a.Declares d id b)
include h

lemma decls : b.store.decls = (a.store.addDecl d).2.decls := by
  rcases h.store with hb | ⟨_, _, hb⟩ <;> rw [hb]
  simp [setNaming]

lemma size : b.store.decls.size = a.store.decls.size + 1 := by rw [h.decls, size_addDecl]

lemma decl : b.store.decl id = d := by rw [decl_eq_of_decls h.decls, h.place, decl_addDecl_self]

lemma others (other : DeclId) (hne : other ≠ id) : b.store.decl other = a.store.decl other := by
  rw [decl_eq_of_decls h.decls]
  refine (decl_addDecl ..).trans (if_neg fun he => hne ?_)
  cases other
  rw [h.place]
  exact congrArg _ he

lemma types : b.store.types.size = a.store.types.size := by
  rcases h.store with hb | ⟨_, _, hb⟩ <;> rw [hb] <;> simp [setNaming, addDecl]

lemma forms (t) : b.store.form? t = a.store.form? t := by
  have hadd : (a.store.addDecl d).2.form? t = a.store.form? t := form?_eq_of_types rfl t
  rcases h.store with hb | ⟨_, _, hb⟩ <;> rw [hb]
  · exact hadd
  · exact (form?_setNaming ..).trans hadd

lemma lt : id.index < b.store.decls.size := by
  rw [h.place, h.size]
  exact Nat.lt_succ_self _

lemma grows : a.store.Grows b.store := by
  rcases h.store with hb | ⟨_, _, hb⟩ <;> rw [hb]
  · exact grows_addDecl _ d
  · exact (grows_addDecl _ d).trans (grows_setNaming ..)

lemma continues : a.Continues [id] b := by
  refine ⟨h.grows, ⟨[(d.name, id)], h.rest.scopes, rfl⟩, fun other ho => ?_,
    fun hf f hm => h.grows.isPointer (hf f (by rwa [h.rest.forwards] at hm)),
    h.grows.numbered fun t sig ht => .inl (signature?_of_forms h.forms ht), by rw [h.rest.rest]⟩
  cases mem_singleton.1 ho
  exact ⟨h.lt, by rw [h.decl, h.own]⟩

lemma silent (hs : b.Silent c) : a.Declares d id c :=
  ⟨h.own, h.fresh, h.place, by rw [hs.store]; exact h.store, by rw [hs.store]; exact h.rest.trans hs⟩

end Declares

end Analysis

namespace Analyze

open Analysis

lemma declare_run (role type) :
    (declare ident role type).Ensures a fun id b => a.scopes.isDuplicate ident.name = false ∧
      id = ⟨a.store.decls.size⟩ ∧ b = { a with
        store := (a.store.addDecl (a.declaration ident role type)).2
        scopes := a.scopes.insert ident.name id } := by
  let d := a.declaration ident role type
  refine .bind (P := fun id b => id = ⟨a.store.decls.size⟩ ∧
    b = { a with store := (a.store.addDecl d).2 }) (fun _ => ⟨rfl, rfl⟩) ?_
  rintro id b ⟨rfl, rfl⟩
  refine .bind (P := fun _ c => a.scopes.isDuplicate ident.name = false ∧ c = { a with
      store := (a.store.addDecl d).2, scopes := a.scopes.insert ident.name ⟨a.store.decls.size⟩ })
    ?_ fun _ _ h => .pure fun _ => ⟨h.1, rfl, h.2⟩
  refine .get (.otherwise fun hnew => ?_)
  refine .bind (.reportIf _ _ _) fun _ c hc => ?_
  rw [hc.2]
  exact fun _ => ⟨by simpa using hnew, rfl⟩

lemma declare_ensures (role type) :
    (declare ident role type).Ensures a fun id b => a.Declares (a.declaration ident role type) id b :=
      by
  refine (declare_run ident role type).mono fun id b h => ?_
  obtain ⟨hfresh, rfl, rfl⟩ := h
  exact ⟨rfl, hfresh, rfl, .inl rfl, .refl _⟩

lemma declareConstant_ensures (value) :
    (declareConstant ident (some value)).Ensures a fun id b => ∃ literal, value.literal? =
    some literal ∧ a.Declares (a.declaration ident (.constant (some literal)) value.type) id b := by
  refine .bind (P := fun v b => b = a ∧
    ∃ literal, value.literal? = some literal ∧ v = (some literal, value.type)) ?_ ?_
  · simp only [constantValue]
    split
    · next literal hl => exact .pure fun _ => ⟨rfl, literal, hl, rfl⟩
    · exact .reported
  · rintro _ _ ⟨rfl, literal, hl, rfl⟩
    refine .bind (declare_ensures ident _ _) fun id c hc => ?_
    exact .bind (.quiet _) fun _ _ hs => .pure fun _ => ⟨literal, hl, hc.silent hs⟩

lemma declareType_ensures (type) :
    (declareType ident (some type)).Ensures a fun id b => a.Declares (a.declaration ident .type
     type) id b := by
  refine .bind (declare_run ident .type type) fun id b hb => ?_
  obtain ⟨hfresh, rfl, rfl⟩ := hb
  refine .bind (P := fun _ c => a.Declares (a.declaration ident .type type) _ c) (fun _ => ?_)
    fun _ c hc => .bind (.quiet _) fun _ _ hs => .pure fun _ => hc.silent hs
  simp only [modifyStore_run, Option.getD_some]
  split
  · next hn => exact ⟨rfl, hfresh, rfl, .inr ⟨rfl, Option.isNone_iff_eq_none.1 hn, rfl⟩, .refl _⟩
  · exact ⟨rfl, hfresh, rfl, .inl rfl, .refl _⟩

lemma declareVariable_ensures (type index) :
    (declareVariable ident (some type) index).Ensures a fun id b => a.Declares (a.declaration ident
     (.variable index) type) id b := by
  refine .bind (P := fun v b => v = type ∧ b = a) (fun _ => ⟨rfl, rfl⟩) ?_
  rintro _ _ ⟨rfl, rfl⟩
  refine .bind (declare_ensures ident _ _) fun id b hb => ?_
  exact .bind (.quiet _) fun _ _ hs => .pure fun _ => hb.silent hs

lemma declareParameter_ensures (ident byReference type index) :
    (declareParameter ident byReference (some type) index).Ensures a fun id b => a.Declares
     (a.declaration ⟨ident.name, false, ident.span⟩ (.parameter byReference index) type) id b :=
  declare_ensures _ _ type

/-! ## Types -/

/-- A name stands for the type it is declared with, or for an open array of it. -/
lemma typeReference_ensures (ident dimensions) :
    (typeReference ident dimensions).Ensures a fun t b => ∃ id,
      a.scopes.lookup ident = some id ∧ (a.store.decl id).isType ∧
        ((t = a.store.typeOf id ∧ b = a) ∨ (dimensions ≠ 0 ∧ a.store.typeOf id ≠ .undefined ∧
            t = (a.store.addOpenArray dimensions (a.store.typeOf id)).1 ∧
            b = { a with
              store := (a.store.addOpenArray dimensions (a.store.typeOf id)).2 })) := by
  refine .get ?_
  simp only [Analysis.lookup]
  cases hid : a.scopes.lookup ident with
  | none => exact .reported
  | some id =>
    refine .otherwise fun ht => ?_
    have ht : (a.store.decl id).isType := by simpa using ht
    refine .ite (fun _ => .pure fun _ => ⟨id, rfl, ht, .inl ⟨rfl, rfl⟩⟩) fun hd => ?_
    simp only [Bool.or_eq_true, beq_iff_eq, not_or] at hd
    exact fun _ => ⟨id, rfl, ht, .inr ⟨hd.1, hd.2, rfl, rfl⟩⟩

lemma arrayLength_ensures (e) : (arrayLength e).Ensures a fun v _ => ∃ length, v =
    some length := by
  refine .otherwise fun _ => ?_
  refine .bind_of_appends (fun _ => by split <;> infer_instance) (.quiet _) fun _ _ _ => ?_
  split
  · exact .provided fun _ => .pure fun _ => ⟨_, rfl⟩
  · exact .reported
  · exact .reported

lemma arrayLengths_ensures (dimensions : List Expr) : ∀ a,
    (arrayLengths (dimensions.map some)).Ensures a fun v _ => ∃ lengths, v = some lengths := by
  induction dimensions with
  | nil => exact fun a => .pure fun _ => ⟨[], rfl⟩
  | cons e rest ih =>
    intro a
    refine .bind (arrayLength_ensures e) fun v b hv => .bind (ih b) fun vs _ hvs => ?_
    obtain ⟨n, rfl⟩ := hv
    obtain ⟨ns, rfl⟩ := hvs
    exact .pure fun _ => ⟨n :: ns, rfl⟩

/-- An array is added, of the members named or of those of the arrays that are merged into it. -/
lemma arrayType_ensures (span) (dimensions : List Expr) (member) :
    (arrayType span (dimensions.map some) (some member)).Ensures a fun t b =>
      ∃ c lengths member', a.Silent c ∧
        (member' = member ∨ ∃ nested, a.store.array? member = some nested ∧
          member' = nested.member) ∧
        t = (a.store.addArray lengths member').1 ∧
        b = { c with store := (a.store.addArray lengths member').2 } := by
  refine .bind_of_appends (fun lengths => ?_) (arrayLengths_ensures dimensions a).silently ?_
  · cases lengths with
    | none => infer_instance
    | some lengths => exact .andThen fun _ => by split <;> infer_instance
  · rintro _ c ⟨hc, lengths, rfl⟩
    refine .getStore ?_
    rw [hc.store]
    have hadd (c) (hc : a.Silent c) (lengths member) :
        addArray lengths member c = ((a.store.addArray lengths member).1,
          { c with store := (a.store.addArray lengths member).2 }) := by
      simp only [addArray, hc.store]
    have hplain : Ensures (addArray lengths member) c fun t b => ∃ c lengths member',
        a.Silent c ∧ (member' = member ∨ ∃ nested, a.store.array? member = some nested ∧
          member' = nested.member) ∧ t = (a.store.addArray lengths member').1 ∧
        b = { c with store := (a.store.addArray lengths member').2 } := by
      intro _
      rw [hadd c hc]
      exact ⟨c, lengths, member, hc, .inl rfl, rfl, rfl⟩
    split
    · next nested hn _ =>
      refine .ite (fun _ => hplain) fun _ => .bind (.quiet _) fun _ d hd => ?_
      intro _
      rw [hadd d (hc.trans hd)]
      exact ⟨d, _, _, hc.trans hd, .inr ⟨nested, hn, rfl⟩, rfl, rfl⟩
    · exact hplain

lemma recordType_ensures (base fields) :
    (recordType base fields).Ensures a fun t b => ∃ c form, a.Silent c ∧ form.fields = fields ∧
      t = (a.store.addType (.record form)).1 ∧
      b = { c with store := (a.store.addType (.record form)).2 } := by
  have hadd (b) (hb : a.Silent b) (base level) :
      (addType (.record ⟨fields, base, level⟩)).Ensures b fun t b => ∃ c form, a.Silent c ∧
        form.fields = fields ∧ t = (a.store.addType (.record form)).1 ∧
        b = { c with store := (a.store.addType (.record form)).2 } := by
    intro _
    simp only [addType_run, hb.store]
    exact ⟨b, _, hb, rfl, rfl, rfl⟩
  unfold recordType
  cases base with
  | none | some ident =>
    refine .bind (.quiet _) fun _ b hb => .bind (.quiet _) fun _ c hc => .getStore ?_
    exact hadd c (hb.trans hc) _ _

lemma procedureType_ensures (span params variadic result) :
    (procedureType span params variadic result).Ensures a fun t b =>
      (∀ r ∈ result, a.store.isStructured r = false) ∧
        t = (a.store.addType (.procedure ⟨params, result, variadic⟩)).1 ∧
        b = { a with store := (a.store.addType (.procedure ⟨params, result, variadic⟩)).2 } := by
  cases result with
  | none => exact fun _ => ⟨nofun, rfl, rfl⟩
  | some r =>
    refine .getStore (.otherwise fun h _ => ⟨?_, rfl, rfl⟩)
    rintro _ ⟨⟩
    simpa using h

/-! ## Pointers -/

lemma setBase_ensures (span pointer base) :
    (setBase span pointer base).Ensures a fun _ b => a.store.isRecord base ∧
      b = { a with store := a.store.setForm pointer (.pointer (some base)) } := by
  refine .getStore (.bind (.reportIf _ _ _) fun _ b hb _ => ?_)
  rw [hb.2]
  exact ⟨by simpa using hb.1, rfl⟩

lemma endPointer_ensures (span pointer base) :
    (endPointer span pointer (some base)).Ensures a fun _ b =>
      (base = .undefined ∧ b = a) ∨ (a.store.isRecord base ∧
        b = { a with store := a.store.setForm pointer (.pointer (some base)) }) := by
  refine .ite (fun h => .pure fun _ => .inl ⟨beq_iff_eq.1 h, rfl⟩) fun _ => ?_
  exact (setBase_ensures span pointer base).mono fun _ _ h => .inr h

lemma settle_ensures (f) :
    (settle f).Ensures a fun _ b => ∃ id, a.scopes.lookup f.ident = some id ∧
      (a.store.decl id).isType ∧ a.store.isRecord (a.store.typeOf id) ∧
      b = { a with store := a.store.setForm f.pointer (.pointer (some (a.store.typeOf id))) } := by
  refine .get ?_
  simp only [Analysis.lookup]
  cases hid : a.scopes.lookup f.ident with
  | none => exact .report _ _
  | some id =>
    refine .ite (fun ht => ?_) fun _ => .report _ _
    exact (setBase_ensures _ _ _).mono fun _ _ h => ⟨id, rfl, ht, h⟩

end Analyze

/-! ## Lists of declarations -/

/-- Things that were made from place `low` on and before place `high`, in this order. -/
structure SpreadBy {α : Type} (place : α → Nat) (low high : Nat) (xs : List α) : Prop where
  sorted : xs.Pairwise fun x y => place x < place y
  bounds : ∀ x ∈ xs, low ≤ place x ∧ place x < high

abbrev Spread : (low high : Nat) → List DeclId → Prop := SpreadBy DeclId.index

namespace SpreadBy

lemma nil (low high) : SpreadBy place low high [] := ⟨.nil, nofun⟩

lemma singleton {x : α} (hl : low ≤ place x) (hh : place x < high) :
    SpreadBy place low high [x] :=
  ⟨pairwise_singleton _ _, fun _ h => by cases mem_singleton.1 h; exact ⟨hl, hh⟩⟩

lemma append (h : SpreadBy place low middle xs) (h' : SpreadBy place middle high ys)
    (hl : low ≤ middle) (hh : middle ≤ high) : SpreadBy place low high (xs ++ ys) where
  sorted := pairwise_append.2 ⟨h.sorted, h'.sorted, fun x hx y hy =>
    Nat.lt_of_lt_of_le (h.bounds x hx).2 (h'.bounds y hy).1⟩
  bounds x hx := by
    rcases mem_append.1 hx with hx | hx
    · exact ⟨(h.bounds x hx).1, Nat.lt_of_lt_of_le (h.bounds x hx).2 hh⟩
    · exact ⟨Nat.le_trans hl (h'.bounds x hx).1, (h'.bounds x hx).2⟩

lemma mono (h : SpreadBy place low high xs) (hl : low' ≤ low) (hh : high ≤ high') :
    SpreadBy place low' high' xs :=
  ⟨h.sorted, fun x hx => ⟨Nat.le_trans hl (h.bounds x hx).1,
    Nat.lt_of_lt_of_le (h.bounds x hx).2 hh⟩⟩

lemma nodup (h : SpreadBy place low high xs) : xs.Nodup :=
  h.sorted.imp fun hlt heq => absurd (heq ▸ hlt) (Nat.lt_irrefl _)

end SpreadBy

namespace Analysis

variable {a b c : Analysis}

/-- Declarations of one type were added under the given names, numbered from `n` on. -/
structure Adds (a : Analysis) (idents : List IdentDef) (role : Nat → Role) (t : Ty) (n : Nat)
    (new : List DeclId) (b : Analysis) : Prop where
  continues : a.Continues new b
  spread : Spread a.store.decls.size b.store.decls.size new
  decl : ∀ i id, new[i]? = some id → ∃ ident, idents[i]? = some ident ∧
    b.store.decl id = a.declaration ident (role (n + i)) t
  others : ∀ id : DeclId, id.index < a.store.decls.size → b.store.decl id = a.store.decl id
  types : b.store.types.size = a.store.types.size
  forms : ∀ t, b.store.form? t = a.store.form? t

lemma Adds.nil (a : Analysis) (role t n) : a.Adds [] role t n [] a :=
  ⟨.refl a, .nil _ _, nofun, fun _ _ => rfl, rfl, fun _ => rfl⟩

lemma Adds.cons {ident : IdentDef} {idents : List IdentDef} {role : Nat → Role} {n : Nat}
    {new : List DeclId} (h : a.Declares (a.declaration ident (role n) t) id b)
    (h' : b.Adds idents role t (n + 1) new c) :
    a.Adds (ident :: idents) role t n (id :: new) c where
  continues := h.continues.trans h'.continues
  spread := by
    refine (SpreadBy.singleton ?_ h.lt).append h'.spread h.continues.grows.decls_le
      h'.continues.grows.decls_le
    exact Nat.le_of_eq (by rw [h.place])
  decl i other hi := by
    cases i with
    | zero =>
      cases hi
      exact ⟨ident, rfl, by rw [h'.others _ h.lt, h.decl, Nat.add_zero]⟩
    | succ i =>
      obtain ⟨ident', hident, hdecl⟩ := h'.decl i other hi
      refine ⟨ident', hident, ?_⟩
      rw [hdecl, Nat.add_right_comm, Nat.add_assoc]
      simp only [declaration, h.continues.level, h.continues.module]
  others other hlt := by
    rw [h'.others other (h.continues.grows.lt hlt), h.others]
    rintro rfl
    rw [h.place] at hlt
    exact Nat.lt_irrefl _ hlt
  types := by rw [h'.types, h.types]
  forms t := by rw [h'.forms, h.forms]

/-- Fields of one type were added; they belong to no scope. -/
structure AddsFields (a : Analysis) (t : Ty) (new : List DeclId) (b : Analysis) : Prop where
  continues : a.Continues [] b
  fresh : ∀ id ∈ new, a.store.decls.size ≤ id.index ∧ id.index < b.store.decls.size
  type : ∀ id ∈ new, b.store.typeOf id = t
  others : ∀ id : DeclId, id.index < a.store.decls.size → b.store.decl id = a.store.decl id
  types : b.store.types.size = a.store.types.size
  forms : ∀ t, b.store.form? t = a.store.form? t

end Analysis

namespace Grammar

open Analyze Analysis

lemma declareFields_ensures (t names) : ∀ a ids,
    (declareFields (some t) names ids).Ensures a fun jds b => ∃ new, jds = ids ++ new ∧
    a.AddsFields t new b := by
  induction names with
  | nil =>
    intro a ids
    exact .pure fun _ => ⟨[], by rw [append_nil],
      .refl a, nofun, nofun, fun _ _ => rfl, rfl, fun _ => rfl⟩
  | cons ident rest ih =>
    intro a ids
    let d := a.declaration ident (.field ids.length) t
    have hd : (declareField ident (some t) ids.length).Ensures a fun id b =>
        id = ⟨a.store.decls.size⟩ ∧ b = { a with store := (a.store.addDecl d).2 } :=
      fun _ => ⟨rfl, rfl⟩
    refine .bind hd ?_
    rintro _ b ⟨rfl, rfl⟩
    refine (ih _ (ids ++ [⟨a.store.decls.size⟩])).mono fun jds c hc => ?_
    obtain ⟨new, rfl, h⟩ := hc
    have hsize := size_addDecl a.store d
    have hlt : a.store.decls.size < (a.store.addDecl d).2.decls.size := by omega
    refine ⟨⟨a.store.decls.size⟩ :: new, by rw [append_assoc, singleton_append], ?_⟩
    refine ⟨?_, fun id hid => ?_, fun id hid => ?_, fun id hid => ?_, h.types, fun t => ?_⟩
    · have hfirst : a.Continues [] { a with store := (a.store.addDecl d).2 } :=
        .of_store (grows_addDecl a.store d)
          (fun _ _ => signature?_of_forms fun t => form?_eq_of_types rfl t) rfl
      exact hfirst.trans h.continues
    · have hle := h.continues.grows.decls_le
      rcases mem_cons.1 hid with rfl | hid
      · exact ⟨Nat.le_refl _, Nat.lt_of_lt_of_le hlt hle⟩
      · exact ⟨Nat.le_trans (Nat.le_of_lt hlt) (h.fresh id hid).1, (h.fresh id hid).2⟩
    · rcases mem_cons.1 hid with rfl | hid
      · rw [typeOf, h.others ⟨a.store.decls.size⟩ hlt]
        exact congrArg Declaration.type (decl_addDecl_self a.store d)
      · exact h.type id hid
    · rw [h.others id (Nat.lt_trans hid hlt)]
      exact decl_addDecl_of_lt d hid
    · rw [h.forms]
      exact form?_eq_of_types rfl t

lemma declareEach_ensures {α : Type} {declare : α → Nat → Analyze DeclId}
    [∀ x index, Keeps Steady (declare x index)] (name : α → IdentDef)
    (hd : ∀ a x i, (declare x i).Ensures a fun id b => a.Declares (a.declaration (name x) (role i)
     t) id b) (names : List α) : ∀ a ids,
    (declareEach declare names ids).Ensures a fun jds b => ∃ new, jds = ids ++ new ∧
    a.Adds (names.map name) role t ids.length new b := by
  induction names with
  | nil =>
    intro a ids
    exact .pure fun _ => ⟨[], by rw [append_nil], .nil a _ _ _⟩
  | cons ident rest ih =>
    intro a ids
    refine .bind (hd a ident ids.length) fun id b hb => ?_
    refine (ih b (ids ++ [id])).mono fun jds c hc => ?_
    obtain ⟨new, rfl, hadds⟩ := hc
    rw [length_append, length_singleton] at hadds
    exact ⟨id :: new, by rw [append_assoc, singleton_append], .cons hb hadds⟩

lemma declareVariables_ensures (t names a ids) :
    (declareVariables (some t) names ids).Ensures a fun jds b => ∃ new, jds = ids ++ new ∧
    a.Adds names .variable t ids.length new b := by
  have h := declareEach_ensures id (fun a x i => declareVariable_ensures x (a := a) t i) names a ids
  rwa [map_id] at h

/-- A parameter is declared under its plain name. -/
def plainName (ident : Ident) : IdentDef := ⟨ident.name, false, ident.span⟩

lemma declareParameters_ensures (byReference t names a ids) :
    (declareParameters byReference (some t) names ids).Ensures a fun jds b => ∃ new, jds =
    ids ++ new ∧ a.Adds (names.map plainName) (.parameter byReference) t ids.length new b :=
  declareEach_ensures plainName (fun _ x i => declareParameter_ensures x byReference t i) names a ids

end Grammar

/-! ## Reading types -/

open Analyze Analysis

variable {a b c : Analysis}

lemma Analysis.Continues.of_addType (hf : ∀ sig, f ≠ .procedure sig) (hs : a.Silent c)
    (hb : b = { c with store := (a.store.addType f).2 }) : a.Continues [] b := by
  refine .of_store ?_ (fun t sig ht => ?_) ?_
  · rw [hb]
    exact grows_addType _ _
  · rw [hb] at ht
    exact (signature?_of_addType ht).resolve_right (hf sig)
  · rw [hb, hs.rest]

lemma Analysis.Continues.of_addArray (hs : a.Silent c)
    (hb : b = { c with store := (a.store.addArray lengths member).2 }) : a.Continues [] b := by
  refine .of_store ?_ (fun t sig ht => ?_) ?_
  · rw [hb]
    exact grows_addArray _ _ _
  · rw [hb] at ht
    exact signature?_of_addArray ht
  · rw [hb, hs.rest]

lemma Analyze.continues_typeReference {ident : QualIdent} (h : (typeReference ident dimensions).Succeeds a t b) : a.Continues [] b := by
  obtain ⟨id, _, _, ⟨_, rfl⟩ | ⟨_, _, _, hb⟩⟩ := h.ensures (typeReference_ensures ident dimensions)
  · exact .refl b
  · exact .of_addArray (.refl a) hb

/-- Parameters as they can be written in a source. -/
def Store.WordParameters (s : Store) (params : List DeclId) : Prop :=
  s.Parameters params ∧ ∀ id ∈ params, IsWord (s.decl id).name

lemma Store.Grows.wordParameters {s s' : Store} (h : s.Grows s') (hp : s.WordParameters params) : s'.WordParameters params := by
  refine ⟨h.parameters hp.1, fun id hid => ?_⟩
  obtain ⟨i, hi⟩ := getElem?_of_mem hid
  rw [h.name (hp.1 i id hi).1]
  exact hp.2 id hid

/-- What is known of formal parameters `ps` that were read from `a` to `b`. -/
structure Analysis.Formals (a : Analysis) (ps : List DeclId) (b : Analysis) : Prop where
  continues : a.Continues ps b
  spread : Spread a.store.decls.size b.store.decls.size ps
  params : b.store.WordParameters ps

lemma Analysis.Formals.later (h : a.Formals ps b) (hc : b.Continues [] c) : a.Formals ps c where
  continues := h.continues.followed hc
  spread := h.spread.mono (Nat.le_refl _) hc.grows.decls_le
  params := hc.grows.wordParameters h.params

lemma Analysis.Formals.append {new : List DeclId} {names : List Ident} (h : a.Formals ps b)
    (hn : ∀ i ∈ names, IsWord i.name)
    (ha : b.Adds (names.map Grammar.plainName) (.parameter byReference) t ps.length new c) :
    a.Formals (ps ++ new) c where
  continues := h.continues.trans ha.continues
  spread := h.spread.append ha.spread h.continues.grows.decls_le ha.continues.grows.decls_le
  params := by
    have hold := ha.continues.grows.wordParameters h.params
    refine ⟨fun i id hi => ?_, fun id hid => ?_⟩
    · rw [getElem?_append] at hi
      split at hi
      · exact hold.1 i id hi
      · obtain ⟨ident, _, hd⟩ := ha.decl _ id hi
        refine ⟨(ha.spread.bounds id (mem_of_getElem? hi)).2, byReference, ?_⟩
        rw [hd]
        simp only [declaration]
        congr
        omega
    · rcases mem_append.1 hid with hid | hid
      · exact hold.2 id hid
      · obtain ⟨i, hi⟩ := getElem?_of_mem hid
        obtain ⟨ident, hident, hd⟩ := ha.decl i id hi
        rw [hd]
        obtain ⟨name, hm, rfl⟩ := mem_map.1 (mem_of_getElem? hident)
        exact hn name hm

lemma ReadsParams.formals (h : ReadsParams a ps b) : a.Formals ps b := by
  induction h with
  | none => exact ⟨.refl a, .nil _ _, nofun, nofun⟩
  | group ident dimensions byReference names _ ht hn h ih =>
    obtain ⟨new, rfl, hadds⟩ := h.ensures (Grammar.declareParameters_ensures byReference _ names _ _)
    exact (ih.later (continues_typeReference ht)).append hn hadds
  | silent _ hs ih => exact ih.later hs.continues

lemma ReadsFormals.formals (h : ReadsFormals a ps result b) : a.Formals ps b := by
  cases h with
  | proper hp => exact hp.formals
  | function ident hp ht => exact hp.formals.later (continues_typeReference ht)

/-- `t` is a new type of procedures whose parameters are in order. -/
structure Analysis.Signs (a : Analysis) (t : Ty) (params : List DeclId) (b : Analysis) : Prop where
  continues : a.Continues [] b
  place : t = .composite a.store.types.size
  signature : ∃ result variadic, b.store.signature? t = some ⟨params, result, variadic⟩
  decls : b.store.decls = a.store.decls

lemma Analyze.signs_procedureType (hp : a.store.Parameters params)
    (h : (procedureType span params variadic result).Succeeds a t b) : a.Signs t params b := by
  obtain ⟨_, ht, hb⟩ := h.ensures (procedureType_ensures span params variadic result)
  have hg : a.store.Grows b.store := by
    rw [hb]
    exact grows_addType _ _
  refine ⟨⟨hg, ⟨[], by rw [hb]; rfl, rfl⟩, nofun, fun hf f hm => ?_, ?_, by rw [hb]⟩, ht, ?_, ?_⟩
  · rw [hb] at hm
    exact hg.isPointer (hf f hm)
  · refine hg.numbered fun t' sig ht' => ?_
    rw [hb] at ht'
    rcases signature?_of_addType ht' with hold | hnew
    · exact .inl hold
    · cases hnew
      exact .inr (hg.parameters hp)
  · refine ⟨result, variadic, signature?_eq_some.2 ?_⟩
    rw [hb, ht]
    exact form?_addType_self _ _
  · rw [hb]
    rfl

/-- A scope that is opened and closed again leaves no names behind. -/
lemma Analysis.Continues.close {d : Analysis} (ho : openScope.Succeeds a () b)
    (h : b.Continues ids c) (hc : closeScope.Succeeds c () d) : a.Continues [] d := by
  have hb : b = { a with scopes := a.scopes.openScope } := (congrArg Prod.snd ho.run).symm
  have hd : d = { c with scopes := c.scopes.closeScope } := (congrArg Prod.snd hc.run).symm
  subst hb hd
  obtain ⟨new, hs, _⟩ := h.scopes
  have hscopes : c.scopes.closeScope = a.scopes := by
    rw [hs]
    rfl
  exact ⟨h.grows, ⟨[], hscopes, rfl⟩, nofun, h.forwards, h.numbered, by rw [h.rest]⟩

lemma ReadsSignature.signs (h : ReadsSignature a t b) : ∃ c ps, a.Continues [] c ∧
    c.store.WordParameters ps ∧ c.Signs t ps b := by
  obtain ⟨span, variadic, ho, hf, hc, h⟩ := h
  have hfs := hf.formals
  have hclose := Continues.close ho hfs.continues hc
  have hstore := (congrArg (fun r => r.2.store) hc.run).symm
  have hparams : Store.WordParameters _ _ := hstore ▸ hfs.params
  exact ⟨_, _, hclose, hparams, signs_procedureType hparams.1 h⟩

lemma Analysis.Continues.of_setBase (hp : a.store.isPointer pointer)
    (hb : b = { a with store := a.store.setForm pointer (.pointer (some base)) }) :
    a.Continues [] b := by
  refine .of_store ?_ (fun t sig ht => ?_) (by rw [hb])
  · rw [hb]
    exact grows_setBase hp _
  · rw [hb] at ht
    exact signature?_of_setForm (fun _ h => by cases h) ht

/-- Reading the base of a type relies on the type being a pointer. -/
def TypePhrase.Continues (a : Analysis) (p : TypePhrase) (b : Analysis) : Prop :=
  match p with
  | .base t => a.store.isPointer t = true → a.Continues [] b
  | _ => a.Continues [] b

lemma Analyze.beginPointer_spec (h : beginPointer.Succeeds a t b) : a.Continues [] b ∧
    b.store.isPointer t := by
  have hb := congrArg Prod.snd h.run
  have ht := congrArg Prod.fst h.run
  subst hb ht
  exact ⟨.of_addType (fun sig h => by cases h) (.refl a) rfl,
    isPointer_iff.2 ⟨none, form?_addType_self _ _⟩⟩

lemma ReadsType.continues (h : ReadsType a p b) : p.Continues a b := by
  induction h with
  | name ident h => exact continues_typeReference h
  | array span dimensions hd hm h ih =>
    obtain ⟨c, _, _, hs, _, _, hb⟩ := h.ensures (arrayType_ensures span dimensions _)
    exact Analysis.Continues.trans ih (.of_addArray hs hb)
  | record base hf h ih =>
    obtain ⟨c, _, hs, _, _, hb⟩ := h.ensures (recordType_ensures base _)
    exact Analysis.Continues.trans ih (.of_addType (fun sig h => by cases h) hs hb)
  | pointer h hb ih =>
    obtain ⟨hc, hp⟩ := beginPointer_spec h
    exact hc.trans (ih hp)
  | procedure h =>
    obtain ⟨c, ps, hc, _, hs⟩ := h.signs
    exact hc.trans hs.continues
  | noFields a => exact .refl a
  | fieldList names hf ht h ihf iht =>
    obtain ⟨new, _, hadds⟩ := h.ensures (Grammar.declareFields_ensures _ names _ _)
    exact (Analysis.Continues.trans ihf iht).trans hadds.continues
  | base span hb h ih =>
    intro hp
    rcases h.ensures (endPointer_ensures span _ _) with ⟨_, rfl⟩ | ⟨_, hb⟩
    · exact ih
    · exact Analysis.Continues.trans ih (.of_setBase (ih.grows.isPointer hp) hb)
  | forward ident hd h =>
    intro hp
    have hb := congrArg Prod.snd h.run
    subst hb
    refine ⟨.refl _, ⟨[], rfl, rfl⟩, nofun, fun hf f hm => ?_, id, rfl⟩
    rcases mem_cons.1 hm with rfl | hm
    · exact hp
    · exact hf f hm
  | @silent a b c d p hb h hd ih =>
    have hend {p} (hc : b.Continues [] p) (hs : p.Silent d) : a.Continues [] d :=
      (hb.continues.trans hc).silent hs
    cases p with
    | base t => exact fun hp => hend (ih (by rwa [hb.store])) hd
    | _ => exact hend ih hd

end Oberon
