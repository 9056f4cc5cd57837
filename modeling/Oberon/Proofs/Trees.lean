import Oberon.Proofs.Scoping

/-!
# Oberon.Proofs.Trees

The trees of procedures that modules without errors have. Every procedure is declared at the level
of its block, its parameters and variables are numbered, and what it refers to is known outside of
it or declared by it. The declarations of a tree are all different.
-/

namespace Oberon

open Analyze Analysis List Store

variable (ident : IdentDef)

variable {id : DeclId}
    {block : Block}

/-! ## What a tree declares -/

mutual

/-- The declarations of a procedure and of those nested in it, in the order they were made. -/
def Procedure.ids (s : Store) : Procedure → List DeclId
  | .mk id (.mk constants types vars procedures _) =>
    id :: ((if Lifting.isExternal (s.decl id) then [] else Lifting.params s id) ++ constants ++
      types ++ vars ++ Procedure.idsOf s procedures)

def Procedure.idsOf (s : Store) : List Procedure → List DeclId
  | [] => []
  | p :: rest => p.ids s ++ Procedure.idsOf s rest

end

mutual

/-- The types of a procedure and of those nested in it. -/
def Procedure.types (s : Store) : Procedure → List Ty
  | .mk id (.mk _ _ _ procedures _) => s.typeOf id :: Procedure.typesOf s procedures

def Procedure.typesOf (s : Store) : List Procedure → List Ty
  | [] => []
  | p :: rest => p.types s ++ Procedure.typesOf s rest

end

/-- What a procedure with the given parameters declares itself. -/
def Block.members (params : List DeclId) : Block → List DeclId
  | .mk constants types vars procedures _ =>
    params ++ constants ++ types ++ vars ++ procedures.map Procedure.decl

/-- A procedure declared at `level`, around which `known` can be referred to. -/
inductive Procedure.Scoped (s : Store) : (level : Nat) → (known : DeclId → Prop) → Procedure → Prop
  | external {level : Nat} {known : DeclId → Prop} {id : DeclId} (hlt : id.index < s.decls.size)
      (hr : Lifting.isExternal (s.decl id) = true) (hl : (s.decl id).level = level)
      (hs : ∃ sig, s.signature? (s.typeOf id) = some sig) (htop : level = Scopes.moduleLevel) :
      Scoped s level known (.mk id .empty)
  | defined {level : Nat} {known : DeclId → Prop} {id : DeclId}
      {params constants types vars : List DeclId} {procedures : List Procedure}
      {body : List Statement} (hlt : id.index < s.decls.size)
      (hr : (s.decl id).role = .procedure .defined) (hl : (s.decl id).level = level)
      (hs : ∃ result variadic, s.signature? (s.typeOf id) = some ⟨params, result, variadic⟩)
      (hp : s.WordParameters params) (hc : s.Constants constants) (ht : s.TypeNames types)
      (hv : s.Variables vars)
      (hb : ∀ u ∈ Statement.usesOf body, ∀ r ∈ u.2.roots,
        known r ∨ r ∈ (Block.mk constants types vars procedures body).members params)
      (hn : ∀ q ∈ procedures, Scoped s (level + 1)
        (fun r => known r ∨ r ∈ (Block.mk constants types vars procedures body).members params) q) :
      Scoped s level known (.mk id (.mk constants types vars procedures body))

namespace Procedure

variable {s s' : Store} {p : Procedure}
 

lemma params_eq (h : s.signature? (s.typeOf id) = some ⟨params, result, variadic⟩) :
    Lifting.params s id = params := by
  simp only [Lifting.params, h]

lemma idsOf_append (ps qs) : idsOf s (ps ++ qs) = idsOf s ps ++ idsOf s qs := by
  induction ps with
  | nil => rfl
  | cons p ps ih => simp only [cons_append, idsOf, ih, append_assoc]

lemma typesOf_append (ps qs) : typesOf s (ps ++ qs) = typesOf s ps ++ typesOf s qs := by
  induction ps with
  | nil => rfl
  | cons p ps ih => simp only [cons_append, typesOf, ih, append_assoc]

lemma Scoped.mono (h : p.Scoped s level known) (hk : ∀ r, known r → known' r) :
    p.Scoped s level known' := by
  induction h generalizing known' with
  | external hlt hr hl hs htop => exact .external hlt hr hl hs htop
  | defined hlt hr hl hs hp hc ht hv hb hn ih =>
    refine .defined hlt hr hl hs hp hc ht hv (fun u hu r hru => (hb u hu r hru).imp_left (hk r))
      fun q hq => ih q hq fun r => Or.imp_left (hk r)

/-- The type of a procedure stays. -/
lemma typeOf_grows (hg : s.Grows s') (hlt : id.In s)
    (hs : s.signature? (s.typeOf id) = some sig) : s'.typeOf id = s.typeOf id := by
  refine hg.fixed id hlt ?_
  have hform := signature?_eq_some.1 hs
  cases hc : s.typeOf id with
  | composite i =>
    rw [hc] at hform
    refine ⟨_, hform, fun hd => ?_⟩
    rcases hd with hd | hd
    · obtain ⟨base, hb⟩ := isPointer_iff.1 hd
      rw [hform] at hb
      cases hb
    · obtain ⟨r, hr⟩ := isRecord_iff.1 hd
      rw [hform] at hr
      cases hr
  | _ => trivial

lemma Scoped.grows (h : p.Scoped s level known) (hg : s.Grows s') : p.Scoped s' level known := by
  induction h with
  | external hlt hr hl hs htop =>
    obtain ⟨sig, hs⟩ := hs
    refine .external (hg.lt hlt) ?_ (by rw [hg.level hlt, hl]) ⟨sig, ?_⟩ htop
    · rw [hg.decl _ hlt]
      exact hr
    · rw [typeOf_grows hg hlt hs]
      exact hg.signature? hs
  | defined hlt hr hl hs hp hc ht hv hb hn ih =>
    obtain ⟨result, variadic, hs⟩ := hs
    refine .defined (hg.lt hlt) (by rw [hg.role hlt, hr]) (by rw [hg.level hlt, hl])
      ⟨result, variadic, ?_⟩ (hg.wordParameters hp) (hg.constants hc) (hg.typeNames ht)
      (hg.variables hv) hb ih
    rw [typeOf_grows hg hlt hs]
    exact hg.signature? hs

lemma isExternal_of_defined (hr : (s.decl id).role = .procedure .defined) :
    Lifting.isExternal (s.decl id) = false := by
  simp only [Lifting.isExternal, hr]

lemma idsOf_congr (h : ∀ q ∈ ps, q.ids s' = q.ids s) : idsOf s' ps = idsOf s ps := by
  induction ps with
  | nil => rfl
  | cons p ps ih =>
    rw [forall_mem_cons] at h
    rw [idsOf, idsOf, h.1, ih h.2]

lemma typesOf_congr (h : ∀ q ∈ ps, q.types s' = q.types s) : typesOf s' ps = typesOf s ps := by
  induction ps with
  | nil => rfl
  | cons p ps ih =>
    rw [forall_mem_cons] at h
    rw [typesOf, typesOf, h.1, ih h.2]

lemma Scoped.ids_grows (h : p.Scoped s level known) (hg : s.Grows s') : p.ids s' = p.ids s := by
  induction h with
  | @external _ _ id hlt hr hl hs htop =>
    have hr' : Lifting.isExternal (s'.decl id) := by
      rw [hg.decl _ hlt]
      exact hr
    simp only [Block.empty, ids, hr, hr']
    rfl
  | defined hlt hr hl hs hp hc ht hv hb hn ih =>
    obtain ⟨result, variadic, hs⟩ := hs
    have hr' := (hg.role hlt).trans hr
    have hs' := hg.signature? hs
    rw [← typeOf_grows hg hlt hs] at hs'
    rw [ids, ids, isExternal_of_defined hr, isExternal_of_defined hr', params_eq hs, params_eq hs',
      idsOf_congr ih]

lemma Scoped.types_grows (h : p.Scoped s level known) (hg : s.Grows s') : p.types s' =
    p.types s := by
  induction h with
  | external hlt hr hl hs htop =>
    obtain ⟨sig, hs⟩ := hs
    simp only [Block.empty, types, typeOf_grows hg hlt hs]
    rfl
  | defined hlt hr hl hs hp hc ht hv hb hn ih =>
    obtain ⟨result, variadic, hs⟩ := hs
    rw [types, types, typeOf_grows hg hlt hs, typesOf_congr ih]

end Procedure

/-! ## Reading blocks -/

variable {a b c : Analysis}

lemma Analyze.settleAll_ensures (forwards) : ∀ a : Analysis,
    (∀ f ∈ forwards, a.store.isPointer f.pointer) →
    (settleAll forwards).Ensures a fun _ b => a.Continues [] b := by
  induction forwards with
  | nil => exact fun a _ => .pure fun _ => .refl a
  | cons f rest ih =>
    intro a hf
    rw [forall_mem_cons] at hf
    refine .bind (settle_ensures f) fun _ b h => ?_
    obtain ⟨id, _, _, _, hb⟩ := h
    have hc : a.Continues [] b := .of_setBase hf.1 hb
    exact (ih b fun f hm => hc.grows.isPointer (hf.2 f hm)).mono fun _ _ h => hc.trans h

lemma Analyze.settleForwards_ensures (hr : a.Regular) :
    settleForwards.Ensures a fun _ b => a.Continues [] b := by
  refine .get ?_
  let isLocal : Forward → Bool := fun f => a.scopes.level ≤ f.level
  have hdrop : a.Continues [] { a with forwards := a.forwards.dropWhile isLocal } :=
    ⟨.refl _, ⟨[], rfl, rfl⟩, nofun, fun hf f hm => hf f (dropWhile_subset _ hm), id, rfl⟩
  refine .bind (P := fun _ b => b = { a with forwards := a.forwards.dropWhile isLocal })
    (fun _ => rfl) ?_
  rintro _ _ rfl
  refine (settleAll_ensures _ _ fun f hf => ?_).mono fun _ _ h => hdrop.trans h
  exact hr.forwards f (( takeWhile_prefix _).subset hf)

/-- What reading procedures does. -/
structure Procedure.ReadsAll (a : Analysis) (ps : List Procedure) (b : Analysis) : Prop where
  continues : a.Continues (ps.map Procedure.decl) b
  spread : Spread a.store.decls.size b.store.decls.size (Procedure.idsOf b.store ps)
  types : SpreadBy Ty.place a.store.types.size b.store.types.size (Procedure.typesOf b.store ps)
  trees : ∀ p ∈ ps, p.Scoped b.store a.scopes.level b.scopes.Knows

/-- What reading a block does. -/
structure Block.Reads (a : Analysis) (block : Block) (b : Analysis) : Prop where
  continues : a.Continues (block.members []) b
  spread : Spread a.store.decls.size b.store.decls.size
    (block.constants ++ block.types ++ block.vars ++ Procedure.idsOf b.store block.procedures)
  types : SpreadBy Ty.place a.store.types.size b.store.types.size
    (Procedure.typesOf b.store block.procedures)
  constants : b.store.Constants block.constants
  typeNames : b.store.TypeNames block.types
  vars : b.store.Variables block.vars
  body : b.scopes.KnowsAll (Statement.usesOf block.body)
  trees : ∀ p ∈ block.procedures, p.Scoped b.store a.scopes.level b.scopes.Knows

open Procedure (ReadsAll)

def BlockPhrase.Reads (a : Analysis) (p : BlockPhrase) (b : Analysis) : Prop :=
  match p with
  | .block content => content.Reads a b
  | .procedure q => ReadsAll a [q] b
  | .procedures qs => ReadsAll a qs b

/-- Nothing that is declared later matters to procedures. -/
lemma Procedure.ReadsAll.later {ids : List DeclId} (h : ReadsAll a ps b)
    (hc : b.Continues ids c) :
    Spread a.store.decls.size b.store.decls.size (idsOf c.store ps) ∧
    SpreadBy Ty.place a.store.types.size b.store.types.size (typesOf c.store ps) ∧
    ∀ p ∈ ps, p.Scoped c.store a.scopes.level c.scopes.Knows := by
  refine ⟨?_, ?_, fun p hp => ?_⟩
  · rw [idsOf_congr fun q hq => (h.trees q hq).ids_grows hc.grows]
    exact h.spread
  · rw [typesOf_congr fun q hq => (h.trees q hq).types_grows hc.grows]
    exact h.types
  · exact ((h.trees p hp).grows hc.grows).mono fun r hr => (hc.knows_iff r).2 (.inl hr)

lemma Procedure.ReadsAll.append (h : ReadsAll a ps b) (h' : ReadsAll b qs c) :
    ReadsAll a (ps ++ qs) c := by
  obtain ⟨hspread, htypes, hscoped⟩ := h.later h'.continues
  refine ⟨?_, ?_, ?_, forall_mem_append.2 ⟨hscoped, fun p hp => ?_⟩⟩
  · rw [map_append]
    exact h.continues.trans h'.continues
  · rw [idsOf_append]
    exact hspread.append h'.spread h.continues.grows.decls_le h'.continues.grows.decls_le
  · rw [typesOf_append]
    exact htypes.append h'.types h.continues.grows.types_le h'.continues.grows.types_le
  · rw [← h.continues.level]
    exact h'.trees p hp

lemma Procedure.ReadsAll.silent (hb : a.Silent b) (h : ReadsAll b ps c) (hd : c.Silent d) :
    ReadsAll a ps d where
  continues := (hb.continues.trans h.continues).silent hd
  spread := by rw [← hb.store, hd.store]; exact h.spread
  types := by rw [← hb.store, hd.store]; exact h.types
  trees := by rw [hd.store, hd.scopes, ← hb.scopes]; exact h.trees

lemma ReadsBlock.reads_block {constants types vars : List DeclId} {procedures : List Procedure}
    (hr : a.Regular) (hc : ReadsSection a (.constants constants) b)
    (ht : ReadsSection b (.types types) c) (hv : ReadsSection c (.vars vars) d)
    (hs : settleForwards.Succeeds d () e) (hp : e.Regular → ReadsAll e procedures f)
    (hb : ReadsStatement f (.statements body) g) :
    (Block.mk constants types vars procedures body).Reads a g := by
  have hc := hc.reads
  have ht := ht.reads
  have hv := hv.reads
  have hcd := (hc.continues.trans ht.continues).trans hv.continues
  have hrd := hcd.regular hr
  have hde := hs.ensures (settleForwards_ensures hrd)
  have hp := hp (hde.regular hrd)
  have hrf := hp.continues.regular (hde.regular hrd)
  have hfg := hb.restores_body.continues
  obtain ⟨hspread, htypes, htrees⟩ := hp.later hfg
  have heg := hp.continues.followed hfg
  have hdg := hde.grows.trans heg.grows
  have hcg := hv.continues.grows.trans hdg
  refine ⟨(hcd.followed hde).trans heg, ?_, ?_, ?_, ?_, hv.listed.grows hdg,
    hfg.knowsAll (hb.knows_uses hrf), fun p hp => ?_⟩
  · have hsections := (hc.spread.append ht.spread hc.continues.grows.decls_le
      ht.continues.grows.decls_le).append hv.spread
      (hc.continues.trans ht.continues).grows.decls_le hv.continues.grows.decls_le
    exact hsections.append (hspread.mono hde.grows.decls_le hfg.grows.decls_le)
      hcd.grows.decls_le hdg.decls_le
  · exact htypes.mono (hcd.followed hde).grows.types_le hfg.grows.types_le
  · exact hc.listed.grows (ht.continues.grows.trans hcg)
  · exact ht.listed.grows hcg
  · rw [← (hcd.followed hde).level]
    exact htrees p hp

lemma Block.Reads.silent (hb : a.Silent b) (h : block.Reads b c) (hd : c.Silent d) :
    block.Reads a d where
  continues := (hb.continues.trans h.continues).silent hd
  spread := by rw [← hb.store, hd.store]; exact h.spread
  types := by rw [← hb.store, hd.store]; exact h.types
  constants := by rw [hd.store]; exact h.constants
  typeNames := by rw [hd.store]; exact h.typeNames
  vars := by rw [hd.store]; exact h.vars
  body := by rw [hd.scopes]; exact h.body
  trees := by rw [hd.store, hd.scopes, ← hb.scopes]; exact h.trees

/-! ## Procedures -/

lemma Analyze.declareExternal_ensures (convention t name) :
    (declareExternal ident convention t name).Ensures a fun p b =>
      a.scopes.level = Scopes.moduleLevel ∧ ∃ c id convention' name', a.Silent c ∧
        p = .mk id .empty ∧ c.Declares (c.declaration { ident with exported := false }
          (.procedure (.external convention' name')) t) id b := by
  refine .bind_of_appends (fun _ => .andThen fun _ => .andThen fun _ =>
    .getThen (fun _ => rfl) fun _ => inferInstance) (.quiet _) fun convention' b hb => ?_
  refine .bind_of_appends (fun _ => .andThen fun _ => .getThen (fun _ => rfl) fun _ => inferInstance)
    (.quiet _) fun name' c hc => ?_
  refine .bind_of_appends (fun _ => .getThen (fun _ => rfl) fun _ => inferInstance) (.quiet _)
    fun _ d hd => .get (.bind (.reportIf _ _ _) ?_)
  rintro _ _ ⟨hl, rfl⟩
  have hs := (hb.trans hc).trans hd
  refine .bind (declare_ensures _ _ t) fun id e he => .pure fun _ => ?_
  refine ⟨?_, _, id, convention', name', hs, rfl, he⟩
  rw [← hs.scopes]
  simpa using hl

/-- Nothing but what the module declares itself is exported. -/
lemma Analyze.checkExport_ensures (id) :
    (checkExport id).Ensures a fun _ _ => (a.store.decl id).exported → (a.store.decl id).level =
    Scopes.moduleLevel := by
  refine .getStore (.ite (fun _ => ?_) fun hn => ?_)
  · exact (Ensures.reportIf _ _ _).mono fun _ _ h _ => by simpa using h.1
  · exact fun _ he => absurd he hn

lemma Analyze.beginProcedure_ensures :
    (beginProcedure ident).Ensures a fun id b => ∃ c,
      a.Declares (a.declaration ident (.procedure .defined) .undefined) id c ∧
        (ident.exported → a.scopes.level = Scopes.moduleLevel) ∧
        b = { c with procedures := id :: c.procedures, scopes := c.scopes.openScope } := by
  refine .bind (declare_ensures ident _ _) fun id c hc => ?_
  refine .bind (checkExport_ensures id).silently fun _ d hd => fun _ => ⟨d, hc.silent hd.1, ?_, rfl⟩
  rw [hc.decl] at hd
  exact hd.2

lemma Analyze.endProcedure_ensures (id block ident) :
    (endProcedure id block ident).Ensures a fun p b => p = .mk id block ∧
      ({ a with scopes := a.scopes.closeScope, procedures := a.procedures.tail } :
        Analysis).Silent b ∧ ∀ sig, a.store.signature? (a.store.typeOf id) = some sig →
          sig.result.isSome → returns block.body := by
  refine .bind (P := fun _ b => b = { a with scopes := a.scopes.closeScope }) (fun _ => rfl) ?_
  rintro _ _ rfl
  refine .bind (P := fun _ b => b = { a with
    scopes := a.scopes.closeScope, procedures := a.procedures.tail }) (fun _ => rfl) ?_
  rintro _ _ rfl
  refine .getStore (.bind (.reportIf _ _ _) fun _ b hb => .bind (.quiet _) fun _ c hc => ?_)
  obtain ⟨hchecked, rfl⟩ := hb
  refine .pure fun _ => ⟨rfl, hc, fun sig hs hr => ?_⟩
  rw [Bool.and_eq_false_iff] at hchecked
  rcases hchecked with h | h
  · have hs' : a.store.signature? (a.store.decl id).type = some sig := hs
    simp [hs', hr] at h
  · simpa using h

lemma Analysis.Signs.lt (h : a.Signs t params b) : t.place < b.store.types.size := by
  obtain ⟨_, _, hs⟩ := h.signature
  rw [h.place] at hs ⊢
  exact lt_of_form? (signature?_eq_some.1 hs)

lemma ReadsBlock.reads_external (convention name) (ht : ReadsSignature a t b) (hb : b.Silent b')
    (h : (declareExternal ident convention t name).Succeeds b' p c) : ReadsAll a [p] c := by
  obtain ⟨d, ps, hd, _, hsigns⟩ := ht.signs
  obtain ⟨hlevel, e, id, _, _, he, rfl, hdecl⟩ :=
    h.ensures (declareExternal_ensures ident convention t name)
  have hab : a.Continues [] e := ((hd.trans hsigns.continues).silent hb).silent he
  have hstore : e.store = b.store := by rw [he.store, hb.store]
  have hrole : Lifting.isExternal (c.store.decl id) := by rw [hdecl.decl]; rfl
  have htype : c.store.typeOf id = t := by rw [typeOf, hdecl.decl]; rfl
  have hlt := hsigns.lt
  refine ⟨hab.trans hdecl.continues, ?_, ?_, forall_mem_singleton.2 ?_⟩
  · simp only [Procedure.idsOf, Procedure.ids, Block.empty, hrole, if_true, append_nil]
    exact hdecl.spread.mono hab.grows.decls_le (Nat.le_refl _)
  · simp only [Procedure.typesOf, Procedure.types, Block.empty, htype, append_nil]
    refine .singleton ?_ ?_
    · rw [hsigns.place]
      exact hd.grows.types_le
    · rw [hdecl.types, hstore]
      exact hlt
  · obtain ⟨result, variadic, hs⟩ := hsigns.signature
    refine .external hdecl.lt hrole ?_ ⟨⟨ps, result, variadic⟩, ?_⟩ ?_
    · rw [hdecl.decl, ← hab.level]
      rfl
    · rw [htype, signature?_eq_some, hdecl.forms, hstore, ← signature?_eq_some]
      exact hs
    · rw [← hab.level, he.scopes, hlevel]

/-- The state in which the block of the procedure `id` with the given name and parameters is read. -/
structure Analysis.Header (a : Analysis) (name : String) (id : DeclId) (params : List DeclId)
    (e : Analysis) : Prop where
  place : id = ⟨a.store.decls.size⟩
  grows : a.store.Grows e.store
  spread : Spread a.store.decls.size e.store.decls.size (id :: params)
  name : (e.store.decl id).name = name
  role : (e.store.decl id).role = .procedure .defined
  level : (e.store.decl id).level = a.scopes.level
  imported : (e.store.decl id).imported = false
  signature : ∃ result variadic,
    e.store.signature? (e.store.typeOf id) = some ⟨params, result, variadic⟩
  type : SpreadBy Ty.place a.store.types.size e.store.types.size [e.store.typeOf id]
  words : e.store.WordParameters params
  scopes : ∃ (name : String) (new : Scope), new.map Prod.snd = params.reverse ∧
    e.scopes = { (a.scopes.insert name id).openScope with inner := new }
  regular : a.Regular → e.Regular
  forwards : (∀ f ∈ a.forwards, a.store.isPointer f.pointer = true) →
    ∀ f ∈ e.forwards, e.store.isPointer f.pointer = true
  numbered : a.store.Numbered → e.store.Numbered
  rest : e = { a with
    store := e.store, scopes := e.scopes, forwards := e.forwards, loops := e.loops, log := e.log,
    abandoned := e.abandoned, procedures := id :: a.procedures }

lemma Analysis.regular_open {procedures : List DeclId} (hr : a.Regular)
    (hb : b = { a with procedures, scopes := a.scopes.openScope }) :
    b.Regular := by
  subst hb
  exact ⟨fun r hk => hr.known r hk.of_openScope, fun r hk => hr.plain r hk.of_openScope,
    hr.forwards, hr.cases⟩

lemma ReadsBlock.header (span variadic) (hi : (beginProcedure ident).Succeeds a id b)
    (hf : ReadsFormals b params result c)
    (ht : (procedureType span params variadic result).Succeeds c t d)
    (hs : (setSignature id t).Succeeds d () e) : a.Header ident.name id params e := by
  obtain ⟨b', hdecl, -, hb⟩ := hi.ensures (beginProcedure_ensures ident)
  have hformals := hf.formals
  have hsigns := signs_procedureType hformals.params.1 ht
  have he : e = { d with store := d.store.setType id t } := (congrArg Prod.snd hs.run).symm
  have hbstore : b.store = b'.store := by rw [hb]
  have hcd := hformals.later hsigns.continues
  have hbd : b'.store.Grows d.store := hbstore ▸ hcd.continues.grows
  have hdlt : id.In d.store := hbd.lt hdecl.lt
  have hdtype : d.store.typeOf id = .undefined := by
    have htype : b'.store.typeOf id = .undefined := by rw [typeOf, hdecl.decl]; rfl
    rw [hbd.fixed id hdecl.lt (by rw [htype]; trivial), htype]
  have hedecl := decl_setType d.store id id t
  have hetype : (d.store.setType id t).typeOf id = t := typeOf_setType hdlt t
  have hesize : (d.store.setType id t).decls.size = d.store.decls.size := size_modifyDecl ..
  subst he
  have hplace : id.index = a.store.decls.size := by rw [hdecl.place]
  have hforwards (hf : ∀ f ∈ a.forwards, a.store.isPointer f.pointer = true) :
      ∀ f ∈ d.forwards, (d.store.setType id t).isPointer f.pointer = true := by
    intro f hm
    have hb' : ∀ f ∈ b.forwards, b.store.isPointer f.pointer := by
      rw [hb]
      exact hdecl.continues.forwards hf
    have hp := hcd.continues.forwards hb' f hm
    rw [isPointer_iff] at hp ⊢
    simpa only [form?_setType] using hp
  refine ⟨hdecl.place, ?_, ?_, ?_, ?_, ?_, ?_, ?_, ?_, ?_, ?_, fun hr => ?_, fun hf => ?_, fun hn => ?_, ?_⟩
  · exact (hdecl.continues.grows.trans hbd).setType (Nat.le_of_eq hplace.symm) t
  · rw [hesize]
    exact hdecl.spread.append (hbstore ▸ hcd.spread) hdecl.continues.grows.decls_le hbd.decls_le
  iterate 4
    · rw [hedecl, hbd.decl id hdecl.lt, hdecl.decl]
      rfl
  · obtain ⟨result', variadic', hsig⟩ := hsigns.signature
    refine ⟨result', variadic', ?_⟩
    rw [hetype, signature?_eq_some, form?_setType, ← signature?_eq_some]
    exact hsig
  · rw [hetype]
    refine .singleton ?_ hsigns.lt
    have hac := hdecl.continues.grows.trans (hbstore ▸ hformals.continues.grows)
    rw [hsigns.place]
    exact hac.types_le
  · refine ⟨hcd.params.1.setType id t, fun p hp => ?_⟩
    rw [decl_setType]
    exact hcd.params.2 p hp
  · obtain ⟨entry, hentry, hname⟩ := hdecl.continues.scopes
    obtain ⟨new, hnew, hparams⟩ := hcd.continues.scopes
    obtain ⟨⟨name, id'⟩, rfl, rfl⟩ := map_eq_singleton_iff.1 hname
    refine ⟨name, new, hparams, ?_⟩
    rw [hnew, hb]
    simp only [hentry, Scopes.openScope, append_nil]
    rfl
  · have hrd := hcd.continues.regular (regular_open (hdecl.continues.regular hr) hb)
    refine ⟨fun r hk => by rw [hesize]; exact hrd.known r hk, fun r hk => ?_,
      hforwards hr.forwards, hrd.cases⟩
    rw [decl_setType]
    exact hrd.plain r hk
  · exact hforwards hf
  · exact (hcd.continues.numbered (hbstore ▸ hdecl.continues.numbered hn)).setType id t
  · rw [hcd.continues.rest, hb, hdecl.continues.rest]

lemma Block.mem_members : r ∈ block.members params ↔ r ∈ params ∨ r ∈ block.members [] := by
  cases block
  simp only [Block.members, mem_append, nil_append, or_assoc]

/-- Behind the end of a procedure its own names are gone. -/
lemma Analysis.Header.close (hh : a.Header title id params e) (hf : e.Continues ids f)
    (hg : ({ f with scopes := f.scopes.closeScope, procedures := f.procedures.tail } :
      Analysis).Silent g) :
    a.Continues [id] g ∧ ∀ r, f.scopes.Knows r → g.scopes.Knows r ∨ r ∈ params ∨ r ∈ ids := by
  obtain ⟨name, new, hnew, hscopes⟩ := hh.scopes
  have hclose : g.scopes = a.scopes.insert name id := by
    obtain ⟨more, hmore, _⟩ := hf.scopes
    rw [hg.scopes]
    simp only [hmore, hscopes]
    rfl
  refine ⟨⟨?_, ⟨[(name, id)], hclose, rfl⟩, ?_, ?_, ?_, ?_⟩, fun r hk => ?_⟩
  · rw [hg.store]
    exact hh.grows.trans hf.grows
  · rw [hg.store]
    exact forall_mem_singleton.2
      (Store.Native.grows ⟨(hh.spread.bounds id mem_cons_self).2, hh.imported⟩ hf.grows)
  · rw [hg.store, hg.forwards]
    exact fun h => hf.forwards (hh.forwards h)
  · rw [hg.store]
    exact fun h => hf.numbered (hh.numbered h)
  · rw [hg.rest, hf.rest, hh.rest]
    rfl
  · rw [hf.knows_iff] at hk
    rcases hk with hk | hk
    · rw [hclose]
      rw [hscopes] at hk
      cases hk with
      | inner hk =>
        refine .inr (.inl ?_)
        have hk : r ∈ new.map Prod.snd := hk
        rw [hnew] at hk
        exact mem_reverse.1 hk
      | outer hs hk =>
        rcases mem_cons.1 hs with rfl | hs
        · exact .inl (.inner hk)
        · exact .inl (.outer hs hk)
      | predefined hk => exact .inl (.predefined hk)
      | exported hk => exact .inl (.exported hk)
    · exact .inr (.inr hk)

lemma ReadsBlock.reads_defined (last) (hh : a.Header title id params e) (hb : block.Reads e f)
    (h : (endProcedure id block last).Succeeds f p g) : ReadsAll a [p] g := by
  obtain ⟨rfl, hg, _⟩ := h.ensures (endProcedure_ensures id block last)
  obtain ⟨hc, hknown⟩ := hh.close hb.continues hg
  have hstore : g.store = f.store := hg.store
  have hef := hb.continues.grows
  have hlt : id.In e.store := (hh.spread.bounds id mem_cons_self).2
  obtain ⟨result, variadic, hsig⟩ := hh.signature
  have htype := Procedure.typeOf_grows hef hlt hsig
  have hsig' := hef.signature? hsig
  rw [← htype] at hsig'
  have hrole := (hef.role hlt).trans hh.role
  have hscope (r) (hr : f.scopes.Knows r) : g.scopes.Knows r ∨ r ∈ block.members params := by
    rw [Block.mem_members]
    exact hknown r hr
  have hlevel : e.scopes.level = a.scopes.level + 1 := by
    obtain ⟨name, new, _, hscopes⟩ := hh.scopes
    rw [hscopes]
    rfl
  obtain ⟨constants, types, vars, procedures, body⟩ := block
  refine ⟨hc, ?_, ?_, forall_mem_singleton.2 ?_⟩
  · simp only [Procedure.idsOf, Procedure.ids, hstore, Procedure.isExternal_of_defined hrole,
      Procedure.params_eq hsig', append_nil]
    have := hh.spread.append hb.spread hh.grows.decls_le hef.decls_le
    simpa only [Bool.false_eq_true, if_false, cons_append, append_assoc, Block.constants,
      Block.types, Block.vars, Block.procedures] using this
  · simp only [Procedure.typesOf, Procedure.types, hstore, htype, append_nil]
    exact hh.type.append hb.types hh.grows.types_le hef.types_le
  · rw [hstore]
    refine .defined (hef.lt hlt) hrole ?_ ⟨result, variadic, hsig'⟩ (hef.wordParameters hh.words)
      hb.constants hb.typeNames hb.vars (fun u hu r hr => hscope r (hb.body u hu r hr))
      fun q hq => ?_
    · rw [hef.level hlt, hh.level]
    · rw [← hlevel]
      exact (hb.trees q hq).mono hscope

lemma ReadsBlock.reads (h : ReadsBlock a p b) (hr : a.Regular) : p.Reads a b := by
  induction h with
  | block hc ht hv hs hp hb ih => exact ReadsBlock.reads_block hr hc ht hv hs ih hb
  | external ident convention name _ ht hb h =>
    exact ReadsBlock.reads_external ident convention name ht hb h
  | defined ident span variadic last _ hi hf ht hs hb h ih =>
    have hh := ReadsBlock.header ident span variadic hi hf ht hs
    exact ReadsBlock.reads_defined last hh (ih (hh.regular hr)) h
  | nil a => exact ⟨.refl a, .nil _ _, .nil _ _, nofun⟩
  | snoc hs h ihs ih =>
    have ihs : ReadsAll _ _ _ := ihs hr
    exact ihs.append (ih (ihs.continues.regular hr))
  | @silent a b c d p hb h hd ih =>
    have ih := ih (hb.continues.regular hr)
    cases p with
    | block content => exact Block.Reads.silent hb ih hd
    | procedure q | procedures qs => exact ReadsAll.silent hb ih hd

end Oberon
