import Oberon.Proofs.Evolving
import Oberon.Proofs.Routing
import Oberon.Proofs.Trees

/-!
# Oberon.Proofs.Linking

The chain of environments around a procedure. Each environment but the outermost has a field that
leads to the next one further out, so everything along the chain is reached from its head, by one
link for each level to climb.
-/

namespace Oberon

open List Block

variable {L : Level} {f id : DeclId} {k : Nat}

namespace Lifting

/-- What stands in one of two lists of the same length has a partner in the other. -/
lemma exists_pair {xs : List α} {ys : List β} (h : ys.length = xs.length) (hx : x ∈ xs) :
    ∃ (i : Nat) (y : β), xs[i]? = some x ∧ ys[i]? = some y := by
  obtain ⟨i, hi, rfl⟩ := getElem_of_mem hx
  exact ⟨i, _, getElem?_eq_getElem hi, getElem?_eq_getElem (h ▸ hi)⟩

/-- A procedure around others: its declared parameters, its hidden one, and its environment. -/
structure Level where
  procedure : Procedure
  declared : List DeclId
  hidden : Option DeclId
  env : Option Environment

namespace Level

def params (L : Level) : List DeclId := L.declared ++ L.hidden.toList

/-- What the environment of the procedure holds. -/
def origins (L : Level) : List DeclId := L.params ++ L.procedure.block.vars

def children (L : Level) : List DeclId := L.procedure.block.procedures.map Procedure.decl

lemma mem_members (h : id ∈ L.procedure.block.members L.declared) : id ∈ L.origins ∨
    id ∈ L.procedure.block.constants ++ L.procedure.block.types ∨ id ∈ L.children := by
  revert h
  simp only [origins, params, children]
  cases L.procedure.block
  simp only [members, constants, Block.types, vars, procedures,
    mem_append]
  tauto

end Level

/-- A field of a record. -/
def IsField (s : Store) (id : DeclId) : Prop := ∃ i, (s.decl id).role = .field i

lemma IsField.lt (h : IsField s id) : id.In s := by
  obtain ⟨i, hi⟩ := h
  refine Nat.lt_of_not_le fun hle => ?_
  rw [Store.decl, Array.getElem?_eq_none hle] at hi
  cases hi

lemma IsField.isProcedure (h : IsField s id) : (s.decl id).isProcedure = false := by
  obtain ⟨i, hi⟩ := h
  simp only [Declaration.isProcedure, hi]

lemma IsField.evolves (h : IsField s id) (he : s.Evolves s') : IsField s' id := by
  obtain ⟨i, hi⟩ := h
  rcases (he.decl id (IsField.lt ⟨i, hi⟩)).role with hr | ⟨_, _, hv, _⟩
  · exact ⟨i, hr.trans hi⟩
  · rw [hi] at hv
    cases hv

/-- An environment with the given fields stands for the parameters and variables of a procedure. -/
structure Frames (s : Store) (L : Level) (env : Environment) (mirrors : List DeclId) : Prop where
  held : L.env = some env
  form : s.record? env.record = some ⟨mirrors, none, 0⟩
  length : mirrors.length = L.origins.length
  mirror : ∀ (i : Nat) (x f : DeclId), L.origins[i]? = some x → mirrors[i]? = some f →
    (s.decl f).name = (s.decl x).name ∧ s.typeOf f = s.typeOf x
  origins : ∀ x ∈ L.origins, x.index < s.decls.size ∧ (s.decl x).isProcedure = false
  fields : ∀ f ∈ mirrors, IsField s f

/-- A chain of levels, the innermost first. `up` is the record at its head, and the fields of all
its records were made before place `bound`. Levels without an environment have nothing to share,
and neither have those around them. -/
inductive Linked (s : Store) : (chain : List Level) → (up : Option Ty) → (bound : Nat) → Prop
  | nil : Linked s [] none 0
  | bare {L : Level} {chain : List Level} {bound : Nat} (h : Linked s chain none bound)
      (he : L.env = none) (ho : L.origins = []) : Linked s (L :: chain) none bound
  | framed {L : Level} {chain : List Level} {up : Option Ty} {env : Environment}
      {mirrors : List DeclId} {bound bound' : Nat} (h : Linked s chain up bound)
      (hf : Frames s L env mirrors) (hle : bound ≤ bound')
      (hb : ∀ f ∈ mirrors, bound ≤ f.index ∧ f.index < bound')
      (hup : ∀ record, up = some record → record.place < env.record.place ∧
        ∃ link, superField? s mirrors = some link ∧ s.typeOf link = record) :
      Linked s (L :: chain) (some env.record) bound'

/-- A path of `n` links from one record to another. -/
inductive Links (s : Store) : (source : Ty) → (n : Nat) → (target : Ty) → List Selector → Prop
  | here (t : Ty) : Links s t 0 t []
  | link {t target : Ty} {r : RecordForm} {n : Nat} (hr : s.record? t = some r) (hl : link ∈ r.fields) (hf : IsField s link)
      (hn : (s.decl link).name = superName) (h : Links s (s.typeOf link) n target path) :
      Links s t (n + 1) target (fieldSelector s link :: path)

lemma superField?_eq_some {fields : List DeclId} (h : superField? s fields = some link) : link ∈ fields ∧ (s.decl link).name = superName := by
  refine ⟨mem_of_find?_eq_some h, ?_⟩
  simpa using find?_some h

/-! ## Later stores -/

lemma fieldSelector_evolves (h : s.Evolves s') (hf : IsField s f) : fieldSelector s' f =
    fieldSelector s f := by
  have hd := h.decl f hf.lt
  simp only [fieldSelector, hd.name hf.isProcedure, hd.type]

lemma Frames.evolves (hf : Frames s L env mirrors) (h : s.Evolves s') :
    Frames s' L env mirrors where
  held := hf.held
  form := h.record? _ _ hf.form
  length := hf.length
  mirror i x f hx hi := by
    obtain ⟨hn, ht⟩ := hf.mirror i x f hx hi
    obtain ⟨hxlt, hxp⟩ := hf.origins x (mem_of_getElem? hx)
    have hfield := hf.fields f (mem_of_getElem? hi)
    rw [(h.decl f hfield.lt).name hfield.isProcedure, (h.decl x hxlt).name hxp,
      h.typeOf hfield.lt, h.typeOf hxlt]
    exact ⟨hn, ht⟩
  origins x hx := by
    obtain ⟨hlt, hp⟩ := hf.origins x hx
    exact ⟨h.lt hlt, (h.decl x hlt).isProcedure.trans hp⟩
  fields f hm := (hf.fields f hm).evolves h

lemma superField?_evolves (h : s.Evolves s') {fields : List DeclId}
    (hf : ∀ f ∈ fields, IsField s f) : superField? s' fields = superField? s fields := by
  induction fields with
  | nil => rfl
  | cons f rest ih =>
    rw [forall_mem_cons] at hf
    have hname := (h.decl f hf.1.lt).name hf.1.isProcedure
    simp only [superField?, find?_cons, hname] at ih ⊢
    rw [ih hf.2]

lemma Linked.evolves (hl : Linked s chain up bound) (h : s.Evolves s') :
    Linked s' chain up bound := by
  induction hl with
  | nil => exact .nil
  | bare _ he ho ih => exact .bare ih he ho
  | @framed L chain up env mirrors bound bound' _ hf hle hb hup ih =>
    refine .framed ih (hf.evolves h) hle hb fun record hr => ?_
    obtain ⟨hplace, link, hlink, ht⟩ := hup record hr
    have hlt := (hf.fields link (superField?_eq_some hlink).1).lt
    exact ⟨hplace, link, by rw [superField?_evolves h hf.fields, hlink], by rw [h.typeOf hlt, ht]⟩

lemma Links.evolves (hl : Links s source n target path) (h : s.Evolves s') :
    Links s' source n target path := by
  induction hl with
  | here t => exact .here t
  | link hr hm hf hn _ ih =>
    rw [← h.typeOf hf.lt] at ih
    rw [← fieldSelector_evolves h hf]
    exact .link (h.record? _ _ hr) hm (hf.evolves h) ((h.decl _ hf.lt).name hf.isProcedure ▸ hn) ih

/-! ## Paths -/

/-- Everything along the chain was made before its head. -/
lemma Linked.level (hl : Linked s chain up bound) (hk : chain[k]? = some L)
    (he : L.env = some env) : ∃ record mirrors, up = some record ∧ Frames s L env mirrors ∧
    (∀ f ∈ mirrors, f.index < bound) ∧ env.record.place ≤ record.place := by
  induction hl generalizing k with
  | nil => cases hk
  | bare _ hn _ ih =>
    cases k with
    | zero =>
      cases hk
      rw [hn] at he
      cases he
    | succ k =>
      obtain ⟨record, _, hup, _⟩ := ih hk
      cases hup
  | @framed L' chain up env' mirrors' bound bound' _ hf hle hb hup ih =>
    cases k with
    | zero =>
      cases hk
      rw [hf.held] at he
      cases he
      exact ⟨_, mirrors', rfl, hf, fun f hm => (hb f hm).2, Nat.le_refl _⟩
    | succ k =>
      obtain ⟨record, mirrors, hr, hf, hlt, hplace⟩ := ih hk
      refine ⟨_, mirrors, rfl, hf, fun f hm => Nat.lt_of_lt_of_le (hlt f hm) hle, ?_⟩
      exact Nat.le_of_lt (Nat.lt_of_le_of_lt hplace (hup record hr).1)

lemma Linked.origins_eq_nil (hl : Linked s chain up bound) (hk : chain[k]? = some L)
    (he : L.env = none) : L.origins = [] := by
  induction hl generalizing k with
  | nil => cases hk
  | bare _ _ ho ih =>
    cases k with
    | zero =>
      cases hk
      exact ho
    | succ k => exact ih hk
  | framed _ hf _ _ _ ih =>
    cases k with
    | zero =>
      cases hk
      rw [hf.held] at he
      cases he
    | succ k => exact ih hk

/-- A search that follows the links gets from the head of the chain to an environment further out. -/
lemma Linked.climb {g : Nat → Ty → Except LiftFault (List Selector)} (fuel)
    (hl : Linked s chain (some record) bound) (hk : chain[k]? = some L) (hfr : Frames s L env mirrors)
    (hfuel : record.place < fuel) (hhere : ∀ fuel, g (fuel + 1) env.record = .ok last)
    (hup : ∀ fuel L' here mirrors' link, Frames s L' here mirrors' → here.record ≠ env.record →
      (∀ f ∈ mirrors', f ∉ mirrors) → superField? s mirrors' = some link →
      g (fuel + 1) here.record = (g fuel (s.typeOf link)).bind fun path =>
        .ok (fieldSelector s link :: path)) :
    ∃ path, g fuel record = .ok (path ++ last) ∧ Links s record k env.record path := by
  induction k generalizing chain bound record fuel with
  | zero =>
    cases hl with
    | framed _ hf _ _ _ =>
      cases hk
      cases hf.held.symm.trans hfr.held
      cases fuel with
      | zero => cases hfuel
      | succ fuel => exact ⟨[], hhere fuel, .here _⟩
  | succ k ih =>
    cases hl with
    | @framed _ chain up here mirrors' bound _ hl hf _ hb hup' =>
      obtain ⟨up, _, rfl, hfr', hlt', hplace⟩ := hl.level hk hfr.held
      cases hfr'.form.symm.trans hfr.form
      obtain ⟨hlt, link, hlink, rfl⟩ := hup' up rfl
      obtain ⟨hmem, hname⟩ := superField?_eq_some hlink
      have hne : here.record ≠ env.record := fun heq => by
        rw [heq] at hlt
        omega
      -- the fields of this record were made after all those further out
      have hout (f) (hf : f ∈ mirrors') (hm : f ∈ mirrors) : False := by
        have := (hb f hf).1
        have := hlt' f hm
        omega
      cases fuel with
      | zero => cases hfuel
      | succ fuel =>
        obtain ⟨path, hrun, hpath⟩ := ih fuel hl hk (by omega)
        refine ⟨fieldSelector s link :: path, ?_, .link hf.form hmem (hf.fields link hmem) hname hpath⟩
        rw [hup fuel _ here mirrors' link hf hne hout hlink, hrun]
        rfl

lemma linksWithin_ok (fuel) (hl : Linked s chain (some record) bound) (hk : chain[k]? = some L)
    (he : L.env = some env) (hfuel : record.place < fuel) : ∃ path,
    linksWithin s env.record fuel record = .ok path ∧ Links s record k env.record path := by
  obtain ⟨_, mirrors, _, hfr, _, _⟩ := hl.level hk he
  obtain ⟨path, hrun, hpath⟩ := hl.climb (g := linksWithin s env.record) fuel hk hfr hfuel
    (fun fuel => if_pos (beq_self_eq_true _)) fun fuel L' here mirrors' link hf hne _ hlink => by
      simp only [linksWithin, beq_false_of_ne hne, recordFields, hf.form, bind, Except.bind, hlink]
      rfl
  exact ⟨path, hrun.trans (by rw [append_nil]), hpath⟩

lemma fieldPathWithin_ok (fuel) (hl : Linked s chain (some record) bound)
    (hk : chain[k]? = some L) (hfr : Frames s L env mirrors) (hm : f ∈ mirrors)
    (hfuel : record.place < fuel) : ∃ path, fieldPathWithin s f fuel record =
    .ok (path ++ [fieldSelector s f]) ∧ Links s record k env.record path := by
  refine hl.climb fuel hk hfr hfuel (fun fuel => ?_) fun fuel L' here mirrors' link hf _ hout hlink => ?_
  · simp only [fieldPathWithin, recordFields, hfr.form]
    exact if_pos (by simpa using hm)
  · simp only [fieldPathWithin, recordFields, hf.form]
    refine (if_neg (by simpa using fun hf => hout f hf hm)).trans ?_
    simp only [hlink]
    rfl

/-! ## References -/

/-- A procedure gets an environment as the last argument of its first call. -/
inductive Passes (s : Store) (env : Environment) (n : Nat) (target : Ty) :
    List Selector → List Selector → Prop
  | nil : Passes s env n target [] []
  | call {path : List Selector} (args : List Expr) (mark : Mark) (rest : List Selector)
      (hp : Links s env.record n target path) :
      Passes s env n target (.call args mark :: rest)
        (.call (args ++ [.designator (.simple (s.decl env.decl).name mark.span) (some env.decl) path
          { type := target, span := mark.span }]) mark :: rest)
  | skip {first : Selector} (hf : first.isCall = false)
      (h : Passes s env n target rest rest') :
      Passes s env n target (first :: rest) (first :: rest')

/-- What a designator becomes in a procedure that sees the levels of `chain` from the environment
`env` at its head. -/
inductive Reference (s : Store) (env : Environment) (chain : List Level) : Refers
  /-- What is not in an environment stays. -/
  | plain (ident : QualIdent) {id : DeclId} (ss : List Selector) (note : Note)
      (h : ∀ L ∈ chain, L.env.isSome = true → id ∉ L.origins) :
      Reference s env chain ident id ss note (.designator ident (some id) ss note)
  /-- A parameter or variable is reached along the chain. -/
  | climb {k i : Nat} {L : Level} {here : Environment} {mirrors : List DeclId} {id f : DeclId}
      (ident : QualIdent) (ss : List Selector) (note : Note)
      (hk : chain[k]? = some L) (hf : Frames s L here mirrors) (hx : L.origins[i]? = some id)
      (hi : mirrors[i]? = some f) (hp : Links s env.record k here.record path) :
      Reference s env chain ident id ss note
        (.designator (.simple (s.decl env.decl).name ident.span) (some env.decl)
          (path ++ [fieldSelector s f] ++ ss) note)
  /-- A nested procedure gets the environment of its parent. -/
  | pass {k : Nat} {L : Level} {here : Environment} {id : DeclId} (ident : QualIdent) (note : Note) (hk : chain[k]? = some L) (he : L.env = some here)
      (hc : id ∈ L.children) (hs : Passes s env k here.record ss ss') :
      Reference s env chain ident id ss note (.designator ident (some id) ss' note)

lemma Passes.evolves (hp : Passes s env n target ss ss') (h : s.Evolves s') (hlt : env.decl.In s)
    (he : (s.decl env.decl).isProcedure = false) : Passes s' env n target ss ss' := by
  induction hp with
  | nil => exact .nil
  | call args mark rest hp =>
    rw [← (h.decl _ hlt).name he]
    exact .call args mark rest (hp.evolves h)
  | skip hf _ ih => exact .skip hf ih

lemma Reference.evolves (hr : Reference s env chain ident id ss note e) (h : s.Evolves s')
    (hlt : env.decl.In s) (he : (s.decl env.decl).isProcedure = false) :
    Reference s' env chain ident id ss note e := by
  cases hr with
  | plain _ _ _ hn => exact .plain ident ss note hn
  | climb _ _ _ hk hf hx hi hp =>
    rw [← (h.decl _ hlt).name he, ← fieldSelector_evolves h (hf.fields _ (mem_of_getElem? hi))]
    exact .climb ident ss note hk (hf.evolves h) hx hi (hp.evolves h)
  | pass _ _ hk he' hc hs => exact .pass ident note hk he' hc (hs.evolves h hlt he)

/-! ## Routing along the chain -/

/-- Which declarations of a level have fields and hidden parameters. -/
structure Keyed (l : Lifting) (L : Level) : Prop where
  plain : ∀ x ∈ L.procedure.block.constants ++ L.procedure.block.types, l.Unkeyed x
  origin : ∀ env mirrors, Frames l.store L env mirrors → ∀ (i : Nat) (x f : DeclId),
    L.origins[i]? = some x → mirrors[i]? = some f →
      l.fields.lookup x = some f ∧ l.hidden.lookup x = none
  child : ∀ env, L.env = some env → ∀ c ∈ L.children, ∃ h, l.hidden.lookup c = some h ∧
    h.index < l.store.decls.size ∧ l.store.typeOf h = env.record
  alone : L.env = none → ∀ c ∈ L.children, l.Unkeyed c

/-- What can be referred to inside the levels of a chain. -/
def Visible (global : DeclId → Prop) (chain : List Level) (id : DeclId) : Prop :=
  global id ∨ ∃ L ∈ chain, id ∈ L.origins ∨ id ∈ L.procedure.block.members L.declared

variable {l : Lifting} {env : Environment}

lemma routable_of_unkeyed (hkeys : ∀ L ∈ chain, Keyed l L) (hl : Linked l.store chain up bound)
    (h : l.Unkeyed id) : Routable l env (Reference l.store env chain) id := by
  intro ident ss note
  refine ⟨.designator ident (some id) ss note, ?_, .plain ident ss note fun L hL he hx => ?_⟩
  · simp only [routeDesignator, h.hidden, h.field]
    rfl
  · obtain ⟨k, hk⟩ := getElem?_of_mem hL
    obtain ⟨here, he⟩ := Option.isSome_iff_exists.1 he
    obtain ⟨_, mirrors, _, hf, _, _⟩ := hl.level hk he
    obtain ⟨i, f, hi, hmi⟩ := exists_pair hf.length hx
    have := ((hkeys L hL).origin here mirrors hf i id f hi hmi).1
    rw [h.field] at this
    cases this

lemma passTo_ok (hrun : linksWithin s target (depth s) env.record = .ok path)
    (hp : Links s env.record n target path) (ss) : ∃ ss', passTo s env target ss = .ok ss' ∧
    Passes s env n target ss ss' := by
  induction ss with
  | nil => exact ⟨[], rfl, .nil⟩
  | cons first rest ih =>
    obtain ⟨rest', hrest, hpass⟩ := ih
    have hskip (hf : first.isCall = false)
        (hstep : passTo s env target (first :: rest) =
          (passTo s env target rest).bind fun rest => .ok (first :: rest)) :
        ∃ ss', passTo s env target (first :: rest) = .ok ss' ∧
          Passes s env n target (first :: rest) ss' :=
      ⟨first :: rest', by rw [hstep, hrest]; rfl, .skip hf hpass⟩
    cases first with
    | call args mark =>
      refine ⟨_, ?_, .call args mark rest hp⟩
      show (environment s env target mark.span).bind _ = _
      simp only [environment, hrun]
      rfl
    | index xs mark | field name decl mark | deref implicit mark
    | guard ident type mark => exact hskip rfl rfl

section

variable (hl : Linked l.store chain (some env.record) bound)
include hl

lemma routable_origin {i : Nat} (hplace : env.record.place < l.store.types.size)
    (hk : chain[k]? = some L) (hf : Frames l.store L here mirrors) (hx : L.origins[i]? = some id)
    (hi : mirrors[i]? = some f) (hfield : l.fields.lookup id = some f)
    (hhidden : l.hidden.lookup id = none) : Routable l env (Reference l.store env chain) id := by
  intro ident ss note
  obtain ⟨path, hrun, hp⟩ := fieldPathWithin_ok (depth l.store) hl hk hf
    (mem_of_getElem? hi) (Nat.lt_succ_of_lt hplace)
  refine ⟨_, ?_, .climb ident ss note hk hf hx hi hp⟩
  simp only [routeDesignator, hhidden, hfield, hrun]
  rfl

lemma routable_child {h : DeclId} (hplace : env.record.place < l.store.types.size)
    (hk : chain[k]? = some L) (he : L.env = some here) (hc : id ∈ L.children)
    (hhidden : l.hidden.lookup id = some h) (htype : l.store.typeOf h = here.record) :
    Routable l env (Reference l.store env chain) id := by
  intro ident ss note
  obtain ⟨path, hrun, hp⟩ := linksWithin_ok (depth l.store) hl hk he (Nat.lt_succ_of_lt hplace)
  obtain ⟨ss', hpass, hs⟩ := passTo_ok hrun hp ss
  refine ⟨_, ?_, .pass ident note hk he hc hs⟩
  simp only [routeDesignator, hhidden, htype, hpass]
  rfl

/-- Whatever is visible can be routed. -/
lemma routable_of_visible {global : DeclId → Prop}
    (hplace : env.record.place < l.store.types.size) (hkeys : ∀ L ∈ chain, Keyed l L)
    (hglobal : ∀ id, global id → l.Unkeyed id) (hv : Visible global chain id) :
    Routable l env (Reference l.store env chain) id := by
  rcases hv with hg | ⟨L, hL, hm⟩
  · exact routable_of_unkeyed hkeys hl (hglobal id hg)
  · obtain ⟨k, hk⟩ := getElem?_of_mem hL
    have hkey := hkeys L hL
    have horigin (hx : id ∈ L.origins) : Routable l env (Reference l.store env chain) id := by
      cases he : L.env with
      | none =>
        rw [hl.origins_eq_nil hk he] at hx
        cases hx
      | some here =>
        obtain ⟨_, mirrors, _, hf, _, _⟩ := hl.level hk he
        obtain ⟨i, f, hi, hmi⟩ := exists_pair hf.length hx
        obtain ⟨hfield, hhidden⟩ := hkey.origin here mirrors hf i id _ hi hmi
        exact routable_origin hl hplace hk hf hi hmi hfield hhidden
    have hmember : id ∈ L.origins ∨
        id ∈ L.procedure.block.constants ++ L.procedure.block.types ∨ id ∈ L.children := by
      rcases hm with hm | hm
      · exact .inl hm
      · exact L.mem_members hm
    rcases hmember with hm | hm | hm
    · exact horigin hm
    · exact routable_of_unkeyed hkeys hl (hkey.plain id hm)
    · cases he : L.env with
      | none => exact routable_of_unkeyed hkeys hl (hkey.alone he id hm)
      | some here =>
        obtain ⟨h, hh, _, ht⟩ := hkey.child here he id hm
        exact routable_child hl hplace hk he hm hh ht

end

end Lifting
end Oberon
