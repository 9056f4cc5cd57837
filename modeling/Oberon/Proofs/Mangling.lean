import Oberon.Proofs.Blocks
import Oberon.Proofs.Spelling

/-!
# Oberon.Proofs.Mangling

The names of lifted modules. Lifting puts the names of the procedures around a procedure in front of
its own, and names the type of its environment after it. Each such name spells a list of names, every
one of them behind an underscore, and no two procedures spell the same list. But the list of a record
type is that of its procedure behind the name `T`, which is also that of a procedure if there is one
called `T`.
-/

namespace Oberon

open List Nesting Procedure

/-- The procedures nested in those of a module, parents first. -/
def Module.nestings (m : Module) : List Nesting :=
  m.block.procedures.flatMap (Procedure.nestings [])

namespace Nesting

/-- The names of the procedures around a procedure, the outermost first, and then its own. -/
def path (s : Store) (n : Nesting) : List String :=
  ((n.procedure :: n.outer).map fun p => (s.decl p.decl).name).reverse

/-- Is there a procedure nested in this one, and a parameter or variable that both can refer to? -/
def shares (s : Store) (n : Nesting) : Bool := !n.procedure.block.procedures.isEmpty &&
    (n.procedure :: n.outer).any fun p => !(Lifting.params s p.decl ++ p.block.vars).isEmpty

end Nesting

namespace Lifting

variable {m : Module} {p q : Procedure} {outer : List Procedure}

/-! ## Words behind underscores -/

/-- A name made of words, each behind an underscore. -/
def spelled (words : List String) : List Char := words.flatMap fun w => '_' :: w.toList

lemma spelled_append (words more) :
    spelled (words ++ more) = spelled words ++ spelled more := flatMap_append ..

lemma head?_spelled (words) : ∀ c ∈ (spelled words).head?, (c != '_') = false := by
  cases words with
  | nil | cons w words => simp [spelled]

lemma spelled_inj (hw : ∀ w ∈ words, '_' ∉ w.toList) (hw' : ∀ w ∈ words', '_' ∉ w.toList)
    (h : spelled words = spelled words') : words = words' := by
  have hne {w : String} (hw : '_' ∉ w.toList) : ∀ c ∈ w.toList, (c != '_') := by
    rintro c hc
    rw [bne_iff_ne]
    rintro rfl
    exact hw hc
  induction words generalizing words' with
  | nil =>
    cases words' with
    | nil => rfl
    | cons w' words' => cases h
  | cons w words ih =>
    cases words' with
    | nil => cases h
    | cons w' words' =>
      rw [forall_mem_cons] at hw hw'
      have htails : w.toList ++ spelled words = w'.toList ++ spelled words' := (cons.inj h).2
      have hword := congrArg (takeWhile (· != '_')) htails
      rw [Scan.takeWhile_append_of_head (hne hw.1) (head?_spelled _),
        Scan.takeWhile_append_of_head (hne hw'.1) (head?_spelled _)] at hword
      rw [hword, append_cancel_left_eq] at htails
      rw [String.toList_inj.1 hword, ih hw.2 hw'.2 htails]

/-! ## Names of procedures -/

/-- What a procedure is called at module level, from the procedures around it. -/
def title (s : Store) : List Procedure → String
  | [] => ""
  | [p] => (s.decl p.decl).name
  | p :: q :: outer => liftedName (title s (q :: outer)) (s.decl p.decl).name

lemma head?_ne_underscore (h : IsPlain name) : name.toList.head? ≠ some '_' := by
  intro hh
  exact h.joined (mem_of_mem_head? hh)

/-- The name of a nested procedure spells its path. -/
lemma toList_title (hp : ∀ r ∈ p :: q :: outer, IsPlain (s.decl r.decl).name) :
    (title s (p :: q :: outer)).toList = spelled (path s ⟨p, q :: outer⟩) := by
  induction outer generalizing p q with
  | nil =>
    have hhead := head?_ne_underscore (hp q (by simp))
    simp only [title, liftedName, beq_iff_eq, if_neg hhead]
    simp [spelled, path]
  | cons r outer ih =>
    rw [forall_mem_cons] at hp
    have ih := ih hp.2
    have hhead : (title s (q :: r :: outer)).toList.head? = some '_' := by
      rw [ih]
      cases hpath : path s ⟨q, r :: outer⟩ with
      | nil => simp [path] at hpath
      | cons w words => rfl
    have hpath : path s ⟨p, q :: r :: outer⟩ =
        path s ⟨q, r :: outer⟩ ++ [(s.decl p.decl).name] := by
      simp [path]
    rw [title, liftedName, hhead, if_pos (beq_self_eq_true _), hpath, spelled_append, ← ih]
    simp [spelled]

/-! ## Outlines and paths -/

/-- What the outline says of a procedure. -/
def entry (s : Store) (n : Nesting) : String × Bool := (title s (n.procedure :: n.outer), n.shares s)

lemma isFramed_any (s) (p : Procedure) (outer : List Procedure) :
    p.isFramed s (outer.any fun r => !(params s r.decl ++ r.block.vars).isEmpty) =
    shares s ⟨p, outer⟩ := by
  simp only [isFramed, shares, any_cons, Bool.or_comm]

mutual

lemma outline_eq_entries (s outer) : ∀ p : Procedure,
    p.outline s (title s (p :: outer))
        (outer.any fun r => !(params s r.decl ++ r.block.vars).isEmpty) =
      (⟨p, outer⟩ :: p.nestings outer).map (entry s)
  | .mk id (.mk constants types vars procedures body) => by
    rw [outline_eq, isFramed_any, map_cons, nestings]
    refine congrArg (cons _) (outlineOf_eq_entries s _ outer procedures fun hn => ?_)
    exact isEmpty_eq_false_iff.2 hn

lemma outlineOf_eq_entries (s) (p : Procedure) (outer) :
    ∀ ps, (ps ≠ [] → p.block.procedures.isEmpty = false) →
    outlineOf s (title s (p :: outer)) (shares s ⟨p, outer⟩) ps =
      (nestingsOf (p :: outer) ps).map (entry s)
  | [], _ => rfl
  | q :: rest, hn => by
    have hshares : shares s ⟨p, outer⟩ =
        (p :: outer).any fun r => !(params s r.decl ++ r.block.vars).isEmpty := by
      rw [shares, hn (cons_ne_nil _ _)]
      rfl
    have hq := outline_eq_entries s (p :: outer) q
    have hrest := outlineOf_eq_entries s p outer rest fun _ => hn (cons_ne_nil _ _)
    rw [← hshares] at hq
    rw [outlineOf, hrest, nestingsOf, map_cons, map_append,
      ← cons_append, ← map_cons, ← hq]
    rfl

end

/-! ## Different paths -/

lemma path_cons (s p outer q) : path s ⟨q, p :: outer⟩ =
    path s ⟨p, outer⟩ ++ [(s.decl q.decl).name] := by
  simp [path]

/-- The path of a nested procedure goes on behind that of the procedure around it. -/
lemma path_nested (h : p.Named s) (outer) (hn : n ∈ p.nestings outer) : ∃ q ∈ p.block.procedures,
    ∃ rest, n.path s = path s ⟨p, outer⟩ ++ (s.decl q.decl).name :: rest := by
  induction h generalizing outer with
  | @mk id block hlt hp hd hq ih =>
    obtain ⟨constants, types, vars, procedures, body⟩ := block
    rw [nestings, nestingsOf_eq_flatMap, mem_flatMap] at hn
    obtain ⟨q, hmem, hn⟩ := hn
    refine ⟨q, hmem, ?_⟩
    rcases mem_cons.1 hn with rfl | hn
    · exact ⟨[], path_cons ..⟩
    · obtain ⟨r, _, rest, hpath⟩ := ih q hmem _ hn
      exact ⟨(s.decl r.decl).name :: rest, by rw [hpath, path_cons, append_assoc]; rfl⟩

lemma outer_of_nested (h : p.Named s) (outer) (hn : n ∈ p.nestings outer) : ∃ q rest, n.outer =
    q :: rest := by
  obtain ⟨q, _, rest, hpath⟩ := path_nested h outer hn
  have hlen := congrArg length hpath
  cases ho : n.outer with
  | nil =>
    simp only [path, ho, map_cons, map_nil, length_reverse, length_append,
      length_cons, length_nil] at hlen
    omega
  | cons q rest => exact ⟨q, rest, rfl⟩

/-- Paths differ where procedures with the same parent have different names. -/
lemma nodup_paths_of_siblings {ps : List Procedure} (outer)
    (hd : (ps.map fun q => (s.decl q.decl).name).Nodup) (hq : ∀ q ∈ ps, q.Named s)
    (hn : ∀ q ∈ ps, ((⟨q, outer⟩ :: q.nestings outer).map (path s)).Nodup) :
    ((nestingsOf outer ps).map (path s)).Nodup := by
  have hpath (q) (hmem : q ∈ ps) (n) (hn : n ∈ ⟨q, outer⟩ :: q.nestings outer) :
      ∃ rest, n.path s =
        (outer.map fun p => (s.decl p.decl).name).reverse ++ (s.decl q.decl).name :: rest := by
    rcases mem_cons.1 hn with rfl | hn
    · exact ⟨[], by simp [path]⟩
    · obtain ⟨r, _, rest, hpath⟩ := path_nested (hq q hmem) outer hn
      exact ⟨(s.decl r.decl).name :: rest, by rw [hpath]; simp [path]⟩
  rw [nestingsOf_eq_flatMap, map_flatMap, nodup_flatMap]
  refine ⟨hn, (pairwise_map.1 hd).imp_of_mem fun {q r} hqm hrm hne => ?_⟩
  intro w hw hw'
  obtain ⟨n, hn, rfl⟩ := mem_map.1 hw
  obtain ⟨n', hn', heq⟩ := mem_map.1 hw'
  obtain ⟨rest, hpath1⟩ := hpath q hqm n hn
  obtain ⟨rest', hpath2⟩ := hpath r hrm n' hn'
  rw [hpath1, hpath2, append_cancel_left_eq, cons.injEq] at heq
  exact hne heq.1.symm

lemma nodup_paths (h : p.Named s) (outer) :
    ((⟨p, outer⟩ :: p.nestings outer).map (path s)).Nodup := by
  have htree := h
  induction h generalizing outer with
  | @mk id block hlt hp hd hq ih =>
    rw [map_cons, nodup_cons]
    refine ⟨fun hmem => ?_, ?_⟩
    · obtain ⟨n, hn, heq⟩ := mem_map.1 hmem
      obtain ⟨q, _, rest, hpath⟩ := path_nested htree outer hn
      rw [hpath] at heq
      simpa using congrArg length heq
    · obtain ⟨constants, types, vars, procedures, body⟩ := block
      exact nodup_paths_of_siblings _ hd hq fun q hmem => ih q hmem _ (hq q hmem)

lemma plain_of_mem (h : p.Named s) (ho : ∀ r ∈ outer, IsPlain (s.decl r.decl).name)
    (hn : n ∈ ⟨p, outer⟩ :: p.nestings outer) : ∀ r ∈ n.procedure :: n.outer,
    IsPlain (s.decl r.decl).name := by
  induction h generalizing outer with
  | @mk id block hlt hp hd hq ih =>
    have hall : ∀ r ∈ Procedure.mk id block :: outer, IsPlain (s.decl r.decl).name :=
      forall_mem_cons.2 ⟨hp, ho⟩
    rcases mem_cons.1 hn with rfl | hn
    · exact hall
    · obtain ⟨constants, types, vars, procedures, body⟩ := block
      rw [nestings, nestingsOf_eq_flatMap, mem_flatMap] at hn
      obtain ⟨q, hmem, hn⟩ := hn
      exact ih q hmem hall hn

/-! ## The procedures of a module -/

/-- The procedures of a module and those nested in them, parents first. -/
def trees (m : Module) : List Nesting :=
  m.block.procedures.flatMap fun p => ⟨p, []⟩ :: p.nestings []

lemma mem_trees : n ∈ trees m ↔ (∃ p ∈ m.block.procedures, n = ⟨p, []⟩) ∨ n ∈ m.nestings := by
  rw [trees, mem_flatMap, Module.nestings, mem_flatMap]
  simp only [mem_cons]
  constructor
  · rintro ⟨p, hp, rfl | hn⟩
    · exact .inl ⟨p, hp, rfl⟩
    · exact .inr ⟨p, hp, hn⟩
  · rintro (⟨p, hp, rfl⟩ | ⟨p, hp, hn⟩)
    · exact ⟨p, hp, .inl rfl⟩
    · exact ⟨p, hp, .inr hn⟩

section

variable (h : m.Named s)
include h

lemma nodup_paths_trees : ((trees m).map (path s)).Nodup := by
  rw [trees, ← nestingsOf_eq_flatMap]
  refine nodup_paths_of_siblings [] ?_ h.trees fun q hq => nodup_paths (h.trees q hq) []
  have hn := h.nodup
  revert hn
  cases m.block
  rw [Block.members, map_append, nodup_append, map_map]
  exact fun hn => hn.2.1

lemma plain_of_mem_trees (hn : n ∈ trees m) : ∀ r ∈ n.procedure :: n.outer,
    IsPlain (s.decl r.decl).name := by
  obtain ⟨p, hp, hn⟩ := mem_flatMap.1 hn
  exact plain_of_mem (h.trees p hp) (forall_mem_nil _) hn

lemma plain_path (hn : n ∈ trees m) : ∀ w ∈ n.path s, '_' ∉ w.toList := by
  intro w hw
  rw [path, mem_reverse] at hw
  obtain ⟨r, hr, rfl⟩ := mem_map.1 hw
  exact (plain_of_mem_trees h hn r hr).joined

lemma outer_of_mem_nestings (hn : n ∈ m.nestings) : ∃ q rest, n.outer = q :: rest := by
  obtain ⟨p, hp, hn⟩ := mem_flatMap.1 hn
  exact outer_of_nested (h.trees p hp) [] hn

/-- The name of a nested procedure spells its path. -/
lemma toList_title_of_nested (hn : n ∈ m.nestings) : (entry s n).1.toList = spelled (n.path s) ∧
    2 ≤ (n.path s).length := by
  have hplain := plain_of_mem_trees h (mem_trees.2 (.inr hn))
  obtain ⟨q, rest, ho⟩ := outer_of_mem_nestings h hn
  obtain ⟨p, outer⟩ := n
  cases ho
  exact ⟨toList_title hplain, by simp [path]⟩

lemma head?_of_nested (hn : n ∈ m.nestings) : (entry s n).1.toList.head? = some '_' := by
  obtain ⟨hspell, hlen⟩ := toList_title_of_nested h hn
  rw [hspell]
  cases hpath : n.path s with
  | nil => simp [hpath] at hlen
  | cons w words => rfl

lemma title_inj (hn : n ∈ trees m) (hn' : n' ∈ trees m) (heq : (entry s n).1 = (entry s n').1) :
    n = n' := by
  have hinj := inj_on_of_nodup_map (nodup_paths_trees h) hn hn'
  have hmixed {n n' p} (hp : p ∈ m.block.procedures) (hn : n = ⟨p, []⟩)
      (hn' : n' ∈ m.nestings) : (entry s n).1 ≠ (entry s n').1 := by
    intro heq
    refine head?_ne_underscore (h.trees p hp).plain.2 ?_
    have hhead := head?_of_nested h hn'
    rw [← heq, hn] at hhead
    exact hhead
  rcases mem_trees.1 hn with ⟨p, hp, ht⟩ | hm <;> rcases mem_trees.1 hn' with ⟨p', hp', ht'⟩ | hm'
  · refine hinj ?_
    subst ht ht'
    exact congrArg (fun w => [w]) heq
  · exact absurd heq (hmixed hp ht hm')
  · exact absurd heq.symm (hmixed hp' ht' hm)
  · refine hinj (spelled_inj (plain_path h hn) (plain_path h hn') ?_)
    rw [← (toList_title_of_nested h hm).1, heq, (toList_title_of_nested h hm').1]

/-- The type of an environment has the name of a procedure only if there is a procedure `T` around
the latter, and the rest of the way is the same. -/
lemma record_eq_title_iff (hn : n ∈ trees m) (hn' : n' ∈ m.nestings) :
    "_T" ++ (entry s n).1 = (entry s n').1 ↔ n ∈ m.nestings ∧ n'.path s = "T" :: n.path s := by
  obtain ⟨hspell', hlen'⟩ := toList_title_of_nested h hn'
  have hplain' := plain_path h (mem_trees.2 (.inr hn'))
  rw [← String.toList_inj, hspell', String.toList_append]
  rcases mem_trees.1 hn with ⟨p, hp, rfl⟩ | hm
  · have hword : "_T".toList ++ (entry s ⟨p, []⟩).1.toList =
        spelled ["T" ++ (s.decl p.decl).name] := by
      simp [spelled, entry, title]
    rw [hword]
    refine iff_of_false (fun heq => ?_) fun hmem => ?_
    · have hone := spelled_inj (forall_mem_singleton.2 ?_) hplain' heq
      · rw [← hone] at hlen'
        simp at hlen'
      · rw [String.toList_append, mem_append, not_or]
        exact ⟨by decide, (h.trees p hp).plain.2.joined⟩
    · obtain ⟨q, rest, ho⟩ := outer_of_mem_nestings h hmem.1
      cases ho
  · have hwords : "_T".toList ++ (entry s n).1.toList = spelled ("T" :: n.path s) := by
      rw [(toList_title_of_nested h hm).1]
      rfl
    rw [hwords]
    refine ⟨fun heq => ⟨hm, (spelled_inj ?_ hplain' heq).symm⟩, fun heq => by rw [heq.2]⟩
    exact forall_mem_cons.2 ⟨by decide, plain_path h hn⟩

end

/-! ## The names of a lifted module -/

lemma plan_eq_entries (s) (p : Procedure) : p.plan s = (⟨p, []⟩ :: p.nestings []).map (entry s) :=
  outline_eq_entries s [] p

section

lemma names_of_records (he : Emerges m.block.procedures rs others (start s m) l) :
    l.types.map (fun x => (l.store.decl x).name) =
      ((trees m).filter (shares s)).map fun n => "_T" ++ (entry s n).1 := by
  obtain ⟨records, htypes, hrecords, _⟩ := he.names.gains
  have hplans : m.block.procedures.flatMap (plan s) = (trees m).map (entry s) := by
    rw [trees, map_flatMap]
    exact flatMap_congr fun p _ => plan_eq_entries s p
  rw [htypes, show (start s m).types ++ records = records from rfl, hrecords,
    show (start s m).store = s from rfl, hplans, filter_map, map_map]
  rfl

lemma names_of_nested (he : Emerges m.block.procedures rs others (start s m) l) :
    (others.map decl).map (fun x => (l.store.decl x).name) =
    m.nestings.map fun n => (entry s n).1 := by
  have htails : (m.block.procedures.flatMap fun p => (p.plan s).tail) = m.nestings.map (entry s) := by
    rw [Module.nestings, map_flatMap]
    exact flatMap_congr fun p _ => by rw [plan_eq_entries, map_cons, tail_cons]
  rw [map_map]
  refine he.names.nested.trans ?_
  rw [show (start s m).store = s from rfl, htails, map_map]
  rfl

lemma names_of_sections (hm : m.Scoped s low) (hc : Reworks m.block.procedures (start s m) l)
    (ids : List DeclId) (hids : ∀ x ∈ ids, x ∈ m.block.constants ++ m.block.types ++ m.block.vars) :
    (ids.map fun x => (l.store.decl x).name) = ids.map fun x => (s.decl x).name := by
  refine map_congr_left fun x hx => congrArg Declaration.name ?_
  have hbounds := (hm.spread.bounds x (mem_append_left _ (hids x hx))).2
  refine hc.decl x hbounds fun ht => ?_
  rcases ht with ⟨p, hp, _, hmem⟩ | hle
  · refine (nodup_append.1 hm.spread.nodup).2.2 x (hids x hx) x ?_ rfl
    exact mem_idsOf.2 ⟨p, hp, mem_of_mem_tail hmem⟩
  · exact absurd hbounds (Nat.not_lt.2 hle)

lemma members_eq (block : Block) : block.members [] =
    block.constants ++ (block.types ++ (block.vars ++ block.procedures.map decl)) := by
  cases block
  simp [Block.members, Block.constants, Block.types, Block.vars, Block.procedures]

/-- What the module declares itself keeps its name; the names of nested procedures and those of
types for environments are added. -/
lemma names_perm (hm : m.Scoped s low)
    (he : Emerges m.block.procedures rs others (start s m) l)
    (hc : Reworks m.block.procedures (start s m) l) :
    ((m.flattened l.types (rs ++ others)).names l.store).Perm
      (m.names s ++ (((trees m).filter (shares s)).map (fun n => "_T" ++ (entry s n).1) ++
        m.nestings.map fun n => (entry s n).1)) := by
  have hconstants := names_of_sections hm hc m.block.constants (by simp +contextual)
  have htypes := names_of_sections hm hc m.block.types (by simp +contextual)
  have hvars := names_of_sections hm hc m.block.vars (by simp +contextual)
  have htops : (rs.map decl).map (fun x => (l.store.decl x).name) =
      (m.block.procedures.map decl).map fun x => (s.decl x).name := by
    rw [map_map, map_map]
    exact he.names.tops
  rw [Module.names, Module.names, members_eq, members_eq]
  show (map _ (m.block.constants ++ ((m.block.types ++ l.types) ++
    (m.block.vars ++ (rs ++ others).map decl)))).Perm _
  simp only [map_append, hconstants, htypes, hvars, htops, names_of_records he,
    names_of_nested he, append_assoc]
  refine .append_left _ (.append_left _ ?_)
  exact (perm_append_comm_assoc ..).trans (.append_left _ (perm_append_comm_assoc ..))

end

/-- The names of what a lifted module declares are all different, unless a nested procedure that has an
environment is at the end of some path, and there is a procedure at the end of the same path behind
the name `T`. -/
theorem nodup_names_iff {features : Features} {library : Library} {source : String} {m : Module}
    (h : (Outcome.ofSource features library source).Accepts m) :
    let s := (Outcome.ofSource features library source).store
    ∃ m' s', liftModule s m = .ok (m', s') ∧ ((m'.names s').Nodup ↔
      ∀ n ∈ m.nestings, n.shares s = true → ∀ n' ∈ m.nestings, n'.path s ≠ "T" :: n.path s) := by
  intro s
  obtain ⟨low, hm⟩ := h.scoped
  have hnamed := h.named
  obtain ⟨rs, others, l, hrun, he, hc⟩ := liftModule_ok hm
  refine ⟨_, _, hrun, ?_⟩
  have htrees : (trees m).Nodup := .of_map _ (nodup_paths_trees hnamed)
  have hrecords : (((trees m).filter (shares s)).map fun n => "_T" ++ (entry s n).1).Nodup := by
    refine .map_on (fun n hn n' hn' heq => ?_) (htrees.filter _)
    refine title_inj hnamed (mem_of_mem_filter hn) (mem_of_mem_filter hn') ?_
    have hlists := congrArg String.toList heq
    rw [String.toList_append, String.toList_append, append_cancel_left_eq] at hlists
    exact String.toList_inj.1 hlists
  have hsub : m.nestings.Sublist (trees m) := .flatMap_right _ fun p _ => sublist_cons_self ..
  have hnested : (m.nestings.map fun n => (entry s n).1).Nodup := by
    refine .map_on (fun n hn n' hn' => ?_) (htrees.sublist hsub)
    exact title_inj hnamed (hsub.subset hn) (hsub.subset hn')
  -- what the module declares itself does not start with an underscore
  have hplain (name : String) (hname : name ∈ m.names s) : name.toList.head? ≠ some '_' := by
    obtain ⟨id, hid, rfl⟩ := mem_map.1 hname
    exact head?_ne_underscore (hnamed.plain id hid).2
  rw [(names_perm hm he hc).nodup_iff, nodup_append, nodup_append]
  constructor
  · rintro ⟨_, ⟨_, _, hapart⟩, _⟩ n hn hs n' hn' hpath
    have hmem : n ∈ trees m := hsub.subset hn
    refine hapart _ (mem_map_of_mem (mem_filter.2 ⟨hmem, hs⟩)) _
      (mem_map_of_mem hn') ?_
    exact (record_eq_title_iff hnamed hmem hn').2 ⟨hn, hpath⟩
  · intro hfree
    refine ⟨hnamed.nodup, ⟨hrecords, hnested, fun x hx y hy heq => ?_⟩, fun x hx y hy heq => ?_⟩
    · obtain ⟨n, hn, rfl⟩ := mem_map.1 hx
      obtain ⟨n', hn', rfl⟩ := mem_map.1 hy
      obtain ⟨hn, hs⟩ := mem_filter.1 hn
      obtain ⟨hmem, hpath⟩ := (record_eq_title_iff hnamed hn hn').1 heq
      exact hfree n hmem hs n' hn' hpath
    · subst heq
      refine hplain x hx ?_
      rcases mem_append.1 hy with hy | hy
      · obtain ⟨n, _, rfl⟩ := mem_map.1 hy
        rw [String.toList_append]
        rfl
      · obtain ⟨n, hn, rfl⟩ := mem_map.1 hy
        exact head?_of_nested hnamed hn

/-- A nested procedure with an environment, and one of the same name with none. -/
def apartSource : String :=
  "MODULE M; PROCEDURE P; PROCEDURE C(x: INTEGER); PROCEDURE D; END D; BEGIN D END C; BEGIN C(1) END P; " ++
    "PROCEDURE T; PROCEDURE C; END C; BEGIN C END T; BEGIN P; T END M."

theorem nodup_names_apart : ∃ m, (Outcome.ofSource {} {} apartSource).Accepts m ∧ ∃ m' s',
    liftModule (Outcome.ofSource {} {} apartSource).store m = .ok (m', s') ∧ (m'.names s').Nodup :=
    by
  have heval : (Outcome.ofSource {} {} apartSource).acceptsWith (fun o m => decide
      (∀ n ∈ m.nestings, n.shares o.store = true → ∀ n' ∈ m.nestings,
        n'.path o.store ≠ "T" :: n.path o.store)) = true := by decide +kernel
  obtain ⟨m, hacc, hfree⟩ := Outcome.exists_of_acceptsWith heval
  obtain ⟨m', s', hrun, hiff⟩ := nodup_names_iff hacc
  exact ⟨m, hacc, m', s', hrun, hiff.2 (of_decide_eq_true hfree)⟩

/-- The same with a procedure `P` around `C` and inside `T`. -/
def collidingSource : String :=
  "MODULE M; PROCEDURE P; PROCEDURE C(x: INTEGER); PROCEDURE D; END D; BEGIN D END C; BEGIN C(1) END P; " ++
    "PROCEDURE T; PROCEDURE P; PROCEDURE C; END C; BEGIN C END P; BEGIN P END T; BEGIN P; T END M."

theorem names_collide : ∃ m, (Outcome.ofSource {} {} collidingSource).Accepts m ∧ ∃ m' s',
    liftModule (Outcome.ofSource {} {} collidingSource).store m = .ok (m', s') ∧
    ¬ (m'.names s').Nodup := by
  have heval : (Outcome.ofSource {} {} collidingSource).acceptsWith (fun o m =>
      (liftModule o.store m).toOption.any fun r => !decide (r.1.names r.2).Nodup) = true := by
    decide +kernel
  obtain ⟨m, haccepts, hlifted⟩ := Outcome.exists_of_acceptsWith heval
  cases hr : liftModule (Outcome.ofSource {} {} collidingSource).store m with
  | error e =>
    rw [hr] at hlifted
    cases hlifted
  | ok r =>
    rw [hr] at hlifted
    have hdup : (!decide (r.1.names r.2).Nodup) = true := hlifted
    exact ⟨m, haccepts, r.1, r.2, hr, by simpa using hdup⟩

end Lifting
end Oberon
