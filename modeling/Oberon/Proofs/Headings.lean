import Oberon.Proofs.Deciding
import Oberon.Proofs.Parsing
import Oberon.Token.Imports

/-!
# Oberon.Proofs.Headings

The names that are read off the header of a source against the modules that its reader imports. Unless a
fault of the text is reported up to the end of the import list, the two agree: every entry is imported in
its order, and nothing else is.
-/

namespace Oberon

open Analyze

/-! ## Faults of the text -/

/-- What the scanner and the parser report, other than the analysis. -/
def Message.isSyntactic : Message → Bool
  | .lexical _ => true
  | .sentence _ => true
  | _ => false

/-- A fault of the text has been reported. -/
def Analysis.misspelt (a : Analysis) : Bool := a.log.entries.toList.any fun d => d.message.isSyntactic

def Analysis.Misspelt (a : Analysis) : Prop := a.misspelt = true

lemma Analysis.misspelt_report (h : message.isSyntactic) (span a) :
    (report span message a).2.Misspelt := by
  simp [Misspelt, misspelt, report, record, Log.record, h]

instance : Parser.Grave Analysis.Misspelt where
  lasts h ha := by
    obtain ⟨new, hnew⟩ := h
    simp only [Analysis.Misspelt, Analysis.misspelt, ← hnew, List.any_append, Bool.or_eq_true]
    exact .inl ha
  report span note := Analysis.misspelt_report rfl span

namespace Cursor

variable {c d : Cursor} {rest : List Lexeme}

/-- The kinds of the lexemes that are left. -/
def kinds (c : Cursor) : List Lexis := c.rest.map Imports.lexis

/-- Only a token of kind `l` is read from `c` to `d`. -/
def Passes (l : Lexis) (c d : Cursor) : Prop := d.analysis = c.analysis ∧ c.kinds = l :: d.kinds

lemma kinds_of_token (h : c.rest = .token t :: rest) : c.kinds = t.lexis :: (c.behind t rest).kinds := by
  rw [kinds, h]
  rfl

lemma head_of_kinds (h : c.kinds = l :: ks) (hl : l ≠ .eof) : c.head.lexis = l := by
  unfold kinds at h
  rcases hr : c.rest with _ | ⟨t | ⟨f, span⟩, rest⟩
  · simp [hr] at h
  · rw [hr] at h
    rw [head_of_token hr]
    exact (List.cons.inj h).1
  · rw [hr] at h
    exact absurd (List.cons.inj h).1.symm hl

lemma passes_advanced (h : c.head.lexis ≠ .eof) : Passes c.head.lexis c c.advanced := by
  refine ⟨c.analysis_advanced, ?_⟩
  unfold head at h ⊢
  split at h
  · next t rest hr => rw [advanced_of_token hr, kinds_of_token hr]
  · exact absurd rfl h

/-- Faults are reported before a token is looked at. -/
lemma settled_of_spelt (h : ¬ c.settled.analysis.Misspelt) : c.settled = c := by
  rcases hr : c.rest with _ | ⟨t | ⟨f, span⟩, rest⟩
  · simp only [settled, hr, skipFaults]
    rw [← hr]
  · exact settled_of_token hr
  · rw [settled, hr] at h
    have hlogs := (skipFaults_silent rest (report span (.lexical f) c.analysis).2).logs
    exact absurd (Parser.Grave.lasts hlogs (Analysis.misspelt_report rfl span c.analysis)) h

end Cursor

/-! ## Reading without faults -/

namespace Parser

open Cursor

variable {test : Lexis → Bool}

/-- Unless a fault of the text is reported, what is read from `c` satisfies `Q`. -/
abbrev Spells (p : Parser n α) := p.Unless Analysis.Misspelt

namespace Spells

/-- Faults in front of a token that is taken would have been reported. -/
lemma behind {c : Cursor} {p : Parser n α} (hp : Proceeds p)
    (h : c.settled = c → p.Spells (c.settled.behind t ls) P) :
    p.Spells (c.settled.behind t ls) P := fun hl hw hs =>
  h (settled_of_spelt fun hb => hs (Grave.lasts (hp.keeps _ hl) hb)) hl hw hs

lemma peek : (@peek n).Spells c fun t d => t = c.head ∧ d = c := by
  intro h _ hs
  have := settled_of_spelt hs
  exact ⟨.of_eq rfl, congrArg head this, this⟩

lemma next (h : c.head.lexis = l) (hl : l ≠ .eof) : (@next n).Spells c fun _ d => Passes l c d := by
  subst h
  intro hlen _ hs
  have hsettled : c.settled = c := settled_of_spelt (by rwa [← analysis_advanced])
  refine ⟨.of_eq c.settled.skipped_advanced, ?_⟩
  show Passes _ c c.settled.advanced
  rw [hsettled]
  exact passes_advanced hl

section

variable (htest : ∀ k, test k = true ↔ k = l) (hl : l ≠ .eof)
include htest hl

lemma accept : (@accept n test).Spells c fun v d => if v then Passes l c d
    else d = c ∧ ∀ ks, c.kinds ≠ l :: ks := by
  have hcheck : (@check n test).Spells c fun v d => d = c ∧ v = test c.head.lexis :=
    .bind peek fun t d h => .pure fun _ => ⟨h.2, by rw [h.1]⟩
  refine .bind hcheck fun v d h => ?_
  obtain ⟨rfl, rfl⟩ := h
  split
  · next ht => exact .bind (next ((htest _).1 ht) hl) fun _ e he => .pure fun _ => he
  · next ht => exact .pure fun _ => ⟨rfl, fun ks h => ht ((htest _).2 (head_of_kinds h hl))⟩

lemma expect (text) : (@expect n test text).Spells c fun v d => v ∧ Passes l c d := by
  refine .bind (accept htest hl) fun v d h => ?_
  cases v with
  | false => exact .bind peek fun t e _ => .fails (.report _ _)
  | true => exact .pure fun _ => ⟨rfl, h⟩

end

lemma isSymbol_iff (mark k) : Lexis.isSymbol mark k ↔ k = .symbol mark := by
  cases k <;> simp [Lexis.isSymbol]

lemma isKeyword_iff (word k) : Lexis.isKeyword word k ↔ k = .keyword word := by
  cases k <;> simp [Lexis.isKeyword]

lemma ident : (@Grammar.ident n).Spells c fun v d => ∃ i, v = some i ∧ Passes (.ident i.name) c d := by
  refine .bind_of_proceeds (fun _ => by split <;> infer_instance) peek fun t d h => ?_
  obtain ⟨rfl, rfl⟩ := h
  split
  · next hn =>
    exact .bind (next (Grammar.name?_eq_some hn) Lexis.noConfusion) fun _ e he => .pure fun _ => ⟨_, rfl, he⟩
  · exact .fails (.report _ _)

end Spells
end Parser

/-! ## Import lists -/

/-- An entry of an import list as it is passed to the analysis. -/
structure ImportEntry where
  span : Span
  rename : Option Ident
  ident : Ident

namespace ImportEntry

/-- An entry is imported after others. -/
def importNext (imports : List Import) (e : ImportEntry) : Analyze (List Import) := do
  return imports ++ (← importModule e.span e.rename e.ident imports).toList

/-- The entries are imported one after the other. -/
def importAll (entries : List ImportEntry) : Analyze (List Import) := entries.foldlM importNext []

def names (entries : List ImportEntry) : List String := entries.map fun e => e.ident.name

end ImportEntry

namespace Grammar

open Oberon.Parser ImportEntry Cursor

/-- An entry is its alias and its name, or its name alone. -/
lemma spells_importEntry (imports) :
    (@importEntry n first imports).Spells c fun v d => ∃ e : ImportEntry,
    importNext imports e c.analysis = (v, d.analysis) ∧
    (e.ident = first ∧ d.kinds = c.kinds ∨ c.kinds =
     .symbol .becomes :: .ident e.ident.name :: d.kinds) := by
  have hcall (e : ImportEntry) {d : Cursor} (hd : d.analysis = c.analysis) :
      (do let entry ← importModule e.span e.rename e.ident imports
          return imports ++ entry.toList : Parser n _).Spells d fun v f =>
        importNext imports e c.analysis = (v, f.analysis) ∧ f.kinds = d.kinds :=
    hd ▸ fun _ _ _ => ⟨.of_eq rfl, rfl, rfl⟩
  refine .bind_of_proceeds (fun _ => ?_) (Spells.accept (Spells.isSymbol_iff _) Lexis.noConfusion) fun v d h => ?_
  · split
    · exact .andThen fun _ => by split <;> infer_instance
    · infer_instance
  cases v with
  | false =>
    obtain ⟨rfl, -⟩ := h
    exact (hcall ⟨first.span, none, first⟩ rfl).mono fun v e he => ⟨_, he.1, .inl ⟨rfl, he.2⟩⟩
  | true =>
    refine .bind_of_proceeds (fun _ => by split <;> infer_instance) Spells.ident fun v e he => ?_
    obtain ⟨i, rfl, he⟩ := he
    refine (hcall ⟨first.span.merge i.span, some first, i⟩ (he.1.trans h.1)).mono fun v f hf => ?_
    exact ⟨_, hf.1, .inr (by rw [h.2, he.2, hf.2])⟩

lemma spells_importsGoOn : (@importsGoOn n).Spells c fun v d =>
    Passes (.symbol (if v then .comma else .semicolon)) c d := by
  refine .bind_of_proceeds (fun _ => by split <;> infer_instance) Spells.peek fun t d h => ?_
  obtain ⟨rfl, rfl⟩ := h
  split
  · next ht => exact .bind (Spells.next ht Lexis.noConfusion) fun _ e he => .pure fun _ => he
  · exact .fails (.report _ _)
  · next ht => exact .bind (Spells.next ht Lexis.noConfusion) fun _ e he => .pure fun _ => he
  · exact .fails (.report _ _)

lemma importStart?_eq_entry (h : importStart? l = some (.entry name)) : l = .ident name := by
  unfold importStart? at h
  split at h
  · cases h
    rfl
  all_goals cases h

/-- The names of an import list are those of the entries that are imported. -/
lemma spells_importList : (@importList n).Spells c fun imports d => ∃ es,
    importAll es c.analysis = (imports, d.analysis) ∧ Imports.names c.kinds = names es := by
  -- what is left of the list in front of `d` has the names that are not imported yet
  refine .lift (.loop (fun imports d => ∃ es, importAll es c.analysis = (imports, d.analysis) ∧
    Imports.names c.kinds = names es ++ Imports.names d.kinds) _ (fun _ _ _ => by split <;> infer_instance)
    (fun start t imports d e hd _ ht htakes => ?_) (fun t s d e _ _ => .fails (.report _ _)) ⟨[], rfl, rfl⟩)
  obtain ⟨es, hrun, hnames⟩ := hd
  obtain ⟨rest, hrest, rfl⟩ := htakes.rest
  cases start with
  | comma => exact .fails (.report _ _)
  | entry name =>
    refine Spells.behind (by infer_instance) fun hsettled => ?_
    rw [hsettled] at hrest ⊢
    rw [kinds_of_token hrest, importStart?_eq_entry ht] at hnames
    refine .bind (spells_importEntry imports) fun imports' e he => .bind spells_importsGoOn fun v f hf => ?_
    obtain ⟨entry, hentry, hkinds⟩ := he
    have hall : importAll (es ++ [entry]) c.analysis = (imports', f.analysis) := by
      rw [importAll, List.foldlM_append, bind_run, ← importAll, hrun, hf.1, ← hentry]
      rfl
    have hnext : Imports.names (.ident name :: (d.behind t rest).kinds) =
        names [entry] ++ if v then Imports.names f.kinds else [] := by
      rcases hkinds with ⟨hfirst, hk⟩ | hk
      · rw [← hk, hf.2, names, List.map_singleton, hfirst]
        cases v <;> simp [Imports.names]
      · rw [hk, hf.2]
        cases v <;> simp [Imports.names, names]
    rw [hnext, ← List.append_assoc, names, names, ← List.map_append] at hnames
    cases v with
    | false => exact .pure fun _ => ⟨_, hall, hnames.trans (List.append_nil _)⟩
    | true => exact .pure fun _ => ⟨_, hall, hnames⟩

/-! ## Headings -/

/-- What is read of a module between its name and its declarations. -/
def moduleImports (name : Ident) : Parser n (List Import) := do
  checkIdentifier name
  beginModule name
  (do if !(← symbol .semicolon) then resync .moduleHeading)
  if ← acceptKeyword .IMPORT then importList else pure []

def headingBehind : Option Ident → Parser n (Option (Ident × List Import))
  | none => return none
  | some name => return some (name, ← moduleImports name)

/-- What is read of a module up to its declarations. -/
def heading : Parser n (Option (Ident × List Import)) := do headingBehind (← moduleHeader)

def moduleRest (start : Span) (name : Ident) (imports : List Import) : Parser n Module := do
  let block ← blockBody (statements n) (← declarations statements n)
  if !(← keyword .END) then
    resync .module
    return { name := name.name, span := name.span, imports, block }
  else
    moduleEnd name
    return { name := name.name, span := ← spanFrom start, imports, block }

/-- What is read of a module behind its heading. -/
def behindHeading (start : Span) : Option (Ident × List Import) → Parser n (Option Module)
  | none => do
    resync .module
    return none
  | some (name, imports) => return some (← moduleRest start name imports)

lemma moduleBody_eq (start name) : (moduleBody statements start name : Parser n _) =
    moduleImports name >>= moduleRest start name := by
  have hassoc {α β γ : Type} (x : Parser n α) (f : α → Parser n β) (g : β → Parser n γ) :
      x >>= f >>= g = x >>= fun v => f v >>= g := rfl
  have hite {α β : Type} (b : Bool) (x y : Parser n α) (f : α → Parser n β) :
      (if b = true then x else y) >>= f = if b = true then x >>= f else y >>= f := by
    cases b <;> rfl
  simp only [moduleBody, moduleImports, hassoc, hite]
  rfl

lemma module_eq : (module : Parser n _) = (do
    let start := (← peek).span
    behindHeading start (← heading)) := by
  have h (start : Span) (v : Option Ident) : (moduleBehind statements start v : Parser n _) =
      headingBehind v >>= behindHeading start := by
    cases v with
    | none => rfl
    | some name =>
      show (moduleBody statements start name >>= fun m => pure (some m)) = _
      rw [moduleBody_eq]
      rfl
  show (peek >>= fun t => moduleHeader >>= fun v => moduleBehind statements t.span v) = _
  simp only [h]
  rfl

/-- The tokens behind the name of a module, and the entries of its import list. -/
def Lists (ks : List Lexis) (es : List ImportEntry) : Prop :=
  (∃ later, ks = .keyword .IMPORT :: later ∧ Imports.names later = names es) ∨
  (∀ later, ks ≠ .keyword .IMPORT :: later) ∧ es = []

lemma spells_moduleImports (name) : (@moduleImports n name).Spells c fun imports d => ∃ es ks,
    (do beginModule name; importAll es : Analyze _) c.analysis = (imports, d.analysis) ∧
    c.kinds = .symbol .semicolon :: ks ∧ Lists ks es := by
  have hcheck : (@checkIdentifier n name).Spells c fun _ d => d = c := by
    unfold checkIdentifier
    split
    · exact .report _ _
    · exact .pure fun _ => rfl
  have hmark {e : Cursor} : (do if !(← symbol .semicolon) then resync .moduleHeading : Parser n Unit).Spells e
      fun _ f => Passes (.symbol .semicolon) e f :=
    .bind (Spells.expect (Spells.isSymbol_iff _) Lexis.noConfusion _) fun v f hf => by
      obtain ⟨rfl, hf⟩ := hf
      exact .pure fun _ => hf
  refine .bind hcheck fun _ d hd => ?_
  subst hd
  refine .bind (P := fun _ e => e.analysis = (beginModule name d.analysis).2 ∧ e.kinds = d.kinds)
    (fun _ _ _ => ⟨.of_eq rfl, rfl, rfl⟩) fun _ e he => .bind hmark fun _ f hf => ?_
  obtain ⟨ha, hk⟩ := hf
  have hrun (es : List ImportEntry) : (do beginModule name; importAll es : Analyze _) d.analysis =
      importAll es f.analysis := by
    rw [bind_run, ha, he.1]
  refine .bind (Spells.accept (Spells.isKeyword_iff _) Lexis.noConfusion) fun v g hg => ?_
  cases v with
  | false =>
    obtain ⟨rfl, hg⟩ := hg
    exact .pure fun _ => ⟨[], _, hrun [], he.2.symm.trans hk, .inr ⟨hg, rfl⟩⟩
  | true =>
    refine spells_importList.mono fun imports i hi => ?_
    obtain ⟨es, hes, hnames⟩ := hi
    exact ⟨es, _, (hrun es).trans (hg.1 ▸ hes), he.2.symm.trans hk, .inl ⟨_, hg.2, hnames⟩⟩

lemma spells_heading : (@heading n).Spells c fun v d => ∃ name imports es ks, v = some (name, imports) ∧
    (do beginModule name; importAll es : Analyze _) c.analysis = (imports, d.analysis) ∧
    c.kinds = .keyword .MODULE :: .ident name.name :: .symbol .semicolon :: ks ∧ Lists ks es := by
  have hheader : (@moduleHeader n).Spells c fun v d => ∃ i, v = some i ∧
      d.analysis = c.analysis ∧ c.kinds = .keyword .MODULE :: .ident i.name :: d.kinds := by
    refine .bind (Spells.expect (Spells.isKeyword_iff _) Lexis.noConfusion _) fun v d hd => ?_
    obtain ⟨rfl, ha, hk⟩ := hd
    refine Spells.ident.mono fun v e he => ?_
    obtain ⟨i, rfl, he⟩ := he
    exact ⟨i, rfl, he.1.trans ha, by rw [hk, he.2]⟩
  have hproceeds (name : Ident) : Proceeds (@moduleImports n name) :=
    .andThen fun _ => .andThen fun _ => inferInstance
  refine .bind_of_proceeds (fun v => by unfold headingBehind; split <;> infer_instance) hheader fun v d hd => ?_
  obtain ⟨name, rfl, ha, hk⟩ := hd
  refine .bind (spells_moduleImports name) fun imports e he => .pure fun _ => ?_
  obtain ⟨es, ks, hrun, hks, himports⟩ := he
  exact ⟨name, imports, es, ks, rfl, ha ▸ hrun, by rw [hk, hks], himports⟩

/-- A module is its heading and the rest. Unless a fault of the text is reported up to the end of the heading,
the names that are read off a source are those of the modules that its reader imports, in their order. -/
theorem importedNames_eq_imported (features : Features) (library : Library) (source : String)
    (h : (Cursor.ofSource source (.start features library)).rest.length < n) :
    let r := heading (Cursor.ofSource source (.start features library)) h
    (module : Parser n _) = (do
      let start := (← peek).span
      behindHeading start (← heading)) ∧
    (r.cursor.analysis.misspelt = false → ∃ name imports es, r.value = some (name, imports) ∧
      (do beginModule name; importAll es : Analyze _) (.start features library) =
        (imports, r.cursor.analysis) ∧ importedNames source = names es ∧
      (((scan source).map Imports.lexis)[3]? = some (.keyword .IMPORT) ∨ es = [])) := by
  refine ⟨module_eq, fun hr => ?_⟩
  obtain ⟨-, name, imports, es, ks, hv, hrun, hkinds, hlists⟩ :=
    spells_heading h (scan_worded source) (Bool.eq_false_iff.1 hr)
  refine ⟨name, imports, es, hv, hrun, ?_⟩
  have hscan : (scan source).map Imports.lexis = _ := hkinds
  rw [importedNames, hscan]
  rcases hlists with ⟨later, rfl, hnames⟩ | ⟨hno, rfl⟩
  · exact ⟨hnames, .inl rfl⟩
  · refine ⟨?_, .inr rfl⟩
    split
    · next heq =>
      cases heq
      exact absurd rfl (hno _)
    · rfl

/-- Entries with and without an alias, one of them twice. -/
def threeImports : String := "MODULE M; IMPORT X := A, B, B; END M."

theorem importedNames_eq_imported_aliased : ∃ name imports es,
    (heading (Cursor.ofSource threeImports (.start {} {})) (Nat.lt_succ_self _)).value = some (name, imports) ∧
    importedNames threeImports = names es ∧ names es = ["A", "B", "B"] := by
  obtain ⟨name, imports, es, hv, _, hnames, _⟩ :=
    (importedNames_eq_imported {} {} threeImports (Nat.lt_succ_self _)).2 (by decide +kernel)
  exact ⟨name, imports, es, hv, hnames, hnames ▸ by decide +kernel⟩

end Grammar
end Oberon
