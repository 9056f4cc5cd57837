import Oberon.Proofs.Parsing

/-!
# Oberon.Proofs.Skipping

What is skipped of a source. Tokens are skipped behind faulty phrases, which have been reported by
then, with one exception: behind a group of fields of a record whatever stands in front of the next
semicolon or END is skipped in any case. So a source without errors has been read token by token
unless something stands there.
-/

namespace Oberon
namespace Outcome

variable (features : Features) (library : Library) (source : String)

/-- What was skipped are tokens of the source, in their order. -/
lemma skipped_sublist :
    ((ofSource features library source).skipped.reverse.map fun s => Lexeme.token s.2).Sublist (scan
     source) := by
  have hproc := (inferInstance : Parser.Proceeds Grammar.module).proceeds
    (.ofSource source (.start features library)) (Nat.lt_succ_self _)
  obtain ⟨read, new, hread, hnew, hsub⟩ := hproc.consumes
  have hskipped : (ofSource features library source).skipped = new :=
    hnew.trans (List.append_nil new)
  have hscan : read <+: scan source := ⟨_, hread.symm⟩
  rw [hskipped]
  exact hsub.trans hscan.sublist

variable {features library source}

/-- Without errors tokens are skipped behind groups of fields only. -/
lemma skipped_fields (h : ¬ (ofSource features library source).analysis.Failed) :
    ∀ s ∈ (ofSource features library source).skipped, s.1 = .fields := by
  obtain ⟨⟨new, hnew, hfields⟩, -⟩ := Grammar.meets_module
    (c := .ofSource source (.start features library)) (Nat.lt_succ_self _) (scan_worded source) h
  have hskipped : (ofSource features library source).skipped = new :=
    hnew.trans (List.append_nil new)
  rwa [hskipped]

/-- Skipping a token is reported, exactly if it does not happen behind a group of fields of a source
without errors. -/
theorem reported_of_skipped_iff (features : Features) (library : Library) (source : String) :
    let o := ofSource features library source
    (o.skipped.reverse.map fun s => Lexeme.token s.2).Sublist (scan source) ∧
      ((o.skipped ≠ [] → o.analysis.Failed) ↔
        ∀ s ∈ o.skipped, s.1 = .fields → o.analysis.Failed) := by
  refine ⟨skipped_sublist features library source, fun h s hs _ => h (List.ne_nil_of_mem hs),
    fun h hne => ?_⟩
  by_contra hf
  obtain ⟨s, hs⟩ := List.exists_mem_of_ne_nil _ hne
  exact hf (h s hs (skipped_fields hf s hs))

/-- A record whose second group of fields is not separated from the first one. -/
def unseparatedFields : String :=
  "MODULE M; TYPE T = RECORD x: INTEGER y: INTEGER END; VAR t: T; BEGIN t.x := 1 END M."

/-- The second group is lost without a message. -/
theorem unseparatedFields_skipped : (ofSource {} {} unseparatedFields).skipped.map Prod.fst =
    [.fields, .fields, .fields] ∧ (ofSource {} {} unseparatedFields).analysis.log.entries.size =
    0 := by
  decide +kernel

end Outcome
end Oberon
