import Mathlib.Data.List.TakeWhile
import Mathlib.Data.Set.Card
import Oberon.Build
import Oberon.Proofs.Meets

/-!
# Oberon.Proofs.Searching

Where imported modules are found. There is no slash in a name, so the file that is found for a module
is an entry of the tree whose last part is the name with an ending. Of such names there are no more
than `candidates` lists.
-/

namespace Oberon

open List Scan

/-! ## Names -/

/-- A letter, followed by letters, digits and underscores. -/
def IsName (name : String) : Prop :=
  ∃ c cs, name.toList = c :: cs ∧ Scan.isLetter c = true ∧ ∀ x ∈ cs, Scan.isIdentChar x = true

lemma Scan.slash_not_identChar : isIdentChar '/' = false := by decide

lemma IsName.slash_notMem (h : IsName name) : '/' ∉ name.toList := by
  obtain ⟨c, cs, hname, hc, hcs⟩ := h
  rw [hname]
  intro hmem
  have hall : ∀ x ∈ c :: cs, isIdentChar x :=
    forall_mem_cons.2 ⟨by simp [isIdentChar, hc], hcs⟩
  exact absurd (hall _ hmem) (by simp [slash_not_identChar])

namespace Imports

lemma isName_of_mem_names (hls : ∀ name, .ident name ∈ ls → IsName name) : ∀ name ∈ names ls,
    IsName name := by
  fun_induction names ls with
  | case1 _ m rest ih => 
    refine forall_mem_cons.2 ⟨hls m (by simp), ih fun name h => hls name (by simp [h])⟩
  | case2 _ m _ => simpa using hls m (by simp)
  | case3 => simp
  | case4 m rest ih =>
    exact forall_mem_cons.2 ⟨hls m (by simp), ih fun name h => hls name (by simp [h])⟩
  | case5 m => simpa using hls m (by simp)
  | case6 => simp

end Imports

lemma isName_of_mem_importedNames (h : name ∈ importedNames source) : IsName name := by
  have hscan : ∀ name, .ident name ∈ (scan source).map Imports.lexis → IsName name := by
    intro name hname
    obtain ⟨l, hl, hlexis⟩ := mem_map.1 hname
    cases l with
    | token t =>
      obtain ⟨c, rest, hc, rfl⟩ := ident_of_mem_lexemes hl hlexis
      exact ⟨c, _, String.toList_ofList, hc, fun x hx => mem_takeWhile_imp hx⟩
    | fault _ _ => cases hlexis
  unfold importedNames at h
  split at h
  · rename_i rest hrest
    exact Imports.isName_of_mem_names (fun name h => hscan name (by simp [hrest, h])) name h
  · cases h

/-! ## Paths -/

namespace FileTree

lemma parts_of_slash_notMem (h : '/' ∉ cs) : parts cs = [cs] := by
  induction cs with
  | nil => rfl
  | cons c cs ih =>
    obtain ⟨hc, hcs⟩ := not_or.1 (mt mem_cons.2 h)
    have hne : (c == '/') = false := beq_eq_false_iff_ne.2 (Ne.symm hc)
    simp [parts, hne, ih hcs]

lemma parts_append (h : '/' ∉ file) (cs) : ∃ part others, parts (cs ++ '/' :: file) =
    part :: (others ++ [file]) := by
  induction cs with
  | nil => exact ⟨[], [], by simp [parts, parts_of_slash_notMem h]⟩
  | cons c cs ih =>
    obtain ⟨part, others, hparts⟩ := ih
    rw [cons_append, parts, hparts]
    split
    · exact ⟨[], part :: others, rfl⟩
    · exact ⟨c :: part, others, rfl⟩

/-- The last part of a path into a directory is the name in the directory. -/
lemma parts_join {directory name : String} (h : '/' ∉ name.toList) : ∃ before,
    parts (join directory name).toList = before ++ [name.toList] := by
  have hslash (cs) :
      ∃ before, parts (cs ++ '/' :: name.toList) = before ++ [name.toList] := by
    obtain ⟨part, others, hparts⟩ := parts_append h cs
    exact ⟨part :: others, hparts⟩
  unfold join
  split
  · rename_i hd
    cases Bool.or_eq_true_iff.1 hd with
    | inl hempty =>
      rw [String.isEmpty_iff.1 hempty]
      exact ⟨[], by simp [parts_of_slash_notMem h]⟩
    | inr hends =>
      obtain ⟨t, rfl⟩ := String.endsWith_char_iff_exists_append.1 hends
      simpa using hslash t.toList
  · simpa using hslash directory.toList

/-- A walk that ends with a proper name ends at an entry of that name. -/
lemma getLast?_walk {t : FileTree} (hname : name ∉ ["", ".", ".."])
    (before) : ∀ {here place : List String},
      t.walk here (before ++ [name]) = .ok place → place.getLast? = some name := by
  induction before with
  | nil =>
    intro here place h
    simp only [mem_cons, not_mem_nil, or_false, not_or] at hname
    obtain ⟨hempty, hhere, hup⟩ := hname
    simp only [nil_append, walk, beq_eq_false_iff_ne.2 hempty, beq_eq_false_iff_ne.2 hhere,
      beq_eq_false_iff_ne.2 hup, Bool.or_self, Bool.false_eq_true, if_false] at h
    split at h <;> cases h
    simp
  | cons part before ih =>
    intro here place h
    rw [cons_append, walk] at h
    split at h
    · cases h
    · cases h
    · split at h
      · exact ih h
      · split at h <;> exact ih h

/-- A file is an entry of the tree. -/
lemma mem_entries_of_isFile {t : FileTree} (h : t.isFile path) : ∃ place node, t.resolve path =
    .ok place ∧ (place, node) ∈ t.entries := by
  unfold isFile content at h
  cases hr : t.resolve path with
  | error e => simp [hr] at h
  | ok place =>
    cases hl : t.entries.lookup place with
    | some node =>
      obtain ⟨before, behind, hentries, -⟩ := lookup_eq_some_iff.1 hl
      exact ⟨place, node, rfl, by simp [hentries]⟩
    | none =>
      rw [hr] at h
      by_cases hd : place.isEmpty || t.entries.any fun e => place.isPrefixOf e.1
      · simp [node?, hl, hd] at h
      · simp [node?, hl, hd] at h

end FileTree

/-! ## Files of modules -/

namespace Build

open FileTree

lemma stem?_append (name ending) : stem? ending (name ++ ending) = some name := by
  have hsuffix : ending.toList.isSuffixOf (name ++ ending).toList := by simp
  have htake :
      (name ++ ending).toList.take ((name ++ ending).length - ending.length) = name.toList := by
    simp [← String.length_toList]
  rw [stem?, if_pos hsuffix, htake, String.ofList_toList]

lemma slash_notMem_of_mem_extensions :
    ∀ extension ∈ extensions, '/' ∉ ("." ++ extension).toList := by decide

/-- A name with an ending is the proper name of a file. -/
lemma file_proper (hname : IsName name) (ending) :
    name ++ ending ∉ ["", ".", ".."] := by
  obtain ⟨c, cs, hcs, hc, -⟩ := hname
  have hletter : (name ++ ending).toList.head?.any isLetter := by simp [hcs, hc]
  have hspecial : ∀ special ∈ ["", ".", ".."],
      special.toList.head?.any isLetter = false := by decide
  intro hmem
  rw [hspecial _ hmem] at hletter
  cases hletter

lemma mem_candidates {files : FileTree} (hname : IsName name)
    (he : extension ∈ extensions)
    (h : files.isFile (join directory (name ++ ("." ++ extension)))) :
    name ∈ candidates files := by
  obtain ⟨place, node, hr, hmem⟩ := mem_entries_of_isFile h
  have hslash : '/' ∉ (name ++ ("." ++ extension)).toList := by
    rw [String.toList_append]
    exact not_mem_append hname.slash_notMem (slash_notMem_of_mem_extensions _ he)
  have hlast : place.getLast? = some (name ++ ("." ++ extension)) := by
    obtain ⟨before, hbefore⟩ := @parts_join directory _ hslash
    unfold resolve split at hr
    split at hr
    · cases hr
    · simp only [hbefore, map_append, map_cons, map_nil, String.ofList_toList] at hr
      exact getLast?_walk (file_proper hname _) _ hr
  exact mem_flatMap.2 ⟨_, mem_filterMap.2 ⟨_, hmem, hlast⟩,
    mem_filterMap.2 ⟨extension, he, stem?_append _ _⟩⟩

/-- Names of modules that have a file in the include directories. -/
def moduleNames (s : Settings) : Set String := {name | IsName name ∧ (findModule? s name).isSome}

lemma mem_candidates_of_mem_moduleNames (h : name ∈ moduleNames s) : name ∈ candidates s.files := by
  obtain ⟨hname, hfile⟩ := h
  obtain ⟨path, hpath⟩ := Option.isSome_iff_exists.1 hfile
  obtain ⟨directory, -, hmem⟩ := mem_flatMap.1 (mem_of_find?_eq_some hpath)
  obtain ⟨extension, he, rfl⟩ := mem_map.1 hmem
  exact mem_candidates hname he (by simpa [String.append_assoc] using find?_some hpath)

lemma finite_moduleNames (s) : (moduleNames s).Finite :=
  (finite_toSet (candidates s.files)).subset fun _ h => mem_candidates_of_mem_moduleNames h

end Build
end Oberon
