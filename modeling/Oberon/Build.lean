import Oberon.Files
import Oberon.Interface.Export
import Oberon.Lifting.Procedure
import Oberon.Outcome
import Oberon.Token.Imports

/-!
# Oberon.Build

Compiling modules one after another. The interface of every module without errors is kept for the
modules after it. Imports that are not known yet are searched for in the include directories and
compiled first; a module that is pending, which is to say being compiled as an import, is not searched
for again, so chains of imports end.
-/

namespace Oberon

structure Settings where
  features : Features := {}
  lift : Bool := true
  includes : List String := []
  files : FileTree := {}

def Settings.strict (s : Settings) : Bool := s.features.strict

inductive BuildError where
  | analysis (module : String) (errors : Nat)
  | lifting (fault : LiftFault)
  | file (fault : FileFault)
  | abandoned
deriving DecidableEq

namespace BuildError

def text : BuildError → String
  | analysis module errors =>
    "compilation of module " ++ module ++ " failed with " ++ toString errors ++ " error(s)"
  | lifting fault => "Internal compiler error: " ++ fault.text
  | file fault => "IO error: " ++ fault.text
  | abandoned => "analysis abandoned"

end BuildError

/-- A module that has been compiled. Its interface was taken before its procedures were lifted. -/
structure Compiled where
  module : Module
  store : Store
  interface : Interface
  log : Log Message

structure Report where
  file : String
  source : String
  log : Log Message

/-- What is kept from one module to the next: the interfaces, and a report for every source
analysed so far, those of imports first. -/
structure Session where
  library : Library := {}
  /-- Imported modules whose compilation has begun but not ended. -/
  pending : List String := []
  reports : List Report := []

abbrev Build := ExceptT BuildError (StateM Session)

namespace Build

/-! ## Searching -/

def extensions : List String := ["Mod", "mod", "ob07"]

def findModule? (s : Settings) (name : String) : Option String :=
  let candidates := s.includes.flatMap fun directory =>
    extensions.map fun extension => FileTree.join directory (name ++ "." ++ extension)
  candidates.find? s.files.isFile

def stem? (ending : String) (name : String) : Option String :=
  if ending.toList.isSuffixOf name.toList then
    some (String.ofList (name.toList.take (name.length - ending.length)))
  else none

def candidates (files : FileTree) : List String :=
  (files.entries.filterMap fun e => e.1.getLast?).flatMap fun name =>
    extensions.filterMap fun extension => stem? ("." ++ extension) name

/-! ## Compiling -/

/-- Keep the interface of a module without errors, and lift its procedures. -/
def conclude (s : Settings) (file : String) (outcome : Outcome) : Build Compiled := do
  let log := outcome.log s.strict
  match outcome.module with
  | none => throw (.analysis file (max log.errorCount 1))
  | some module =>
    if log.hasErrors then throw (.analysis module.name log.errorCount)
    else
      let interface := Interface.ofModule outcome.store module
      modify fun session => { session with library := session.library.insert interface }
      if s.lift then
        match Lifting.liftModule outcome.store module with
        | .error fault => throw (.lifting fault)
        | .ok (module, store) => return ⟨module, store, interface, log⟩
      else return ⟨module, outcome.store, interface, log⟩

def compileAlone (s : Settings) (file source : String) : Build Compiled := do
  let outcome := Outcome.ofSource s.features (← get).library source
  if outcome.analysis.abandoned then throw .abandoned
  modify fun session =>
    { session with reports := session.reports ++ [⟨file, source, outcome.log s.strict⟩] }
  conclude s file outcome

def readFile (s : Settings) (path : String) : Build String :=
  match s.files.read path with
  | .ok text => return text
  | .error fault => throw (.file fault)

/-- An imported module is pending while it is compiled, however that ends. -/
def whilePending (name : String) (compile : Build Unit) : Build Unit := fun session =>
  let (result, session) := compile { session with pending := name :: session.pending }
  (result, { session with pending := session.pending.erase name })

/-- Compile those imports that are neither known nor pending and can be found. A file is found for
nothing but names that are `available`. -/
def compileImports (s : Settings) (available : List String)
    (compile : (name : String) → name ∈ available → (path : String) → Build Unit) :
    List String → Build Unit
  | [] => pure ()
  | name :: rest => do
    let session ← get
    if session.library.contains name || session.pending.contains name then
      compileImports s available compile rest
    else
      match findModule? s name with
      | none => compileImports s available compile rest
      | some path =>
        if h : name ∈ available then
          whilePending name (compile name h path)
          compileImports s available compile rest
        else compileImports s available compile rest

def others (available : List String) (name : String) : List String :=
  available.filter fun other => other != name

theorem length_others_lt {name : String} {available : List String} (h : name ∈ available) :
    (others available name).length < available.length := by
  unfold others
  induction available with
  | nil => cases h
  | cons x xs ih =>
    by_cases hx : x = name
    · subst hx
      simp only [bne_self_eq_false, Bool.false_eq_true, not_false_eq_true, List.filter_cons_of_neg,
        List.length_cons]
      exact Nat.lt_succ_of_le (List.length_filter_le _ _)
    · have hm : name ∈ xs := by
        cases h with
        | head => exact absurd rfl hx
        | tail _ h => exact h
      have hb : (x != name) = true := by simpa using hx
      simp only [List.filter_cons, hb, if_true, List.length_cons]
      exact Nat.succ_lt_succ (ih hm)

/-- Compile a source after the modules it imports. An import is not available to the imports of its
own. -/
def compileWith (s : Settings) (available : List String) (file source : String) :
    Build Compiled := do
  compileImports s available
    (fun name _ path => do
      let text ← readFile s path
      let _ ← compileWith s (others available name) path text)
    (importedNames source)
  compileAlone s file source
termination_by available.length
decreasing_by exact length_others_lt (by assumption)

def compileSource (s : Settings) (file source : String) : Build Compiled :=
  compileWith s (candidates s.files) file source

def compileFile (s : Settings) (path : String) : Build Compiled := do
  let text ← readFile s path
  compileSource s path text

def takeReports (session : Session) : List Report × Session :=
  (session.reports, { session with reports := [] })

end Build
end Oberon
