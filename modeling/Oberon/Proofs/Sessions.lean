import Oberon.Proofs.Searching

/-!
# Oberon.Proofs.Sessions

What is done when a source is compiled. A `Job` is a source together with the jobs of the imports that
are compiled for it; `Performs` says, rule by rule and without a bound on the depth, how jobs take a
session from one state to the next. Compiling a source performs one job, whatever the files: an import
that is pending is left alone, so no name stands twice on a way down the tree of jobs.
-/

namespace Oberon

open Session hiding library

open List

variable {text : String}
   

/-- The compilation of an import begins. -/
def Session.begin (σ : Session) (name : String) : Session := { σ with pending := name :: σ.pending }

/-- The compilation of an import ends. -/
def Session.finish (σ : Session) (name : String) : Session :=
  { σ with pending := σ.pending.erase name }

namespace Build

/-! ## Running -/

section Run

variable {f : α → Build β}

lemma run_bind_ok {a : α} (h : x σ = (.ok a, σ')) : (x >>= f) σ = f a σ' := by
  change (ExceptT.bind x f) σ = _
  simp only [ExceptT.bind, ExceptT.mk, bind, StateT.bind, h]
  rfl

lemma run_bind_error (h : x σ = (.error e, σ')) : (x >>= f) σ = (.error e, σ') := by
  change (ExceptT.bind x f) σ = _
  simp only [ExceptT.bind, ExceptT.mk, bind, StateT.bind, h]
  rfl

lemma run_get_bind {f : Session → Build β} : (get >>= f) σ = f σ σ := run_bind_ok rfl

end Run

/-! ## One source -/

/-- The module that comes out, unless there are errors. -/
def accepted? (s : Settings) (o : Outcome) : Option Module :=
  match o.module with
  | none => none
  | some m => if (o.log s.strict).hasErrors then none else some m

/-- The library for the sources to come. -/
def handOn (s : Settings) (l : Library) (o : Outcome) : Library :=
  match accepted? s o with
  | none => l
  | some m => l.insert (.ofModule o.store m)

/-- How compiling a file ends. -/
def ending (s : Settings) (file : String) (o : Outcome) : Except BuildError Compiled :=
  match o.module with
  | none => .error (.analysis file (max (o.log s.strict).errorCount 1))
  | some m =>
    if (o.log s.strict).hasErrors then .error (.analysis m.name (o.log s.strict).errorCount)
    else if s.lift then
      match Lifting.liftModule o.store m with
      | .error fault => .error (.lifting fault)
      | .ok (lifted, store) => .ok ⟨lifted, store, .ofModule o.store m, o.log s.strict⟩
    else .ok ⟨m, o.store, .ofModule o.store m, o.log s.strict⟩

lemma accepted?_eq_some (h : accepted? s o = some m) : o.module = some m ∧
    (o.log s.strict).errorCount = 0 := by
  unfold accepted? at h
  cases hm : o.module with
  | none => simp [hm] at h
  | some m' =>
    by_cases herrors : (o.log s.strict).hasErrors
    · simp [hm, herrors] at h
    · simp only [hm, herrors, Bool.false_eq_true, if_false] at h
      exact ⟨h, by simpa [Log.hasErrors] using herrors⟩

lemma conclude_run (s file o σ) :
    conclude s file o σ = (ending s file o, { σ with library := handOn s σ.library o }) := by
  unfold conclude ending handOn accepted?
  cases o.module with
  | none => rfl
  | some m =>
    by_cases herrors : (o.log s.strict).hasErrors
    · simp only [herrors, if_true]; rfl
    · simp only [herrors]
      refine (run_bind_ok (a := ()) rfl).trans ?_
      by_cases hlift : s.lift
      · simp only [hlift, if_true]
        cases Lifting.liftModule o.store m <;> rfl
      · simp only [hlift]; rfl

/-- A source and the library it is analysed against. -/
structure Work where
  file : String
  source : String
  library : Library

namespace Work

variable (s : Settings) (w : Work)

def outcome : Outcome := .ofSource s.features w.library w.source

def report : Report := ⟨w.file, w.source, (w.outcome s).log s.strict⟩

/-- The session once the source was analysed. -/
def recorded (σ : Session) : Session :=
  { σ with
    library := handOn s w.library (w.outcome s)
    reports := σ.reports ++ [w.report s] }

end Work

section Alone

lemma compileAlone_abandoned (h : (Work.outcome s ⟨file, source, σ.library⟩).analysis.abandoned) :
    compileAlone s file source σ = (.error .abandoned, σ) := by
  unfold compileAlone
  rw [run_get_bind]
  dsimp only [Work.outcome] at h ⊢
  rw [if_pos h]
  exact run_bind_error rfl

lemma compileAlone_analysed
    (h : (Work.outcome s ⟨file, source, σ.library⟩).analysis.abandoned = false) :
    compileAlone s file source σ =
    (ending s file (Work.outcome s ⟨file, source, σ.library⟩), Work.recorded s ⟨file, source,
     σ.library⟩ σ) := by
  unfold compileAlone
  rw [run_get_bind]
  dsimp only [Work.outcome] at h ⊢
  rw [if_neg (by simp [h])]
  refine (run_bind_ok (a := ()) rfl).trans ?_
  exact conclude_run s file _ _

end Alone

/-! ## Jobs -/

/-- What is done for one source: the imports that are compiled for it, and its analysis against a
library, unless it does not come to that. A job that is done for another has the name of an import. -/
inductive Job where
  | mk (name : Option String) (file source : String) (imports : List Job)
      (library : Option Library)

namespace Job

mutual

/-- The sources that are analysed, those of imports first. -/
def works : Job → List Work
  | mk _ file source imports library =>
    allWorks imports ++ (library.map fun l => ⟨file, source, l⟩).toList

def allWorks : List Job → List Work
  | [] => []
  | job :: rest => job.works ++ allWorks rest

end

/-- The names of imports on a way down from one of several jobs. -/
inductive Nests : List Job → List String → Prop
  | here (jobs : List Job) : Nests jobs []
  | inside {name path text : String} {names : List String} (hmem : mk (some name) path text imports library ∈ jobs)
      (h : Nests imports names) : Nests jobs (name :: names)

end Job

/-- What there is to be done, and how it ends: a job, or the jobs for a list of imports. -/
inductive Task where
  | job (job : Job) (result : Except BuildError Compiled)
  | imports (names : List String) (jobs : List Job) (result : Except BuildError Unit)

def Task.works : Task → List Work
  | .job j _ => j.works
  | .imports _ js _ => Job.allWorks js

/-- The jobs that are done for imports. -/
def Task.jobs : Task → List Job
  | .job (.mk _ _ _ js _) _ => js
  | .imports _ js _ => js

/-- What is searched for are names. -/
def Task.Named : Task → Prop
  | .job _ _ => True
  | .imports names _ _ => ∀ name ∈ names, IsName name

/-- A name is imported whose module is to be compiled from a file. -/
structure Wanted (s : Settings) (σ : Session) (name path : String) : Prop where
  unknown : σ.library.contains name = false
  idle : name ∉ σ.pending
  found : findModule? s name = some path

/-- How a task takes a session to the next state. The imports of a source come first, one after the
other; one that fails is the last. -/
inductive Performs (s : Settings) : Session → Task → Session → Prop
  | analysed {σ σ' : Session} {name : Option String} {file source : String} (hi : Performs s σ (.imports (importedNames source) jobs (.ok ())) σ')
      (hw : (Work.outcome s ⟨file, source, σ'.library⟩).analysis.abandoned = false) :
      Performs s σ
        (.job (.mk name file source jobs (some σ'.library))
          (ending s file (Work.outcome s ⟨file, source, σ'.library⟩)))
        (Work.recorded s ⟨file, source, σ'.library⟩ σ')
  | abandoned {σ σ' : Session} {name : Option String} {file source : String} (hi : Performs s σ (.imports (importedNames source) jobs (.ok ())) σ')
      (hw : (Work.outcome s ⟨file, source, σ'.library⟩).analysis.abandoned = true) :
      Performs s σ (.job (.mk name file source jobs none) (.error .abandoned)) σ'
  | stopped {σ σ' : Session} {name : Option String} {file source : String} (hi : Performs s σ (.imports (importedNames source) jobs (.error e)) σ') :
      Performs s σ (.job (.mk name file source jobs none) (.error e)) σ'
  | done {σ : Session} : Performs s σ (.imports [] [] (.ok ())) σ
  | skipped {σ σ' : Session} {name : String} {rest : List String} {r : Except BuildError Unit} (hn : ∀ path, ¬ Wanted s σ name path)
      (hr : Performs s σ (.imports rest jobs r) σ') :
      Performs s σ (.imports (name :: rest) jobs r) σ'
  | unreadable {σ : Session} {name path : String} {rest : List String} {fault : FileFault}
      (hn : Wanted s σ name path) (ht : s.files.read path = .error fault) :
      Performs s σ (.imports (name :: rest) [] (.error (.file fault))) ((σ.begin name).finish name)
  | failed {σ σ' : Session} {name path text : String} {rest : List String} (hn : Wanted s σ name path)
      (ht : s.files.read path = .ok text)
      (hj : Performs s (σ.begin name) (.job (.mk (some name) path text jobs library) (.error e)) σ') :
      Performs s σ (.imports (name :: rest) [.mk (some name) path text jobs library] (.error e))
        (σ'.finish name)
  | compiled {σ σ' σ'' : Session} {name path text : String} {rest : List String}
      {jobs others : List Job} {r : Except BuildError Unit} (hn : Wanted s σ name path) (ht : s.files.read path = .ok text)
      (hj : Performs s (σ.begin name) (.job (.mk (some name) path text jobs library) (.ok c)) σ')
      (hr : Performs s (σ'.finish name) (.imports rest others r) σ'') :
      Performs s σ (.imports (name :: rest) (.mk (some name) path text jobs library :: others) r) σ''

/-! ## What jobs do to a session -/

namespace Performs

variable {σ σ' : Session}

lemma pending (h : Performs s σ task σ') : σ'.pending = σ.pending := by
  induction h with
  | analysed _ _ ih | abandoned _ _ ih | stopped _ ih => exact ih
  | done => rfl
  | skipped _ _ ih => exact ih
  | unreadable _ _ => simp [begin, finish]
  | failed _ _ _ ih => simp [begin, finish, ih]
  | compiled _ _ _ _ ih ihr =>
    rw [ihr]
    simp [begin, finish, ih]

lemma pending_finish (h : Performs s (σ.begin name) task σ') : (σ'.finish name).pending =
    σ.pending := by
  simp [finish, h.pending, begin]

lemma reports (h : Performs s σ task σ') : σ'.reports =
    σ.reports ++ task.works.map (Work.report s) := by
  induction h with
  | analysed _ _ ih => simp [Work.recorded, ih, Task.works, Job.works]
  | abandoned _ _ ih | stopped _ ih => simp [ih, Task.works, Job.works]
  | done => simp [Task.works, Job.allWorks]
  | skipped _ _ ih => exact ih
  | unreadable _ _ => simp [begin, finish, Task.works, Job.allWorks]
  | failed _ _ _ ih => simp [begin, finish, ih, Task.works, Job.allWorks]
  | compiled _ _ _ _ ih ihr =>
    rw [ihr]
    simp [begin, finish, ih, Task.works, Job.allWorks]

end Performs

/-! ## The library -/

end Build

namespace Library

lemma find?_insert (l : Library) (i name) :
    (l.insert i).find? name = if i.name = name then some i else l.find? name := by
  unfold insert find?
  by_cases h : i.name = name
  · simp [h]
  · have hne (j : Interface) (hj : j.name = name) : j.name ≠ i.name := fun h' => h (h' ▸ hj)
    simp only [find?_cons, beq_eq_false_iff_ne.2 h, if_neg h, find?_filter]
    congr 1
    funext j
    by_cases hj : j.name = name <;> simp [hj, Ne.symm h]

end Library

namespace Build

/-- What becomes of a library when sources are analysed, each against the library that the one before
it leaves. -/
inductive Hands (s : Settings) : Library → List Work → Library → Prop
  | nil (l : Library) : Hands s l [] l
  | cons {w : Work} {ws : List Work} {l : Library} (h : Hands s (handOn s w.library (w.outcome s)) ws l) :
      Hands s w.library (w :: ws) l

namespace Hands

lemma append (h : Hands s l ws l') (h' : Hands s l' ws' l'') : Hands s l (ws ++ ws') l'' := by
  induction h with
  | nil l => exact h'
  | cons _ ih => exact .cons (ih h')

/-- An entry of the library that is left is one of before or comes from a source without errors. -/
lemma find? (h : Hands s l ws l') (name) : l'.find? name = l.find? name ∨ ∃ w ∈ ws, ∃ m,
    accepted? s (w.outcome s) = some m ∧ m.name = name ∧ l'.find? name =
    some (.ofModule (w.outcome s).store m) := by
  induction h with
  | nil l => exact .inl rfl
  | @cons w ws l h ih =>
    rcases ih with ih | ⟨w', hw', hm⟩
    · unfold handOn at ih
      cases ha : accepted? s (w.outcome s) with
      | none => exact .inl (by rw [ih, ha])
      | some m =>
        rw [ha] at ih
        dsimp only at ih
        rw [Library.find?_insert] at ih
        by_cases hname : m.name = name
        · exact .inr ⟨w, mem_cons_self, m, ha, hname, ih.trans (if_pos hname)⟩
        · exact .inl (ih.trans (if_neg hname))
    · exact .inr ⟨w', mem_cons_of_mem _ hw', hm⟩

lemma contains (h : Hands s l ws l') (hl : l.contains name) : l'.contains name := by
  unfold Library.contains at hl ⊢
  rcases h.find? name with heq | ⟨_, _, _, _, _, heq⟩
  · rwa [heq]
  · rw [heq]; rfl

end Hands

lemma Performs.library (h : Performs s σ task σ') : Hands s σ.library task.works σ'.library := by
  induction h with
  | analysed _ _ ih =>
    exact ih.append (.cons (w := ⟨_, _, _⟩) (.nil _))
  | abandoned _ _ ih | stopped _ ih => simpa [Task.works, Job.works] using ih
  | done => exact .nil _
  | skipped _ _ ih => exact ih
  | unreadable _ _ => exact .nil _
  | failed _ _ _ ih =>
    simp only [Task.works, Job.allWorks, append_nil]
    exact ih
  | compiled _ _ _ _ ih ihr => exact ih.append ihr

/-! ## Compiling performs a job -/

section Compiling

variable {s : Settings} {available : List String} {σ σ' : Session}

/-- Every module that has a file is pending or available. -/
def Covers (s : Settings) (available : List String) (σ : Session) : Prop :=
  ∀ name ∈ moduleNames s, name ∉ σ.pending → name ∈ available

lemma covers_candidates (s σ) : Covers s (candidates s.files) σ :=
  fun _ h _ => mem_candidates_of_mem_moduleNames h

lemma Covers.begin (h : Covers s available σ) (name) :
    Covers s (others available name) (σ.begin name) := by
  intro other hother hidle
  obtain ⟨hne, hidle⟩ := not_or.1 (mt mem_cons.2 hidle)
  exact mem_filter.2 ⟨h other hother hidle, by simpa using hne⟩

lemma Covers.finish (h : Covers s available σ) (hj : Performs s (σ.begin name) task σ') :
    Covers s available (σ'.finish name) :=
  fun other hother hidle => h other hother (hj.pending_finish ▸ hidle)

lemma Covers.wanted (h : Covers s available σ) (hn : Wanted s σ name path) (hname : IsName name) :
    name ∈ available :=
  h name ⟨hname, by simp [hn.found]⟩ hn.idle

variable {name : String}

lemma compileImports_skip (h : ∀ path, ¬ Wanted s σ name path) :
    compileImports s available compile (name :: rest) σ =
    compileImports s available compile rest σ := by
  rw [compileImports, run_get_bind]
  by_cases hknown : (σ.library.contains name || σ.pending.contains name)
  · rw [if_pos hknown]
  · rw [if_neg hknown]
    cases hfound : findModule? s name with
    | none => rfl
    | some path =>
      simp only [Bool.or_eq_true, not_or, Bool.not_eq_true] at hknown
      exact absurd ⟨hknown.1, by simpa using hknown.2, hfound⟩ (h path)

lemma compileImports_wanted (h : Wanted s σ name path) (hmem : name ∈ available) :
    compileImports s available compile (name :: rest) σ =
      (do whilePending name (compile name hmem path)
          compileImports s available compile rest) σ := by
  rw [compileImports, run_get_bind]
  have hknown : ¬ (σ.library.contains name || σ.pending.contains name) := by
    simp [h.unknown, h.idle]
  rw [if_neg hknown, h.found]
  simp only [dif_pos hmem]

/-- Compile an import. -/
def compileImport (s : Settings) (available : List String) (name path : String) : Build Unit := do
  let text ← readFile s path
  let _ ← compileWith s (others available name) path text

lemma compileWith_eq (s available file source) :
    compileWith s available file source = (do
      compileImports s available (fun name _ path => compileImport s available name path)
        (importedNames source)
      compileAlone s file source) := by
  rw [compileWith]
  rfl

lemma readFile_run (ht : s.files.read path = .ok text) : readFile s path σ = (.ok text, σ) := by
  unfold readFile
  rw [ht]
  rfl

lemma readFile_error (ht : s.files.read path = .error fault) : readFile s path σ =
    (.error (.file fault), σ) := by
  unfold readFile
  rw [ht]
  rfl

lemma compileImport_unreadable (ht : s.files.read path = .error fault) :
    compileImport s available name path σ = (.error (.file fault), σ) :=
  run_bind_error (readFile_error ht)

lemma compileImport_run (ht : s.files.read path = .ok text) :
    compileImport s available name path σ =
    ((compileWith s (others available name) path text σ).1.map fun _ => (),
     (compileWith s (others available name) path text σ).2) := by
  refine (run_bind_ok (readFile_run ht)).trans ?_
  cases h : compileWith s (others available name) path text σ with
  | mk r σ' =>
    cases r with
    | error e => exact run_bind_error h
    | ok c => exact run_bind_ok h

lemma whilePending_unreadable (ht : s.files.read path = .error fault) :
    whilePending name (compileImport s available name path) σ =
    (.error (.file fault), (σ.begin name).finish name) := by
  unfold whilePending
  rw [compileImport_unreadable ht]
  rfl

lemma whilePending_run (ht : s.files.read path = .ok text) :
    whilePending name (compileImport s available name path) σ =
    ((compileWith s (others available name) path text (σ.begin name)).1.map fun _ => (),
     (compileWith s (others available name) path text (σ.begin name)).2.finish name) := by
  unfold whilePending
  rw [← begin, compileImport_run ht]
  rfl

/-- The imports of a source, where compiling those that are available performs a job. -/
lemma compileImports_performs
    (ih : ∀ name ∈ available, ∀ σ path text,
      Covers s (others available name) σ → ∃ jobs library, Performs s σ
          (.job (.mk (some name) path text jobs library)
            (compileWith s (others available name) path text σ).1)
          (compileWith s (others available name) path text σ).2) (hnames : ∀ name ∈ names, IsName name) (hcovers : Covers s available σ) :
    let run := compileImports s available
      (fun name _ path => compileImport s available name path) names σ
    ∃ jobs, Performs s σ (.imports names jobs run.1) run.2 := by
  dsimp only
  induction names generalizing σ with
  | nil => exact ⟨[], .done⟩
  | cons name rest ihr =>
    have hrest := fun name h => hnames name (mem_cons_of_mem _ h)
    by_cases hn : ∃ path, Wanted s σ name path
    · obtain ⟨path, hn⟩ := hn
      have hmem := hcovers.wanted hn (hnames name mem_cons_self)
      rw [compileImports_wanted hn hmem]
      cases ht : s.files.read path with
      | error fault =>
        rw [run_bind_error (whilePending_unreadable ht)]
        exact ⟨_, .unreadable hn ht⟩
      | ok text =>
        obtain ⟨jobs, library, hj⟩ := ih name hmem (σ.begin name) path text (hcovers.begin name)
        have hrun := @whilePending_run _ _ available σ name _ ht
        cases h : compileWith s (others available name) path text (σ.begin name) with
        | mk r σ' =>
          rw [h] at hj hrun
          cases r with
          | error e =>
            rw [run_bind_error hrun]
            exact ⟨_, .failed hn ht hj⟩
          | ok c =>
            obtain ⟨others, hr⟩ := ihr hrest (hcovers.finish hj)
            rw [run_bind_ok hrun]
            exact ⟨_, .compiled hn ht hj hr⟩
    · rw [compileImports_skip (not_exists.1 hn)]
      obtain ⟨jobs, hr⟩ := ihr hrest hcovers
      exact ⟨jobs, .skipped (not_exists.1 hn) hr⟩

lemma compileWith_performs (hcovers : Covers s available σ) (as file source) : ∃ jobs library,
    Performs s σ (.job (.mk as file source jobs library) (compileWith s available file source σ).1)
     (compileWith s available file source σ).2 := by
  induction h : available.length using Nat.strongRecOn generalizing available σ as file source with
  | _ n ih =>
    subst h
    obtain ⟨jobs, hi⟩ := compileImports_performs
      (fun name hmem σ path text hcovers =>
        ih _ (length_others_lt hmem) hcovers (some name) path text rfl)
      (fun _ h => @isName_of_mem_importedNames source _ h) hcovers
    rw [compileWith_eq]
    cases hrun : compileImports s available
        (fun name _ path => compileImport s available name path) (importedNames source) σ with
    | mk r σ' =>
      rw [hrun] at hi
      cases r with
      | error e =>
        rw [run_bind_error hrun]
        exact ⟨jobs, none, .stopped hi⟩
      | ok u =>
        rw [run_bind_ok hrun]
        by_cases hw : (Work.outcome s ⟨file, source, σ'.library⟩).analysis.abandoned
        · rw [compileAlone_abandoned hw]
          exact ⟨jobs, none, .abandoned hi hw⟩
        · rw [Bool.not_eq_true] at hw
          rw [compileAlone_analysed hw]
          exact ⟨jobs, _, .analysed hi hw⟩

/-- What a task comes to if it is run with the modules that are available. -/
def Task.Comes (s : Settings) (available : List String) (σ σ' : Session) : Task → Prop
  | .job (.mk _ file source _ _) r => compileWith s available file source σ = (r, σ')
  | .imports names _ r =>
    compileImports s available (fun name _ path => compileImport s available name path) names σ =
      (r, σ')

/-- Tasks come to nothing else than what is performed. -/
lemma Performs.comes (h : Performs s σ task σ') (hnamed : task.Named)
    (hcovers : Covers s available σ) : task.Comes s available σ σ' := by
  have himports {source} : ∀ name ∈ importedNames source, IsName name :=
    fun _ h => isName_of_mem_importedNames h
  induction h generalizing available with
  | analysed hi hw ih =>
    rw [Task.Comes, compileWith_eq, run_bind_ok (ih himports hcovers)]
    exact compileAlone_analysed hw
  | abandoned hi hw ih =>
    rw [Task.Comes, compileWith_eq, run_bind_ok (ih himports hcovers)]
    exact compileAlone_abandoned hw
  | stopped hi ih =>
    rw [Task.Comes, compileWith_eq]
    exact run_bind_error (ih himports hcovers)
  | done => rfl
  | skipped hn hr ih =>
    rw [Task.Comes, compileImports_skip hn]
    exact ih (forall_mem_cons.1 hnamed).2 hcovers
  | unreadable hn ht =>
    rw [Task.Comes, compileImports_wanted hn (hcovers.wanted hn (hnamed _ mem_cons_self))]
    exact run_bind_error (whilePending_unreadable ht)
  | failed hn ht hj ih =>
    rw [Task.Comes, compileImports_wanted hn (hcovers.wanted hn (hnamed _ mem_cons_self))]
    exact run_bind_error ((whilePending_run ht).trans (by rw [ih trivial (hcovers.begin _)]; rfl))
  | compiled hn ht hj hr ih ihr =>
    rw [Task.Comes, compileImports_wanted hn (hcovers.wanted hn (hnamed _ mem_cons_self)),
      run_bind_ok ((whilePending_run ht).trans (by rw [ih trivial (hcovers.begin _)]; rfl))]
    exact ihr (forall_mem_cons.1 hnamed).2 (hcovers.finish hj)

end Compiling

/-! ## Calls -/

/-- A source to be compiled under a name, or a file. -/
inductive Call where
  | source (file text : String)
  | file (path : String)

namespace Call

def run (s : Settings) : Call → Build Compiled
  | .source name text => compileSource s name text
  | .file path => compileFile s path

/-- The session behind a number of calls, however they end. -/
def runAll (s : Settings) (σ : Session) : List Call → Session
  | [] => σ
  | call :: rest => runAll s (call.run s σ).2 rest

/-- The text that a call compiles under a name. -/
def Provides (s : Settings) (name text : String) : Call → Prop
  | .source given it => given = name ∧ it = text
  | .file path => path = name ∧ s.files.read path = .ok text

/-- What a call does: the job for its source, or nothing if there is none. -/
inductive Does (s : Settings) (σ : Session) (call : Call) :
    List Work → Except BuildError Compiled → Session → Prop
  | nothing {path : String} {fault : FileFault} (hc : call = .file path)
      (ht : s.files.read path = .error fault) : Does s σ call [] (.error (.file fault)) σ
  | job {file text : String} {r : Except BuildError Compiled} {σ' : Session} (hc : call.Provides s file text)
      (h : Performs s σ (.job (.mk none file text jobs library) r) σ') :
      Does s σ call (Job.works (.mk none file text jobs library)) r σ'

lemma exists_does (s σ) (call : Call) : ∃ works,
    call.Does s σ works (call.run s σ).1 (call.run s σ).2 := by
  cases call with
  | source file text =>
    obtain ⟨jobs, library, h⟩ := compileWith_performs (covers_candidates s σ) none file text
    exact ⟨_, .job ⟨rfl, rfl⟩ h⟩
  | file path =>
    cases ht : s.files.read path with
    | error fault =>
      have hrun : run s (.file path) σ = (.error (.file fault), σ) :=
        run_bind_error (readFile_error ht)
      rw [hrun]
      exact ⟨[], .nothing rfl ht⟩
    | ok text =>
      obtain ⟨jobs, library, h⟩ := compileWith_performs (covers_candidates s σ) none path text
      have hrun : run s (.file path) σ = compileSource s path text σ :=
        run_bind_ok (readFile_run ht)
      rw [hrun]
      exact ⟨_, .job ⟨rfl, ht⟩ h⟩

namespace Does

variable {call : Call}
 

section

variable (h : call.Does s σ works r σ')
include h

lemma pending : σ'.pending = σ.pending := by
  cases h with
  | nothing _ _ => rfl
  | job _ h => exact h.pending

lemma library : Hands s σ.library works σ'.library := by
  cases h with
  | nothing _ _ => exact .nil _
  | job _ h => exact h.library

lemma reports : σ'.reports = σ.reports ++ works.map (Work.report s) := by
  cases h with
  | nothing _ _ => simp
  | job _ h => exact h.reports

end

end Does
end Call

/-- After any calls, the next one leaves the pending imports as they are, loses no interface, enters one
only for a source of that name that was analysed without errors, and reports each source that it
analyses, those of imports first. -/
theorem call_keeps_session_consistent (s : Settings) (start : Session) (calls : List Call)
    (call : Call) :
    let σ := Call.runAll s start calls
    let σ' := (call.run s σ).2
    ∃ works, call.Does s σ works (call.run s σ).1 σ' ∧
      σ'.pending = σ.pending ∧
      (∀ τ job r τ', Performs s τ (.job job r) τ' → τ'.pending = τ.pending) ∧
      (∀ name, σ.library.contains name = true → σ'.library.contains name = true) ∧
      (∀ name, σ'.library.find? name ≠ σ.library.find? name →
        ∃ w ∈ works, ∃ m, (w.outcome s).module = some m ∧ m.name = name ∧
          ((w.outcome s).log s.strict).errorCount = 0 ∧
          σ'.library.find? name = some (.ofModule (w.outcome s).store m)) ∧
      σ'.reports = σ.reports ++ works.map (Work.report s) := by
  intro σ σ'
  obtain ⟨works, hdoes⟩ := call.exists_does s σ
  refine ⟨works, hdoes, hdoes.pending, fun _ _ _ _ h => h.pending, fun _ => hdoes.library.contains,
    fun name hne => ?_, hdoes.reports⟩
  rcases hdoes.library.find? name with heq | ⟨w, hw, m, hm, hname, hfind⟩
  · exact absurd heq hne
  · obtain ⟨hmodule, herrors⟩ := accepted?_eq_some hm
    exact ⟨w, hw, m, hmodule, hname, herrors, hfind⟩

/-! ## Depth -/

/-- On a way down, no name of an import stands twice, and none that was pending before. -/
structure Descends (s : Settings) (σ : Session) (names : List String) : Prop where
  nodup : names.Nodup
  named : ∀ name ∈ names, name ∈ moduleNames s
  idle : ∀ name ∈ names, name ∉ σ.pending

lemma Descends.nil : Descends s σ [] := ⟨.nil, by simp, by simp⟩

lemma Descends.cons (hn : Wanted s σ name path) (hname : IsName name)
    (h : Descends s (σ.begin name) names) : Descends s σ (name :: names) where
  nodup := nodup_cons.2 ⟨fun hmem => h.idle name hmem mem_cons_self, h.nodup⟩
  named := forall_mem_cons.2 ⟨⟨hname, by simp [hn.found]⟩, h.named⟩
  idle := forall_mem_cons.2
    ⟨hn.idle, fun other hmem hold => h.idle other hmem (mem_cons_of_mem _ hold)⟩

lemma Performs.descends (h : Performs s σ task σ') (hnamed : task.Named)
    (hnests : Job.Nests task.jobs names) : Descends s σ names := by
  have himports {source} : ∀ name ∈ importedNames source, IsName name :=
    fun _ h => isName_of_mem_importedNames h
  induction h generalizing names with
  | analysed _ _ ih | abandoned _ _ ih | stopped _ ih => exact ih himports hnests
  | done =>
    cases hnests with
    | here => exact .nil
    | inside hmem _ => cases hmem
  | skipped _ _ ih => exact ih (forall_mem_cons.1 hnamed).2 hnests
  | unreadable _ _ =>
    cases hnests with
    | here => exact .nil
    | inside hmem _ => cases hmem
  | failed hn _ _ ih =>
    cases hnests with
    | here => exact .nil
    | inside hmem h =>
      cases mem_singleton.1 hmem
      exact .cons hn (hnamed _ mem_cons_self) (ih trivial h)
  | compiled hn _ hj _ ih ihr =>
    cases hnests with
    | here => exact .nil
    | inside hmem h =>
      rcases mem_cons.1 hmem with heq | hmem
      · cases heq
        exact .cons hn (hnamed _ mem_cons_self) (ih trivial h)
      · have hd := ihr (forall_mem_cons.1 hnamed).2 (.inside hmem h)
        exact ⟨hd.nodup, hd.named, hj.pending_finish ▸ hd.idle⟩

lemma Descends.length_le (h : Descends s σ names) : names.length ≤ (moduleNames s).ncard := by
  rw [← toFinset_card_of_nodup h.nodup, ← Set.ncard_coe_finset]
  exact Set.ncard_le_ncard (fun name hmem => h.named name (by simpa using hmem))
    (finite_moduleNames s)

end Build
end Oberon
