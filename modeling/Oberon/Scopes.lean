import Oberon.Declaration

/-!
# Oberon.Scopes

Which declaration a name denotes: the predefined names, the exports of imported modules and the
nested scopes of the module being compiled. A later entry of a scope hides an earlier one of the
same name.
-/

namespace Oberon

/-- The names of one scope, the latest first. -/
abbrev Scope := List (String × DeclId)

structure Scopes where
  predefined : Scope := []
  modules : List String := []
  /-- Exports of imported modules: module, name, declaration. -/
  exports : List ((String × String) × DeclId) := []
  aliases : List (String × String) := []
  inner : Scope := []
  /-- The scopes around it, the module's own scope last. -/
  outer : List Scope := []

namespace Scopes

instance : Inhabited Scopes := ⟨{}⟩

def moduleLevel : Nat := 1

def level (s : Scopes) : Nat := moduleLevel + s.outer.length

def addPredefined (s : Scopes) (name : String) (decl : DeclId) : Scopes :=
  { s with predefined := (name, decl) :: s.predefined }

/-- Start on a module with an empty scope. The module may be qualified by its own name. -/
def enterModule (s : Scopes) (name : String) : Scopes :=
  { s with inner := [], outer := [], aliases := (name, name) :: s.aliases }

def openScope (s : Scopes) : Scopes := { s with inner := [], outer := s.inner :: s.outer }

/-- The scope of the module itself cannot be closed. -/
def closeScope (s : Scopes) : Scopes :=
  match s.outer with
  | [] => s
  | scope :: outer => { s with inner := scope, outer }

def insert (s : Scopes) (name : String) (decl : DeclId) : Scopes :=
  { s with inner := (name, decl) :: s.inner }

def isDuplicate (s : Scopes) (name : String) : Bool := (s.inner.lookup name).isSome

def isPredefined (s : Scopes) (name : String) : Bool := (s.predefined.lookup name).isSome

def find? (name : String) : List Scope → Option DeclId
  | [] => none
  | scope :: rest =>
    match scope.lookup name with
    | some decl => some decl
    | none => find? name rest

/-- Resolve a plain name: innermost scope first, predefined names last. -/
def lookupLocal (s : Scopes) (name : String) : Option DeclId :=
  find? name (s.inner :: s.outer ++ [s.predefined])

def moduleScope (s : Scopes) : Scope := s.outer.getLast?.getD s.inner

def hasModule (s : Scopes) (name : String) : Bool := s.modules.contains name

def lookupInModule (s : Scopes) (module name : String) : Option DeclId :=
  if s.hasModule module then s.exports.lookup (module, name) else none

/-- Resolve a possibly qualified name. A qualifier that stands for no imported module means the
module being compiled. -/
def lookup (s : Scopes) (ident : QualIdent) : Option DeclId :=
  match ident.qualifier with
  | none => s.lookupLocal ident.name
  | some qualifier =>
    match s.aliases.lookup qualifier with
    | none => none
    | some module =>
      if s.hasModule module then s.lookupInModule module ident.name
      else s.moduleScope.lookup ident.name

def addModule (s : Scopes) (name : String) : Scopes :=
  if s.hasModule name then s else { s with modules := name :: s.modules }

def addExport (s : Scopes) (module name : String) (decl : DeclId) : Scopes :=
  let s := s.addModule module
  { s with exports := ((module, name), decl) :: s.exports }

def addAlias (s : Scopes) (localName module : String) : Scopes :=
  { s with aliases := (localName, module) :: s.aliases }

end Scopes
end Oberon
