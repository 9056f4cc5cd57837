/-!
# Oberon.Files

A finite tree of files, with the answers a file system gives about its paths.
-/

namespace Oberon

inductive FileNode where
  | file (content : ByteArray)
  | directory

inductive FileFault where
  | missing
  | notADirectory
  | isDirectory
  | notText
deriving DecidableEq

namespace FileFault

def text : FileFault → String
  | missing => "No such file or directory (os error 2)"
  | notADirectory => "Not a directory (os error 20)"
  | isDirectory => "Is a directory (os error 21)"
  | notText => "stream did not contain valid UTF-8"

end FileFault

/-- Files by the parts of their path from the working directory. Absolute paths start with the
part `/`. -/
structure FileTree where
  entries : List (List String × FileNode) := []

namespace FileTree

def parts : List Char → List (List Char)
  | [] => [[]]
  | c :: rest =>
    if c == '/' then [] :: parts rest
    else
      match parts rest with
      | [] => [[c]]
      | part :: others => (c :: part) :: others

def split (path : String) : List String × List String :=
  (if path.startsWith '/' then ["/"] else [], (parts path.toList).map String.ofList)

/-- What is at a place. Every place above an entry is a directory. -/
def node? (t : FileTree) (place : List String) : Option FileNode :=
  match t.entries.lookup place with
  | some node => some node
  | none =>
    if place.isEmpty || t.entries.any fun e => place.isPrefixOf e.1 then some .directory else none

def parent (place : List String) : List String :=
  match place.getLast? with
  | none => [".."]
  | some ".." => place ++ [".."]
  | some "/" => place
  | some _ => place.dropLast

def walk (t : FileTree) (here : List String) : List String → Except FileFault (List String)
  | [] => .ok here
  | part :: rest =>
    match t.node? here with
    | none => .error .missing
    | some (.file _) => .error .notADirectory
    | some .directory =>
      if part == "" || part == "." then t.walk here rest
      else if part == ".." then t.walk (parent here) rest
      else t.walk (here ++ [part]) rest

def resolve (t : FileTree) (path : String) : Except FileFault (List String) :=
  if path.isEmpty then .error .missing
  else
    let (start, parts) := split path
    t.walk start parts

def content (t : FileTree) (path : String) : Except FileFault ByteArray :=
  match t.resolve path with
  | .error e => .error e
  | .ok place =>
    match t.node? place with
    | none => .error .missing
    | some .directory => .error .isDirectory
    | some (.file bytes) => .ok bytes

def read (t : FileTree) (path : String) : Except FileFault String :=
  match t.content path with
  | .error e => .error e
  | .ok bytes =>
    match String.fromUTF8? bytes with
    | some text => .ok text
    | none => .error .notText

def isFile (t : FileTree) (path : String) : Bool :=
  match t.content path with
  | .ok _ => true
  | .error _ => false

def insert (t : FileTree) (path : String) (node : FileNode) : FileTree :=
  let (start, parts) := split path
  let place := parts.foldl
    (fun here part =>
      if part == "" || part == "." then here
      else if part == ".." then parent here
      else here ++ [part]) start
  { entries := (place, node) :: t.entries }

def join (directory name : String) : String :=
  if directory.isEmpty || directory.endsWith '/' then directory ++ name
  else directory ++ "/" ++ name

end FileTree
end Oberon
