import Oberon.CommandLine

/-!
# Oberon.Main

The program: collects the files a run may ask for, runs the command line on them, and prints.
-/

namespace Oberon
namespace Main

def load (files : FileTree) (path : String) : IO FileTree := do
  try
    let content ← IO.FS.readBinFile path
    return files.insert path (.file content)
  catch
    | .noFileOrDirectory .. => return files
    | _ => return files.insert path .directory

partial def loadImports (includes : List String) (files : FileTree) (seen : List String) :
    List String → IO FileTree
  | [] => return files
  | name :: rest => do
    if seen.contains name then loadImports includes files seen rest
    else
      let mut files := files
      let mut sources : List String := []
      for directory in includes do
        for extension in Build.extensions do
          let path := FileTree.join directory (name ++ "." ++ extension)
          files ← load files path
          if let .ok text := files.read path then sources := sources ++ [text]
      loadImports includes files (name :: seen) (rest ++ sources.flatMap importedNames)

def collect (args : List String) : IO FileTree := do
  match CommandLine.parse {} args with
  | .compile a =>
    let mut files : FileTree := {}
    let mut names : List String := []
    for path in a.inputs do
      files ← load files path
      if let .ok text := files.read path then names := names ++ importedNames text
    loadImports a.includes files [] names
  | _ => return {}

end Main
end Oberon

def main (args : List String) : IO UInt32 := do
  let files ← Oberon.Main.collect args
  let result := Oberon.CommandLine.run files args
  IO.print result.stdout
  for line in result.stderr do
    IO.eprintln line
  return result.exit.toUInt32
