import Oberon.Build
import Oberon.Token.Listing

/-!
# Oberon.CommandLine

The command line: reading its arguments, and compiling the files it names in order. What a run
prints depends only on the arguments and on the files there are.
-/

namespace Oberon
namespace CommandLine

/-! ## Arguments -/

inductive Flag where
  | dumpTokens
  | dumpTree
  | verbose
  | strict
  | variadics
  | externals
  | noLift
deriving DecidableEq

structure Arguments where
  inputs : List String := []
  includes : List String := []
  flags : List Flag := []

inductive Request where
  | compile (arguments : Arguments)
  | version
  | help
  | misuse

def longFlag? : String → Option Flag
  | "dump-tokens" => some .dumpTokens
  | "dump-ast" => some .dumpTree
  | "verbose" => some .verbose
  | "Werror" => some .strict
  | "enable-varargs" => some .variadics
  | "enable-extern" => some .externals
  | "no-lift" => some .noLift
  | _ => none

def isOption (arg : String) : Bool := arg.startsWith "-" && arg != "-"

/-- A flag may be given once. -/
def addFlag (a : Arguments) (flag : Flag) : Option Arguments :=
  if a.flags.contains flag then none else some { a with flags := a.flags ++ [flag] }

def addInput (a : Arguments) (path : String) : Option Arguments :=
  if path.isEmpty then none else some { a with inputs := a.inputs ++ [path] }

def addInclude (a : Arguments) (path : String) : Option Arguments :=
  if path.isEmpty then none else some { a with includes := a.includes ++ [path] }

inductive Step where
  | next (arguments : Arguments)
  | wantsInclude (arguments : Arguments)
  | stop (request : Request)

def Step.ofOption : Option Arguments → Step
  | some a => .next a
  | none => .stop .misuse

/-- Letters behind a single dash. What follows `I` is its value. -/
def shortOptions (a : Arguments) : List Char → Step
  | [] => .next a
  | 'v' :: rest =>
    match addFlag a .verbose with
    | some a => shortOptions a rest
    | none => .stop .misuse
  | 'I' :: [] => .wantsInclude a
  | 'I' :: '=' :: value => .ofOption (addInclude a (String.ofList value))
  | 'I' :: value => .ofOption (addInclude a (String.ofList value))
  | 'V' :: _ => .stop .version
  | 'h' :: _ => .stop .help
  | _ => .stop .misuse

def longOption (a : Arguments) (name : String) (value : Option String) : Step :=
  match name, value with
  | "include", none => .wantsInclude a
  | "include", some value => .ofOption (addInclude a value)
  | "version", none => .stop .version
  | "help", none => .stop .help
  | name, none =>
    match longFlag? name with
    | some flag => .ofOption (addFlag a flag)
    | none => .stop .misuse
  | _, some _ => .stop .misuse

def splitValue (option : List Char) : String × Option String :=
  match option.dropWhile (· != '=') with
  | [] => (String.ofList option, none)
  | _ :: value => (String.ofList (option.takeWhile (· != '=')), some (String.ofList value))

def option (a : Arguments) (arg : String) : Step :=
  match arg.toList with
  | '-' :: '-' :: name =>
    let (name, value) := splitValue name
    longOption a name value
  | _ :: letters => shortOptions a letters
  | [] => .stop .misuse

/-- Everything behind `--` is an input. -/
def inputsOnly (a : Arguments) : List String → Request
  | [] => if a.inputs.isEmpty then .misuse else .compile a
  | arg :: rest =>
    match addInput a arg with
    | some a => inputsOnly a rest
    | none => .misuse

def parse (a : Arguments) : List String → Request
  | [] => if a.inputs.isEmpty then .misuse else .compile a
  | "--" :: rest => inputsOnly a rest
  | arg :: rest =>
    if !isOption arg then
      match addInput a arg with
      | some a => parse a rest
      | none => .misuse
    else
      match option a arg with
      | .next a => parse a rest
      | .stop request => request
      | .wantsInclude a =>
        match rest with
        | [] => .misuse
        | value :: rest =>
          if isOption value then .misuse
          else
            match addInclude a value with
            | some a => parse a rest
            | none => .misuse

def settings (a : Arguments) (files : FileTree) : Settings :=
  { features :=
      { variadics := a.flags.contains .variadics, externals := a.flags.contains .externals,
        strict := a.flags.contains .strict }
    lift := !a.flags.contains .noLift
    includes := a.includes
    files }

/-! ## Output -/

structure Result where
  exit : Nat
  stdout : String := ""
  stderr : List String := []

def version : String := "oberonc 0.1.0\n"

/-- Line and column of a byte of a text, both from 1, columns counting characters. -/
def position (byte : Nat) (line column offset : Nat) : List Char → Nat × Nat
  | [] => (line, column)
  | c :: rest =>
    if byte ≤ offset then (line, column)
    else if c == '\n' then position byte (line + 1) 1 (offset + c.utf8Size) rest
    else position byte line (column + 1) (offset + c.utf8Size) rest

def location (file source : String) (span : Span) : String :=
  let (line, column) := position span.start 1 1 0 source.toList
  "┌─ " ++ file ++ ":" ++ toString line ++ ":" ++ toString column

/-- A diagnostic and where it points to. Only warnings and errors are shown. -/
def diagnosticLines (file source : String) (d : Diagnostic Message) : List String :=
  if d.severity.rank < Severity.warning.rank then []
  else [d.severity.text ++ ": " ++ d.message.text, location file source d.span]

def reportLines (r : Report) : List String :=
  r.log.entries.toList.flatMap (diagnosticLines r.file r.source)

def tokenLines (file source : String) : List String :=
  match tokenListing source with
  | .ok text => ["=== Tokens: " ++ file ++ " ==="] ++ text.splitOn "\n" ++ ["=== End Tokens ==="]
  | .error (_, span) => ["error: Lexer error", location file source span]

def compiledLines (a : Arguments) (c : Compiled) : List String :=
  let tree := if a.flags.contains .dumpTree then
    ["=== AST: " ++ c.module.name ++ " ===", "=== End AST ==="] else []
  let summary := if a.flags.contains .verbose then
    ["Compiled module " ++ c.module.name ++ " (" ++ toString c.interface.exports.length ++
      " exported declarations)"] else []
  tree ++ summary

/-- An error with its cause, which file errors repeat. -/
def errorText : BuildError → String
  | .file fault => BuildError.text (.file fault) ++ ": " ++ fault.text
  | e => e.text

/-! ## Running -/

inductive Ending where
  | ok
  | failed
  | fatal (exit : Nat)

def runInput (a : Arguments) (files : FileTree) (session : Session) (path : String) :
    Ending × List String × Session :=
  match files.read path with
  | .error fault => (.fatal 1, ["error: cannot read " ++ path ++ ": " ++ fault.text], session)
  | .ok source =>
    let tokens := if a.flags.contains .dumpTokens then tokenLines path source else []
    let (result, session) := (Build.compileSource (settings a files) path source).run session
    let (reports, session) := Build.takeReports session
    let shown := tokens ++ reports.flatMap reportLines
    match result with
    | .ok c => (.ok, shown ++ compiledLines a c, session)
    | .error (.analysis module errors) =>
      (.failed, shown ++ ["error: " ++ (BuildError.analysis module errors).text], session)
    | .error .abandoned => (.fatal 101, tokens, session)
    | .error e =>
      (.fatal 1, shown ++ ["error: cannot compile " ++ path ++ ": " ++ errorText e], session)

/-- Compile inputs in order, up to one that cannot be read or compiled at all. -/
def runInputs (a : Arguments) (files : FileTree) (session : Session) (ok : Bool)
    (lines : List String) : List String → Result
  | [] => { exit := if ok then 0 else 1, stderr := lines }
  | path :: rest =>
    match runInput a files session path with
    | (.ok, more, session) => runInputs a files session ok (lines ++ more) rest
    | (.failed, more, session) => runInputs a files session false (lines ++ more) rest
    | (.fatal exit, more, _) => { exit, stderr := lines ++ more }

def run (files : FileTree) (args : List String) : Result :=
  match parse {} args with
  | .compile a => runInputs a files {} true [] a.inputs
  | .version => { exit := 0, stdout := version }
  | .help => { exit := 0 }
  | .misuse => { exit := 2 }

end CommandLine
end Oberon
