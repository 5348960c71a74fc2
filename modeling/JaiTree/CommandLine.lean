import JaiTree.Diagnostic.Report
import JaiTree.Parse
import JaiTree.Tree.Sexp

/-!
The command line: a file is parsed, its tree printed, and its errors reported.
-/

namespace JaiTree.CommandLine

/-- Why a file has no text. -/
inductive ReadFailure where
  /-- There is no such file. -/
  | missing
  /-- Its bytes are no UTF-8. -/
  | notText
  /-- Anything else, as the system says it. -/
  | other (message : String)
deriving Repr, DecidableEq

/-- The failure as it is reported. -/
def ReadFailure.message : ReadFailure → String
  | .missing => "No such file or directory (os error 2)"
  | .notText => "stream did not contain valid UTF-8"
  | .other message => message

/-- The text that the bytes of a file stand for. -/
def decode (bytes : ByteArray) : Except ReadFailure String :=
  match String.fromUTF8? bytes with
  | some text => .ok text
  | none => .error .notText

/-- What a run prints and how it ends. -/
structure Result where
  /-- What goes to the standard output. -/
  output : String
  /-- What goes to the standard error. -/
  complaints : String
  /-- The exit code. -/
  code : Nat
deriving Repr, DecidableEq

/-- What a run says of a tree whose text came from a path. -/
def describe (path : String) (tree : Tree) : Result :=
  let reports := tree.errors.map fun error => "-> " ++ path ++ "\n" ++ error.report tree.source
  let summary :=
    if tree.errors.isEmpty then "" else toString tree.errors.length ++ " error(s)\n"
  { output := tree.root.sexp ++ "\n"
    complaints := String.join reports ++ summary
    code := if tree.errors.isEmpty then 0 else 1 }

/-- What a run says when it cannot begin. -/
def refuse (message : String) : Result := { output := "", complaints := message ++ "\n", code := 2 }

/-- The path that the arguments name. -/
def path? : List String → Option String
  | [path] => some path
  | _ => none

/-- How the program is called. -/
def usage : Result := refuse "Usage: jai-parse <file.jai>"

/-- What a run says of what came of reading a path. -/
def onText (path : String) : Except ReadFailure String → Result
  | .ok text => describe path (parse text)
  | .error failure => refuse ("Failed to read " ++ path ++ ": " ++ failure.message)

/-- A run with some arguments, over files that are read by a function. -/
def run (files : String → Except ReadFailure String) (arguments : List String) : Result :=
  match path? arguments with
  | some path => onText path (files path)
  | none => usage

end JaiTree.CommandLine
