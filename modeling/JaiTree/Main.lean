import JaiTree.CommandLine

/-!
The program: `jai-parse` on the file that its argument names.
-/

namespace JaiTree.CommandLine

/-- The text of the file at a path. -/
def readText (path : String) : IO (Except ReadFailure String) := do
  try
    return decode (← IO.FS.readBinFile path)
  catch
    | .noFileOrDirectory .. => return .error .missing
    | failure => return .error (.other (toString failure))

def print (result : Result) : IO UInt32 := do
  (← IO.getStdout).putStr result.output
  (← IO.getStderr).putStr result.complaints
  return UInt32.ofNat result.code

end JaiTree.CommandLine

/-- Parses the file that the only argument names. -/
def main (arguments : List String) : IO UInt32 := do
  match JaiTree.CommandLine.path? arguments with
  | none => JaiTree.CommandLine.print JaiTree.CommandLine.usage
  | some path =>
    let text ← JaiTree.CommandLine.readText path
    let begun ← IO.monoNanosNow
    let result := JaiTree.CommandLine.onText path text
    if result.code < 2 then
      IO.eprintln ("Parsed in " ++ toString ((← IO.monoNanosNow) - begun) ++ "ns")
    JaiTree.CommandLine.print result
