import MemberGraph.CommandLine

/-!
The program: reads the arguments and the file, prints the answer, and says by its exit code how it
went.
-/

set_option autoImplicit false

namespace MemberGraph.CommandLine

def readText? (path : String) : IO (Option String) := do
  try
    return String.fromUTF8? (← IO.FS.readBinFile path)
  catch _ =>
    return none

def outcome (arguments : List String) : IO Outcome := do
  match parse? arguments with
  | none => return usageError
  | some .version => return versionOutcome
  | some (.run input query flags) => return answer input (← readText? input) query flags

end MemberGraph.CommandLine

open MemberGraph in
def main (arguments : List String) : IO UInt32 := do
  let result ← CommandLine.outcome arguments
  IO.print result.output
  for line in result.diagnostics do
    IO.eprintln line
  return result.exitCode.toUInt32
