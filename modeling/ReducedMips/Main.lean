import ReducedMips.CommandLine.Perform
/-!
# The program

The command line on the files of the system.
-/
namespace ReducedMips.CommandLine

def systemFiles : FileAccess IO where
  readText path := do
    try
      match String.fromUTF8? (← IO.FS.readBinFile path) with
      | some text => return .ok text
      | none => return .error "stream did not contain valid UTF-8"
    catch e => return .error (toString e)
  writeText path text := do
    try
      IO.FS.writeFile path text
      return .ok ()
    catch e => return .error (toString e)

/-- The reader of JSON does not tell why it refuses a text. -/
def explainMalformed (_ : String) : String := "the text does not give settings"

end ReducedMips.CommandLine

def main (arguments : List String) : IO UInt32 := do
  let reply ← ReducedMips.CommandLine.perform ReducedMips.CommandLine.explainMalformed
    ReducedMips.CommandLine.systemFiles arguments
  for line in reply.log ++ reply.reports do
    IO.eprintln line
  IO.print reply.stdout
  return UInt32.ofNat reply.exitCode
