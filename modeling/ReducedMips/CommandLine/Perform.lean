import ReducedMips.CommandLine.Arguments
import ReducedMips.CommandLine.Reply
import ReducedMips.Listing
import ReducedMips.Machine.Run
/-!
# Performing requests

A run is prepared in stages: its config file, its settings, its program and its memory. The first
stage that fails refuses the run, and only a run that is not refused writes files. How the reader of
JSON explains that it refuses a text is left to that reader.
-/
namespace ReducedMips.CommandLine

variable {m : Type → Type} [Monad m] (explain : String → String)

namespace RunRequest

/-- The settings of the config file, or the standard ones if none is named. -/
def baseSettings (files : FileAccess m) (r : RunRequest) : m (Except SettingsError Settings) :=
  match r.config with
  | some path => Settings.load explain files path
  | none => pure (.ok .standard)

/-- Settings with the options of the command line in place of their fields. -/
def override (r : RunRequest) (s : Settings) : Settings :=
  { memoryWords := r.memoryWords.getD s.memoryWords
    maxSteps := r.maxSteps.getD s.maxSteps
    outDir := r.outDir.getD s.outDir }

/-- The settings, the program and the memory of a run. -/
def prepare (files : FileAccess m) (r : RunRequest) :
    m (Except Failure (Settings × Program × Memory)) := do
  match ← r.baseSettings explain files with
  | .error e => return .error (.settings e)
  | .ok base =>
    match (r.override base).validate with
    | .error e => return .error (.settings e)
    | .ok settings =>
      match ← Image.loadProgram files r.program with
      | .error e => return .error (.program e)
      | .ok program =>
        match ← Image.loadMemory files r.memory settings.memoryWords.toNat with
        | .error e => return .error (.memory e)
        | .ok memory => return .ok (settings, program, memory)

/-- The log of a run shows warnings only, unless it is traced. -/
def shows (r : RunRequest) (level : Level) : Bool := r.trace || level = .warn

/-- How a run ends, and its log. -/
def execute (r : RunRequest) (settings : Settings) (program : Program) (memory : Memory) :
    Ending × List String :=
  let first := Machine.start .zero memory
  let (final, events) :=
    Machine.runLogged program (fun e => r.shows e.level) settings.maxSteps.toNat first
  let steps := first.stepsBetween final
  let loaded := logLine .info "loaded program"
    [("bytes", toString program.size), ("memory_words", toString memory.capacity)]
  let finished := logLine .info "run finished"
    [("steps", toString steps), ("pc", toString final.control.pc.toNat),
      ("state", final.control.state.name)]
  let log := events.map eventLine
  ({ settings, steps, final }, if r.shows .info then loaded :: log ++ [finished] else log)

def perform (files : FileAccess m) (r : RunRequest) : m Reply := do
  match ← r.prepare explain files with
  | .error e => return .failure e
  | .ok (settings, program, memory) =>
    let (ending, log) := r.execute settings program memory
    match ← Image.saveState files settings.outDir ending.final.registers ending.final.memory with
    | .ok () =>
      return { exitCode := 0, stdout := ending.report r.json, reports := ending.warnings, log }
    | .error e =>
      let failure := "error: " ++ (Failure.output e).message
      return { exitCode := 1, stdout := "", reports := ending.warnings ++ [failure], log }

end RunRequest

def versionText : String := "mips-emu 0.1.0\n"

def Request.perform (files : FileAccess m) : Request → m Reply
  | .version => pure (.success versionText)
  | .run r => r.perform explain files
  | .disassemble path => do
    match ← Image.loadProgram files path with
    | .ok program => return .success program.disassemble
    | .error e => return .failure (.program e)

/-- Perform the request that a command line makes. -/
def perform (files : FileAccess m) (arguments : List String) : m Reply :=
  match Request.parse? arguments with
  | some request => request.perform explain files
  | none => pure .usage

end ReducedMips.CommandLine
