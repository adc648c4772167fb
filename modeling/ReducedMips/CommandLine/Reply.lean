import ReducedMips.Machine.Log
import ReducedMips.Settings
import ReducedMips.Snapshot
import ReducedMips.Storage
/-!
# Replies

What a command answers: its exit code, what it prints, the errors and warnings it reports, and its
log. The final state of a run is reported as text or as JSON.
-/
namespace ReducedMips.CommandLine

structure Reply where
  exitCode : Nat
  stdout : String
  /-- Errors and warnings, a line each, in order. -/
  reports : List String
  log : List String
  deriving DecidableEq

/-- Why a run or a listing is refused, or could not be saved. -/
inductive Failure where
  | settings (e : SettingsError)
  | program (e : ImageError)
  | memory (e : ImageError)
  | output (e : ImageError)
  deriving DecidableEq

def Failure.message : Failure → String
  | .settings e => e.message
  | .program e => "failed to load instructions: " ++ e.message
  | .memory e => "failed to load memory: " ++ e.message
  | .output e => "failed to write state: " ++ e.message

namespace Reply

/-- The arguments make no request. -/
def usage : Reply := { exitCode := 2, stdout := "", reports := [], log := [] }

def success (stdout : String) : Reply := { exitCode := 0, stdout, reports := [], log := [] }

def failure (f : Failure) : Reply :=
  { exitCode := 1, stdout := "", reports := ["error: " ++ f.message], log := [] }

end Reply

/-- A line of the log: its level, its message and its fields. -/
def logLine (level : Level) (message : String) (fields : List (String × String)) : String :=
  level.name ++ " " ++ message ++
    String.join (fields.map fun (key, value) => " " ++ key ++ "=" ++ value)

def eventLine (e : Event) : String :=
  let pc := ("pc", toString e.pc.toNat)
  match e with
  | .trapped trap => logLine e.level e.message [("kind", trap.kind.text), pc]
  | _ => logLine e.level e.message [pc]

/-- How a run ended. -/
structure Ending where
  settings : Settings
  steps : Nat
  final : Machine

namespace Ending

def text (e : Ending) : String :=
  "Steps: " ++ toString e.steps ++ "\nState: " ++ e.final.control.state.name ++
    "\nPC:    " ++ toString e.final.control.pc.toNat ++ "\n" ++
    (match e.final.control.trap with
      | some trap => "Trap:  " ++ trap.text ++ "\n"
      | none => "") ++
    "Wrote " ++ Image.registersFile ++ " and " ++ Image.memoryFile ++ " to " ++ e.settings.outDir ++
    "\n"

def json (e : Ending) : Json :=
  .ofMembers [("steps", .integer e.steps),
    ("state", Snapshot.toJson e.final.control.state),
    ("pc", .ofWord e.final.control.pc),
    ("trap", Snapshot.toJson e.final.control.trap),
    ("registers", .array (e.final.registers.toList.map .ofSigned)),
    ("memory", .array (e.final.memory.toList.map .ofSigned))]

/-- The report of the final state. -/
def report (e : Ending) (asJson : Bool) : String :=
  if asJson then e.json.spacious ++ "\n" else e.text

/-- A run that stopped at its budget is warned of. -/
def warnings (e : Ending) : List String :=
  if e.final.isHalted then []
  else ["warning: reached max steps limit (" ++ toString e.settings.maxSteps.toNat ++
    ") without halting; use --max-steps to increase"]

end Ending

end ReducedMips.CommandLine
