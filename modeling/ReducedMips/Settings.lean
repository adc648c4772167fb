import ReducedMips.Json.Parser
import ReducedMips.Json.Reader
/-!
# Settings

The settings of a run are read from a JSON text. Every field has a default, so that a text gives
only the fields that it changes, but a field that does not exist is refused. The text is read as a
whole before the settings are checked.
-/
namespace ReducedMips

structure Settings where
  /-- The number of cells that the memory image must have. -/
  memoryWords : Count
  /-- The budget of steps. -/
  maxSteps : Count
  /-- The directory that receives the final registers and memory. -/
  outDir : String
  deriving DecidableEq

inductive SettingsError where
  | io (detail : String)
  | malformed (detail : String)
  | invalid (detail : String)
  deriving DecidableEq, Repr

def SettingsError.message : SettingsError → String
  | .io detail => "I/O error: " ++ detail
  | .malformed detail => "invalid config file: " ++ detail
  | .invalid detail => "invalid config: " ++ detail

namespace Settings

def standard : Settings := { memoryWords := 32, maxSteps := 100000, outDir := "." }

/-- A field that is not given has its default. -/
def fieldOr (read : Json → Option α) (default : α) : Option Json → Option α
  | some value => read value
  | none => some default

def ofJson? (value : Json) : Option Settings := do
  match ← value.fields? ["memory_words", "max_steps", "out_dir"] .refused with
  | [memoryWords, maxSteps, outDir] =>
    return {
      memoryWords := ← fieldOr Json.count? standard.memoryWords memoryWords
      maxSteps := ← fieldOr Json.count? standard.maxSteps maxSteps
      outDir := ← fieldOr Json.text? standard.outDir outDir }
  | _ => none

/-- Refuse settings that no run could use. -/
def validate (s : Settings) : Except SettingsError Settings :=
  if s.memoryWords = 0 then .error (.invalid "memory_words must be at least 1") else .ok s

/-- The settings that a text gives. A text that the reader of JSON refuses is explained in the words
of that reader. -/
def parse (explain : String → String) (text : String) : Except SettingsError Settings :=
  match (Json.parse? text).bind ofJson? with
  | some s => s.validate
  | none => .error (.malformed (explain text))

end Settings

end ReducedMips
