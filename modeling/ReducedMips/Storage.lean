import ReducedMips.Files.Access
import ReducedMips.Image
import ReducedMips.Registers
import ReducedMips.Settings
/-!
# Storage

Programs, memories and settings are loaded from files, and the final state of a machine is saved
in two: first the registers, then the memory. Saving stops at the first failure.
-/
namespace ReducedMips

variable {m : Type → Type} [Monad m]

namespace Image

def registersFile : String := "Registers.txt"

def memoryFile : String := "Memory.txt"

def loadProgram (files : FileAccess m) (path : String) : m (Except ImageError Program) := do
  match ← files.readText path with
  | .ok text => return parseProgram text
  | .error e => return .error (.io (FileAccess.describe path e))

def loadMemory (files : FileAccess m) (path : String) (capacity : Nat) :
    m (Except ImageError Memory) := do
  match ← files.readText path with
  | .ok text => return parseMemory text capacity
  | .error e => return .error (.io (FileAccess.describe path e))

/-- Write words as the image in a file. -/
def saveWords (files : FileAccess m) (path : String) (words : List Word) :
    m (Except ImageError Unit) := do
  match ← files.writeText path (formatWords words) with
  | .ok () => return .ok ()
  | .error e => return .error (.io (FileAccess.describe path e))

/-- Write the registers and the memory to their files in a directory. -/
def saveState (files : FileAccess m) (dir : String) (registers : Registers) (memory : Memory) :
    m (Except ImageError Unit) := do
  match ← saveWords files (FileAccess.join dir registersFile) registers.toList with
  | .ok () => saveWords files (FileAccess.join dir memoryFile) memory.toList
  | .error e => return .error e

end Image

def Settings.load (explain : String → String) (files : FileAccess m) (path : String) :
    m (Except SettingsError Settings) := do
  match ← files.readText path with
  | .ok text => return parse explain text
  | .error e => return .error (.io (FileAccess.describe path e))

end ReducedMips
