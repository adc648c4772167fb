import ReducedMips.Proofs.Files.Tree
import ReducedMips.Storage
/-!
# Storage in a file tree

Loading reads one file of a tree and leaves the tree as it is. Saving a state leaves a tree in which
both of its files hold what was saved.
-/
namespace ReducedMips

open FileTree

variable {t t' : FileTree} {path text : String}

namespace FileTree

theorem run_bind {α β : Type} {x : StateM FileTree α} {f : α → StateM FileTree β} {a : α}
    (h : x.run t = (a, t')) : (x >>= f).run t = (f a).run t' := by
  rw [StateT.run_bind, h]
  rfl

/-- What is read from the paths of a tree, with the words of the system for a failure. -/
def reads (words : AccessError → String) (t : FileTree) (path : String) : Except String String :=
  (t.readText path).mapError words

variable (words : AccessError → String)

theorem reads_of_readText (h : t.readText path = .ok text) : t.reads words path = .ok text := by
  rw [reads, h]
  rfl

theorem run_readText (t : FileTree) (path : String) :
    ((access words).readText path).run t = (t.reads words path, t) := rfl

theorem run_writeText (h : t.writeText path text = .ok t') :
    ((access words).writeText path text).run t = (.ok (), t') := by
  simp only [access, StateT.run_bind, StateT.run_get, pure_bind, h]
  rfl

theorem run_writeText_error {e : AccessError} (h : t.writeText path text = .error e) :
    ((access words).writeText path text).run t = (.error (words e), t) := by
  simp only [access, StateT.run_bind, StateT.run_get, pure_bind, h]
  rfl

end FileTree

/-- What is loaded from a file with the given content, or that it cannot be read. -/
def FileAccess.loaded {ε α : Type} (io : String → ε) (parse : String → Except ε α)
    (path : String) : Except String String → Except ε α
  | .ok text => parse text
  | .error reason => .error (io (describe path reason))

section Load

variable {files : FileAccess (StateM FileTree)} {content : Except String String}

theorem Settings.run_load (explain : String → String)
    (h : (files.readText path).run t = (content, t)) :
    (load explain files path).run t = (FileAccess.loaded .io (parse explain) path content, t) := by
  simp only [load]
  rw [run_bind h]
  cases content <;> rfl

namespace Image

theorem run_loadProgram (h : (files.readText path).run t = (content, t)) :
    (loadProgram files path).run t = (FileAccess.loaded .io parseProgram path content, t) := by
  simp only [loadProgram]
  rw [run_bind h]
  cases content <;> rfl

theorem run_loadMemory (h : (files.readText path).run t = (content, t)) (capacity : Nat) :
    (loadMemory files path capacity).run t =
      (FileAccess.loaded .io (parseMemory · capacity) path content, t) := by
  simp only [loadMemory]
  rw [run_bind h]
  cases content <;> rfl

end Image

end Load

namespace Image

/-- A file holds the image of a memory of the given capacity. -/
def Holds (t : FileTree) (path : String) (capacity : Nat) (memory : Memory) : Prop :=
  ∃ text, t.readText path = .ok text ∧ parseMemory text capacity = .ok memory

section Save

variable {files : FileAccess (StateM FileTree)} {cells : List Word} {reason : String}

theorem run_saveWords (h : (files.writeText path (formatWords cells)).run t = (.ok (), t')) :
    (saveWords files path cells).run t = (.ok (), t') := by
  simp only [saveWords]
  rw [run_bind h]
  rfl

theorem run_saveWords_error
    (h : (files.writeText path (formatWords cells)).run t = (.error reason, t')) :
    (saveWords files path cells).run t = (.error (.io (FileAccess.describe path reason)), t') := by
  simp only [saveWords]
  rw [run_bind h]
  rfl

variable {dir : String} {registers : Registers}

theorem run_saveState_of_ok
    (h : (files.writeText (FileAccess.join dir registersFile)
      (formatWords registers.toList)).run t = (.ok (), t')) (memory : Memory) :
    (saveState files dir registers memory).run t =
      (saveWords files (FileAccess.join dir memoryFile) memory.toList).run t' := by
  simp only [saveState]
  rw [run_bind (run_saveWords h)]

theorem run_saveState_of_error
    (h : (files.writeText (FileAccess.join dir registersFile)
      (formatWords registers.toList)).run t = (.error reason, t')) (memory : Memory) :
    (saveState files dir registers memory).run t =
      (.error (.io (FileAccess.describe (FileAccess.join dir registersFile) reason)), t') := by
  simp only [saveState]
  rw [run_bind (run_saveWords_error h)]
  rfl

end Save

theorem isName_registersFile : IsName registersFile := by decide

theorem isName_memoryFile : IsName memoryFile := by decide

theorem readText_saved {dir : String} {place memoryPlace : Place}
    (hr : t.target (FileAccess.join dir registersFile) = .ok place)
    (hm : t.target (FileAccess.join dir memoryFile) = .ok memoryPlace)
    (registersText memoryText : String) :
    let t' := (t.put place registersText.toUTF8).put memoryPlace memoryText.toUTF8
    t'.readText (FileAccess.join dir registersFile) = .ok registersText ∧
      t'.readText (FileAccess.join dir memoryFile) = .ok memoryText := by
  intro t'
  have hne : place ≠ memoryPlace :=
    target_join_ne isName_registersFile isName_memoryFile (by decide) hr hm
  constructor
  · rw [readText_put_of_ne (target_put hr place) hne]
    exact readText_put hr registersText
  · exact readText_put (target_put hm place) memoryText

/-- Both files of a saved state hold it. -/
theorem run_saveState {dir : String} (hr : t.Writable (FileAccess.join dir registersFile))
    (hm : t.Writable (FileAccess.join dir memoryFile)) (words : AccessError → String)
    (registers : Registers) (memory : Memory) :
    ∃ t', (saveState (access words) dir registers memory).run t = (.ok (), t') ∧
      t'.readText (FileAccess.join dir registersFile) = .ok (formatWords registers.toList) ∧
      t'.readText (FileAccess.join dir memoryFile) = .ok (formatWords memory.toList) := by
  obtain ⟨place, hplace⟩ := writable_iff.1 hr
  obtain ⟨memoryPlace, hmemoryPlace⟩ := writable_iff.1 hm
  let t₁ := t.put place (formatWords registers.toList).toUTF8
  have htarget : t₁.target (FileAccess.join dir memoryFile) = .ok memoryPlace :=
    target_put hmemoryPlace place
  refine ⟨_, ?_, readText_saved hplace hmemoryPlace _ _⟩
  rw [run_saveState_of_ok (run_writeText words (writeText_of_target hplace _))]
  exact run_saveWords (run_writeText words (writeText_of_target htarget _))

end Image

end ReducedMips
