import ReducedMips.Proofs.Files.Storage
import ReducedMips.Proofs.Image.Numbers
/-!
# Saving where writes may fail

Any write to a file may fail, and then changes nothing. A state is saved completely, or not at all,
or its registers are saved and its memory is not; the error tells which.
-/
namespace ReducedMips

open FileTree

namespace FileAccess

/-- A write puts the whole text at the place to which the path leads. -/
structure Writes (files : FileAccess (StateM FileTree)) (t : FileTree) (path text : String)
    (place : Place) : Prop where
  target : t.target path = .ok place
  run : (files.writeText path text).run t = (.ok (), t.put place text.toUTF8)

/-- A write is refused, and changes nothing. -/
def RefusesWrite (files : FileAccess (StateM FileTree)) (t : FileTree) (path text reason : String) :
    Prop :=
  (files.writeText path text).run t = (.error reason, t)

def AllOrNothing (files : FileAccess (StateM FileTree)) : Prop :=
  ∀ t path text,
    (∃ reason, files.RefusesWrite t path text reason) ∨ ∃ place, files.Writes t path text place

end FileAccess

namespace FileTree

variable {t t' t'' : FileTree} {places : List Place}

/-- Access to the files of a tree in which a write may also be refused, for any reason. -/
def refusing (words : AccessError → String)
    (refuse : FileTree → String → String → Option String) : FileAccess (StateM FileTree) where
  readText := (access words).readText
  writeText path text := do
    match refuse (← get) path text with
    | some reason => return .error reason
    | none => (access words).writeText path text

/-- The same directories, and the same files except at some places. -/
structure SameExcept (places : List Place) (t t' : FileTree) : Prop where
  working : t'.working = t.working
  directories : t'.directories = t.directories
  files : ∀ place ∉ places, t'.get? place = t.get? place

theorem sameExcept_put (t : FileTree) (place : Place) (content : ByteArray) :
    SameExcept [place] t (t.put place content) where
  working := rfl
  directories := rfl
  files other hother := by rw [get?_put, if_neg (List.ne_of_not_mem_cons hother)]

theorem SameExcept.trans {places' : List Place} (h : SameExcept places t t')
    (h' : SameExcept places' t' t'') : SameExcept (places ++ places') t t'' where
  working := h'.working.trans h.working
  directories := h'.directories.trans h.directories
  files place hplace := by
    rw [List.mem_append, not_or] at hplace
    rw [h'.files place hplace.2, h.files place hplace.1]

theorem allOrNothing_refusing (words : AccessError → String)
    (refuse : FileTree → String → String → Option String) :
    (refusing words refuse).AllOrNothing := by
  intro t path text
  cases hrefuse : refuse t path text with
  | some reason =>
    left
    refine ⟨reason, ?_⟩
    simp only [FileAccess.RefusesWrite, refusing, StateT.run_bind, StateT.run_get, pure_bind,
      hrefuse]
    rfl
  | none =>
    have hrun : ((refusing words refuse).writeText path text).run t =
        ((access words).writeText path text).run t := by
      simp only [refusing, StateT.run_bind, StateT.run_get, pure_bind, hrefuse]
    cases htarget : t.target path with
    | error e =>
      left
      refine ⟨words e, hrun.trans (run_writeText_error words ?_)⟩
      rw [writeText_eq, htarget]
      rfl
    | ok place =>
      right
      exact ⟨place, htarget, hrun.trans (run_writeText words (writeText_of_target htarget text))⟩

end FileTree

namespace Image

open FileAccess

variable {t : FileTree} {path : String}

theorem run_loadMemory_of_readText {cells : List Word}
    (h : t.readText path = .ok (formatWords cells)) (words : AccessError → String) :
    (loadMemory (access words) path cells.length).run t = (.ok (.ofList cells), t) := by
  rw [run_loadMemory (run_readText words t path), reads_of_readText words h]
  exact congrArg (·, t) (parseMemory_formatWords cells)

section Saves

variable {files : FileAccess (StateM FileTree)}

/-- The writes that saving a state comes to, with its answer and the files that it leaves. -/
inductive Saves (files : FileAccess (StateM FileTree)) (t : FileTree) (dir : String)
    (registers : Registers) (memory : Memory) : Except ImageError Unit × FileTree → Prop where
  | neither {reason : String}
      (refused : files.RefusesWrite t (join dir registersFile) (formatWords registers.toList)
        reason) :
      Saves files t dir registers memory
        (.error (.io (describe (join dir registersFile) reason)), t)
  | registers {place : Place} {reason : String}
      (written : files.Writes t (join dir registersFile) (formatWords registers.toList) place)
      (refused : files.RefusesWrite (t.put place (formatWords registers.toList).toUTF8)
        (join dir memoryFile) (formatWords memory.toList) reason) :
      Saves files t dir registers memory (.error (.io (describe (join dir memoryFile) reason)),
        t.put place (formatWords registers.toList).toUTF8)
  | both {place memoryPlace : Place}
      (written : files.Writes t (join dir registersFile) (formatWords registers.toList) place)
      (memoryWritten : files.Writes (t.put place (formatWords registers.toList).toUTF8)
        (join dir memoryFile) (formatWords memory.toList) memoryPlace) :
      Saves files t dir registers memory
        (.ok (), (t.put place (formatWords registers.toList).toUTF8).put memoryPlace
          (formatWords memory.toList).toUTF8)

theorem saves_saveState (hwrite : files.AllOrNothing) (t : FileTree) (dir : String)
    (registers : Registers) (memory : Memory) :
    Saves files t dir registers memory ((saveState files dir registers memory).run t) := by
  rcases hwrite t (join dir registersFile) (formatWords registers.toList) with
    ⟨reason, hr⟩ | ⟨place, hr⟩
  · rw [run_saveState_of_error hr]
    exact .neither hr
  rw [run_saveState_of_ok hr.run]
  rcases hwrite (t.put place (formatWords registers.toList).toUTF8) (join dir memoryFile)
    (formatWords memory.toList) with ⟨reason, hm⟩ | ⟨memoryPlace, hm⟩
  · rw [run_saveWords_error hm]
    exact .registers hr hm
  · rw [run_saveWords hm.run]
    exact .both hr hm

end Saves

/-- How saving a state can end, with its answer and the files that it leaves. -/
inductive SaveOutcome (files : FileAccess (StateM FileTree)) (t : FileTree) (dir : String)
    (registers : Registers) (memory : Memory) : Except ImageError Unit × FileTree → Prop where
  /-- Both files are loaded as what was saved. -/
  | saved {registersPlace memoryPlace : Place} {t' : FileTree}
      (registersTarget : t.target (join dir registersFile) = .ok registersPlace)
      (memoryTarget : t.target (join dir memoryFile) = .ok memoryPlace)
      (loadsRegisters : (loadMemory files (join dir registersFile) 32).run t' =
        (.ok (.ofList registers.toList), t'))
      (loadsMemory : (loadMemory files (join dir memoryFile) memory.capacity).run t' =
        (.ok memory, t'))
      (others : SameExcept [registersPlace, memoryPlace] t t') :
      SaveOutcome files t dir registers memory (.ok (), t')
  | registersRefused {reason : String}
      (refused : files.RefusesWrite t (join dir registersFile) (formatWords registers.toList)
        reason) :
      SaveOutcome files t dir registers memory
        (.error (.io (describe (join dir registersFile) reason)), t)
  | memoryRefused {registersPlace : Place} {t' : FileTree} {reason : String}
      (registersTarget : t.target (join dir registersFile) = .ok registersPlace)
      (dump : t'.get? registersPlace = some (formatWords registers.toList).toUTF8)
      (others : SameExcept [registersPlace] t t')
      (refused : files.RefusesWrite t' (join dir memoryFile) (formatWords memory.toList) reason) :
      SaveOutcome files t dir registers memory
        (.error (.io (describe (join dir memoryFile) reason)), t')

/-- Saving ends in one of the three ways, whichever writes fail and whatever reason is given. -/
theorem saveState_outcome (words : AccessError → String)
    (refuse : FileTree → String → String → Option String) (t : FileTree) (dir : String)
    (registers : Registers) (memory : Memory) :
    SaveOutcome (refusing words refuse) t dir registers memory
      ((saveState (refusing words refuse) dir registers memory).run t) := by
  have hsaves := saves_saveState (allOrNothing_refusing words refuse) t dir registers memory
  generalize (saveState (refusing words refuse) dir registers memory).run t = outcome at hsaves ⊢
  cases hsaves with
  | neither hr => exact .registersRefused hr
  | registers hr hm =>
    refine .memoryRefused hr.target ?_ (sameExcept_put t _ _) hm
    rw [get?_put, if_pos rfl]
  | @both place memoryPlace hr hm =>
    have hmemoryTarget := (target_put_eq_ok place).1 hm.target
    obtain ⟨hreadRegisters, hreadMemory⟩ := readText_saved hr.target hmemoryTarget
      (formatWords registers.toList) (formatWords memory.toList)
    have hloadRegisters := run_loadMemory_of_readText hreadRegisters words
    have hloadMemory := run_loadMemory_of_readText hreadMemory words
    rw [Registers.length_toList] at hloadRegisters
    exact .saved hr.target hmemoryTarget hloadRegisters hloadMemory
      ((sameExcept_put t _ _).trans (sameExcept_put _ _ _))

/-- A device that is full when the memory is to be saved. -/
example :
    let t : FileTree :=
      { working := ["home"], directories := [["home"], ["tmp"], ["tmp", "out"]], files := [] }
    let refuse := fun (_ : FileTree) path (_ : String) =>
      if path = "/tmp/out/Memory.txt" then some "No space left on device (os error 28)" else none
    ((saveState (refusing (fun _ => "") refuse) "/tmp/out" .zero (.ofList [5])).run t).1 =
      .error (.io "/tmp/out/Memory.txt: No space left on device (os error 28)") := rfl

end Image

end ReducedMips
