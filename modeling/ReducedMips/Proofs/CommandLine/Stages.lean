import ReducedMips.CommandLine.Perform
import ReducedMips.Proofs.Files.Storage
import ReducedMips.Proofs.Image.Grammar
import ReducedMips.Proofs.Settings
/-!
# The stages of a run

The settings of a run are merged from its config file and its options. They are all that the later
stages depend on: loading the program, loading the memory, and saving the final state. The first
stage that fails refuses the run.
-/
namespace ReducedMips

open FileTree

namespace FileAccess

variable {ε α β : Type}

/-- Files are read by `read`, and stay as they are. -/
def ReadsAs (files : FileAccess (StateM FileTree)) (t : FileTree)
    (read : String → Except String String) : Prop :=
  ∀ path, (files.readText path).run t = (read path, t)

theorem readsAs_access (words : AccessError → String) (t : FileTree) :
    (access words).ReadsAs t (t.reads words) :=
  run_readText words t

/-- What loading a file answers, where `Reads` tells what a text is read as. -/
inductive Loads (read : String → Except String String) (io : String → ε)
    (Reads : String → Except ε α → Prop) (path : String) : Except ε α → Prop
  | text {content : String} {answer : Except ε α} (hread : read path = .ok content)
      (hreads : Reads content answer) : Loads read io Reads path answer
  | unread {reason : String} (hread : read path = .error reason) :
      Loads read io Reads path (.error (io (describe path reason)))

variable {read : String → Except String String} {io : String → ε}
  {Reads : String → Except ε α → Prop} {path : String}

theorem Loads.loaded_eq {parse : String → Except ε β} {f : Except ε α → Except ε β}
    {answer : Except ε α} (hf : ∀ e, f (.error e) = .error e)
    (hparse : ∀ text answer, Reads text answer → parse text = f answer)
    (h : Loads read io Reads path answer) : loaded io parse path (read path) = f answer := by
  cases h with
  | text hread hreads =>
    rw [hread]
    exact hparse _ _ hreads
  | unread hread =>
    rw [hread]
    exact (hf _).symm

theorem exists_loads (hreads : ∀ text, ∃ answer, Reads text answer)
    (read : String → Except String String) (io : String → ε) (path : String) :
    ∃ answer, Loads read io Reads path answer := by
  cases hread : read path with
  | error reason => exact ⟨_, .unread hread⟩
  | ok text =>
    obtain ⟨answer, hanswer⟩ := hreads text
    exact ⟨answer, .text hread hanswer⟩

end FileAccess

namespace Image

open FileAccess

variable {files : FileAccess (StateM FileTree)} {t : FileTree}
  {read : String → Except String String} {path : String}

/-- What loading a program answers. -/
def LoadsProgram (read : String → Except String String) (path : String) :
    Except ImageError Program → Prop :=
  Loads read .io (fun text => ReadsProgram (Text.tokens text.toList)) path

/-- What loading a memory of the given capacity answers. -/
def LoadsMemory (read : String → Except String String) (path : String) (capacity : Nat) :
    Except ImageError Memory → Prop :=
  Loads read .io (fun text => ReadsMemory capacity (Text.tokens text.toList)) path

theorem LoadsProgram.run_loadProgram {answer : Except ImageError Program}
    (hread : files.ReadsAs t read) (h : LoadsProgram read path answer) :
    (loadProgram files path).run t = (answer, t) := by
  have hloaded : loaded .io parseProgram path (read path) = answer :=
    Loads.loaded_eq (f := id) (fun _ => rfl) (fun _ _ => parseProgram_eq_iff.2) h
  rw [Image.run_loadProgram (hread path), hloaded]

theorem LoadsMemory.run_loadMemory {capacity : Nat} {answer : Except ImageError Memory}
    (hread : files.ReadsAs t read) (h : LoadsMemory read path capacity answer) :
    (loadMemory files path capacity).run t = (answer, t) := by
  have hloaded : loaded .io (parseMemory · capacity) path (read path) = answer :=
    Loads.loaded_eq (f := id) (fun _ => rfl) (fun _ _ => parseMemory_eq_iff.2) h
  rw [Image.run_loadMemory (hread path), hloaded]

theorem exists_loadsProgram (read : String → Except String String) (path : String) :
    ∃ answer, LoadsProgram read path answer :=
  exists_loads (fun _ => ⟨_, parseProgram_eq_iff.1 rfl⟩) read .io path

theorem exists_loadsMemory (read : String → Except String String) (path : String)
    (capacity : Nat) : ∃ answer, LoadsMemory read path capacity answer :=
  exists_loads (fun _ => ⟨_, parseMemory_eq_iff.1 rfl⟩) read .io path

end Image

namespace CommandLine

open FileAccess Image Settings

namespace RunRequest

/-- What the config file of a run gives; a run without a config file is given nothing. -/
inductive Configures (explain : String → String) (r : RunRequest)
    (read : String → Except String String) : Except SettingsError Given → Prop
  | standard (hconfig : r.config = none) : Configures explain r read (.ok .nothing)
  | file {path : String} {answer : Except SettingsError Given} (hconfig : r.config = some path)
      (hloads : Loads read .io (Reads explain) path answer) : Configures explain r read answer

/-- The settings of a run. Each is given by an option, or else by the config file, or else it has
its default. -/
def merged (r : RunRequest) (g : Given) : Settings where
  memoryWords := (r.memoryWords <|> g.memoryWords).getD standard.memoryWords
  maxSteps := (r.maxSteps <|> g.maxSteps).getD standard.maxSteps
  outDir := (r.outDir <|> g.outDir).getD standard.outDir

/-- The settings of a run that its config file and its options give. -/
def Settled (explain : String → String) (r : RunRequest) (read : String → Except String String)
    (s : Settings) : Prop :=
  ∃ g, r.Configures explain read (.ok g) ∧ s = r.merged g ∧ s.memoryWords ≠ 0

/-- What a run is refused with: the error of the first stage that fails. -/
inductive Refuses (explain : String → String) (r : RunRequest)
    (read : String → Except String String) : Failure → Prop
  | config {e : SettingsError} (hconfig : r.Configures explain read (.error e)) :
      Refuses explain r read (.settings e)
  | settings {g : Given} (hconfig : r.Configures explain read (.ok g))
      (hwords : (r.merged g).memoryWords = 0) :
      Refuses explain r read (.settings (.invalid "memory_words must be at least 1"))
  | program {s : Settings} {e : ImageError} (hsettings : r.Settled explain read s)
      (hprogram : LoadsProgram read r.program (.error e)) : Refuses explain r read (.program e)
  | memory {s : Settings} {p : Program} {e : ImageError} (hsettings : r.Settled explain read s)
      (hprogram : LoadsProgram read r.program (.ok p))
      (hmemory : LoadsMemory read r.memory s.memoryWords.toNat (.error e)) :
      Refuses explain r read (.memory e)

/-- All stages of a run succeed. -/
structure Prepares (explain : String → String) (r : RunRequest)
    (read : String → Except String String) (s : Settings) (p : Program) (memory : Memory) :
    Prop where
  settings : r.Settled explain read s
  program : LoadsProgram read r.program (.ok p)
  memory : LoadsMemory read r.memory s.memoryWords.toNat (.ok memory)

section Monad

variable {m : Type → Type} [Monad m]

/-- Run a program on a memory, save the state that it ends in, and report it. -/
def finish (files : FileAccess m) (r : RunRequest) (s : Settings) (p : Program) (memory : Memory) :
    m Reply := do
  let (ending, log) := r.execute s p memory
  match ← saveState files s.outDir ending.final.registers ending.final.memory with
  | .ok () =>
    return { exitCode := 0, stdout := ending.report r.json, reports := ending.warnings, log }
  | .error e =>
    let failure := "error: " ++ (Failure.output e).message
    return { exitCode := 1, stdout := "", reports := ending.warnings ++ [failure], log }

/-- A run with given settings. -/
def performWith (files : FileAccess m) (r : RunRequest) (s : Settings) : m Reply := do
  match ← loadProgram files r.program with
  | .error e => return .failure (.program e)
  | .ok p =>
    match ← loadMemory files r.memory s.memoryWords.toNat with
    | .error e => return .failure (.memory e)
    | .ok memory => r.finish files s p memory

/-- The stages after the settings depend on nothing but the settings. -/
theorem perform_eq [LawfulMonad m] (explain : String → String) (files : FileAccess m)
    (r : RunRequest) : r.perform explain files = (do
      match ← r.baseSettings explain files with
      | .error e => return .failure (.settings e)
      | .ok base =>
        match (r.override base).validate with
        | .error e => return .failure (.settings e)
        | .ok s => r.performWith files s) := by
  unfold perform prepare performWith
  -- at each stage both sides read the same file, and a stage that fails leaves nothing to do
  rw [bind_assoc]
  refine bind_congr fun answer => ?_
  cases answer with
  | error e => exact pure_bind ..
  | ok base =>
    dsimp only
    cases (r.override base).validate with
    | error e => exact pure_bind ..
    | ok s =>
      dsimp only
      rw [bind_assoc]
      refine bind_congr fun answer => ?_
      cases answer with
      | error e => exact pure_bind ..
      | ok p =>
        dsimp only
        rw [bind_assoc]
        refine bind_congr fun answer => ?_
        cases answer with
        | error e => exact pure_bind ..
        | ok memory => exact pure_bind ..

end Monad

variable {explain : String → String} {r : RunRequest} {read : String → Except String String}
  {s : Settings} {p : Program} {memory : Memory} {f : Failure}

theorem override_settings (r : RunRequest) (g : Given) : r.override g.settings = r.merged g := by
  simp only [override, merged, Given.settings]
  cases r.memoryWords <;> cases r.maxSteps <;> cases r.outDir <;> rfl

theorem exists_configures (explain : String → String) (r : RunRequest)
    (read : String → Except String String) : ∃ answer, r.Configures explain read answer := by
  cases hconfig : r.config with
  | none => exact ⟨_, .standard hconfig⟩
  | some path =>
    obtain ⟨answer, hloads⟩ := exists_loads (exists_reads explain) read .io path
    exact ⟨answer, .file hconfig hloads⟩

theorem refuses_or_prepares (explain : String → String) (r : RunRequest)
    (read : String → Except String String) :
    (∃ f, r.Refuses explain read f) ∨ ∃ s p memory, r.Prepares explain read s p memory := by
  obtain ⟨e | g, hconfig⟩ := r.exists_configures explain read
  · exact .inl ⟨_, .config hconfig⟩
  by_cases hwords : (r.merged g).memoryWords = 0
  · exact .inl ⟨_, .settings hconfig hwords⟩
  have hsettings : r.Settled explain read (r.merged g) := ⟨g, hconfig, rfl, hwords⟩
  obtain ⟨e | p, hprogram⟩ := exists_loadsProgram read r.program
  · exact .inl ⟨_, .program hsettings hprogram⟩
  obtain ⟨e | memory, hmemory⟩ :=
    exists_loadsMemory read r.memory (r.merged g).memoryWords.toNat
  · exact .inl ⟨_, .memory hsettings hprogram hmemory⟩
  exact .inr ⟨_, p, memory, hsettings, hprogram, hmemory⟩

section Run

variable {files : FileAccess (StateM FileTree)} {t : FileTree}

theorem Configures.run_baseSettings {answer : Except SettingsError Given}
    (hread : files.ReadsAs t read) (h : r.Configures explain read answer) :
    (r.baseSettings explain files).run t = (answer.map Given.settings, t) := by
  simp only [baseSettings]
  cases h with
  | standard hconfig =>
    rw [hconfig]
    rfl
  | @file path answer hconfig hloads =>
    have hloaded : loaded .io (Settings.parse explain) path (read path) =
        answer.map Given.settings :=
      hloads.loaded_eq (fun _ => rfl) fun _ _ => parse_of_reads
    rw [hconfig]
    dsimp only
    rw [run_load explain (hread path), hloaded]

theorem Settled.run_perform (hread : files.ReadsAs t read) (h : r.Settled explain read s) :
    (r.perform explain files).run t = (r.performWith files s).run t := by
  obtain ⟨g, hconfig, rfl, hwords⟩ := h
  have hvalid : (r.override g.settings).validate = .ok (r.merged g) := by
    rw [override_settings, validate, if_neg hwords]
  rw [perform_eq, run_bind (hconfig.run_baseSettings hread)]
  simp only [Except.map, hvalid]

/-- A run is refused with the error of the first stage that fails, and changes nothing. -/
theorem Refuses.run_perform (hread : files.ReadsAs t read) (h : r.Refuses explain read f) :
    (r.perform explain files).run t = (.failure f, t) := by
  cases h with
  | config hconfig =>
    rw [perform_eq, run_bind (hconfig.run_baseSettings hread)]
    rfl
  | @settings g hconfig hwords =>
    have hinvalid : (r.override g.settings).validate =
        .error (.invalid "memory_words must be at least 1") := by
      rw [override_settings, validate, if_pos hwords]
    rw [perform_eq, run_bind (hconfig.run_baseSettings hread)]
    simp only [Except.map, hinvalid]
    rfl
  | program hsettings hprogram =>
    rw [hsettings.run_perform hread, performWith, run_bind (hprogram.run_loadProgram hread)]
    rfl
  | memory hsettings hprogram hmemory =>
    rw [hsettings.run_perform hread, performWith, run_bind (hprogram.run_loadProgram hread)]
    dsimp only
    rw [run_bind (hmemory.run_loadMemory hread)]
    rfl

theorem Prepares.run_perform (hread : files.ReadsAs t read)
    (h : r.Prepares explain read s p memory) :
    (r.perform explain files).run t = (r.finish files s p memory).run t := by
  rw [h.settings.run_perform hread, performWith, run_bind (h.program.run_loadProgram hread)]
  dsimp only
  rw [run_bind (h.memory.run_loadMemory hread)]

end Run

end RunRequest

end CommandLine

end ReducedMips
