import ReducedMips.Proofs.CommandLine.Stages
import ReducedMips.Proofs.Json.RoundTrip
import ReducedMips.Proofs.RunLength
/-!
# The contract of a run

A run whose settings and images can be read and whose files can be written succeeds, whether or not
the program traps. The files, the report and the warning all tell of one state, which is reached by
the least number of steps at which the run may stop.
-/
namespace ReducedMips

open FileTree

variable {t : FileTree}

namespace CommandLine

namespace RunRequest

/-- The settings of a run come from its config file, if it has one, and from its options, and give
the memory at least one cell. -/
def Settles (explain : String → String) (r : RunRequest) (t : FileTree) (s : Settings) : Prop :=
  ∃ base, (match r.config with
      | some path => ∃ text, t.readText path = .ok text ∧ Settings.parse explain text = .ok base
      | none => base = .standard) ∧
    s = r.override base ∧ s.memoryWords ≠ 0

/-- A tree holds what a run needs, and takes the files that it writes. -/
structure Ready (explain : String → String) (r : RunRequest) (t : FileTree) (s : Settings)
    (p : Program) (memory : Memory) : Prop where
  settings : r.Settles explain t s
  program : ∃ text, t.readText r.program = .ok text ∧ Image.parseProgram text = .ok p
  memory : Image.Holds t r.memory s.memoryWords.toNat memory
  registersFile : t.Writable (FileAccess.join s.outDir Image.registersFile)
  memoryFile : t.Writable (FileAccess.join s.outDir Image.memoryFile)

variable {explain : String → String} {r : RunRequest} {s : Settings} {p : Program} {memory : Memory}

theorem Settles.settled (h : r.Settles explain t s) (words : AccessError → String) :
    r.Settled explain (t.reads words) s := by
  obtain ⟨base, hbase, hs, hwords⟩ := h
  have hgiven : ∃ g, r.Configures explain (t.reads words) (.ok g) ∧ g.settings = base := by
    cases hc : r.config with
    | none =>
      rw [hc] at hbase
      exact ⟨.nothing, .standard hc, hbase.symm⟩
    | some path =>
      rw [hc] at hbase
      obtain ⟨text, hread, hparse⟩ := hbase
      obtain ⟨e | g, hreads⟩ := Settings.exists_reads explain text
      · rw [Settings.parse_of_reads hreads] at hparse
        cases hparse
      · rw [Settings.parse_of_reads hreads] at hparse
        exact ⟨g, .file hc (.text (reads_of_readText words hread) hreads), Except.ok.inj hparse⟩
  obtain ⟨g, hconfig, rfl⟩ := hgiven
  exact ⟨g, hconfig, hs.trans (r.override_settings g), hwords⟩

theorem Ready.prepares (h : r.Ready explain t s p memory) (words : AccessError → String) :
    r.Prepares explain (t.reads words) s p memory := by
  obtain ⟨programText, hprogram, hp⟩ := h.program
  obtain ⟨memoryText, hmemory, hm⟩ := h.memory
  exact ⟨h.settings.settled words,
    .text (reads_of_readText words hprogram) (Image.parseProgram_eq_iff.1 hp),
    .text (reads_of_readText words hmemory) (Image.parseMemory_eq_iff.1 hm)⟩

theorem execute_eq {steps : Nat}
    (h : IsLeast (Machine.stops p s.maxSteps.toNat (.start .zero memory)) steps) :
    (r.execute s p memory).1 =
      { settings := s, steps, final := Machine.after p steps (.start .zero memory) } := by
  have hbudget : (Machine.start .zero memory).allowance s.maxSteps.toNat = s.maxSteps.toNat := by
    have hlt := s.maxSteps.isLt
    change min s.maxSteps.toNat (Count.top - 0) = _
    simp only [Count.top]
    omega
  rw [← hbudget] at h
  obtain ⟨hfinal, hsteps⟩ := Machine.runLimited_of_isLeast h
  unfold execute
  dsimp only
  rw [Machine.runLogged_eq]
  dsimp only
  rw [hsteps, hfinal]

end RunRequest

namespace Ending

/-- The lines of a report in text. -/
def lines (e : Ending) : List String :=
  ["Steps: " ++ toString e.steps, "State: " ++ e.final.control.state.name,
    "PC:    " ++ toString e.final.control.pc.toNat] ++
  (e.final.control.trap.map fun trap => "Trap:  " ++ trap.text).toList ++
  ["Wrote Registers.txt and Memory.txt to " ++ e.settings.outDir]

theorem text_eq (e : Ending) : e.text = String.join (e.lines.map (· ++ "\n")) := by
  have hstate : "\nState: " = "\n" ++ "State: " := rfl
  have hpc : "\nPC:    " = "\n" ++ "PC:    " := rfl
  have hwrote : "Wrote Registers.txt and Memory.txt to " =
      "Wrote " ++ Image.registersFile ++ " and " ++ Image.memoryFile ++ " to " := rfl
  unfold text lines
  rw [hstate, hpc, hwrote]
  cases e.final.control.trap with
  | none =>
    simp only [Option.map_none, Option.toList_none, List.append_nil, List.cons_append,
      List.nil_append, List.map_cons, List.map_nil, String.join, List.foldl_cons, List.foldl_nil,
      String.append_assoc, String.empty_append]
  | some trap =>
    simp only [Option.map_some, Option.toList_some, List.cons_append, List.nil_append,
      List.map_cons, List.map_nil, String.join, List.foldl_cons, List.foldl_nil,
      String.append_assoc, String.empty_append]

/-- The report in JSON, with given registers and memory. -/
def jsonWith (e : Ending) (registers memory : Memory) : Json :=
  .ofMembers [("steps", .integer e.steps), ("state", .ofText e.final.control.state.name),
    ("pc", .integer e.final.control.pc.toNat),
    ("trap", match e.final.control.trap with
      | some trap => .ofMembers [("kind", .ofText trap.kind.name), ("pc", .integer trap.pc.toNat)]
      | none => .null),
    ("registers", .array (registers.toList.map fun w => .integer w.toInt)),
    ("memory", .array (memory.toList.map fun w => .integer w.toInt))]

theorem json_eq (e : Ending) :
    e.json = e.jsonWith (.ofList e.final.registers.toList) e.final.memory := by
  simp only [json, jsonWith]
  cases e.final.control.trap <;> rfl

theorem plain_jsonWith (e : Ending) (registers memory : Memory) :
    (e.jsonWith registers memory).Plain := by
  have hwords (words : List Word) : (Json.array (words.map fun w => .integer w.toInt)).Plain := by
    refine .array fun v hv => ?_
    obtain ⟨w, -, rfl⟩ := List.mem_map.1 hv
    exact .integer _
  apply Json.Plain.ofMembers
  simp only [List.forall_mem_cons]
  refine ⟨.integer _, .text _, .integer _, ?_, hwords _, hwords _, nofun⟩
  cases e.final.control.trap with
  | none => exact .null
  | some trap =>
    apply Json.Plain.ofMembers
    simp only [List.forall_mem_cons]
    exact ⟨.text _, .integer _, nofun⟩

/-- The warning that a run stopped at its budget. -/
def limitWarning (e : Ending) : String :=
  "warning: reached max steps limit (" ++ toString e.settings.maxSteps.toNat ++
    ") without halting; use --max-steps to increase"

/-- A reply to a run and the tree that it leaves tell how the run ended. -/
structure Told (e : Ending) (asJson : Bool) (reply : Reply) (t' : FileTree) : Prop where
  exitCode : reply.exitCode = 0
  registersFile : t'.readText (FileAccess.join e.settings.outDir Image.registersFile) =
    .ok (Image.formatWords e.final.registers.toList)
  memoryFile : t'.readText (FileAccess.join e.settings.outDir Image.memoryFile) =
    .ok (Image.formatWords e.final.memory.toList)
  text : asJson = false → reply.stdout = String.join (e.lines.map (· ++ "\n"))
  json : asJson = true → ∃ registers memory,
    Image.Holds t' (FileAccess.join e.settings.outDir Image.registersFile) 32 registers ∧
    Image.Holds t' (FileAccess.join e.settings.outDir Image.memoryFile)
      e.settings.memoryWords.toNat memory ∧
    Json.parse? reply.stdout = some (e.jsonWith registers memory)
  reports : reply.reports = match e.final.control.state with
    | .running => [e.limitWarning]
    | .halted => []

theorem warnings_eq (e : Ending) : e.warnings = match e.final.control.state with
    | .running => [e.limitWarning]
    | .halted => [] := by
  unfold warnings Machine.isHalted Control.isHalted
  cases e.final.control.state <;> rfl

end Ending

namespace RunRequest

variable {explain : String → String} {r : RunRequest} {s : Settings} {p : Program} {memory : Memory}

theorem Ready.run_perform {steps : Nat} (h : r.Ready explain t s p memory)
    (hsteps : IsLeast (Machine.stops p s.maxSteps.toNat (.start .zero memory)) steps)
    (words : AccessError → String) :
    ∃ reply t', (r.perform explain (access words)).run t = (reply, t') ∧
      Ending.Told { settings := s, steps, final := Machine.after p steps (.start .zero memory) }
        r.json reply t' := by
  let final := Machine.after p steps (.start .zero memory)
  let ending : Ending := { settings := s, steps, final }
  have hending : (r.execute s p memory).1 = ending := execute_eq hsteps
  obtain ⟨t', hsave, hregisters, hmemory⟩ :=
    Image.run_saveState h.registersFile h.memoryFile words final.registers final.memory
  let reply : Reply := {
    exitCode := 0
    stdout := ending.report r.json
    reports := ending.warnings
    log := (r.execute s p memory).2 }
  have hperform : (r.perform explain (access words)).run t = (reply, t') := by
    rw [(h.prepares words).run_perform (FileAccess.readsAs_access words t)]
    simp only [finish]
    rw [hending, run_bind hsave]
    rfl
  refine ⟨reply, t', hperform, rfl, hregisters, hmemory, ?_, ?_, ending.warnings_eq⟩
  · intro hjson
    change ending.report r.json = _
    rw [hjson]
    exact ending.text_eq
  · intro hjson
    obtain ⟨_, -, hparse⟩ := h.memory
    have hcapacity : final.memory.toList.length = s.memoryWords.toNat := by
      rw [← Image.capacity_of_parseMemory hparse]
      exact Machine.capacity_after p steps (.start .zero memory)
    have hregisters' := Image.parseMemory_formatWords final.registers.toList
    have hmemory' := Image.parseMemory_formatWords final.memory.toList
    rw [Registers.length_toList] at hregisters'
    rw [hcapacity] at hmemory'
    refine ⟨_, _, ⟨_, hregisters, hregisters'⟩, ⟨_, hmemory, hmemory'⟩, ?_⟩
    change Json.parse? (ending.report r.json) = _
    rw [hjson]
    change Json.parse? (ending.json.spacious ++ "\n") = _
    rw [ending.json_eq]
    exact (ending.plain_jsonWith _ _).parse?_spacious

end RunRequest

/-- A run that is ready takes the least number of steps at which it may stop, succeeds, and tells of
the state that it reached. -/
theorem run_tells {explain : String → String} {r : RunRequest} {s : Settings} {p : Program}
    {memory : Memory} (hr : r.Ready explain t s p memory) (words : AccessError → String) :
    ∃ steps reply t',
      IsLeast (Machine.stops p s.maxSteps.toNat (.start .zero memory)) steps ∧
      (r.perform explain (access words)).run t = (reply, t') ∧
      Ending.Told { settings := s, steps, final := Machine.after p steps (.start .zero memory) }
        r.json reply t' := by
  obtain ⟨steps, hsteps⟩ := Machine.exists_isLeast_stops p s.maxSteps.toNat (.start .zero memory)
  obtain ⟨reply, t', hperform, htold⟩ := hr.run_perform hsteps words
  exact ⟨steps, reply, t', hsteps, hperform, htold⟩

/-- A program that halts at once, a memory of one cell, and a directory elsewhere. -/
def haltTree : FileTree :=
  { working := ["home"]
    directories := [["home"], ["tmp"], ["tmp", "out"]]
    files := [(["home", "program"], (Image.formatBytes [0xFC, 0, 0, 0]).toUTF8),
      (["memory"], (Image.formatWords [7]).toUTF8)] }

def haltRequest : RunRequest where
  program := "program"
  memory := "../memory"
  config := none
  maxSteps := some 1
  memoryWords := some 1
  outDir := some "/tmp/out"
  trace := false
  json := true

def haltSettings : Settings := { memoryWords := 1, maxSteps := 1, outDir := "/tmp/out" }

/-- A machine may halt with the last step of its budget, and its files may go anywhere. -/
theorem run_tells_halt :
    let words := fun _ => "No such file or directory (os error 2)"
    haltRequest.Ready id haltTree haltSettings (.ofList [0xFC, 0, 0, 0]) (.ofList [7]) ∧
    ∃ steps reply t',
      IsLeast (Machine.stops (.ofList [0xFC, 0, 0, 0]) 1 (.start .zero (.ofList [7]))) steps ∧
      (haltRequest.perform id (access words)).run haltTree = (reply, t') ∧
      Ending.Told
        { settings := haltSettings
          steps
          final := Machine.after (.ofList [0xFC, 0, 0, 0]) steps (.start .zero (.ofList [7])) }
        true reply t' := by
  intro words
  have hprogram : haltTree.readText "program" = .ok (Image.formatBytes [0xFC, 0, 0, 0]) :=
    readText_of_get? (show haltTree.target "program" = .ok ["home", "program"] by rfl) (by rfl)
  have hmemory : haltTree.readText "../memory" = .ok (Image.formatWords [7]) :=
    readText_of_get? (show haltTree.target "../memory" = .ok ["memory"] by rfl) (by rfl)
  have hr : haltRequest.Ready id haltTree haltSettings (.ofList [0xFC, 0, 0, 0]) (.ofList [7]) := {
    settings := ⟨.standard, rfl, rfl, by decide⟩
    program := ⟨_, hprogram, Image.parseProgram_formatBytes _⟩
    memory := ⟨_, hmemory, Image.parseMemory_formatWords [7]⟩
    registersFile := writable_iff.2 ⟨["tmp", "out", "Registers.txt"], by rfl⟩
    memoryFile := writable_iff.2 ⟨["tmp", "out", "Memory.txt"], by rfl⟩ }
  exact ⟨hr, run_tells hr words⟩

end CommandLine

end ReducedMips
