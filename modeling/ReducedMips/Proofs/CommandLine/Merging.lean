import ReducedMips.Proofs.CommandLine.Stages
import ReducedMips.Proofs.Json.RoundTrip
/-!
# Merged settings

A run works with the settings that its options give, then its config file, then the defaults. The
config file is checked before the options take the place of what it gives, so that a size of zero
in the file refuses the run even where an option gives another size.
-/
namespace ReducedMips

open FileTree

namespace CommandLine

open FileAccess Image Settings

namespace Reply

/-- The settings are refused as invalid. -/
def InvalidSettings (reply : Reply) : Prop :=
  ∃ detail, reply = .failure (.settings (.invalid detail))

/-- The command succeeds, or it reports at last a failure that is not one of the settings. -/
def AcceptsSettings (reply : Reply) : Prop :=
  reply.exitCode = 0 ∨
    ∃ f : Failure, (∀ e, f ≠ .settings e) ∧ reply.reports.getLast? = some ("error: " ++ f.message)

theorem acceptsSettings_failure {f : Failure} (hf : ∀ e, f ≠ .settings e) :
    (failure f).AcceptsSettings :=
  .inr ⟨f, hf, rfl⟩

end Reply

private theorem head?_append {front : String} {c : Char} (h : front.toList.head? = some c)
    (back : String) : (front ++ back).toList.head? = some c := by
  rw [String.toList_append, List.head?_append, h]
  rfl

/-- A failure after the settings is told in other words than one of the settings. -/
theorem Failure.message_ne_invalid {f : Failure} (hf : ∀ e, f ≠ .settings e) (detail : String) :
    f.message ≠ (SettingsError.invalid detail).message := by
  have hinvalid : (SettingsError.invalid detail).message.toList.head? = some 'i' :=
    head?_append (by decide) detail
  have hfailed : f.message.toList.head? = some 'f' := by
    cases f with
    | settings e => exact absurd rfl (hf e)
    | program e => exact head?_append (by decide) e.message
    | memory e => exact head?_append (by decide) e.message
    | output e => exact head?_append (by decide) e.message
  intro h
  rw [h, hinvalid] at hfailed
  exact absurd hfailed (by decide)

theorem Reply.AcceptsSettings.not_invalidSettings {reply : Reply} (h : reply.AcceptsSettings) :
    ¬ reply.InvalidSettings := by
  rintro ⟨detail, rfl⟩
  obtain hexit | ⟨f, hf, hlast⟩ := h
  · cases hexit
  · have hreport := Option.some.inj hlast
    exact Failure.message_ne_invalid hf detail ((String.append_right_inj _).1 hreport).symm

namespace RunRequest

variable {explain : String → String} {r : RunRequest} {g : Given}
  {read : String → Except String String} {files : FileAccess (StateM FileTree)} {t : FileTree}

/-- A config file that can be read and gives some of the settings, or no config file, which gives
nothing. -/
inductive IsGiven (r : RunRequest) (read : String → Except String String) : Given → Prop
  | standard (hconfig : r.config = none) : IsGiven r read .nothing
  | file {path text : String} {value : Json} {g : Given} (hconfig : r.config = some path)
      (hread : read path = .ok text) (hparse : Json.parse? text = some value)
      (hgives : Gives value g) : IsGiven r read g

theorem IsGiven.configures (h : r.IsGiven read g) (hwords : g.memoryWords ≠ some 0) :
    r.Configures explain read (.ok g) := by
  cases h with
  | standard hconfig => exact .standard hconfig
  | file hconfig hread hparse hgives =>
    exact .file hconfig (.text hread (.ok hparse hgives hwords))

/-- The file alone decides that a size of zero is refused. -/
theorem IsGiven.configures_invalid (h : r.IsGiven read g) (hwords : g.memoryWords = some 0) :
    r.Configures explain read (.error (.invalid "memory_words must be at least 1")) := by
  cases h with
  | standard hconfig => cases hwords
  | file hconfig hread hparse hgives =>
    exact .file hconfig (.text hread (.invalid hparse hgives hwords))

theorem acceptsSettings_finish (files : FileAccess (StateM FileTree)) (t : FileTree)
    (r : RunRequest) (s : Settings) (p : Program) (memory : Memory) :
    ((r.finish files s p memory).run t).1.AcceptsSettings := by
  let e := (r.execute s p memory).1
  simp only [finish]
  rcases hsave : (saveState files s.outDir e.final.registers e.final.memory).run t with
    ⟨_ | _, t'⟩
  · rw [run_bind hsave]
    exact .inr ⟨.output _, by simp, List.getLast?_concat⟩
  · rw [run_bind hsave]
    exact .inl rfl

theorem acceptsSettings_performWith (files : FileAccess (StateM FileTree)) (t : FileTree)
    (r : RunRequest) (s : Settings) : ((r.performWith files s).run t).1.AcceptsSettings := by
  rw [performWith]
  rcases hprogram : (loadProgram files r.program).run t with ⟨_ | p, t₁⟩
  · rw [run_bind hprogram]
    exact Reply.acceptsSettings_failure (by simp)
  rw [run_bind hprogram]
  dsimp only
  rcases hmemory : (loadMemory files r.memory s.memoryWords.toNat).run t₁ with ⟨_ | memory, t₂⟩
  · rw [run_bind hmemory]
    exact Reply.acceptsSettings_failure (by simp)
  rw [run_bind hmemory]
  exact acceptsSettings_finish files t₂ r s p memory

end RunRequest

variable {r : RunRequest} {g : Given} {read : String → Except String String}
  {files : FileAccess (StateM FileTree)} {t : FileTree}

/-- A run is refused for its settings if and only if the size of the memory is zero, in the file or
after the options have replaced what the file gives. Otherwise it is the run with the merged
settings. -/
theorem run_with_merged (explain : String → String) (hread : files.ReadsAs t read)
    (hg : r.IsGiven read g) :
    (((r.perform explain files).run t).1.InvalidSettings ↔
      g.memoryWords = some 0 ∨ (r.merged g).memoryWords = 0) ∧
    (¬ ((r.perform explain files).run t).1.InvalidSettings →
      (r.perform explain files).run t = (r.performWith files (r.merged g)).run t) := by
  have hrefused
      (h : r.Refuses explain read (.settings (.invalid "memory_words must be at least 1"))) :
      ((r.perform explain files).run t).1.InvalidSettings := by
    rw [h.run_perform hread]
    exact ⟨_, rfl⟩
  -- a zero in the file is found before the options are looked at
  by_cases hzero : g.memoryWords = some 0
  · have hinvalid := hrefused (.config (hg.configures_invalid hzero))
    exact ⟨⟨fun _ => .inl hzero, fun _ => hinvalid⟩, (absurd hinvalid ·)⟩
  have hconfig : r.Configures explain read (.ok g) := hg.configures hzero
  by_cases hwords : (r.merged g).memoryWords = 0
  · have hinvalid := hrefused (.settings hconfig hwords)
    exact ⟨⟨fun _ => .inr hwords, fun _ => hinvalid⟩, (absurd hinvalid ·)⟩
  have hsettled : r.Settled explain read (r.merged g) := ⟨g, hconfig, rfl, hwords⟩
  rw [hsettled.run_perform hread]
  have hvalid := (r.acceptsSettings_performWith files t (r.merged g)).not_invalidSettings
  refine ⟨⟨fun h => absurd h hvalid, ?_⟩, fun _ => rfl⟩
  rintro (h | h)
  · exact absurd h hzero
  · exact absurd h hwords

/-- A tree with a config file alone, in the working directory. -/
def configTree (config : Json) : FileTree :=
  { working := ["home"]
    directories := [["home"]]
    files := [(["home", "config"], config.compact.toUTF8)] }

/-- A run whose options name the config file and a size of one cell. -/
def oneCell : RunRequest where
  program := "program"
  memory := "memory"
  config := some "config"
  maxSteps := none
  memoryWords := some 1
  outDir := none
  trace := false
  json := false

theorem isGiven_oneCell (words : AccessError → String) {members : List (String × Json)} {g : Given}
    (hplain : ∀ m ∈ members, m.2.Plain) (hgives : Gives (.ofMembers members) g) :
    oneCell.IsGiven ((configTree (.ofMembers members)).reads words) g := by
  have htarget : (configTree (.ofMembers members)).target "config" = .ok ["home", "config"] := rfl
  exact .file rfl (reads_of_readText words (readText_of_get? htarget rfl))
    (Json.Plain.ofMembers hplain).parse?_compact hgives

/-- The option replaces the size in the file, and the file the default budget. -/
theorem run_with_merged_oneCell :
    let t := configTree (.ofMembers [("max_steps", .integer 9), ("memory_words", .integer 2)])
    let words := fun _ => "No such file or directory (os error 2)"
    let files := access words
    files.ReadsAs t (t.reads words) ∧
    oneCell.IsGiven (t.reads words)
      { memoryWords := some 2, maxSteps := some 9, outDir := none } ∧
    (oneCell.perform id files).run t =
      (oneCell.performWith files { memoryWords := 1, maxSteps := 9, outDir := "." }).run t := by
  intro t words files
  have hg : oneCell.IsGiven (t.reads words)
      { memoryWords := some 2, maxSteps := some 9, outDir := none } := by
    refine isGiven_oneCell words ?_ (.object (.swap _ _ _))
    simp only [List.forall_mem_cons]
    exact ⟨.integer _, .integer _, nofun⟩
  have hread := readsAs_access words t
  obtain ⟨hrefused, hmerged⟩ := run_with_merged id hread hg
  exact ⟨hread, hg, hmerged (mt hrefused.1 (by decide))⟩

/-- A size of zero in the file refuses a run although an option replaces it. -/
theorem zero_not_replaced :
    let t := configTree (.ofMembers [("memory_words", .integer 0)])
    let words := fun _ => "No such file or directory (os error 2)"
    let files := access words
    let g : Given := { memoryWords := some 0, maxSteps := none, outDir := none }
    files.ReadsAs t (t.reads words) ∧ oneCell.IsGiven (t.reads words) g ∧
    ¬ (((oneCell.perform id files).run t).1.InvalidSettings ↔
      (oneCell.merged g).memoryWords = 0) := by
  intro t words files g
  have hgives : Gives (.ofMembers [("memory_words", .integer 0)]) g := .object (.refl _)
  have hg : oneCell.IsGiven (t.reads words) g := by
    refine isGiven_oneCell words ?_ hgives
    simp only [List.forall_mem_cons]
    exact ⟨.integer _, nofun⟩
  have hread := readsAs_access words t
  refine ⟨hread, hg, fun h => ?_⟩
  have hrefused : oneCell.Refuses id (t.reads words) _ :=
    .config (hg.configures_invalid rfl)
  rw [hrefused.run_perform hread] at h
  exact absurd (h.1 ⟨_, rfl⟩) (by decide)

end CommandLine

end ReducedMips
