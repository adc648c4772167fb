import ReducedMips.Proofs.CommandLine.Stages
import ReducedMips.Proofs.Files.Save
/-!
# Refused runs

A run that is refused has no effect. A run that is not refused writes its two files at most, and
it fails only if one of them cannot be written. All that is asked of the files is that reading
leaves them as they are, and that a write is all or nothing.
-/
namespace ReducedMips

open FileTree

namespace FileTree

variable {t t' : FileTree} {paths : List String} {place : Place}

theorem readsAs_refusing (words : AccessError → String)
    (refuse : FileTree → String → String → Option String) (t : FileTree) :
    (refusing words refuse).ReadsAs t (t.reads words) :=
  run_readText words t

/-- The same directories, and the same files except where some paths lead. -/
def SameExceptAt (paths : List String) (t t' : FileTree) : Prop :=
  ∃ places, (∀ place ∈ places, ∃ path ∈ paths, t.target path = .ok place) ∧
    SameExcept places t t'

theorem sameExceptAt_refl (paths : List String) (t : FileTree) : SameExceptAt paths t t :=
  ⟨[], nofun, rfl, rfl, fun _ _ => rfl⟩

theorem SameExceptAt.put {path : String} (h : SameExceptAt paths t t') (hpath : path ∈ paths)
    (hplace : t.target path = .ok place) (content : ByteArray) :
    SameExceptAt paths t (t'.put place content) := by
  obtain ⟨places, hplaces, hsame⟩ := h
  refine ⟨places ++ [place], ?_, hsame.trans (sameExcept_put t' place content)⟩
  intro other hother
  rcases List.mem_append.1 hother with hother | hother
  · exact hplaces other hother
  · rw [List.mem_singleton.1 hother]
    exact ⟨path, hpath, hplace⟩

end FileTree

namespace CommandLine

open FileAccess Image

namespace RunRequest

/-- How a run that is not refused ends, when its program ends in the given way and its files go to
the given directory: its reply, and the tree that it leaves. It succeeds if both files are written;
if a write is refused, the run fails and reports that write. -/
inductive Finishes (files : FileAccess (StateM FileTree)) (r : RunRequest) (e : Ending)
    (dir : String) (t : FileTree) : Reply × FileTree → Prop
  | saved {reply : Reply} {t' : FileTree}
      (hsaves : Saves files t dir e.final.registers e.final.memory (.ok (), t'))
      (hexit : reply.exitCode = 0) (hstdout : reply.stdout = e.report r.json)
      (hreports : reply.reports = e.warnings)
      (hfiles : SameExceptAt [join dir registersFile, join dir memoryFile] t t') :
      Finishes files r e dir t (reply, t')
  | unsaved {reply : Reply} {t' : FileTree} {detail : String}
      (hsaves : Saves files t dir e.final.registers e.final.memory (.error (.io detail), t'))
      (hexit : reply.exitCode = 1) (hstdout : reply.stdout = "")
      (hreports : reply.reports = e.warnings ++
        ["error: failed to write state: I/O error: " ++ detail])
      (hfiles : SameExceptAt [join dir registersFile] t t') : Finishes files r e dir t (reply, t')

variable {files : FileAccess (StateM FileTree)} {r : RunRequest}

theorem finishes_finish (hwrite : files.AllOrNothing) (t : FileTree) (s : Settings) (p : Program)
    (memory : Memory) :
    Finishes files r (r.execute s p memory).1 s.outDir t ((r.finish files s p memory).run t) := by
  let e := (r.execute s p memory).1
  have hsaves := saves_saveState hwrite t s.outDir e.final.registers e.final.memory
  generalize hsave :
    (saveState files s.outDir e.final.registers e.final.memory).run t = outcome at hsaves
  have hevidence := hsaves
  simp only [finish]
  cases hsaves with
  | neither refused =>
    rw [run_bind hsave]
    exact .unsaved hevidence rfl rfl rfl (sameExceptAt_refl _ t)
  | registers written refused =>
    rw [run_bind hsave]
    exact .unsaved hevidence rfl rfl rfl
      ((sameExceptAt_refl _ t).put List.mem_cons_self written.target _)
  | @both place memoryPlace written memoryWritten =>
    have hmemory : join s.outDir memoryFile ∈
        [join s.outDir registersFile, join s.outDir memoryFile] :=
      List.mem_cons_of_mem _ List.mem_cons_self
    have htarget := (target_put_eq_ok place).1 memoryWritten.target
    rw [run_bind hsave]
    exact .saved hevidence rfl rfl rfl
      (((sameExceptAt_refl _ t).put List.mem_cons_self written.target _).put hmemory htarget _)

end RunRequest

variable {files : FileAccess (StateM FileTree)} {t : FileTree}
  {read : String → Except String String}

/-- A run is refused with the error of its first stage that fails, and then has no effect; a run
whose stages all succeed fails if and only if a file cannot be written. -/
theorem refused_without_effect (explain : String → String) (r : RunRequest)
    (hread : files.ReadsAs t read) (hwrite : files.AllOrNothing) :
    ((∃ f, r.Refuses explain read f) ∨ ∃ s p memory, r.Prepares explain read s p memory) ∧
    (∀ f, r.Refuses explain read f → (r.perform explain files).run t =
      ({ exitCode := 1, stdout := "", reports := ["error: " ++ f.message], log := [] }, t)) ∧
    ∀ s p memory, r.Prepares explain read s p memory →
      RunRequest.Finishes files r (r.execute s p memory).1 s.outDir t
        ((r.perform explain files).run t) := by
  refine ⟨r.refuses_or_prepares explain read, fun f hf => hf.run_perform hread, ?_⟩
  intro s p memory hprepares
  rw [hprepares.run_perform hread]
  exact RunRequest.finishes_finish hwrite t s p memory

/-- The program is not well formed, there is no memory, and nothing can be written. -/
theorem refused_without_effect_width :
    let t : FileTree :=
      { working := ["home"], directories := [["home"]]
        files := [(["home", "program"], "101".toUTF8)] }
    let words := fun _ => "No such file or directory (os error 2)"
    let files := refusing words fun _ _ _ => some "No space left on device (os error 28)"
    let r : RunRequest := {
      program := "program"
      memory := "memory"
      config := none
      maxSteps := none
      memoryWords := none
      outDir := some "/tmp/out"
      trace := false
      json := false }
    files.ReadsAs t (t.reads words) ∧ files.AllOrNothing ∧
    r.Refuses id (t.reads words) (.program (.width 1 8 3)) ∧
    (r.perform id files).run t =
      ({ exitCode := 1
         stdout := ""
         reports := ["error: failed to load instructions: on line 1: expected length 8, got 3"]
         log := [] }, t) := by
  intro t words files r
  have hread : files.ReadsAs t (t.reads words) := readsAs_refusing words _ t
  have hwrite : files.AllOrNothing := allOrNothing_refusing words _
  have hrefuses : r.Refuses id (t.reads words) (.program (.width 1 8 3)) := by
    have htext : t.readText "program" = .ok "101" :=
      readText_of_get? (show t.target "program" = .ok ["home", "program"] by rfl) rfl
    refine .program (s := { Settings.standard with outDir := "/tmp/out" })
      ⟨.nothing, .standard rfl, rfl, by decide⟩ (.text (reads_of_readText words htext) ?_)
    exact .malformed ⟨[], ['1', '0', '1'], [], by decide, nofun, .width (by decide)⟩
  refine ⟨hread, hwrite, hrefuses, ?_⟩
  rw [(refused_without_effect id r hread hwrite).2.1 _ hrefuses]
  rfl

end CommandLine

end ReducedMips
