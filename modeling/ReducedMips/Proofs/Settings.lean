import ReducedMips.Proofs.Json.Reader
import ReducedMips.Settings
/-!
# Settings from a text

A text gives some of the settings, in an object with their names as keys or in an array in their
order, and the others have their defaults. Which settings are given tells whether the text is
accepted.
-/
namespace ReducedMips.Settings

open Json

/-- Some of the settings. -/
structure Given where
  memoryWords : Option Count
  maxSteps : Option Count
  outDir : Option String
  deriving DecidableEq

def names : List String := ["memory_words", "max_steps", "out_dir"]

namespace Given

/-- Nothing is given. -/
def nothing : Given := { memoryWords := none, maxSteps := none, outDir := none }

def values (g : Given) : List (Option Json) :=
  [g.memoryWords.map ofCount, g.maxSteps.map ofCount, g.outDir.map ofText]

/-- The given settings, and the defaults of the others. -/
def settings (g : Given) : Settings where
  memoryWords := g.memoryWords.getD standard.memoryWords
  maxSteps := g.maxSteps.getD standard.maxSteps
  outDir := g.outDir.getD standard.outDir

end Given

/-- A value in JSON that gives some of the settings, each by a value of its type. -/
def Gives (value : Json) (g : Given) : Prop := Supplies g.values names value

/-- What a text is read as. -/
inductive Reads (explain : String → String) (text : String) : Except SettingsError Given → Prop
  | ok {value : Json} {g : Given} (hparse : parse? text = some value) (hgives : Gives value g)
      (hwords : g.memoryWords ≠ some 0) : Reads explain text (.ok g)
  | malformed (h : ∀ value g, parse? text = some value → ¬ Gives value g) :
      Reads explain text (.error (.malformed (explain text)))
  | invalid {value : Json} {g : Given} (hparse : parse? text = some value) (hgives : Gives value g)
      (hwords : g.memoryWords = some 0) :
      Reads explain text (.error (.invalid "memory_words must be at least 1"))

theorem fieldOr_eq_some_iff {α : Type} {read : Json → Option α} {write : α → Json}
    (hread : ∀ value x, read value = some x ↔ value = write x) {default x : α}
    {value : Option Json} :
    fieldOr read default value = some x ↔
      ∃ given : Option α, value = given.map write ∧ given.getD default = x := by
  cases value with
  | none =>
    constructor
    · intro h
      exact ⟨none, rfl, Option.some.inj h⟩
    · rintro ⟨given, hvalue, rfl⟩
      rw [Option.map_eq_none_iff.1 hvalue.symm]
      rfl
  | some value =>
    constructor
    · intro h
      exact ⟨some x, congrArg some ((hread value x).1 h), rfl⟩
    · rintro ⟨given, hvalue, rfl⟩
      obtain ⟨y, rfl, rfl⟩ := Option.map_eq_some_iff.1 hvalue.symm
      exact (hread _ y).2 rfl

theorem ofJson?_of_fields {memoryWords maxSteps outDir : Option Json} {json : Json}
    {s : Settings} (h : json.fields? names .refused = some [memoryWords, maxSteps, outDir]) :
    ofJson? json = some s ↔
      fieldOr count? standard.memoryWords memoryWords = some s.memoryWords ∧
        fieldOr count? standard.maxSteps maxSteps = some s.maxSteps ∧
        fieldOr text? standard.outDir outDir = some s.outDir := by
  have hfields : json.fields? ["memory_words", "max_steps", "out_dir"] .refused =
    some [memoryWords, maxSteps, outDir] := h
  simp only [ofJson?, hfields, Option.bind_eq_bind, Option.bind_some, Option.bind_eq_some_iff,
    Option.pure_def, Option.some.injEq]
  constructor
  · rintro ⟨_, hw, _, hm, _, ho, rfl⟩
    exact ⟨hw, hm, ho⟩
  · rintro ⟨hw, hm, ho⟩
    exact ⟨_, hw, _, hm, _, ho, rfl⟩

/-- Settings are read from the values that give some of them. -/
theorem ofJson?_eq_some_iff {value : Json} {s : Settings} :
    ofJson? value = some s ↔ ∃ g, Gives value g ∧ g.settings = s := by
  have hnodup : names.Nodup := by decide
  constructor
  · intro h
    have hread := h
    simp only [ofJson?, Option.bind_eq_bind] at hread
    obtain ⟨values, hvalues, -⟩ := Option.bind_eq_some_iff.1 hread
    obtain ⟨hlength, hsupplies⟩ := (fields?_refused_iff hnodup).1 hvalues
    obtain ⟨memoryWords, maxSteps, outDir, rfl⟩ := List.length_eq_three.1 hlength
    obtain ⟨hreadWords, hreadSteps, hreadDir⟩ := (ofJson?_of_fields hvalues).1 h
    obtain ⟨words, rfl, hwords⟩ := (fieldOr_eq_some_iff fun _ _ => count?_eq_some_iff).1 hreadWords
    obtain ⟨steps, rfl, hsteps⟩ := (fieldOr_eq_some_iff fun _ _ => count?_eq_some_iff).1 hreadSteps
    obtain ⟨dir, rfl, hdir⟩ := (fieldOr_eq_some_iff fun _ _ => text?_eq_some_iff).1 hreadDir
    exact ⟨⟨words, steps, dir⟩, hsupplies, (Settings.mk.injEq ..).mpr ⟨hwords, hsteps, hdir⟩⟩
  · rintro ⟨g, hg, rfl⟩
    have hfields := (fields?_refused_iff hnodup).2 ⟨rfl, hg⟩
    refine (ofJson?_of_fields hfields).2 ⟨?_, ?_, ?_⟩
    · exact (fieldOr_eq_some_iff fun _ _ => count?_eq_some_iff).2 ⟨_, rfl, rfl⟩
    · exact (fieldOr_eq_some_iff fun _ _ => count?_eq_some_iff).2 ⟨_, rfl, rfl⟩
    · exact (fieldOr_eq_some_iff fun _ _ => text?_eq_some_iff).2 ⟨_, rfl, rfl⟩

variable {explain : String → String} {text : String}

theorem parse_of_ofJson? {value : Json} {s : Settings} (hparse : parse? text = some value)
    (h : ofJson? value = some s) : parse explain text = s.validate := by
  simp only [parse, hparse, Option.bind_some, h]

theorem Given.memoryWords_settings_eq_zero {g : Given} :
    g.settings.memoryWords = 0 ↔ g.memoryWords = some 0 := by
  cases hg : g.memoryWords with
  | none => simp [settings, hg, standard]
  | some n => simp [settings, hg]

theorem parse_of_reads {answer : Except SettingsError Given} (h : Reads explain text answer) :
    parse explain text = answer.map Given.settings := by
  cases h with
  | @ok value g hparse hgives hwords =>
    rw [parse_of_ofJson? hparse (ofJson?_eq_some_iff.2 ⟨g, hgives, rfl⟩), validate,
      if_neg (mt Given.memoryWords_settings_eq_zero.1 hwords)]
    rfl
  | malformed h =>
    have hnone : (parse? text).bind ofJson? = none := by
      rw [Option.eq_none_iff_forall_ne_some]
      intro s hs
      obtain ⟨value, hparse, hvalue⟩ := Option.bind_eq_some_iff.1 hs
      obtain ⟨g, hgives, -⟩ := ofJson?_eq_some_iff.1 hvalue
      exact h value g hparse hgives
    simp only [parse, hnone]
    rfl
  | @invalid value g hparse hgives hwords =>
    rw [parse_of_ofJson? hparse (ofJson?_eq_some_iff.2 ⟨g, hgives, rfl⟩), validate,
      if_pos (Given.memoryWords_settings_eq_zero.2 hwords)]
    rfl

theorem exists_reads (explain : String → String) (text : String) :
    ∃ answer, Reads explain text answer := by
  by_cases h : ∃ value g, parse? text = some value ∧ Gives value g
  · obtain ⟨value, g, hparse, hgives⟩ := h
    by_cases hwords : g.memoryWords = some 0
    · exact ⟨_, .invalid hparse hgives hwords⟩
    · exact ⟨_, .ok hparse hgives hwords⟩
  · exact ⟨_, .malformed fun value g hparse hgives => h ⟨value, g, hparse, hgives⟩⟩

end ReducedMips.Settings
