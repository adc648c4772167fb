import Mathlib.Algebra.Group.Int.Defs
import Mathlib.Data.Set.List
import ReducedMips.Proofs.Json.Grammar
import ReducedMips.Proofs.Settings
/-!
# Chosen settings

An object chooses settings by their names, in any order, and the settings that are not chosen have
their defaults. It is malformed if and only if one of its members chooses nothing or two choose the
same, wherever they stand in it, and only an object that is not malformed is checked for a size of
zero. An array chooses the first settings in the order of their declaration.
-/
namespace ReducedMips.Settings

open Json

/-- A setting with the value that is chosen for it. -/
inductive Choice where
  | memoryWords (n : Count)
  | maxSteps (n : Count)
  | outDir (dir : String)

namespace Choice

def key : Choice → String
  | .memoryWords _ => "memory_words"
  | .maxSteps _ => "max_steps"
  | .outDir _ => "out_dir"

def value : Choice → Json
  | .memoryWords n => ofCount n
  | .maxSteps n => ofCount n
  | .outDir dir => ofText dir

/-- The member of an object that makes the choice. -/
def member (c : Choice) : String × Json := (c.key, c.value)

end Choice

/-- The settings with the chosen one replaced. -/
def choose (s : Settings) : Choice → Settings
  | .memoryWords n => { s with memoryWords := n }
  | .maxSteps n => { s with maxSteps := n }
  | .outDir dir => { s with outDir := dir }

/-- Ways in which a member of an object chooses nothing: its key names no setting, or its value is
of another type than the setting, or is an integer out of the range of the type. -/
inductive Misfit (m : Option String × Json) : Prop
  | key (h : ∀ name ∈ names, m.1 ≠ some name)
  | type (hkey : m.1 = some "memory_words" ∨ m.1 = some "max_steps") (h : ∀ n, m.2 ≠ .integer n)
  | range {n : Int} (hkey : m.1 = some "memory_words" ∨ m.1 = some "max_steps")
      (h : m.2 = .integer n) (hn : n < 0 ∨ 2 ^ 64 ≤ n)
  | text (hkey : m.1 = some "out_dir") (h : ∀ dir, m.2 ≠ ofText dir)

section Choices

def Given.choose (g : Given) : Choice → Given
  | .memoryWords n => { g with memoryWords := some n }
  | .maxSteps n => { g with maxSteps := some n }
  | .outDir dir => { g with outDir := some dir }

theorem Given.settings_choose (g : Given) (c : Choice) :
    (g.choose c).settings = g.settings.choose c := by
  cases c <;> rfl

theorem Given.settings_foldl_choose (g : Given) (choices : List Choice) :
    (choices.foldl choose g).settings = choices.foldl Settings.choose g.settings := by
  induction choices generalizing g with
  | nil => rfl
  | cons c choices ih => rw [List.foldl_cons, List.foldl_cons, ih, settings_choose]

/-- The members that give the given settings. -/
def Given.members (g : Given) : List (String × Json) := present names g.values

theorem Given.perm_members_choose {g : Given} {c : Choice} (hc : c.key ∉ g.members.map Prod.fst) :
    (g.choose c).members.Perm (c.member :: g.members) := by
  obtain ⟨memoryWords, maxSteps, outDir⟩ := g
  cases c with
  | memoryWords n =>
    cases memoryWords with
    | none => exact .refl _
    | some => exact absurd List.mem_cons_self hc
  | maxSteps n =>
    cases maxSteps with
    | none => exact List.perm_middle
    | some k =>
      refine absurd (List.mem_map.2 ⟨("max_steps", ofCount k), ?_, rfl⟩) hc
      exact List.mem_append_right _ List.mem_cons_self
  | outDir dir =>
    cases outDir with
    | none =>
      change (_ ++ (_ ++ Choice.member (.outDir dir) :: [])).Perm (_ :: (_ ++ (_ ++ [])))
      rw [← List.append_assoc, ← List.append_assoc]
      exact List.perm_middle
    | some d =>
      refine absurd (List.mem_map.2 ⟨("out_dir", ofText d), ?_, rfl⟩) hc
      exact List.mem_append_right _ (List.mem_append_right _ List.mem_cons_self)

theorem Given.perm_members_foldl_choose {g : Given} {choices : List Choice}
    (h : (choices.map Choice.key ++ g.members.map Prod.fst).Nodup) :
    (choices.foldl choose g).members.Perm (choices.map Choice.member ++ g.members) := by
  induction choices generalizing g with
  | nil => exact .refl _
  | cons c choices ih =>
    rw [List.map_cons, List.cons_append, List.nodup_cons, List.mem_append, not_or] at h
    obtain ⟨⟨hkeys, hgiven⟩, hnodup⟩ := h
    have hstep := perm_members_choose hgiven
    -- the key of the first choice goes over to the members, so that still no key is there twice
    have hnodup' : (choices.map Choice.key ++ (g.choose c).members.map Prod.fst).Nodup := by
      have hmap := hstep.map Prod.fst
      rw [(hmap.append_left _).nodup_iff, List.map_cons, List.perm_middle.nodup_iff, List.nodup_cons,
        List.mem_append, not_or]
      exact ⟨⟨hkeys, hgiven⟩, hnodup⟩
    exact (ih hnodup').trans ((hstep.append_left _).trans List.perm_middle)

/-- An object that makes choices of different settings gives what they choose. -/
theorem gives_choices {choices : List Choice} (h : (choices.map Choice.key).Nodup) :
    Gives (ofMembers (choices.map Choice.member)) (choices.foldl Given.choose .nothing) := by
  have hperm : (choices.foldl Given.choose .nothing).members.Perm
      (choices.map Choice.member ++ Given.nothing.members) :=
    Given.perm_members_foldl_choose ((List.append_nil _).symm ▸ h)
  rw [show Given.nothing.members = [] from rfl, List.append_nil] at hperm
  exact .object hperm.symm

end Choices

section Misfits

theorem exists_count {m : Option String × Json} (h : ¬ Misfit m)
    (hkey : m.1 = some "memory_words" ∨ m.1 = some "max_steps") : ∃ n, m.2 = ofCount n := by
  by_contra hnone
  apply h
  cases hvalue : m.2 with
  | integer n =>
    refine .range hkey hvalue (by_contra fun hn => hnone ⟨BitVec.ofInt 64 n, ?_⟩)
    rw [hvalue, ofCount, BitVec.toNat_ofInt]
    congr 1
    omega
  | _ => exact .type hkey (by simp [hvalue])

theorem exists_choice {m : Option String × Json} (h : ¬ Misfit m) :
    ∃ c : Choice, (some c.key, c.value) = m := by
  obtain ⟨key, value⟩ := m
  by_cases hunknown : ∀ name ∈ names, key ≠ some name
  · exact absurd (.key hunknown) h
  · push Not at hunknown
    obtain ⟨name, hname, rfl⟩ := hunknown
    rw [names, List.mem_cons, List.mem_cons, List.mem_singleton] at hname
    rcases hname with rfl | rfl | rfl
    · obtain ⟨n, rfl⟩ := exists_count h (.inl rfl)
      exact ⟨.memoryWords n, rfl⟩
    · obtain ⟨n, rfl⟩ := exists_count h (.inr rfl)
      exact ⟨.maxSteps n, rfl⟩
    · by_contra hnone
      exact h (.text rfl fun dir hdir => hnone ⟨.outDir dir, congrArg (Prod.mk _) hdir.symm⟩)

theorem not_misfit (c : Choice) : ¬ Misfit (some c.key, c.value) := by
  intro h
  have hrange (n : Count) (k : Int) (hk : ofCount n = .integer k) : ¬ (k < 0 ∨ 2 ^ 64 ≤ k) := by
    have hn := n.isLt
    cases hk
    omega
  cases h with
  | key h => cases c <;> exact h _ (by simp [names, Choice.key]) rfl
  | type hkey h =>
    cases c with
    | memoryWords n => exact h _ rfl
    | maxSteps n => exact h _ rfl
    | outDir dir => simp [Choice.key] at hkey
  | range hkey h hn =>
    cases c with
    | memoryWords n => exact hrange n _ h hn
    | maxSteps n => exact hrange n _ h hn
    | outDir dir => cases h
  | text hkey h =>
    cases c with
    | outDir dir => exact h dir rfl
    | _ => simp [Choice.key] at hkey

theorem exists_choices {members : List (Option String × Json)} (h : ∀ m ∈ members, ¬ Misfit m) :
    ∃ choices : List Choice, object members = ofMembers (choices.map Choice.member) := by
  have hrange : members ∈ Set.range (List.map fun c : Choice => (some c.key, c.value)) := by
    rw [Set.range_list_map]
    exact fun m hm => exists_choice (h m hm)
  obtain ⟨choices, rfl⟩ := hrange
  refine ⟨choices, ?_⟩
  rw [ofMembers, List.map_map]
  rfl

theorem nodup_keys_iff {members : List (Option String × Json)} {given : List (String × Json)}
    (h : object members = ofMembers given) :
    (members.map Prod.fst).Nodup ↔ (given.map Prod.fst).Nodup := by
  have hkeys : members.map Prod.fst = (given.map Prod.fst).map some := by
    rw [object.inj h, List.map_map, List.map_map]
    rfl
  rw [hkeys, List.nodup_map_iff (Option.some_injective _)]

/-- The choices that give the given settings. -/
def Given.choices (g : Given) : List Choice :=
  (g.memoryWords.map .memoryWords).toList ++ (g.maxSteps.map .maxSteps).toList ++
    (g.outDir.map .outDir).toList

theorem Given.map_member_choices (g : Given) : g.choices.map Choice.member = g.members := by
  obtain ⟨memoryWords, maxSteps, outDir⟩ := g
  cases memoryWords <;> cases maxSteps <;> cases outDir <;> rfl

theorem fits_of_gives {members : List (Option String × Json)} {g : Given}
    (h : Gives (object members) g) :
    (∀ m ∈ members, ¬ Misfit m) ∧ (members.map Prod.fst).Nodup := by
  generalize hvalue : object members = value at h
  cases h with
  | array h => cases hvalue
  | @object given h =>
    change given.Perm g.members at h
    constructor
    · intro m hm
      rw [object.inj hvalue] at hm
      obtain ⟨m, hmem, rfl⟩ := List.mem_map.1 hm
      rw [h.mem_iff, ← g.map_member_choices] at hmem
      obtain ⟨c, -, rfl⟩ := List.mem_map.1 hmem
      exact not_misfit c
    · have hnames : names.Nodup := by decide
      rw [nodup_keys_iff hvalue, (h.map Prod.fst).nodup_iff]
      exact hnames.sublist sublist_keys_present

end Misfits

section Texts

/-- The same result, except that two texts which are malformed may be explained differently. -/
inductive SameResult : Except SettingsError Settings → Except SettingsError Settings → Prop
  | same (result : Except SettingsError Settings) : SameResult result result
  | malformed (detail detail' : String) :
      SameResult (.error (.malformed detail)) (.error (.malformed detail'))

variable {explain : String → String} {text : String}

theorem parse_of_choices {choices : List Choice} (hnodup : (choices.map Choice.key).Nodup)
    (htext : Denotes text (ofMembers (choices.map Choice.member))) :
    parse explain text = (choices.foldl choose standard).validate := by
  have hsettings := Given.nothing.settings_foldl_choose choices
  exact parse_of_ofJson? (parse?_eq_some_iff.2 htext)
    (ofJson?_eq_some_iff.2 ⟨_, gives_choices hnodup, hsettings⟩)

theorem malformed_iff {value : Json} (htext : Denotes text value) :
    (∃ detail, parse explain text = .error (.malformed detail)) ↔ ofJson? value = none := by
  simp only [parse, parse?_eq_some_iff.2 htext, Option.bind_some]
  cases ofJson? value with
  | none => exact ⟨fun _ => rfl, fun _ => ⟨_, rfl⟩⟩
  | some s =>
    constructor
    · rintro ⟨detail, h⟩
      change s.validate = _ at h
      unfold validate at h
      split at h <;> cases h
    · intro h
      cases h

/-- An object is malformed if and only if one of its members is a misfit or a key is repeated. -/
theorem malformed_object_iff {members : List (Option String × Json)}
    (htext : Denotes text (object members)) :
    (∃ detail, parse explain text = .error (.malformed detail)) ↔
      (∃ m ∈ members, Misfit m) ∨ ¬ (members.map Prod.fst).Nodup := by
  rw [malformed_iff htext, Option.eq_none_iff_forall_ne_some]
  constructor
  · intro h
    by_contra hfits
    rw [not_or, not_not] at hfits
    obtain ⟨hfits, hnodup⟩ := hfits
    push Not at hfits
    obtain ⟨choices, hobject⟩ := exists_choices hfits
    rw [nodup_keys_iff hobject, List.map_map] at hnodup
    rw [hobject] at h
    exact h _ (ofJson?_eq_some_iff.2 ⟨_, gives_choices hnodup, rfl⟩)
  · intro h s hs
    obtain ⟨g, hgives, -⟩ := ofJson?_eq_some_iff.1 hs
    obtain ⟨hfits, hnodup⟩ := fits_of_gives hgives
    rcases h with ⟨m, hm, hmisfit⟩ | hkeys
    · exact hfits m hm hmisfit
    · exact hkeys hnodup

theorem parse_array {items : List Json} (hlength : items.length ≤ 3)
    (htext : Denotes text (array items)) {text' : String}
    (htext' : Denotes text' (ofMembers (names.zip items))) :
    SameResult (parse explain text) (parse explain text') := by
  have hfields : (array items).fields? ["memory_words", "max_steps", "out_dir"] .refused =
      (ofMembers (names.zip items)).fields? ["memory_words", "max_steps", "out_dir"] .refused :=
    fields?_array_eq_ofMembers (by decide) hlength
  have hread : ofJson? (array items) = ofJson? (ofMembers (names.zip items)) := by
    simp only [ofJson?, hfields]
  simp only [parse, parse?_eq_some_iff.2 htext, parse?_eq_some_iff.2 htext', Option.bind_some,
    hread]
  cases ofJson? (ofMembers (names.zip items)) with
  | none => exact .malformed _ _
  | some s => exact .same _

theorem malformed_array {items : List Json} (hlength : 3 < items.length)
    (htext : Denotes text (array items)) :
    ∃ detail, parse explain text = .error (.malformed detail) := by
  have hfields : (array items).fields? ["memory_words", "max_steps", "out_dir"] .refused = none :=
    if_neg (Nat.not_le_of_lt hlength)
  refine (malformed_iff htext).2 ?_
  simp only [ofJson?, hfields]
  rfl

/-- What is read from a text that denotes an object or an array, however it is spelled. -/
theorem parse_denoted (explain : String → String) (text : String) :
    (∀ choices : List Choice, (choices.map Choice.key).Nodup →
      Denotes text (ofMembers (choices.map Choice.member)) →
        parse explain text =
          if (choices.foldl choose standard).memoryWords = 0 then
            .error (.invalid "memory_words must be at least 1")
          else .ok (choices.foldl choose standard)) ∧
    (∀ members, Denotes text (object members) →
      ((∃ detail, parse explain text = .error (.malformed detail)) ↔
        (∃ m ∈ members, Misfit m) ∨ ¬ (members.map Prod.fst).Nodup)) ∧
    (∀ items, Denotes text (array items) →
      if items.length ≤ 3 then
        ∀ text', Denotes text' (ofMembers (names.zip items)) →
          SameResult (parse explain text) (parse explain text')
      else ∃ detail, parse explain text = .error (.malformed detail)) := by
  refine ⟨fun choices hnodup htext => ?_, fun members htext => ?_, fun items htext => ?_⟩
  · exact parse_of_choices hnodup htext
  · exact malformed_object_iff htext
  · split
    · next hlength => exact fun text' htext' => parse_array hlength htext htext'
    · next hlength => exact malformed_array (Nat.lt_of_not_le hlength) htext

/-- Blanks and an escaped key are no matter; a size of zero is invalid, but malformed next to an
unknown key; two items are the first two settings, and four are too many. -/
theorem parse_denoted_texts :
    let explain := fun text => "no settings in " ++ text
    parse explain "\t\x7b\"max_st\\u0065ps\" : 10 ,\r\n \"memory_words\":7\x7d " =
      .ok { memoryWords := 7, maxSteps := 10, outDir := "." } ∧
    parse explain "\x7b\"memory_words\":0\x7d" =
      .error (.invalid "memory_words must be at least 1") ∧
    (∃ detail, parse explain "\x7b\"memory_words\":0,\"memory\":10\x7d" =
      .error (.malformed detail)) ∧
    SameResult (parse explain "[7, 10]")
      (parse explain "\x7b\"memory_words\":7,\"max_steps\":10\x7d") ∧
    ∃ detail, parse explain "[7, 10, \"out\", null]" = .error (.malformed detail) := by
  intro explain
  refine ⟨?_, ?_, ?_, ?_, ?_⟩
  · have hread := (parse_denoted explain
      "\t\x7b\"max_st\\u0065ps\" : 10 ,\r\n \"memory_words\":7\x7d ").1
      [.maxSteps 10, .memoryWords 7] (by decide) (spells_of_lex (by decide +kernel))
    exact hread.trans (if_neg (by decide))
  · have hread := (parse_denoted explain "\x7b\"memory_words\":0\x7d").1 [.memoryWords 0]
      (by decide) (spells_of_lex (by decide +kernel))
    exact hread.trans (if_pos (by decide))
  · have hread := (parse_denoted explain "\x7b\"memory_words\":0,\"memory\":10\x7d").2.1
      [(some "memory_words", .integer 0), (some "memory", .integer 10)]
      (spells_of_lex (by decide +kernel))
    refine hread.2 (.inl ⟨(some "memory", .integer 10), by simp, .key (by decide)⟩)
  · have hread := (parse_denoted explain "[7, 10]").2.2 [.integer 7, .integer 10]
      (spells_of_lex (by decide +kernel))
    rw [if_pos (by decide)] at hread
    exact hread _ (spells_of_lex (by decide +kernel))
  · have hread := (parse_denoted explain "[7, 10, \"out\", null]").2.2
      [.integer 7, .integer 10, ofText "out", .null] (spells_of_lex (by decide +kernel))
    rw [if_neg (by decide)] at hread
    exact hread

end Texts

end ReducedMips.Settings
