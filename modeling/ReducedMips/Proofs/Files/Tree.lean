import Mathlib.Tactic.SplitIfs
import ReducedMips.Files.Tree
import ReducedMips.Proofs.Text
/-!
# Files of a tree

A text that is written to a file is read back from it, and other files keep their content. Which
place a path names depends on the directories of a tree only, the working directory among them, and
a file that is written never becomes one.
-/
namespace ReducedMips.FileTree

variable {t t' : FileTree} {path other text : String} {here place : Place} {content : ByteArray}

@[simp] theorem isDirectory_put (t : FileTree) (place other : Place) (content : ByteArray) :
    (t.put place content).isDirectory other = t.isDirectory other := rfl

theorem walk_append (t : FileTree) (here : Place) (front back : List String) :
    t.walk here (front ++ back) = t.walk here front >>= fun dir => t.walk dir back := by
  induction front generalizing here with
  | nil => rfl
  | cons name front ih =>
    simp only [List.cons_append, walk, ih]
    split_ifs <;> rfl

/-- Writing a file changes no way to a place. -/
theorem walk_put_eq_ok {names : List String} (written : Place) :
    (t.put written content).walk here names = .ok place ↔ t.walk here names = .ok place := by
  induction names generalizing here with
  | nil => rfl
  | cons name names ih =>
    simp only [walk]
    by_cases hd : t.isDirectory here = true
    · rw [isDirectory_put, if_pos hd, if_pos hd]
      split_ifs
      · exact ih
      · exact ih
      · exact ih
    · rw [isDirectory_put, if_neg hd, if_neg hd]
      -- only the error may be another one
      constructor <;> intro h <;> split_ifs at h

theorem resolve_put_eq_ok (written : Place) :
    (t.put written content).resolve path = .ok place ↔ t.resolve path = .ok place := by
  simp only [resolve]
  split_ifs
  · rfl
  · rfl
  · exact walk_put_eq_ok written

/-- The place of the file that a path names, whether or not the file exists. -/
def target (t : FileTree) (path : String) : Except AccessError Place := do
  let place ← t.resolve path
  if t.isDirectory place then .error .isDirectory else .ok place

/-- What is read from a place. -/
def readAt (t : FileTree) (place : Place) : Except AccessError String :=
  match t.get? place with
  | none => .error .notFound
  | some content =>
    match String.fromUTF8? content with
    | some text => .ok text
    | none => .error .notText

theorem readText_eq (t : FileTree) (path : String) :
    t.readText path = t.target path >>= t.readAt := by
  unfold readText target readAt
  cases t.resolve path with
  | error e => rfl
  | ok place =>
    change (if t.isDirectory place = true then _ else _) =
      (if t.isDirectory place = true then _ else _) >>= _
    cases t.isDirectory place with
    | true => rfl
    | false => rfl

theorem writeText_eq (t : FileTree) (path text : String) :
    t.writeText path text = (t.target path).map fun place => t.put place text.toUTF8 := by
  simp only [writeText, target]
  cases t.resolve path with
  | error e => rfl
  | ok place =>
    change (if t.isDirectory place = true then _ else _) =
      Except.map _ (if t.isDirectory place = true then _ else _)
    cases t.isDirectory place with
    | true => rfl
    | false => rfl

theorem writeText_of_target (h : t.target path = .ok place) (text : String) :
    t.writeText path text = .ok (t.put place text.toUTF8) := by
  rw [writeText_eq, h]
  rfl

theorem target_eq_ok : t.target path = .ok place ↔
    t.resolve path = .ok place ∧ t.isDirectory place = false := by
  simp only [target]
  cases t.resolve path with
  | error e =>
    constructor
    · intro h
      cases h
    · rintro ⟨h, -⟩
      cases h
  | ok found =>
    change (if t.isDirectory found = true then _ else _) = _ ↔ _
    cases hd : t.isDirectory found with
    | true =>
      constructor
      · intro h
        cases h
      · rintro ⟨h, hplace⟩
        cases h
        rw [hd] at hplace
        cases hplace
    | false =>
      constructor
      · intro h
        cases h
        exact ⟨rfl, hd⟩
      · rintro ⟨h, -⟩
        cases h
        rfl

theorem target_put_eq_ok (written : Place) :
    (t.put written content).target path = .ok place ↔ t.target path = .ok place := by
  rw [target_eq_ok, target_eq_ok, resolve_put_eq_ok, isDirectory_put]

theorem target_put (h : t.target path = .ok place) (written : Place) :
    (t.put written content).target path = .ok place := (target_put_eq_ok written).2 h

theorem fromUTF8?_toUTF8 (text : String) : String.fromUTF8? text.toUTF8 = some text := by
  simp only [String.fromUTF8?]
  rw [String.toUTF8_eq_toByteArray, dif_pos text.isValidUTF8]
  rfl

theorem readAt_of_get? (hc : t.get? place = some text.toUTF8) : t.readAt place = .ok text := by
  simp only [readAt]
  rw [hc]
  dsimp only
  rw [fromUTF8?_toUTF8]

theorem readAt_put (t : FileTree) (place : Place) (text : String) :
    (t.put place text.toUTF8).readAt place = .ok text := by
  apply readAt_of_get?
  rw [get?_put, if_pos rfl]

theorem readAt_put_of_ne (t : FileTree) {place other : Place} (h : other ≠ place)
    (content : ByteArray) : (t.put place content).readAt other = t.readAt other := by
  simp only [readAt]
  rw [get?_put, if_neg h]

theorem readText_put (h : t.target path = .ok place) (text : String) :
    (t.put place text.toUTF8).readText path = .ok text := by
  rw [readText_eq, target_put h]
  exact readAt_put t place text

theorem readText_put_of_ne {written : Place} (h : t.target path = .ok place) (hne : place ≠ written)
    (content : ByteArray) : (t.put written content).readText path = t.readText path := by
  rw [readText_eq, readText_eq, target_put h, h]
  exact readAt_put_of_ne t hne content

/-- Any text can be written to the file of a path. -/
def Writable (t : FileTree) (path : String) : Prop := ∀ text, ∃ t', t.writeText path text = .ok t'

theorem writable_iff : t.Writable path ↔ ∃ place, t.target path = .ok place := by
  constructor
  · intro h
    obtain ⟨t', ht'⟩ := h ""
    rw [writeText_eq] at ht'
    cases hp : t.target path with
    | error e =>
      rw [hp] at ht'
      cases ht'
    | ok place => exact ⟨place, rfl⟩
  · rintro ⟨place, hp⟩ text
    exact ⟨_, writeText_of_target hp text⟩

theorem readText_of_get? (hp : t.target path = .ok place)
    (hc : t.get? place = some text.toUTF8) : t.readText path = .ok text := by
  rw [readText_eq, hp]
  exact readAt_of_get? hc

/-- A name that a directory can give to a file. -/
def IsName (name : String) : Prop :=
  '/' ∉ name.toList ∧ name ≠ "" ∧ name ≠ "." ∧ name ≠ ".."

instance : DecidablePred IsName := fun name => inferInstanceAs (Decidable ('/' ∉ name.toList ∧ _))

theorem names_of_isName {name : String} (h : IsName name) : names name = [name] := by
  have hpieces : Text.pieces (· == '/') name.toList = [name.toList] := by
    apply Text.pieces_of_forall
    intro c hc
    rw [beq_eq_false_iff_ne]
    rintro rfl
    exact h.1 hc
  simp only [names]
  rw [hpieces, List.map_singleton, String.ofList_toList]

theorem names_append_separator (left right : String) :
    names (left ++ "/" ++ right) = names left ++ names right := by
  have hchars : (left ++ "/" ++ right).toList = left.toList ++ '/' :: right.toList := by
    rw [String.toList_append, String.toList_append, List.append_assoc]
    rfl
  simp only [names]
  rw [hchars, Text.pieces_append_separator rfl, List.map_append]

theorem exists_names_join (dir : String) :
    ∃ front, ∀ name, IsName name → names (FileAccess.join dir name) = front ++ [name] := by
  simp only [FileAccess.join]
  split
  · next hlast =>
    rw [List.getLast?_eq_none_iff, String.toList_eq_nil_iff] at hlast
    refine ⟨[], fun name hname => ?_⟩
    rw [hlast, String.empty_append, names_of_isName hname, List.nil_append]
  · next hlast =>
    obtain ⟨front, hfront⟩ := List.getLast?_eq_some_iff.1 hlast
    have hdir : dir = String.ofList front ++ "/" := by
      rw [← String.toList_inj, String.toList_append, String.toList_ofList]
      exact hfront
    refine ⟨names (String.ofList front), fun name hname => ?_⟩
    rw [hdir, names_append_separator, names_of_isName hname]
  · exact ⟨names dir, fun name hname => by
      rw [names_append_separator, names_of_isName hname]⟩

theorem walk_name {name : String} (hname : IsName name) (h : t.walk here [name] = .ok place) :
    place = here ++ [name] := by
  obtain ⟨-, hempty, hdot, hup⟩ := hname
  simp only [walk] at h
  by_cases hd : t.isDirectory here = true
  · rw [if_pos hd, if_neg (not_or.2 ⟨hempty, hdot⟩), if_neg hup] at h
    exact (Except.ok.inj h).symm
  · rw [if_neg hd] at h
    split_ifs at h

theorem getLast?_resolve_join {dir name : String} (hname : IsName name)
    (h : t.resolve (FileAccess.join dir name) = .ok place) : place.getLast? = some name := by
  obtain ⟨front, hfront⟩ := exists_names_join dir
  simp only [resolve] at h
  split_ifs at h
  rw [hfront name hname, walk_append] at h
  cases hd : t.walk (t.origin (FileAccess.join dir name)) front with
  | error e =>
    rw [hd] at h
    cases h
  | ok d =>
    rw [hd] at h
    rw [walk_name hname h, List.getLast?_concat]

/-- Two names in one directory are the names of two places. -/
theorem target_join_ne {dir name name' : String} {place' : Place} (hname : IsName name)
    (hname' : IsName name') (hne : name ≠ name')
    (h : t.target (FileAccess.join dir name) = .ok place)
    (h' : t.target (FileAccess.join dir name') = .ok place') : place ≠ place' := by
  rintro rfl
  have hlast := getLast?_resolve_join hname (target_eq_ok.1 h).1
  have hlast' := getLast?_resolve_join hname' (target_eq_ok.1 h').1
  rw [hlast] at hlast'
  exact hne (Option.some.inj hlast')

end ReducedMips.FileTree
