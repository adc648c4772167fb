import ReducedMips.Text.Blank
/-!
# Lines of text

A text that is divided at separators falls into the pieces that were put between them.
-/
namespace ReducedMips.Text

variable {isSeparator : Char → Bool}

theorem pieces_of_forall {text : List Char} (h : ∀ c ∈ text, isSeparator c = false) :
    pieces isSeparator text = [text] := by
  induction text with
  | nil => rfl
  | cons c text ih =>
    obtain ⟨piece, rest, hp, hc⟩ :=
      pieces_cons_other isSeparator (h c List.mem_cons_self) text
    rw [ih fun d hd => h d (List.mem_cons_of_mem c hd)] at hp
    obtain ⟨rfl, rfl⟩ := List.cons.inj hp
    exact hc

theorem pieces_append_separator {c : Char} (hc : isSeparator c = true) (left right : List Char) :
    pieces isSeparator (left ++ c :: right) =
      pieces isSeparator left ++ pieces isSeparator right := by
  induction left with
  | nil => exact pieces_cons_separator isSeparator hc right
  | cons d left ih =>
    rw [List.cons_append]
    cases hd : isSeparator d with
    | true =>
      rw [pieces_cons_separator isSeparator hd, pieces_cons_separator isSeparator hd, ih,
        List.cons_append]
    | false =>
      obtain ⟨piece, rest, hp, hcons⟩ := pieces_cons_other isSeparator hd left
      obtain ⟨piece', rest', hp', hcons'⟩ := pieces_cons_other isSeparator hd (left ++ c :: right)
      rw [ih, hp, List.cons_append] at hp'
      obtain ⟨rfl, rfl⟩ := List.cons.inj hp'
      rw [hcons, hcons', List.cons_append]

/-- The maximal runs of characters that are not separators, in order. -/
def runs (isSeparator : Char → Bool) (text : List Char) : List (List Char) :=
  (pieces isSeparator text).filter (!·.isEmpty)

theorem runs_append_separator {c : Char} (hc : isSeparator c = true) (left right : List Char) :
    runs isSeparator (left ++ c :: right) = runs isSeparator left ++ runs isSeparator right := by
  rw [runs, pieces_append_separator hc, List.filter_append]
  rfl

theorem runs_separators_append {separators : List Char}
    (hs : ∀ c ∈ separators, isSeparator c = true) (text : List Char) :
    runs isSeparator (separators ++ text) = runs isSeparator text := by
  induction separators with
  | nil => rfl
  | cons c separators ih =>
    have hcons := runs_append_separator (hs c List.mem_cons_self) [] (separators ++ text)
    exact hcons.trans (ih fun d hd => hs d (List.mem_cons_of_mem c hd))

theorem runs_of_forall {text : List Char} (hne : text ≠ [])
    (h : ∀ c ∈ text, isSeparator c = false) : runs isSeparator text = [text] := by
  rw [runs, pieces_of_forall h]
  simp [hne]

theorem tokens_lines {words : List (List Char)}
    (h : ∀ word ∈ words, word ≠ [] ∧ ∀ c ∈ word, isBlank c = false) :
    tokens (words.flatMap fun word => word ++ ['\n']) = words := by
  induction words with
  | nil => rfl
  | cons word words ih =>
    obtain ⟨hne, hword⟩ := h word List.mem_cons_self
    have ih := ih fun w hw => h w (List.mem_cons_of_mem word hw)
    change runs isBlank _ = _
    rw [List.flatMap_cons, List.append_assoc, List.singleton_append,
      runs_append_separator (by decide), runs_of_forall hne hword]
    exact congrArg (word :: ·) ih

theorem pieces_lines {c : Char} (hc : isSeparator c = true) {lines : List (List Char)}
    (h : ∀ line ∈ lines, ∀ d ∈ line, isSeparator d = false) :
    pieces isSeparator (lines.flatMap fun line => line ++ [c]) = lines ++ [[]] := by
  induction lines with
  | nil => rfl
  | cons line lines ih =>
    have ih := ih fun l hl => h l (List.mem_cons_of_mem line hl)
    rw [List.flatMap_cons, List.append_assoc, List.singleton_append, pieces_append_separator hc,
      pieces_of_forall (h line List.mem_cons_self), ih]
    rfl

/-- The lines of a text. The last is empty if the text ends with a line break. -/
def lines (text : String) : List String :=
  (pieces (· == '\n') text.toList).map String.ofList

theorem lines_join {ls : List String} (h : ∀ l ∈ ls, '\n' ∉ l.toList) :
    lines (String.join (ls.map fun l => l ++ "\n")) = ls ++ [""] := by
  have htext : (String.join (ls.map fun l => l ++ "\n")).toList =
      (ls.map String.toList).flatMap fun l => l ++ ['\n'] := by
    rw [String.toList_join, List.flatMap_map, List.flatMap_map]
    exact congrArg (ls.flatMap ·) (funext fun l => String.toList_append)
  rw [lines, htext, pieces_lines (by decide), List.map_append, List.map_map]
  · simp
  · intro line hline d hd
    obtain ⟨l, hl, rfl⟩ := List.mem_map.1 hline
    rw [beq_eq_false_iff_ne]
    rintro rfl
    exact h l hl hd

end ReducedMips.Text
