import Mathlib.Data.Nat.Init
import ReducedMips.Listing
import ReducedMips.Proofs.Numeral
import ReducedMips.Proofs.Text
/-!
# Lines of a listing

A listing has three lines of heading, then a line for each whole word, and a marked line for what
is left over. The address stands in the first column, and no two lines show the same.
-/
namespace ReducedMips

namespace Listing

open Numeral

/-- A text that neither ends a line nor starts a remark. -/
def Unmarked (s : String) : Prop := ∀ c ∈ s.toList, c ≠ '\n' ∧ c ≠ ';'

instance (s : String) : Decidable (Unmarked s) := List.decidableBAll _ s.toList

theorem unmarked_append {s t : String} : Unmarked (s ++ t) ↔ Unmarked s ∧ Unmarked t := by
  simp only [Unmarked]
  rw [String.toList_append]
  exact List.forall_mem_append

theorem unmarked_of_alphabet {s : String} (h : ∀ c ∈ s.toList, c ∈ alphabet) : Unmarked s := by
  have hall : Unmarked "-0123456789abcdef" := by decide
  exact fun c hc => hall c (h c hc)

theorem unmarked_hex (width n : Nat) : Unmarked (hex width n) :=
  unmarked_of_alphabet fun _ => mem_alphabet_of_mem_hex

theorem unmarked_registerName (field : Word) : Unmarked (Instruction.registerName field) :=
  unmarked_append.2 ⟨by decide, unmarked_of_alphabet fun _ => mem_alphabet_of_mem_decimal⟩

theorem unmarked_immediate (imm : Word) : Unmarked (Instruction.immediate imm) :=
  unmarked_of_alphabet fun _ => mem_alphabet_of_mem_signed

theorem unmarked_rawWord (w : Word) : Unmarked (Instruction.rawWord w) :=
  unmarked_append.2 ⟨by decide, unmarked_hex 8 w.toNat⟩

theorem unmarked_operationName {funct : Word} {name : String}
    (h : Instruction.operationName? funct = some name) : Unmarked name := by
  rw [Instruction.operationName?_eq] at h
  obtain ⟨op, -, rfl⟩ := Option.map_eq_some_iff.1 h
  cases op <;> decide

theorem unmarked_intercalate {separator : String} {parts : List String}
    (hs : Unmarked separator) (h : ∀ s ∈ parts, Unmarked s) :
    Unmarked (separator.intercalate parts) := by
  induction parts with
  | nil =>
    rw [String.intercalate_nil]
    decide
  | cons s parts ih =>
    have hparts : ∀ t ∈ parts, Unmarked t := fun t ht => h t (List.mem_cons_of_mem s ht)
    cases parts with
    | nil =>
      rw [String.intercalate_singleton]
      exact h s List.mem_cons_self
    | cons t parts =>
      rw [String.intercalate_cons_cons, unmarked_append, unmarked_append]
      exact ⟨⟨h s List.mem_cons_self, hs⟩, ih hparts⟩

theorem unmarked_assembly (i : Instruction) : Unmarked i.assembly := by
  cases i with
  | r f =>
    simp only [Instruction.assembly]
    split
    · next hname =>
      simp only [unmarked_append, unmarked_operationName hname, unmarked_registerName, and_true,
        true_and]
      decide
    · exact unmarked_rawWord _
  | i f =>
    simp only [Instruction.assembly]
    split
    case h_5 => exact unmarked_rawWord _
    all_goals
      simp only [unmarked_append, unmarked_immediate, unmarked_registerName, and_true]
      decide
  | j f =>
    simp only [Instruction.assembly]
    split
    · exact unmarked_append.2 ⟨by decide, unmarked_hex 1 _⟩
    · exact unmarked_rawWord _
  | halt => decide

def heading : List String := ["; MIPS Disassembly", "; ----------------", ""]

/-- The remark on a line that shows less than a word. -/
def mark : String := "; incomplete word"

def IsMarked (line : String) : Prop := mark.toList <:+ line.toList

/-- A line shows an address in its first column. -/
def ShowsAddress (address : Nat) (line : String) : Prop :=
  (hex 4 address ++ ": ").toList <+: line.toList

instance (line : String) : Decidable (IsMarked line) :=
  inferInstanceAs (Decidable (mark.toList <:+ line.toList))

def Line.address : Line → Nat
  | .word address _ => address
  | .incomplete address _ => address

/-- What follows the address on a line. -/
def Line.content : Line → String
  | .word _ w => hex 8 w.toNat ++ "  " ++ (Instruction.decode w).assembly
  | .incomplete _ bytes => " ".intercalate (bytes.map fun b => hex 2 b.toNat) ++ "  " ++ mark

theorem Line.text_eq (line : Line) : line.text = hex 4 line.address ++ ": " ++ line.content := by
  cases line <;> simp [text, address, content, mark, String.append_assoc]

theorem isPrefix_append (s t : String) : s.toList <+: (s ++ t).toList := by
  rw [String.toList_append]
  exact List.prefix_append _ _

theorem isSuffix_append (s t : String) : t.toList <:+ (s ++ t).toList := by
  rw [String.toList_append]
  exact List.suffix_append _ _

theorem takeWhile_hex (width n : Nat) (rest : List Char) :
    ((hex width n).toList ++ (": ".toList ++ rest)).takeWhile (· != ':') = (hex width n).toList := by
  have hdigits : alphabet.all (· != ':') = true := by decide
  rw [List.takeWhile_append_of_pos fun c hc =>
    List.all_eq_true.1 hdigits c (mem_alphabet_of_mem_hex hc)]
  exact List.append_nil _

theorem showsAddress_text {line : Line} {address : Nat} :
    ShowsAddress address line.text ↔ address = line.address := by
  rw [ShowsAddress, line.text_eq]
  constructor
  · rintro ⟨rest, h⟩
    rw [String.toList_append, String.toList_append, String.toList_append, List.append_assoc,
      List.append_assoc] at h
    -- the column ends at the first colon, and no digit is one
    have hcolumn := congrArg (List.takeWhile (· != ':')) h
    rw [takeWhile_hex, takeWhile_hex] at hcolumn
    exact hex_injective (String.toList_inj.1 hcolumn)
  · rintro rfl
    exact isPrefix_append _ _

theorem not_showsAddress_heading {line : String} (h : line ∈ heading) (address : Nat) :
    ¬ ShowsAddress address line := by
  have hcolon : ∀ line ∈ heading, ':' ∉ line.toList := by decide
  intro hshows
  refine hcolon line h (hshows.subset ?_)
  rw [String.toList_append]
  exact List.mem_append_right _ List.mem_cons_self

theorem not_isMarked_heading {line : String} (h : line ∈ heading) : ¬ IsMarked line := by
  revert line
  decide

theorem unmarked_word (address : Nat) (w : Word) : Unmarked (Line.word address w).text := by
  simp only [Line.text, unmarked_append, unmarked_hex, unmarked_assembly, and_true, true_and]
  decide

theorem isMarked_text {line : Line} :
    IsMarked line.text ↔ ∃ address bytes, line = .incomplete address bytes := by
  cases line with
  | word address w =>
    constructor
    · intro h
      exact absurd rfl (unmarked_word address w ';' (h.subset List.mem_cons_self)).2
    · rintro ⟨_, _, h⟩
      cases h
  | incomplete address bytes =>
    refine ⟨fun _ => ⟨address, bytes, rfl⟩, fun _ => ?_⟩
    rw [IsMarked, Line.text_eq, Line.content, ← String.append_assoc]
    exact isSuffix_append _ mark

theorem newline_notMem_text (line : Line) : '\n' ∉ line.text.toList := by
  cases line with
  | word address w => exact fun h => (unmarked_word address w _ h).1 rfl
  | incomplete address bytes =>
    have hbytes : Unmarked (hex 4 address ++ ": " ++
        " ".intercalate (bytes.map fun b => hex 2 b.toNat)) := by
      refine unmarked_append.2 ⟨unmarked_append.2 ⟨unmarked_hex 4 address, by decide⟩,
        unmarked_intercalate (by decide) fun s hs => ?_⟩
      obtain ⟨b, -, rfl⟩ := List.mem_map.1 hs
      exact unmarked_hex 2 b.toNat
    rw [Line.text, String.toList_append, List.mem_append, not_or]
    exact ⟨fun h => (hbytes _ h).1 rfl, by decide⟩

end Listing

namespace Program

open Listing

variable {p : Program}

theorem getElem?_listing {k : Nat} {line : Line} : p.listing[k]? = some line ↔
    (k < p.size / 4 ∧ line = .word (4 * k) (p.wordAt (4 * k))) ∨
      (k = p.size / 4 ∧ p.size % 4 ≠ 0 ∧ line = .incomplete (4 * k) (p.toList.drop (4 * k))) := by
  have hlength : ((List.range (p.size / 4)).map fun k =>
      Line.word (4 * k) (p.wordAt (4 * k))).length = p.size / 4 := by
    rw [List.length_map, List.length_range]
  simp only [listing]
  by_cases hk : k < p.size / 4
  · rw [List.getElem?_append_left (by rw [hlength]; exact hk), List.getElem?_map,
      List.getElem?_range hk]
    simp [hk, Nat.ne_of_lt hk, eq_comm]
  · rw [List.getElem?_append_right (by rw [hlength]; exact Nat.le_of_not_lt hk), hlength]
    by_cases hrest : p.size % 4 = 0
    · simp [hk, hrest]
    · rw [if_neg hrest, List.getElem?_singleton]
      by_cases heq : k = p.size / 4
      · simp [heq, hrest, eq_comm]
      · simp [hk, heq, show k - p.size / 4 ≠ 0 by omega]

theorem newline_notMem_heading : ∀ line ∈ heading, '\n' ∉ line.toList := by decide

theorem disassemble_eq_join (p : Program) : p.disassemble =
    String.join ((heading ++ p.listing.map Line.text).map fun line => line ++ "\n") := by
  have hheader : header = String.join (heading.map fun line => line ++ "\n") := by decide
  rw [disassemble, hheader, List.map_append, String.join_append, List.map_map]
  rfl

theorem newline_notMem_lines (p : Program) :
    ∀ line ∈ heading ++ p.listing.map Line.text, '\n' ∉ line.toList := by
  intro line hline
  rcases List.mem_append.1 hline with hline | hline
  · exact newline_notMem_heading line hline
  · obtain ⟨entry, -, rfl⟩ := List.mem_map.1 hline
    exact newline_notMem_text entry

theorem lines_disassemble (p : Program) :
    Text.lines p.disassemble = heading ++ p.listing.map Line.text ++ [""] := by
  rw [disassemble_eq_join, Text.lines_join p.newline_notMem_lines]

example : Text.lines (ofList [0xAC, 0x04, 0x00, 0x02, 0x01, 0x02]).disassemble =
    ["; MIPS Disassembly", "; ----------------", "", "0000: ac040002  sw $4, 2($0)",
      "0004: 01 02  ; incomplete word", ""] := by
  decide +kernel

theorem getElem?_lines_add (p : Program) (k : Nat) :
    (Text.lines p.disassemble)[3 + k]? = (p.listing.map Line.text ++ [""])[k]? := by
  rw [lines_disassemble, List.append_assoc, List.getElem?_append_right (Nat.le_add_right 3 k),
    show heading.length = 3 from rfl, Nat.add_sub_cancel_left]

theorem getElem?_lines_of_listing {k : Nat} {entry : Line} (h : p.listing[k]? = some entry) :
    (Text.lines p.disassemble)[3 + k]? = some entry.text := by
  have hk : k < (p.listing.map Line.text).length := by
    rw [List.length_map]
    exact (List.getElem?_eq_some_iff.1 h).1
  rw [getElem?_lines_add, List.getElem?_append_left hk, List.getElem?_map, h]
  rfl

theorem getElem?_lines {i : Nat} {line : String} (h : (Text.lines p.disassemble)[i]? = some line) :
    line ∈ heading ∨
      ∃ k entry, i = 3 + k ∧ p.listing[k]? = some entry ∧ line = entry.text := by
  by_cases hi : i < 3
  · rw [lines_disassemble, List.append_assoc, List.getElem?_append_left hi] at h
    exact .inl (List.mem_of_getElem? h)
  · obtain ⟨k, rfl⟩ := Nat.exists_eq_add_of_le (Nat.le_of_not_lt hi)
    rw [getElem?_lines_add] at h
    by_cases hk : k < p.listing.length
    · rw [List.getElem?_append_left (by rwa [List.length_map]), List.getElem?_map,
        Option.map_eq_some_iff] at h
      obtain ⟨entry, hentry, rfl⟩ := h
      exact .inr ⟨k, entry, rfl, hentry, rfl⟩
    · -- the empty line at the end reads like the last of the heading
      rw [List.getElem?_append_right (by rw [List.length_map]; omega)] at h
      rw [List.mem_singleton.1 (List.mem_of_getElem? h)]
      exact .inl (by decide)

theorem address_of_listing {k : Nat} {entry : Line} (h : p.listing[k]? = some entry) :
    entry.address = 4 * k := by
  rcases getElem?_listing.1 h with ⟨-, rfl⟩ | ⟨-, -, rfl⟩ <;> rfl

/-- A listing shows a word and its text on the line of an address, and the address on no other. -/
structure Shows (p : Program) (address : Nat) (w : Word) (text : String) : Prop where
  line : (Text.lines p.disassemble)[3 + address / 4]? =
    some (Numeral.hex 4 address ++ ": " ++ Numeral.hex 8 w.toNat ++ "  " ++ text)
  only : ∀ i line, (Text.lines p.disassemble)[i]? = some line → ShowsAddress address line →
    i = 3 + address / 4

/-- A listing has a marked line at an address. -/
def Incomplete (p : Program) (address : Nat) : Prop :=
  ∃ line ∈ Text.lines p.disassemble, ShowsAddress address line ∧ IsMarked line

theorem shows_wordAt {address : Nat} (ha : address % 4 = 0) (hle : address + 4 ≤ p.size) :
    p.Shows address (p.wordAt address) (Instruction.decode (p.wordAt address)).assembly := by
  have hfirst : 4 * (address / 4) = address := by omega
  have hlisting : p.listing[address / 4]? = some (.word address (p.wordAt address)) := by
    refine getElem?_listing.2 (.inl ⟨by omega, ?_⟩)
    rw [hfirst]
  have htext := getElem?_lines_of_listing hlisting
  rw [Line.text] at htext
  refine ⟨htext, fun i line hline hshows => ?_⟩
  rcases getElem?_lines hline with hheading | ⟨k, entry, rfl, hentry, rfl⟩
  · exact absurd hshows (not_showsAddress_heading hheading address)
  · rw [showsAddress_text, address_of_listing hentry] at hshows
    omega

theorem incomplete_iff (p : Program) (address : Nat) :
    p.Incomplete address ↔ p.size % 4 ≠ 0 ∧ address = 4 * (p.size / 4) := by
  constructor
  · rintro ⟨line, hline, hshows, hmarked⟩
    obtain ⟨i, hi⟩ := List.mem_iff_getElem?.1 hline
    rcases getElem?_lines hi with hheading | ⟨k, entry, -, hentry, rfl⟩
    · exact absurd hmarked (not_isMarked_heading hheading)
    · rw [showsAddress_text, address_of_listing hentry] at hshows
      rcases getElem?_listing.1 hentry with ⟨-, rfl⟩ | ⟨rfl, hrest, -⟩
      · obtain ⟨_, _, h⟩ := isMarked_text.1 hmarked
        cases h
      · exact ⟨hrest, hshows⟩
  · rintro ⟨hrest, rfl⟩
    have hentry := getElem?_listing.2 (.inr ⟨rfl, hrest, rfl⟩)
    exact ⟨_, List.mem_of_getElem? (getElem?_lines_of_listing hentry), showsAddress_text.2 rfl,
      isMarked_text.2 ⟨_, _, rfl⟩⟩

end Program

end ReducedMips
