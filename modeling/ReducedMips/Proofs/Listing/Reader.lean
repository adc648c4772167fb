import ReducedMips.Proofs.Listing
import ReducedMips.Proofs.Words
/-!
# Reading listings

A listing loses nothing: its raw columns, read line by line, give the bytes of the program back. The
address before the column and the text behind it vary in width, so the column is found by the
blanks: it starts after the first one of a line and ends at the first two in a row.
-/
namespace ReducedMips

namespace Listing

open Numeral

/-- What the raw column of a line shows: a whole word, or the bytes that are left over. -/
inductive Column where
  | word (w : Word)
  | rest (bytes : List Byte)

def Column.toBytes : Column → List Byte
  | .word w => w.toBytes
  | .rest bytes => bytes

/-- The number that is shown by exactly `width` hexadecimal digits. -/
def number? (width : Nat) (digits : List Char) : Option Nat :=
  if digits.length = width ∧ digits.all hexDigits.contains then some (ofHex digits) else none

/-- What stands between the blanks of the raw column of a line. -/
def rawItems (line : String) : List (List Char) :=
  ((Text.pieces (· == ' ') line.toList).drop 1).takeWhile (!·.isEmpty)

/-- Read the raw column of a line. A marked line shows bytes of two digits each, any other line a
word of eight digits. -/
def Column.read? (line : String) : Option Column :=
  if IsMarked line then
    ((rawItems line).mapM (number? 2)).map fun bytes => .rest (bytes.map (BitVec.ofNat 8))
  else
    match rawItems line with
    | [digits] => (number? 8 digits).map fun w => .word (BitVec.ofNat 32 w)
    | _ => none

theorem number?_hex {width n : Nat} (hw : 0 < width) (hn : n < 16 ^ width) :
    number? width (hex width n).toList = some n := by
  have hall : (hex width n).toList.all hexDigits.contains = true :=
    List.all_eq_true.2 fun _ hc => List.contains_iff_mem.2 (mem_hexDigits_of_mem_hex hc)
  rw [number?, if_pos ⟨length_hex hw hn, hall⟩, ofHex_hex]

theorem hex_ne_nil {width n : Nat} (hw : 0 < width) (hn : n < 16 ^ width) :
    (hex width n).toList ≠ [] := by
  rw [← List.length_pos_iff, length_hex hw hn]
  exact hw

theorem ne_blank_of_mem_hex {width n : Nat} {c : Char} (hc : c ∈ (hex width n).toList) :
    (c == ' ') = false := by
  have hall : hexDigits.all (· != ' ') = true := by decide
  simpa using List.all_eq_true.1 hall c (mem_hexDigits_of_mem_hex hc)

theorem pieces_intercalate {items : List String} (hne : items ≠ [])
    (h : ∀ s ∈ items, ∀ c ∈ s.toList, (c == ' ') = false) :
    Text.pieces (· == ' ') (" ".intercalate items).toList = items.map String.toList := by
  induction items with
  | nil => contradiction
  | cons s items ih =>
    have hs := Text.pieces_of_forall (h s List.mem_cons_self)
    cases items with
    | nil =>
      rw [String.intercalate_singleton, hs]
      rfl
    | cons t items =>
      have ih := ih (List.cons_ne_nil t items) fun u hu => h u (List.mem_cons_of_mem s hu)
      have hchars : (" ".intercalate (s :: t :: items)).toList =
          s.toList ++ ' ' :: (" ".intercalate (t :: items)).toList := by
        rw [String.intercalate_cons_cons, String.toList_append, String.toList_append,
          List.append_assoc]
        rfl
      rw [hchars, Text.pieces_append_separator rfl, hs, ih]
      rfl

theorem rawItems_eq {address : Nat} {raw text : String} {items : List (List Char)}
    (hraw : Text.pieces (· == ' ') raw.toList = items) (hne : ∀ item ∈ items, item ≠ []) :
    rawItems (hex 4 address ++ ": " ++ (raw ++ "  " ++ text)) = items := by
  -- the address with its colon is the first item, and an empty item stands behind the column
  have hcolumn : Text.pieces (· == ' ') ((hex 4 address).toList ++ [':']) =
      [(hex 4 address).toList ++ [':']] := by
    apply Text.pieces_of_forall
    intro c hc
    rcases List.mem_append.1 hc with hc | hc
    · exact ne_blank_of_mem_hex hc
    · rw [List.mem_singleton.1 hc]
      rfl
  have hchars : (hex 4 address ++ ": " ++ (raw ++ "  " ++ text)).toList =
      ((hex 4 address).toList ++ [':']) ++ ' ' :: (raw.toList ++ ' ' :: ' ' :: text.toList) := by
    simp only [String.toList_append, List.append_assoc]
    rfl
  rw [rawItems, hchars, Text.pieces_append_separator rfl, hcolumn,
    Text.pieces_append_separator rfl, hraw, Text.pieces_cons_separator _ rfl, List.singleton_append,
    List.drop_one, List.tail_cons, List.takeWhile_append_of_pos]
  · exact List.append_nil items
  · intro item hitem
    simpa using hne item hitem

def Line.column : Line → Column
  | .word _ w => .word w
  | .incomplete _ bytes => .rest bytes

theorem read?_word (address : Nat) (w : Word) :
    Column.read? (Line.word address w).text = some (.word w) := by
  have hmark : ¬ IsMarked (Line.word address w).text := by
    rw [isMarked_text]
    rintro ⟨_, _, h⟩
    cases h
  have hw : w.toNat < 16 ^ 8 := w.isLt
  have hitems : rawItems (Line.word address w).text = [(hex 8 w.toNat).toList] := by
    rw [Line.text_eq]
    refine rawItems_eq (Text.pieces_of_forall fun _ => ne_blank_of_mem_hex) ?_
    intro item hitem
    rw [List.mem_singleton.1 hitem]
    exact hex_ne_nil (by decide) hw
  rw [Column.read?, if_neg hmark, hitems]
  dsimp only
  rw [number?_hex (by decide) hw, Option.map_some, BitVec.ofNat_toNat, BitVec.setWidth_eq]

theorem mapM_map_of_forall {α β γ : Type} {write : α → β} {read? : β → Option γ} {value : α → γ}
    {items : List α} (h : ∀ a ∈ items, read? (write a) = some (value a)) :
    (items.map write).mapM read? = some (items.map value) := by
  induction items with
  | nil => rfl
  | cons a items ih =>
    rw [List.map_cons, List.mapM_cons, h a List.mem_cons_self,
      ih fun b hb => h b (List.mem_cons_of_mem a hb)]
    rfl

theorem read?_incomplete (address : Nat) {bytes : List Byte} (hne : bytes ≠ []) :
    Column.read? (Line.incomplete address bytes).text = some (.rest bytes) := by
  have hb (b : Byte) : b.toNat < 16 ^ 2 := b.isLt
  have hitems : rawItems (Line.incomplete address bytes).text =
      bytes.map fun b => (hex 2 b.toNat).toList := by
    rw [Line.text_eq]
    refine rawItems_eq ?_ ?_
    · rw [pieces_intercalate, List.map_map]
      · rfl
      · rw [ne_eq, List.map_eq_nil_iff]
        exact hne
      · intro s hs
        obtain ⟨b, -, rfl⟩ := List.mem_map.1 hs
        exact fun _ => ne_blank_of_mem_hex
    · intro item hitem
      obtain ⟨b, -, rfl⟩ := List.mem_map.1 hitem
      exact hex_ne_nil (by decide) (hb b)
  rw [Column.read?, if_pos (isMarked_text.2 ⟨address, bytes, rfl⟩), hitems,
    mapM_map_of_forall fun b _ => number?_hex (by decide) (hb b), Option.map_some,
    map_ofNat_toNat]

end Listing

namespace Program

open Listing

variable (p : Program)

/-- The raw columns of a listing. -/
def columns : List Column :=
  p.words.map .word ++ if p.leftover = [] then [] else [.rest p.leftover]

theorem flatMap_toBytes_columns : p.columns.flatMap Column.toBytes = p.toList := by
  have hrest : (if p.leftover = [] then [] else [Column.rest p.leftover]).flatMap Column.toBytes =
      p.leftover := by
    split
    · next h => exact h.symm
    · exact List.append_nil _
  rw [columns, List.flatMap_append, hrest, List.flatMap_map]
  exact p.flatMap_toBytes_words

theorem leftover_eq_nil_iff : p.leftover = [] ↔ p.size % 4 = 0 := by
  rw [← List.length_eq_zero_iff, length_leftover]

theorem map_column_listing : p.listing.map Line.column = p.columns := by
  rw [listing, columns, words, List.map_append, List.map_map, List.map_map]
  simp only [leftover_eq_nil_iff]
  split <;> rfl

theorem mapM_read?_listing : (p.listing.map Line.text).mapM Column.read? = some p.columns := by
  rw [← map_column_listing]
  apply mapM_map_of_forall
  intro line hline
  obtain ⟨k, hk⟩ := List.mem_iff_getElem?.1 hline
  rcases getElem?_listing.1 hk with ⟨-, rfl⟩ | ⟨rfl, hrest, rfl⟩
  · exact read?_word _ _
  · exact read?_incomplete _ fun h => hrest (p.leftover_eq_nil_iff.1 h)

theorem length_listing : p.listing.length = (p.size + 3) / 4 := by
  rw [← List.length_map Line.column, map_column_listing, columns, List.length_append,
    List.length_map, length_words]
  simp only [leftover_eq_nil_iff]
  split
  · simp only [List.length_nil]
    omega
  · simp only [List.length_singleton]
    omega

/-- The lines of a listing below its heading, and the words and bytes in their raw columns. -/
structure Lists (ls : List String) (ws : List Word) (rest : List Byte) : Prop where
  unbroken : ∀ l ∈ heading ++ ls, '\n' ∉ l.toList
  address : ∀ k, ∀ l ∈ ls[k]?, ShowsAddress (4 * k) l
  columns : ls.mapM Column.read? = some (ws.map .word ++ if rest = [] then [] else [.rest rest])
  rest_lt : rest.length < 4

theorem lists_listing : Lists (p.listing.map Line.text) p.words p.leftover where
  unbroken := p.newline_notMem_lines
  address := by
    intro k l hl
    rw [List.getElem?_map, Option.mem_def, Option.map_eq_some_iff] at hl
    obtain ⟨line, hline, rfl⟩ := hl
    rw [showsAddress_text, address_of_listing hline]
  columns := p.mapM_read?_listing
  rest_lt := by
    rw [length_leftover]
    exact Nat.mod_lt _ (by decide)

theorem disassemble_inj {p q : Program} : p.disassemble = q.disassemble ↔ p = q := by
  refine ⟨fun h => ?_, congrArg disassemble⟩
  have hlines := congrArg Text.lines h
  rw [lines_disassemble, lines_disassemble, List.append_assoc, List.append_assoc] at hlines
  have htexts := List.append_cancel_right (List.append_cancel_left hlines)
  have hcolumns := congrArg (List.mapM Column.read?) htexts
  rw [mapM_read?_listing, mapM_read?_listing] at hcolumns
  have hbytes := congrArg (List.flatMap Column.toBytes) (Option.some.inj hcolumns)
  rw [flatMap_toBytes_columns, flatMap_toBytes_columns] at hbytes
  exact congrArg ofList hbytes

/-- No two programs have the same listing. A listing is its heading and one line for every four
bytes, with the address of the first of them, and the raw columns of these lines are the bytes of
the program in order. -/
theorem disassemble_lossless :
    (∀ p q : Program, p.disassemble = q.disassemble ↔ p = q) ∧
    ∀ p : Program, ∃ ls ws rest,
      p.disassemble = String.join ((heading ++ ls).map fun l => l ++ "\n") ∧
      ls.length = (p.size + 3) / 4 ∧ Lists ls ws rest ∧
      ws.flatMap Word.toBytes ++ rest = p.toList := by
  refine ⟨fun p q => disassemble_inj, fun p => ⟨_, _, _, p.disassemble_eq_join, ?_,
    p.lists_listing, p.flatMap_toBytes_words⟩⟩
  rw [List.length_map, length_listing]

end Program

end ReducedMips
