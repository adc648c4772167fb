import ReducedMips.Proofs.Concatenation
import ReducedMips.Proofs.Image.Dump
/-!
# Regrouped images

When a blank is put in after every eighth digit of the image of a memory, the text becomes the image
of a program: the four numbers of each token are the bytes of its word, the most significant first.
-/
namespace ReducedMips

namespace Text

/-- A text, and the same text with a blank put in after every `width` characters of each token. The
number counts the characters since the token began or since the last blank that was put in. -/
inductive Regrouped (width : Nat) : Nat → List Char → List Char → Prop
  | nil {count : Nat} : Regrouped width count [] []
  | blank {count : Nat} {c : Char} {text text' : List Char} (hc : isBlank c = true)
      (h : Regrouped width 0 text text') : Regrouped width count (c :: text) (c :: text')
  | next {count : Nat} {c : Char} {text text' : List Char} (hc : isBlank c = false)
      (hcount : count + 1 ≠ width) (h : Regrouped width (count + 1) text text') :
      Regrouped width count (c :: text) (c :: text')
  | last {count : Nat} {c b : Char} {text text' : List Char} (hc : isBlank c = false)
      (hcount : count + 1 = width) (hb : isBlank b = true) (h : Regrouped width 0 text text') :
      Regrouped width count (c :: text) (c :: b :: text')

variable {width count : Nat} {text text' : List Char}

/-- Put the same blank in everywhere. -/
def regroup (width : Nat) (b : Char) : Nat → List Char → List Char
  | _, [] => []
  | count, c :: text =>
    if isBlank c then c :: regroup width b 0 text
    else if count + 1 = width then c :: b :: regroup width b 0 text
    else c :: regroup width b (count + 1) text

theorem regrouped_regroup (width count : Nat) {b : Char} (hb : isBlank b = true)
    (text : List Char) : Regrouped width count text (regroup width b count text) := by
  induction text generalizing count with
  | nil => exact .nil
  | cons c text ih =>
    simp only [regroup]
    split
    · next hc => exact .blank hc (ih 0)
    · next hc =>
      rw [Bool.not_eq_true] at hc
      split
      · next hcount => exact .last hc hcount hb (ih 0)
      · next hcount => exact .next hc hcount (ih (count + 1))

theorem Regrouped.exists_rest {piece rest : List Char} (hne : piece ≠ [])
    (hpiece : ∀ c ∈ piece, isBlank c = false) (hlength : count + piece.length = width)
    (h : Regrouped width count (piece ++ rest) text') :
    ∃ b rest', isBlank b = true ∧ text' = piece ++ b :: rest' ∧ Regrouped width 0 rest rest' := by
  induction piece generalizing count text' with
  | nil => exact absurd rfl hne
  | cons c piece ih =>
    obtain ⟨hc, hpiece⟩ := List.forall_mem_cons.1 hpiece
    rw [List.length_cons] at hlength
    cases h with
    | blank hblank => rw [hc] at hblank; cases hblank
    | next _ hcount h =>
      -- characters are still missing, so this is not the last one of the piece
      have hne : piece ≠ [] := by
        rintro rfl
        exact hcount hlength
      obtain ⟨b, rest', hb, rfl, hrest⟩ := ih hne hpiece (by omega) h
      exact ⟨b, rest', hb, rfl, hrest⟩
    | @last _ _ b _ rest' _ hcount hb h =>
      have hnil : piece = [] := List.length_eq_zero_iff.1 (by omega)
      subst hnil
      exact ⟨b, rest', hb, rfl, h⟩

theorem Regrouped.tokens_flatten {pieces : List (List Char)} {rest : List Char} (hw : 0 < width)
    (hpieces : ∀ piece ∈ pieces, piece.length = width ∧ ∀ c ∈ piece, isBlank c = false)
    (h : Regrouped width 0 (pieces.flatten ++ rest) text') :
    ∃ rest', Regrouped width 0 rest rest' ∧ tokens text' = pieces ++ tokens rest' := by
  induction pieces generalizing text' with
  | nil => exact ⟨text', h, rfl⟩
  | cons piece pieces ih =>
    obtain ⟨⟨hlength, hpiece⟩, hpieces⟩ := List.forall_mem_cons.1 hpieces
    have hne : piece ≠ [] := by
      rintro rfl
      exact absurd hlength (Nat.ne_of_lt hw)
    rw [List.flatten_cons, List.append_assoc] at h
    obtain ⟨b, rest', hb, rfl, hrest⟩ := h.exists_rest hne hpiece (by omega)
    obtain ⟨rest'', hrest', htokens⟩ := ih hpieces hrest
    refine ⟨rest'', hrest', ?_⟩
    rw [tokens_append_token hne hpiece (by simpa using hb), tokens_cons_blank hb, htokens]
    rfl

/-- A text is regrouped into the pieces of its tokens. -/
theorem Regrouped.tokens_eq {groups : List (List (List Char))} (hw : 0 < width)
    (hpieces : ∀ pieces ∈ groups, ∀ piece ∈ pieces,
      piece.length = width ∧ ∀ c ∈ piece, isBlank c = false)
    (htokens : Tokenizes text (groups.map List.flatten)) (h : Regrouped width 0 text text') :
    tokens text' = groups.flatten := by
  generalize hts : groups.map List.flatten = ts at htokens
  induction htokens generalizing groups text' with
  | nil =>
    rw [List.map_eq_nil_iff.1 hts]
    cases h
    rfl
  | blank hc _ ih =>
    cases h with
    | blank _ h => rw [tokens_cons_blank hc, ih hpieces h hts]
    | next hc' => rw [hc] at hc'; cases hc'
    | last hc' => rw [hc] at hc'; cases hc'
  | token _ _ _ _ ih =>
    obtain ⟨pieces, groups, rfl, rfl, hothers⟩ := List.map_eq_cons_iff.1 hts
    obtain ⟨hpieces, hgroups⟩ := List.forall_mem_cons.1 hpieces
    obtain ⟨rest', hrest, htokens⟩ := h.tokens_flatten hw hpieces
    rw [htokens, ih hgroups hrest hothers]
    rfl

end Text

namespace Numeral

theorem digits_append {m n : Nat} (x : BitVec m) (y : BitVec n) :
    digits (x ++ y) = digits x ++ digits y := by
  simp only [digits]
  rw [List.range_add, List.map_append, List.map_map]
  congr 1
  · apply List.map_congr_left
    intro k hk
    rw [BitVec.getMsbD_append, if_neg (Nat.not_le.2 (List.mem_range.1 hk))]
  · apply List.map_congr_left
    intro k _
    rw [Function.comp_apply, BitVec.getMsbD_append, if_pos (Nat.le_add_right m k),
      Nat.add_sub_cancel_left]

theorem flatten_digits_toBytes (w : Word) : (w.toBytes.map digits).flatten = digits w := by
  have hdigits : digits (Word.ofBytes (w.extractLsb' 24 8) (w.extractLsb' 16 8)
      (w.extractLsb' 8 8) (w.extractLsb' 0 8)) = (w.toBytes.map digits).flatten := by
    simp only [Word.ofBytes]
    rw [digits_append, digits_append, digits_append]
    simp [Word.toBytes]
  rw [← hdigits, w.ofBytes_toBytes]

end Numeral

namespace Image

open Numeral

variable {text text' : String} {words : List Word}

theorem parseProgram_regrouped (htokens : Text.tokens text.toList = words.map digits)
    (h : Text.Regrouped 8 0 text.toList text'.toList) :
    parseProgram text' = .ok (.ofList (words.flatMap Word.toBytes)) := by
  let groups := words.map fun w => w.toBytes.map digits
  have hgroups : groups.map List.flatten = words.map digits := by
    rw [List.map_map]
    exact List.map_congr_left fun w _ => flatten_digits_toBytes w
  have hpieces : ∀ pieces ∈ groups, ∀ piece ∈ pieces,
      piece.length = 8 ∧ ∀ c ∈ piece, Text.isBlank c = false := by
    intro pieces hpieces piece hpiece
    obtain ⟨w, -, rfl⟩ := List.mem_map.1 hpieces
    obtain ⟨b, -, rfl⟩ := List.mem_map.1 hpiece
    exact ⟨length_digits b, fun _ => not_isBlank_of_mem_digits⟩
  have hbytes : Text.tokens text'.toList = (words.flatMap Word.toBytes).map digits := by
    have hdivided : Text.Tokenizes text.toList (groups.map List.flatten) := by
      rw [Text.tokenizes_iff, htokens, hgroups]
    rw [h.tokens_eq (by decide) hpieces hdivided, List.map_flatMap]
    exact (List.flatMap_def ..).symm
  rw [parseProgram_of_ok (readNumbers_of_tokens hbytes), map_ofNat_toNat]

/-- The words of a program, dumped and regrouped, give the program. -/
theorem parseProgram_regrouped_words {p : Program} (hp : p.size % 4 = 0)
    (h : Text.Regrouped 8 0 (formatWords p.words).toList text'.toList) :
    parseProgram text' = .ok p := by
  have hleftover : p.leftover = [] := by
    rw [← List.length_eq_zero_iff, p.length_leftover, hp]
  have hbytes := p.flatMap_toBytes_words
  rw [hleftover, List.append_nil] at hbytes
  rw [parseProgram_regrouped (tokens_formatWords p.words) h, hbytes, Program.ofList_toList]

theorem exists_word_of_lt {i : Nat} (hi : i < words.length) : ∃ w,
    (Program.ofList (words.flatMap Word.toBytes)).word? (4 * i) = some w ∧
      (Memory.ofList words).get? i = some w := by
  have hsize := Program.size_flatMap_toBytes words
  refine ⟨words[i], ?_, ?_⟩
  · rw [Program.word?, if_pos (by omega), Program.wordAt_flatMap_toBytes words hi]
  · simp [Memory.ofList, Memory.get?, hi]

/-- The image of a memory and its regrouping, read as the image of a program, give the same words,
whichever blanks are put in. Words of a program that are dumped and regrouped give the program. -/
theorem images_agree :
    (∀ text : String, ∃ text' : String, Text.Regrouped 8 0 text.toList text'.toList) ∧
    (∀ (text text' : String) (tokens : List (List Char)), Text.Tokenizes text.toList tokens →
      (∀ t ∈ tokens, IsNumber 32 t) → Text.Regrouped 8 0 text.toList text'.toList →
      ∃ m p, parseMemory text tokens.length = .ok m ∧ parseProgram text' = .ok p ∧
        p.size = 4 * tokens.length ∧
        ∀ i < tokens.length, ∃ w, p.word? (4 * i) = some w ∧ m.get? i = some w) ∧
    ∀ (p : Program) (text' : String), p.size % 4 = 0 →
      Text.Regrouped 8 0 (formatWords p.words).toList text'.toList → parseProgram text' = .ok p := by
  refine ⟨?_, ?_, fun _ _ => parseProgram_regrouped_words⟩
  · intro text
    refine ⟨String.ofList (Text.regroup 8 '\n' 0 text.toList), ?_⟩
    rw [String.toList_ofList]
    exact Text.regrouped_regroup 8 0 rfl text.toList
  · intro text text' tokens htokens hnumbers h
    let words := tokens.map fun t => BitVec.ofNat 32 (binaryValue t)
    have hdigits : words.map digits = tokens := by
      rw [List.map_map]
      exact (List.map_congr_left fun t ht => digits_ofNat (hnumbers t ht)).trans (List.map_id _)
    have hlength : tokens.length = words.length := (List.length_map _).symm
    have htokens : Text.tokens text.toList = words.map digits := by
      rw [hdigits]
      exact htokens.tokens_eq
    rw [hlength]
    exact ⟨.ofList words, .ofList (words.flatMap Word.toBytes), parseMemory_of_tokens htokens,
      parseProgram_regrouped htokens h, Program.size_flatMap_toBytes words,
      fun _ => exists_word_of_lt⟩

/-- An image with a tab in front, regrouped by ideographic spaces, and a dumped program regrouped by
blanks. -/
theorem images_agree_spaced :
    let text := "\t00000001001000110100010101100111\n10001001101010111100110111101111"
    let text' := "\t00000001\u300000100011\u300001000101\u300001100111\u3000\n" ++
      "10001001\u300010101011\u300011001101\u300011101111\u3000"
    let p : Program := .ofList [0x00, 0x22, 0x18, 0x21]
    (∃ m p, parseMemory text 2 = .ok m ∧ parseProgram text' = .ok p ∧ p.size = 8 ∧
      ∀ i < 2, ∃ w, p.word? (4 * i) = some w ∧ m.get? i = some w) ∧
    parseProgram "00000000 00100010 00011000 00100001 \n" = .ok p := by
  intro text text' p
  obtain ⟨-, hmemory, hprogram⟩ := images_agree
  let words : List Word := [0x01234567, 0x89ABCDEF]
  have htokens : Text.Tokenizes text.toList (words.map digits) :=
    Text.tokenizes_iff.2 (by decide +kernel)
  have hnumbers : ∀ t ∈ words.map digits, IsNumber 32 t :=
    List.forall_mem_map.2 fun w _ => isNumber_digits w
  have h : Text.Regrouped 8 0 text.toList text'.toList := by
    rw [show text'.toList = Text.regroup 8 '\u3000' 0 text.toList by decide +kernel]
    exact Text.regrouped_regroup 8 0 rfl text.toList
  have h' : Text.Regrouped 8 0 (formatWords p.words).toList
      "00000000 00100010 00011000 00100001 \n".toList := by
    rw [show "00000000 00100010 00011000 00100001 \n".toList =
      Text.regroup 8 ' ' 0 (formatWords p.words).toList by decide +kernel]
    exact Text.regrouped_regroup 8 0 rfl _
  exact ⟨hmemory text text' _ htokens hnumbers h, hprogram p _ (by decide) h'⟩

end Image

end ReducedMips
