import Mathlib.Algebra.Group.Nat.Defs
import ReducedMips.Image
import ReducedMips.Proofs.Text
import ReducedMips.Proofs.Words
/-!
# Numbers in images

A binary number of the right width is read as its value, and a text of such numbers as the list of
the values. The digits of a word are the number that it is, so words that are written one on a line
are read back.
-/
namespace ReducedMips

namespace Numeral

/-- All bits of a number, the most significant first. -/
def digits {width : Nat} (x : BitVec width) : List Char :=
  (List.range width).map fun k => bit (x.getMsbD k)

theorem binary_eq_digits (w : Word) : binary w = digits w := rfl

@[simp] theorem length_digits {width : Nat} (x : BitVec width) : (digits x).length = width := by
  simp [digits]

def IsBinary (c : Char) : Prop := c = '0' ∨ c = '1'

instance : DecidablePred IsBinary := fun c => inferInstanceAs (Decidable (c = '0' ∨ c = '1'))

theorem isBinary_of_mem_digits {width : Nat} {x : BitVec width} {c : Char} (hc : c ∈ digits x) :
    IsBinary c := by
  obtain ⟨k, _, rfl⟩ := List.mem_map.1 hc
  cases x.getMsbD k
  · exact .inl rfl
  · exact .inr rfl

theorem not_isBlank_of_mem_digits {width : Nat} {x : BitVec width} {c : Char}
    (hc : c ∈ digits x) : Text.isBlank c = false := by
  obtain ⟨k, _, rfl⟩ := List.mem_map.1 hc
  cases x.getMsbD k <;> rfl

private theorem toNat_bit_getMsbD {width : Nat} (x : BitVec width) {k : Nat} (hk : k < width) :
    (bit (x.getMsbD k)).toNat - '0'.toNat = x.toNat / 2 ^ (width - (k + 1)) % 2 := by
  have hmsb : x.getMsbD k = decide (x.toNat / 2 ^ (width - (k + 1)) % 2 = 1) := by
    rw [BitVec.getMsbD_eq_getLsbD, decide_eq_true hk, Bool.true_and, BitVec.getLsbD,
      Nat.testBit_eq_decide_div_mod_eq, Nat.sub_sub, Nat.add_comm 1 k]
  rw [hmsb]
  rcases Nat.mod_two_eq_zero_or_one (x.toNat / 2 ^ (width - (k + 1))) with h | h
  · rw [h]
    rfl
  · rw [h]
    rfl

private theorem ofDigitChars_prefix {width : Nat} (x : BitVec width) {k : Nat} (hk : k ≤ width) :
    Nat.ofDigitChars 2 ((List.range k).map fun i => bit (x.getMsbD i)) 0 =
      x.toNat / 2 ^ (width - k) := by
  induction k with
  | zero =>
    rw [List.range_zero, List.map_nil, Nat.ofDigitChars_nil, Nat.sub_zero]
    exact (Nat.div_eq_of_lt x.isLt).symm
  | succ k ih =>
    have hpow : 2 ^ (width - k) = 2 ^ (width - (k + 1)) * 2 := by
      rw [← Nat.pow_succ]
      congr 1
      omega
    have hbit := toNat_bit_getMsbD x hk
    rw [List.range_succ, List.map_append, Nat.ofDigitChars_append, ih (Nat.le_of_succ_le hk),
      List.map_singleton, Nat.ofDigitChars_cons, Nat.ofDigitChars_nil, hbit, hpow,
      ← Nat.div_div_eq_div_mul]
    omega

theorem ofDigitChars_digits {width : Nat} (x : BitVec width) :
    Nat.ofDigitChars 2 (digits x) 0 = x.toNat := by
  have h := ofDigitChars_prefix x (Nat.le_refl width)
  rw [Nat.sub_self, Nat.pow_zero, Nat.div_one] at h
  exact h

/-- The number that binary digits denote, the most significant first. -/
def binaryValue : List Char → Nat
  | [] => 0
  | c :: cs => (if c = '1' then 2 ^ cs.length else 0) + binaryValue cs

theorem binaryValue_lt (cs : List Char) : binaryValue cs < 2 ^ cs.length := by
  induction cs with
  | nil => exact Nat.one_pos
  | cons c cs ih =>
    simp only [binaryValue, List.length_cons, Nat.pow_succ]
    split <;> omega

theorem ofDigitChars_eq_binaryValue {cs : List Char} (h : ∀ c ∈ cs, IsBinary c) (high : Nat) :
    Nat.ofDigitChars 2 cs high = high * 2 ^ cs.length + binaryValue cs := by
  induction cs generalizing high with
  | nil => simp [binaryValue]
  | cons c cs ih =>
    have ih := ih fun d hd => h d (List.mem_cons_of_mem c hd)
    rw [Nat.ofDigitChars_cons, ih, List.length_cons, Nat.pow_succ, binaryValue]
    rcases h c List.mem_cons_self with rfl | rfl
    · simp
      grind
    · simp
      grind

theorem binaryValue_digits {width : Nat} (x : BitVec width) : binaryValue (digits x) = x.toNat := by
  have hdigits : ∀ c ∈ digits x, IsBinary c := fun _ => isBinary_of_mem_digits
  have h := ofDigitChars_eq_binaryValue hdigits 0
  rw [ofDigitChars_digits, Nat.zero_mul, Nat.zero_add] at h
  exact h.symm

end Numeral

namespace Image

open Numeral

/-- A binary number of exactly `width` digits. -/
def IsNumber (width : Nat) (token : List Char) : Prop :=
  token.length = width ∧ ∀ c ∈ token, IsBinary c

instance (width : Nat) : DecidablePred (IsNumber width) := fun token =>
  inferInstanceAs (Decidable (token.length = width ∧ ∀ c ∈ token, IsBinary c))

theorem isNumber_digits {width : Nat} (x : BitVec width) : IsNumber width (digits x) :=
  ⟨length_digits x, fun _ => isBinary_of_mem_digits⟩

theorem isBinaryDigit_iff {c : Char} : isBinaryDigit c = true ↔ IsBinary c := by
  simp [isBinaryDigit, IsBinary]

theorem readNumber_of_isNumber {width : Nat} (line : Nat) {token : List Char}
    (h : IsNumber width token) : readNumber width line token = .ok (binaryValue token) := by
  obtain ⟨hlen, hbinary⟩ := h
  have hvalue : Nat.ofDigitChars 2 token 0 = binaryValue token := by
    rw [ofDigitChars_eq_binaryValue hbinary, Nat.zero_mul, Nat.zero_add]
  have hfind : token.find? (!isBinaryDigit ·) = none := by
    rw [List.find?_eq_none]
    intro c hc
    simp [isBinaryDigit_iff.2 (hbinary c hc)]
  simp only [readNumber]
  rw [if_neg (not_not_intro hlen), hfind, hvalue]

private theorem mapM_of_forall {width : Nat} {tokens : List (List Char)}
    (hnumbers : ∀ t ∈ tokens, IsNumber width t) (line : Nat) :
    (tokens.zipIdx line).mapM (fun (token, line) => readNumber width line token) =
      .ok (tokens.map binaryValue) := by
  induction tokens generalizing line with
  | nil => rfl
  | cons t tokens ih =>
    have ih := ih (fun s hs => hnumbers s (List.mem_cons_of_mem t hs)) (line + 1)
    rw [List.zipIdx_cons, List.mapM_cons]
    dsimp only
    rw [readNumber_of_isNumber line (hnumbers t List.mem_cons_self), ih]
    rfl

theorem readNumbers_of_forall {width : Nat} {text : List Char}
    (h : ∀ t ∈ Text.tokens text, IsNumber width t) :
    readNumbers width text = .ok ((Text.tokens text).map binaryValue) :=
  mapM_of_forall h 1

theorem readNumbers_of_tokens {width : Nat} {text : List Char} {numbers : List (BitVec width)}
    (h : Text.tokens text = numbers.map digits) :
    readNumbers width text = .ok (numbers.map BitVec.toNat) := by
  rw [readNumbers_of_forall, h, List.map_map]
  · exact congrArg Except.ok (List.map_congr_left fun x _ => binaryValue_digits x)
  · rw [h, List.forall_mem_map]
    exact fun x _ => isNumber_digits x

theorem tokens_digits_lines {width : Nat} (hw : 0 < width) (numbers : List (BitVec width)) :
    Text.tokens (numbers.flatMap fun x => digits x ++ ['\n']) = numbers.map digits := by
  have htokens : Text.tokens ((numbers.map digits).flatMap fun word => word ++ ['\n']) =
      numbers.map digits := by
    apply Text.tokens_lines
    intro word hword
    obtain ⟨x, _, rfl⟩ := List.mem_map.1 hword
    refine ⟨?_, fun c hc => not_isBlank_of_mem_digits hc⟩
    intro hnil
    have hlen := congrArg List.length hnil
    rw [length_digits] at hlen
    exact absurd hlen (Nat.ne_of_gt hw)
  rwa [List.flatMap_map] at htokens

theorem readNumbers_lines {width : Nat} (hw : 0 < width) (numbers : List (BitVec width)) :
    readNumbers width (numbers.flatMap fun x => digits x ++ ['\n']) =
      .ok (numbers.map BitVec.toNat) :=
  readNumbers_of_tokens (tokens_digits_lines hw numbers)

section Parsers

variable {text : String} {numbers : List Nat} {e : ImageError}

theorem parseProgram_of_ok (h : readNumbers 8 text.toList = .ok numbers) :
    parseProgram text = .ok (.ofList (numbers.map (BitVec.ofNat 8))) := by
  simp only [parseProgram]
  rw [h]
  rfl

theorem parseProgram_of_error (h : readNumbers 8 text.toList = .error e) :
    parseProgram text = .error e := by
  simp only [parseProgram]
  rw [h]
  rfl

theorem parseMemory_of_ok (h : readNumbers 32 text.toList = .ok numbers) (capacity : Nat) :
    parseMemory text capacity =
      if numbers.length = capacity then .ok (.ofList (numbers.map (BitVec.ofNat 32)))
      else .error (.lineCount capacity numbers.length) := by
  simp only [parseMemory]
  rw [h]
  change (if numbers.length ≠ capacity then _ else _) = _
  rw [ite_not]
  rfl

theorem parseMemory_of_error (h : readNumbers 32 text.toList = .error e) (capacity : Nat) :
    parseMemory text capacity = .error e := by
  simp only [parseMemory]
  rw [h]
  rfl

end Parsers

/-- Write bytes as an image, one on a line. -/
def formatBytes (bytes : List Byte) : String :=
  String.ofList (bytes.flatMap fun b => digits b ++ ['\n'])

theorem parseProgram_formatBytes (bytes : List Byte) :
    parseProgram (formatBytes bytes) = .ok (.ofList bytes) := by
  have hread : readNumbers 8 (formatBytes bytes).toList = .ok (bytes.map BitVec.toNat) := by
    rw [formatBytes, String.toList_ofList]
    exact readNumbers_lines (by decide) bytes
  rw [parseProgram_of_ok hread, map_ofNat_toNat]

theorem tokens_formatWords (words : List Word) :
    Text.tokens (formatWords words).toList = words.map digits := by
  rw [formatWords, String.toList_ofList]
  simp only [binary_eq_digits]
  exact tokens_digits_lines (by decide) words

theorem readNumbers_formatWords (words : List Word) :
    readNumbers 32 (formatWords words).toList = .ok (words.map BitVec.toNat) :=
  readNumbers_of_tokens (tokens_formatWords words)

theorem parseMemory_of_tokens {text : String} {words : List Word}
    (h : Text.tokens text.toList = words.map digits) :
    parseMemory text words.length = .ok (.ofList words) := by
  rw [parseMemory_of_ok (readNumbers_of_tokens h), if_pos (List.length_map _), map_ofNat_toNat]

/-- Dumped words read back as the memory that holds them. -/
theorem parseMemory_formatWords (words : List Word) :
    parseMemory (formatWords words) words.length = .ok (.ofList words) :=
  parseMemory_of_tokens (tokens_formatWords words)

theorem capacity_of_parseMemory {text : String} {capacity : Nat} {memory : Memory}
    (h : parseMemory text capacity = .ok memory) : memory.capacity = capacity := by
  cases hread : readNumbers 32 text.toList with
  | error e =>
    rw [parseMemory_of_error hread] at h
    cases h
  | ok words =>
    rw [parseMemory_of_ok hread] at h
    by_cases hlen : words.length = capacity
    · rw [if_pos hlen] at h
      cases h
      rw [← hlen]
      exact List.length_map _
    · rw [if_neg hlen] at h
      cases h

end Image

end ReducedMips
