import ReducedMips.Instruction.Assembly
import ReducedMips.Proofs.Numeral
import ReducedMips.Proofs.Text
/-!
# Words of assembly

A line of assembly is a row of words: a mnemonic and numerals, with punctuation between them.
-/
namespace ReducedMips.Assembly

open Numeral Instruction

def isPunctuation (c : Char) : Bool := c ∈ [' ', ',', '$', '(', ')']

/-- The mnemonic of a line and its operands, in the order in which they are shown. -/
def words (line : String) : List String :=
  (Text.runs isPunctuation line.toList).map String.ofList

theorem words_append (s separator t : String)
    (hs : separator ≠ "" ∧ separator.toList.all isPunctuation = true) :
    words (s ++ separator ++ t) = words s ++ words t := by
  obtain ⟨hne, hs⟩ := hs
  cases hl : separator.toList with
  | nil => exact absurd (String.toList_eq_nil_iff.1 hl) hne
  | cons c separators =>
    rw [hl, List.all_eq_true, List.forall_mem_cons] at hs
    simp only [words]
    rw [String.toList_append, String.toList_append, hl, List.append_assoc, List.cons_append,
      Text.runs_append_separator hs.1, Text.runs_separators_append hs.2, List.map_append]

theorem words_of_forall {s : String} (hne : s ≠ "")
    (hs : ∀ c ∈ s.toList, isPunctuation c = false) : words s = [s] := by
  rw [words, Text.runs_of_forall (fun h => hne (String.toList_eq_nil_iff.1 h)) hs,
    List.map_singleton, String.ofList_toList]

theorem not_isPunctuation_of_mem_alphabet {c : Char} (hc : c ∈ alphabet) :
    isPunctuation c = false := by
  have hall : alphabet.all (fun c => !isPunctuation c) = true := by decide
  simpa using List.all_eq_true.1 hall c hc

theorem words_decimal (n : Nat) : words (decimal n) = [decimal n] :=
  words_of_forall Nat.repr_ne_empty fun _ hc =>
    not_isPunctuation_of_mem_alphabet (mem_alphabet_of_mem_decimal hc)

theorem words_registerName (field : Word) :
    words (registerName field) = [decimal field.toNat] := by
  have h := words_append "" "$" (decimal field.toNat) (by decide)
  rw [words_decimal] at h
  exact h

theorem words_immediate (imm : Word) : words (immediate imm) = [immediate imm] := by
  have hne : immediate imm ≠ "" := by
    intro h
    rw [immediate, signed_eq] at h
    split at h
    · exact Nat.repr_ne_empty h
    · have htext := congrArg String.toList h
      rw [String.toList_append] at htext
      cases htext
  exact words_of_forall hne fun _ hc =>
    not_isPunctuation_of_mem_alphabet (mem_alphabet_of_mem_signed hc)

theorem words_hex (width n : Nat) : words ("0x" ++ hex width n) = ["0x" ++ hex width n] := by
  have htext : ("0x" ++ hex width n).toList = '0' :: 'x' :: (hex width n).toList :=
    String.toList_append
  refine words_of_forall (fun h => ?_) ?_
  · rw [h] at htext
    cases htext
  · rw [htext]
    simp only [List.forall_mem_cons]
    exact ⟨rfl, rfl, fun c hc =>
      not_isPunctuation_of_mem_alphabet (mem_alphabet_of_mem_hex hc)⟩

theorem words_mnemonic (op : AluOp) : words op.mnemonic = [op.mnemonic] := by
  cases op <;> decide

theorem words_commas {name : String} (hn : words name = [name]) (a b : Word) {c operand : String}
    (hc : words c = [operand]) :
    words (name ++ " " ++ registerName a ++ ", " ++ registerName b ++ ", " ++ c) =
      [name, decimal a.toNat, decimal b.toNat, operand] := by
  rw [words_append _ ", " _ (by decide), words_append _ ", " _ (by decide),
    words_append _ " " _ (by decide), hn, words_registerName, words_registerName, hc]
  rfl

theorem words_address {name : String} (hn : words name = [name]) (a b imm : Word) :
    words (name ++ " " ++ registerName a ++ ", " ++ immediate imm ++ "(" ++ registerName b ++ ")") =
      [name, decimal a.toNat, immediate imm, decimal b.toNat] := by
  have h := words_append (name ++ " " ++ registerName a ++ ", " ++ immediate imm ++ "(" ++
    registerName b) ")" "" (by decide)
  rw [String.append_empty] at h
  rw [h, words_append _ "(" _ (by decide), words_append _ ", " _ (by decide),
    words_append _ " " _ (by decide), hn, words_registerName, words_immediate, words_registerName]
  rfl

theorem words_number {name : String} (hn : words name = [name]) (width n : Nat) :
    words (name ++ " " ++ ("0x" ++ hex width n)) = [name, "0x" ++ hex width n] := by
  rw [words_append _ " " _ (by decide), hn, words_hex]
  rfl

end ReducedMips.Assembly
