import Mathlib.Data.Nat.Digits.Defs
import ReducedMips.Numeral
/-!
# Reading numerals

Decimal and hexadecimal numerals are read back as the numbers that they show, and hold no other
characters than digits and a sign.
-/
namespace ReducedMips.Numeral

/-- The characters of numerals. -/
def alphabet : List Char := "-0123456789abcdef".toList

/-- The digits of hexadecimal numerals. -/
def hexDigits : List Char := "0123456789abcdef".toList

def hexValue (c : Char) : Nat :=
  if c.isDigit then c.toNat - '0'.toNat else c.toNat - 'a'.toNat + 10

/-- The number that hexadecimal digits show, zeros in front included. -/
def ofHex (digits : List Char) : Nat := digits.foldl (fun n c => 16 * n + hexValue c) 0

theorem hexValue_digitChar : ∀ d < 16, hexValue d.digitChar = d := by decide

theorem digitChar_mem_hexDigits : ∀ d < 16, d.digitChar ∈ hexDigits := by decide

theorem ofHex_toDigits (n : Nat) : ofHex (Nat.toDigits 16 n) = n := by
  induction n using Nat.strongRecOn with
  | ind n ih =>
    by_cases hn : n < 16
    · rw [Nat.toDigits_of_lt_base hn]
      exact (Nat.zero_add _).trans (hexValue_digitChar n hn)
    · rw [Nat.toDigits_of_base_le (by decide) (Nat.le_of_not_lt hn), ofHex, List.foldl_append]
      change 16 * ofHex (Nat.toDigits 16 (n / 16)) + hexValue (n % 16).digitChar = n
      rw [ih (n / 16) (by omega), hexValue_digitChar (n % 16) (Nat.mod_lt n (by decide))]
      omega

theorem toList_hex (width n : Nat) : (hex width n).toList =
    List.replicate (width - (Nat.toDigits 16 n).length) '0' ++ Nat.toDigits 16 n := by
  rw [hex, String.toList_ofList]
  rfl

theorem ofHex_hex (width n : Nat) : ofHex (hex width n).toList = n := by
  have hzeros (k : Nat) : (List.replicate k '0').foldl (fun n c => 16 * n + hexValue c) 0 = 0 := by
    induction k with
    | zero => rfl
    | succ k ih => exact ih
  rw [toList_hex, ofHex, List.foldl_append, hzeros]
  exact ofHex_toDigits n

theorem hex_injective {width n k : Nat} (h : hex width n = hex width k) : n = k := by
  rw [← ofHex_hex width n, h, ofHex_hex]

theorem length_hex {width n : Nat} (hw : 0 < width) (hn : n < 16 ^ width) :
    (hex width n).toList.length = width := by
  have hle := Nat.toDigits_length 16 n width hw hn
  rw [toList_hex, List.length_append, List.length_replicate]
  omega

theorem mem_hexDigits_of_mem_toDigits {base n : Nat} (hb : 1 < base) (hle : base ≤ 16) {c : Char}
    (hc : c ∈ Nat.toDigits base n) : c ∈ hexDigits := by
  induction n using Nat.strongRecOn with
  | ind n ih =>
    by_cases hn : n < base
    · rw [Nat.toDigits_of_lt_base hn, List.mem_singleton] at hc
      rw [hc]
      exact digitChar_mem_hexDigits n (by omega)
    · rw [Nat.toDigits_of_base_le hb (Nat.le_of_not_lt hn), List.mem_append,
        List.mem_singleton] at hc
      rcases hc with hc | rfl
      · exact ih (n / base) (Nat.div_lt_self (by omega) hb) hc
      · exact digitChar_mem_hexDigits _ (Nat.lt_of_lt_of_le (Nat.mod_lt n (by omega)) hle)

theorem mem_hexDigits_of_mem_hex {width n : Nat} {c : Char} (hc : c ∈ (hex width n).toList) :
    c ∈ hexDigits := by
  rw [toList_hex, List.mem_append] at hc
  rcases hc with hc | hc
  · rw [List.eq_of_mem_replicate hc]
    decide
  · exact mem_hexDigits_of_mem_toDigits (by decide) (by decide) hc

theorem mem_alphabet_of_mem_hexDigits {c : Char} (hc : c ∈ hexDigits) : c ∈ alphabet :=
  List.mem_cons_of_mem '-' hc

theorem mem_alphabet_of_mem_hex {width n : Nat} {c : Char} (hc : c ∈ (hex width n).toList) :
    c ∈ alphabet :=
  mem_alphabet_of_mem_hexDigits (mem_hexDigits_of_mem_hex hc)

theorem toList_decimal (n : Nat) : (decimal n).toList = Nat.toDigits 10 n := Nat.toList_repr

theorem mem_alphabet_of_mem_decimal {n : Nat} {c : Char} (hc : c ∈ (decimal n).toList) :
    c ∈ alphabet := by
  rw [toList_decimal] at hc
  exact mem_alphabet_of_mem_hexDigits (mem_hexDigits_of_mem_toDigits (by decide) (by decide) hc)

theorem ofDigitChars_decimal (n : Nat) : Nat.ofDigitChars 10 (decimal n).toList 0 = n := by
  rw [toList_decimal]
  exact Nat.ofDigitChars_ten_toDigits

/-- The integer that decimal digits show, with or without a sign in front. -/
def ofSigned : List Char → Int
  | '-' :: digits => -(Nat.ofDigitChars 10 digits 0 : Nat)
  | digits => (Nat.ofDigitChars 10 digits 0 : Nat)

theorem signed_eq (w : Word) : signed w =
    if 0 ≤ w.toInt then decimal w.toInt.toNat else "-" ++ decimal (-w.toInt).toNat :=
  Int.repr_eq_if

theorem ofSigned_decimal (n : Nat) : ofSigned (decimal n).toList = n := by
  have hsign : ∀ c ∈ (decimal n).toList, c ≠ '-' := by
    rintro _ hc rfl
    rw [toList_decimal] at hc
    exact absurd (Nat.isDigit_of_mem_toDigits (by decide) (by decide) hc) (by decide)
  rw [ofSigned, ofDigitChars_decimal]
  rintro digits hd
  rw [hd] at hsign
  exact hsign '-' List.mem_cons_self rfl

theorem ofSigned_signed (w : Word) : ofSigned (signed w).toList = w.toInt := by
  rw [signed_eq]
  split
  · next h => rw [ofSigned_decimal, Int.toNat_of_nonneg h]
  · next h =>
    rw [String.toList_append]
    change -((Nat.ofDigitChars 10 (decimal (-w.toInt).toNat).toList 0 : Nat) : Int) = _
    rw [ofDigitChars_decimal]
    omega

theorem mem_alphabet_of_mem_signed {w : Word} {c : Char} (hc : c ∈ (signed w).toList) :
    c ∈ alphabet := by
  rw [signed_eq] at hc
  split at hc
  · exact mem_alphabet_of_mem_decimal hc
  · rw [String.toList_append, List.mem_append] at hc
    rcases hc with hc | hc
    · rw [List.mem_singleton.1 (show c ∈ ['-'] from hc)]
      decide
    · exact mem_alphabet_of_mem_decimal hc

end ReducedMips.Numeral
