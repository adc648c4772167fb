import ReducedMips.Proofs.Exact.Basic
import ReducedMips.Proofs.Execution
/-!
# Words as integers

Each operation on words computes the representative of an operation on the integers that the words
denote, and each field of a word is a quotient and a remainder.
-/
namespace ReducedMips

namespace Exact

theorem unsigned_signed (x : Int) : unsigned (signed x) = unsigned x := by
  have h : x.bmod (2 ^ 32) % (2 ^ 32 : Nat) = x % (2 ^ 32 : Nat) := Int.bmod_emod
  exact congrArg Int.toNat h

end Exact

open Exact

namespace Word

theorem toNat_append {m n : Nat} (x : BitVec m) (y : BitVec n) :
    (x ++ y).toNat = 2 ^ n * x.toNat + y.toNat := by
  rw [BitVec.toNat_append, ← Nat.shiftLeft_add_eq_or_of_lt y.isLt, Nat.shiftLeft_eq, Nat.mul_comm]

theorem toNat_ofBytes (b₀ b₁ b₂ b₃ : Byte) : (ofBytes b₀ b₁ b₂ b₃).toNat =
    2 ^ 24 * b₀.toNat + 2 ^ 16 * b₁.toNat + 2 ^ 8 * b₂.toNat + b₃.toNat := by
  simp only [ofBytes]
  rw [toNat_append, toNat_append, toNat_append]
  omega

theorem toNat_eq_unsigned (w : Word) : w.toNat = unsigned w.toInt := by
  have h : w.toInt = signed w.toNat := w.toInt_eq_toNat_bmod
  have hw := w.isLt
  rw [h, unsigned_signed]
  simp only [unsigned]
  omega

theorem signed_toInt (w : Word) : signed w.toInt = w.toInt := w.toInt_bmod_cancel

theorem toInt_add (a b : Word) : (a + b).toInt = signed (a.toInt + b.toInt) := BitVec.toInt_add a b

theorem toNat_add (a b : Word) : (a + b).toNat = unsigned (a.toInt + b.toInt) := by
  rw [toNat_eq_unsigned, toInt_add, unsigned_signed]

theorem toInt_alu (op : AluOp) (a b : Word) :
    (alu? op.funct.toNat a.toInt b.toInt).map signed = some (op.apply a b).toInt := by
  cases op with
  | addu => exact congrArg some (toInt_add a b).symm
  | subu => exact congrArg some (BitVec.toInt_sub (x := a) (y := b)).symm
  | and =>
    have h := BitVec.toInt_and a b
    rw [toNat_eq_unsigned a, toNat_eq_unsigned b] at h
    exact congrArg some h.symm
  | or =>
    have h := BitVec.toInt_or a b
    rw [toNat_eq_unsigned a, toNat_eq_unsigned b] at h
    exact congrArg some h.symm
  | nor =>
    have hlt := (a ||| b).isLt
    have h : (~~~(a ||| b)).toInt = signed (2 ^ 32 - 1 - ((a ||| b).toNat : Int)) := by
      rw [BitVec.toInt_eq_toNat_bmod, BitVec.toNat_not]
      simp only [signed]
      congr 1
      omega
    rw [BitVec.toNat_or, toNat_eq_unsigned a, toNat_eq_unsigned b] at h
    exact congrArg some h.symm

theorem alu?_eq_none {w : Word} (h : AluOp.ofFunct? w = none) (a b : Int) :
    alu? w.toNat a b = none := by
  have hne (op : AluOp) : w.toNat ≠ op.funct.toNat := by
    intro he
    rw [AluOp.ofFunct?_eq_some.2 (BitVec.eq_of_toNat_eq he)] at h
    contradiction
  have h21 : w.toNat ≠ 0x21 := hne .addu
  have h23 : w.toNat ≠ 0x23 := hne .subu
  have h24 : w.toNat ≠ 0x24 := hne .and
  have h25 : w.toNat ≠ 0x25 := hne .or
  have h27 : w.toNat ≠ 0x27 := hne .nor
  simp only [alu?]
  rw [if_neg h21, if_neg h23, if_neg h24, if_neg h25, if_neg h27]

theorem toNat_opcode (w : Word) : w.opcode.toNat = Exact.opcode w.toNat := by
  have hw := w.isLt
  rw [Word.opcode, toNat_field w (by decide)]
  simp only [Exact.opcode]
  omega

theorem opcode_exact {w op : Word} (ho : w.opcode = op) : Exact.opcode w.toNat = op.toNat := by
  rw [← w.toNat_opcode, ho]

theorem opcode_exact_notMem {w : Word} {ops : List Word} (ho : w.opcode ∉ ops) :
    Exact.opcode w.toNat ∉ ops.map BitVec.toNat := by
  intro hmem
  obtain ⟨op, hop, he⟩ := List.mem_map.1 hmem
  rw [← w.toNat_opcode] at he
  rw [BitVec.eq_of_toNat_eq he] at hop
  exact ho hop

theorem toNat_rs (w : Word) : w.rs.toNat = Exact.rs w.toNat := toNat_field w (by decide)

theorem toNat_rt (w : Word) : w.rt.toNat = Exact.rt w.toNat := toNat_field w (by decide)

theorem toNat_rd (w : Word) : w.rd.toNat = Exact.rd w.toNat := toNat_field w (by decide)

theorem toNat_funct (w : Word) : w.funct.toNat = Exact.funct w.toNat := by
  rw [Word.funct, toNat_field w (by decide), Nat.pow_zero, Nat.div_one]
  rfl

theorem toNat_jumpTarget (w : Word) : w.jumpTarget.toNat = Exact.jumpTarget w.toNat := by
  rw [Word.jumpTarget, toNat_field w (by decide), Nat.pow_zero, Nat.div_one]
  rfl

theorem toInt_signExtend16 (w : Word) : w.signExtend16.toInt = Exact.immediate w.toNat := by
  simp only [signExtend16]
  rw [BitVec.toInt_signExtend_of_le (by decide), BitVec.toInt_setWidth]
  rfl

theorem toInt_immediate (w : Word) : w.immediate.toInt = Exact.immediate w.toNat := by
  simp only [Word.immediate]
  rw [toInt_signExtend16, toNat_field w (by decide)]
  have h : ((w.toNat % 2 ^ 16 : Nat) : Int).bmod (2 ^ 16) = (w.toNat : Int).bmod (2 ^ 16) := by
    rw [Int.natCast_emod]
    exact Int.emod_bmod _ _
  rw [Nat.pow_zero, Nat.div_one]
  exact h

theorem toInt_immediate_lt (w : Word) : w.immediate.toInt < 2 ^ 15 := by
  rw [toInt_immediate]
  exact Int.bmod_lt (by decide)

end Word

namespace PcTarget

theorem toNat_next (pc : Word) : (pc + 4).toNat = unsigned (pc.toNat + 4) := by
  rw [BitVec.toNat_add]
  simp only [unsigned]
  change (pc.toNat + 4) % 2 ^ 32 = _
  omega

theorem toNat_relative16 (pc words : Word) :
    ((relative16 words).resolve pc).toNat = unsigned (pc.toNat + 4 + 4 * words.toInt) := by
  have hs : (words <<< 2).toNat = 4 * words.toNat % 2 ^ 32 := by
    rw [BitVec.toNat_shiftLeft, Nat.shiftLeft_eq, Nat.mul_comm]
  have hw : words.toInt = words.toNat ∨ words.toInt = words.toNat - 2 ^ 32 := by
    rw [BitVec.toInt_eq_toNat_cond]
    split
    · exact .inl rfl
    · exact .inr rfl
  change (pc + 4 + (words <<< 2)).toNat = _
  rw [BitVec.toNat_add, BitVec.toNat_add, hs]
  change ((pc.toNat + 4) % 2 ^ 32 + _) % 2 ^ 32 = _
  simp only [unsigned]
  omega

private theorem absolute26_eq_append (pc address : Word) :
    (absolute26 address).resolve pc =
      (pc + 4).extractLsb' 28 4 ++ address.extractLsb' 0 26 ++ 0#2 := by
  have hhigh : 0xF0000000#32 = BitVec.allOnes 32 <<< 28 := by decide
  have hlow : 0x03FFFFFF#32 = BitVec.allOnes 32 >>> 6 := by decide
  apply BitVec.eq_of_getLsbD_eq
  intro i hi
  rw [resolve, hhigh, hlow]
  simp only [BitVec.getLsbD_or, BitVec.getLsbD_and, BitVec.getLsbD_shiftLeft,
    BitVec.getLsbD_ushiftRight, BitVec.getLsbD_allOnes, BitVec.getLsbD_append,
    BitVec.getLsbD_extractLsb', BitVec.getLsbD_zero]
  grind

theorem toNat_absolute26 (pc address : Word) :
    ((absolute26 address).resolve pc).toNat =
      2 ^ 28 * (unsigned (pc.toNat + 4) / 2 ^ 28) + 4 * (address.toNat % 2 ^ 26) := by
  have hn := (pc + 4).isLt
  rw [absolute26_eq_append, ← toNat_next, Word.toNat_append, Word.toNat_append,
    BitVec.extractLsb'_toNat, BitVec.extractLsb'_toNat, Nat.shiftRight_eq_div_pow,
    Nat.shiftRight_zero]
  change 2 ^ 2 * (2 ^ 26 * _ + _) + 0 = _
  omega

end PcTarget

end ReducedMips
