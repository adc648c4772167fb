import Mathlib.Data.Int.ModEq
import Mathlib.Logic.ExistsUnique
import Mathlib.Logic.Function.Basic
import ReducedMips.Proofs.Exact.Words
/-!
# Reach of branches and jumps

A branch leads anywhere within `2 ^ 15` words of the next instruction, round the ends of the address
space where need be, and a jump to any word of the segment of the next instruction. Each of these
places is reached by one immediate or address only.
-/
namespace ReducedMips.PcTarget

open Exact

/-- Where a branch with a sixteen-bit immediate leads. -/
def ofImmediate (imm : BitVec 16) : PcTarget := .relative16 (Word.signExtend16 (imm.setWidth 32))

/-- Where a jump with a 26-bit address leads. -/
def ofAddress (address : BitVec 26) : PcTarget := .absolute26 (address.setWidth 32)

/-- A word-aligned place in the segment of the instruction that follows. -/
def InSegment (pc t : Word) : Prop :=
  t.toNat % 4 = 0 ∧ t.toNat / 2 ^ 28 = (pc.toNat + 4) % 2 ^ 32 / 2 ^ 28

instance (pc t : Word) : Decidable (InSegment pc t) := inferInstanceAs (Decidable (_ ∧ _))

theorem resolve_relative16 (pc words : Word) :
    (((relative16 words).resolve pc).toNat : Int) =
      (pc.toNat + 4 + 4 * words.toInt) % 2 ^ 32 := by
  rw [toNat_relative16]
  simp only [unsigned]
  omega

theorem resolve_absolute26 (pc address : Word) : ((absolute26 address).resolve pc).toNat =
    2 ^ 28 * ((pc.toNat + 4) % 2 ^ 32 / 2 ^ 28) + 4 * (address.toNat % 2 ^ 26) := by
  rw [toNat_absolute26]
  simp only [unsigned]
  omega

theorem resolve_ofImmediate (pc : Word) (imm : BitVec 16) :
    (((ofImmediate imm).resolve pc).toNat : Int) = (pc.toNat + 4 + 4 * imm.toInt) % 2 ^ 32 := by
  have himm : (Word.signExtend16 (imm.setWidth 32)).toInt = imm.toInt := by
    rw [Word.toInt_signExtend16, BitVec.toNat_setWidth_of_le (by decide),
      BitVec.toInt_eq_toNat_bmod]
    rfl
  rw [ofImmediate, resolve_relative16, himm]

theorem resolve_ofAddress (pc : Word) (address : BitVec 26) :
    ((ofAddress address).resolve pc).toNat =
      2 ^ 28 * ((pc.toNat + 4) % 2 ^ 32 / 2 ^ 28) + 4 * address.toNat := by
  rw [ofAddress, resolve_absolute26, BitVec.toNat_setWidth_of_le (by decide),
    Nat.mod_eq_of_lt address.isLt]

/-- Distances that lead to one place differ by a whole turn, which no two immediates do. -/
theorem ofImmediate_injective (pc : Word) :
    Function.Injective fun imm => (ofImmediate imm).resolve pc := by
  intro a b h
  have hmod : ((pc.toNat + 4 + 4 * a.toInt) % 2 ^ 32 : Int) =
      (pc.toNat + 4 + 4 * b.toInt) % 2 ^ 32 := by
    rw [← resolve_ofImmediate, ← resolve_ofImmediate]
    exact congrArg (fun t : Word => (t.toNat : Int)) h
  have ha : -2 ^ 15 ≤ a.toInt ∧ a.toInt < 2 ^ 15 := ⟨BitVec.le_toInt a, BitVec.toInt_lt⟩
  have hb : -2 ^ 15 ≤ b.toInt ∧ b.toInt < 2 ^ 15 := ⟨BitVec.le_toInt b, BitVec.toInt_lt⟩
  apply BitVec.eq_of_toInt_eq
  omega

theorem exists_ofImmediate_iff (pc t : Word) :
    (∃ imm, (ofImmediate imm).resolve pc = t) ↔
      ∃ d : Int, -2 ^ 15 ≤ d ∧ d < 2 ^ 15 ∧ t.toNat ≡ pc.toNat + 4 + 4 * d [ZMOD 2 ^ 32] := by
  constructor
  · rintro ⟨imm, rfl⟩
    refine ⟨imm.toInt, BitVec.le_toInt imm, BitVec.toInt_lt, ?_⟩
    rw [resolve_ofImmediate]
    exact Int.mod_modEq _ _
  · rintro ⟨d, hlow, hhigh, hmod⟩
    have hd : (BitVec.ofInt 16 d).toInt = d := BitVec.toInt_ofInt_eq_self (by decide) hlow hhigh
    have ht := t.isLt
    have htarget := resolve_ofImmediate pc (.ofInt 16 d)
    rw [hd, ← hmod.eq] at htarget
    refine ⟨.ofInt 16 d, BitVec.eq_of_toNat_eq ?_⟩
    omega

theorem ofAddress_injective (pc : Word) :
    Function.Injective fun address => (ofAddress address).resolve pc := by
  intro a b h
  have htarget := congrArg BitVec.toNat h
  simp only [resolve_ofAddress] at htarget
  apply BitVec.eq_of_toNat_eq
  omega

theorem exists_ofAddress_iff (pc t : Word) :
    (∃ address, (ofAddress address).resolve pc = t) ↔ InSegment pc t := by
  constructor
  · rintro ⟨address, rfl⟩
    have ha := address.isLt
    rw [InSegment, resolve_ofAddress]
    omega
  · rintro ⟨haligned, hsegment⟩
    refine ⟨.ofNat 26 (t.toNat / 4), BitVec.eq_of_toNat_eq ?_⟩
    rw [resolve_ofAddress, BitVec.toNat_ofNat]
    omega

theorem existsUnique_ofAddress_iff (pc t : Word) :
    (∃! address, (ofAddress address).resolve pc = t) ↔ InSegment pc t := by
  rw [← exists_ofAddress_iff]
  constructor
  · rintro ⟨address, h, -⟩
    exact ⟨address, h⟩
  · rintro ⟨address, h⟩
    exact ⟨address, h, fun _ h' => ofAddress_injective pc (h'.trans h.symm)⟩

/-- The places that branches and jumps lead to, as integers. From any place, different immediates
lead to different places, which are those within their distance. Each word of the segment of the
next instruction is reached by one address, and any other place by none. -/
theorem resolve_reaches :
    (∀ pc words : Word, (((relative16 words).resolve pc).toNat : Int) =
      (pc.toNat + 4 + 4 * words.toInt) % 2 ^ 32) ∧
    (∀ pc address : Word, ((absolute26 address).resolve pc).toNat =
      2 ^ 28 * ((pc.toNat + 4) % 2 ^ 32 / 2 ^ 28) + 4 * (address.toNat % 2 ^ 26)) ∧
    ∀ pc : Word,
      (Function.Injective fun imm => (ofImmediate imm).resolve pc) ∧
      (∀ t, (∃ imm, (ofImmediate imm).resolve pc = t) ↔ ∃ d : Int, -2 ^ 15 ≤ d ∧ d < 2 ^ 15 ∧
        t.toNat ≡ pc.toNat + 4 + 4 * d [ZMOD 2 ^ 32]) ∧
      ∀ t, ((∃! address, (ofAddress address).resolve pc = t) ↔ InSegment pc t) ∧
        (¬ InSegment pc t → ∀ address, (ofAddress address).resolve pc ≠ t) := by
  refine ⟨resolve_relative16, resolve_absolute26, fun pc => ⟨ofImmediate_injective pc,
    exists_ofImmediate_iff pc, fun t => ⟨existsUnique_ofAddress_iff pc t, ?_⟩⟩⟩
  intro hout address h
  exact hout ((exists_ofAddress_iff pc t).1 ⟨address, h⟩)

/-- From the last word of a segment a jump leads into the next segment only. -/
theorem resolve_reaches_next :
    (∃! address, (ofAddress address).resolve 0x0FFFFFFC = 0x10000004) ∧
      ∀ address, (ofAddress address).resolve 0x0FFFFFFC ≠ 0x00000004 := by
  obtain ⟨-, -, hreach⟩ := resolve_reaches
  obtain ⟨-, -, hjump⟩ := hreach 0x0FFFFFFC
  exact ⟨(hjump 0x10000004).1.2 (by decide), (hjump 0x00000004).2 (by decide)⟩

end ReducedMips.PcTarget
