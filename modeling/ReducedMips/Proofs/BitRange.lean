import ReducedMips.Proofs.Guarded
/-!
# Ranges of bits

The bits of a word from one bit down to another are a quotient and a remainder of it. A mask cuts
them out with no shift and no difference out of range, and adjacent ranges put together make up
the bits that they cover.
-/
namespace ReducedMips

/-- A range of bits, from a topmost bit down to a lowest one, both included. -/
structure BitRange where
  high : Word
  low : Word
  deriving DecidableEq

/-- Adjacent ranges that cover the bits from one down to another, the topmost range first. -/
inductive BitRange.Tiles : Word → Word → List BitRange → Prop
  | last {high low : Word} (h : low ≤ high) : Tiles high low [⟨high, low⟩]
  | cons {high middle low : Word} {ranges : List BitRange} (h : middle < high)
      (hrest : Tiles middle low ranges) : Tiles high low (⟨high, middle + 1⟩ :: ranges)

theorem BitRange.Tiles.low_le {high low : Word} {ranges : List BitRange}
    (h : Tiles high low ranges) : low ≤ high := by
  induction h with
  | last h => exact h
  | cons h hrest ih => exact BitVec.le_trans ih (BitVec.le_of_lt h)

namespace Word

open BitRange

/-- The difference of two words, if it does not go below zero. -/
def difference? (a b : Word) : Option Word := if b ≤ a then some (a - b) else none

/-- The next word, unless there is none. -/
def successor? (a : Word) : Option Word := if a.toNat + 1 < 2 ^ 32 then some (a + 1) else none

/-- A word moved down by some places, which must be fewer than its bits. -/
def movedDown? (w places : Word) : Option Word :=
  if places.toNat < 32 then some (w >>> places.toNat) else none

/-- The bits of a range, moved down and cut out by a mask of as many ones. Nothing comes of it if a
shift or a difference is out of range. -/
def masked? (w high low : Word) : Option Word := do
  let width ← successor? (← difference? high low)
  let mask ← movedDown? (BitVec.allOnes 32) (← difference? 32 width)
  return (← w.movedDown? low) &&& mask

/-- The number that the bits of a range denote. -/
def rangeValue (w high low : Word) : Nat :=
  w.toNat / 2 ^ low.toNat % 2 ^ (high.toNat - low.toNat + 1)

/-- The sum of the fields of a word in some ranges, each weighted by the place of its lowest bit. -/
def weigh (w : Word) : List BitRange → Except Fault Nat
  | [] => return 0
  | range :: ranges => do
    let field ← w.bitRange range.high range.low
    return field.toNat * 2 ^ range.low.toNat + (← w.weigh ranges)

variable (w : Word) {high middle low : Word} {ranges : List BitRange}

theorem bitRange_eq_error_iff : w.bitRange high low = .error (.bitRange high low) ↔ 31 < high ∨ high < low := by
  rw [bitRange]
  split
  · next h => simp only [reduceCtorEq, false_iff, not_or, BitVec.not_lt, h, and_self]
  · next h =>
    simp only [true_iff]
    by_cases hhigh : high ≤ 31
    · exact .inr (BitVec.not_le.1 fun hlow => h ⟨hhigh, hlow⟩)
    · exact .inl (BitVec.not_le.1 hhigh)

theorem exists_bitRange (h : high ≤ 31 ∧ low ≤ high) :
    ∃ field, w.bitRange high low = .ok field ∧ field.toNat = w.rangeValue high low := by
  have hrange : high.toNat ≤ 31 ∧ low.toNat ≤ high.toNat := h
  refine ⟨_, w.bitRange_of_le h, ?_⟩
  rw [toNat_field w (by omega), rangeValue]

theorem toNat_succ {a : Word} (h : a.toNat + 1 < 2 ^ 32) : (a + 1).toNat = a.toNat + 1 :=
  BitVec.toNat_add_of_lt h

theorem toNat_succ_of_lt (h : middle < high) : (middle + 1).toNat = middle.toNat + 1 :=
  toNat_succ (Nat.lt_of_le_of_lt h high.isLt)

theorem succ_le_of_lt (h : middle < high) : middle + 1 ≤ high := by
  rw [BitVec.le_def, toNat_succ_of_lt h]
  exact h

theorem shift_and_mask {low width : Nat} (h : width ≤ 32) :
    w >>> low &&& BitVec.allOnes 32 >>> (32 - width) = w.field low width := by
  apply BitVec.eq_of_getLsbD_eq
  intro i _
  rw [BitVec.getLsbD_and, BitVec.getLsbD_ushiftRight, BitVec.getLsbD_ushiftRight,
    BitVec.getLsbD_allOnes, getLsbD_field w i h, Bool.and_comm]
  congr 1
  rw [decide_eq_decide]
  omega

theorem masked?_of_le (h : high ≤ 31 ∧ low ≤ high) :
    w.masked? high low = some (w.field low.toNat (high.toNat - low.toNat + 1)) := by
  have hrange : high.toNat ≤ 31 ∧ low.toNat ≤ high.toNat := h
  have hspan : (high - low).toNat = high.toNat - low.toNat := BitVec.toNat_sub_of_le h.2
  have hroom : (high - low).toNat + 1 < 2 ^ 32 := by omega
  have hwidth : (high - low + 1).toNat = high.toNat - low.toNat + 1 := by
    rw [toNat_succ hroom, hspan]
  have hle : high - low + 1 ≤ (32 : Word) := by
    rw [BitVec.le_def, hwidth]
    change _ ≤ 32
    omega
  have hplaces : ((32 : Word) - (high - low + 1)).toNat =
      32 - (high.toNat - low.toNat + 1) := by
    rw [BitVec.toNat_sub_of_le hle, hwidth]
    rfl
  have hdifference : difference? high low = some (high - low) := if_pos h.2
  have hsuccessor : successor? (high - low) = some (high - low + 1) := if_pos hroom
  have hrest : difference? 32 (high - low + 1) = some (32 - (high - low + 1)) := if_pos hle
  have hmask : movedDown? (BitVec.allOnes 32) (32 - (high - low + 1)) =
      some (BitVec.allOnes 32 >>> (32 - (high.toNat - low.toNat + 1))) := by
    rw [movedDown?, hplaces, if_pos (by omega)]
  have hmoved : w.movedDown? low = some (w >>> low.toNat) := if_pos (by omega)
  simp only [masked?, hdifference, hsuccessor, hrest, hmask, hmoved, Option.bind_eq_bind,
    Option.bind_some, Option.pure_def]
  rw [shift_and_mask w (by omega)]

/-- A range cut in two: its upper part counts in multiples of the size of its lower part. -/
theorem rangeValue_eq_add (hlow : low ≤ middle) (hmiddle : middle < high) :
    w.rangeValue high low =
      w.rangeValue high (middle + 1) * 2 ^ (middle.toNat + 1 - low.toNat) +
        w.rangeValue middle low := by
  have hle : low.toNat ≤ middle.toNat := hlow
  have hlt : middle.toNat < high.toNat := hmiddle
  have hnext := toNat_succ_of_lt hmiddle
  let lower := middle.toNat + 1 - low.toNat
  let upper := high.toNat - (middle.toNat + 1) + 1
  have hplace : 2 ^ (middle.toNat + 1) = 2 ^ low.toNat * 2 ^ lower := by
    rw [← Nat.pow_add]
    congr 1
    omega
  have hsize : 2 ^ (high.toNat - low.toNat + 1) = 2 ^ lower * 2 ^ upper := by
    rw [← Nat.pow_add]
    congr 1
    omega
  have hlower : w.rangeValue middle low = w.toNat / 2 ^ low.toNat % 2 ^ lower := by
    rw [rangeValue, show middle.toNat - low.toNat + 1 = lower by omega]
  have hupper : w.rangeValue high (middle + 1) =
      w.toNat / 2 ^ low.toNat / 2 ^ lower % 2 ^ upper := by
    rw [rangeValue, hnext, hplace, Nat.div_div_eq_div_mul]
  rw [hlower, hupper, rangeValue, hsize, Nat.mod_mul, Nat.add_comm, Nat.mul_comm]

/-- The fields of adjacent ranges make up the bits that the ranges cover. -/
theorem weigh_of_tiles (h : Tiles high low ranges) (hhigh : high ≤ 31) :
    w.weigh ranges = .ok (w.rangeValue high low * 2 ^ low.toNat) := by
  induction h with
  | @last high low h =>
    obtain ⟨field, hfield, hvalue⟩ := w.exists_bitRange ⟨hhigh, h⟩
    simp only [weigh, hfield, ← hvalue]
    rfl
  | @cons high middle low ranges h hrest ih =>
    have hlow := hrest.low_le
    have hle : low.toNat ≤ middle.toNat := hlow
    obtain ⟨field, hfield, hvalue⟩ := w.exists_bitRange ⟨hhigh, succ_le_of_lt h⟩
    have hplace : 2 ^ (middle + 1).toNat =
        2 ^ (middle.toNat + 1 - low.toNat) * 2 ^ low.toNat := by
      rw [toNat_succ_of_lt h, ← Nat.pow_add]
      congr 1
      omega
    rw [w.rangeValue_eq_add hlow h, Nat.add_mul, Nat.mul_assoc, ← hplace, ← hvalue]
    simp only [weigh, hfield, ih (BitVec.le_trans (BitVec.le_of_lt h) hhigh)]
    rfl

/-- The bits of a word from `high` down to `low` are refused if the range is inverted or goes above
the word. Otherwise they denote a quotient by the place of the lowest bit, reduced to the width of
the range, and a mask cuts them out with no shift and no difference out of range. The bits of a range
that is cut in two are those of its parts put together, and the fields of any adjacent ranges that
cover the word add up to the word. -/
theorem bitRange_tiles (w : Word) :
    (∀ high low : Word,
      w.bitRange high low = .error (.bitRange high low) ↔ 31 < high ∨ high < low) ∧
    (∀ high low : Word, high ≤ 31 → low ≤ high → ∃ field,
      w.bitRange high low = .ok field ∧ w.masked? high low = some field ∧
      field.toNat = w.toNat / 2 ^ low.toNat % 2 ^ (high.toNat - low.toNat + 1)) ∧
    (∀ high middle low : Word, low ≤ middle → middle < high → high ≤ 31 →
      ∃ field upper lower, w.bitRange high low = .ok field ∧
        w.bitRange high (middle + 1) = .ok upper ∧ w.bitRange middle low = .ok lower ∧
        field.toNat = upper.toNat * 2 ^ (middle.toNat + 1 - low.toNat) + lower.toNat) ∧
    ∀ ranges, Tiles 31 0 ranges → w.weigh ranges = .ok w.toNat := by
  refine ⟨fun high low => w.bitRange_eq_error_iff, ?_, ?_, ?_⟩
  · intro high low hhigh hlow
    obtain ⟨field, hfield, hvalue⟩ := w.exists_bitRange ⟨hhigh, hlow⟩
    refine ⟨field, hfield, ?_, hvalue⟩
    rw [w.bitRange_of_le ⟨hhigh, hlow⟩] at hfield
    rw [w.masked?_of_le ⟨hhigh, hlow⟩, Except.ok.inj hfield]
  · intro high middle low hlow hmiddle hhigh
    have hbelow : middle ≤ 31 := BitVec.le_trans (BitVec.le_of_lt hmiddle) hhigh
    obtain ⟨field, hfield, hvalue⟩ :=
      w.exists_bitRange ⟨hhigh, BitVec.le_trans hlow (BitVec.le_of_lt hmiddle)⟩
    obtain ⟨upper, hupper, hupperValue⟩ := w.exists_bitRange ⟨hhigh, succ_le_of_lt hmiddle⟩
    obtain ⟨lower, hlower, hlowerValue⟩ := w.exists_bitRange ⟨hbelow, hlow⟩
    refine ⟨field, upper, lower, hfield, hupper, hlower, ?_⟩
    rw [hvalue, hupperValue, hlowerValue]
    exact w.rangeValue_eq_add hlow hmiddle
  · intro ranges hranges
    rw [w.weigh_of_tiles hranges (by decide)]
    congr 1
    have hw := w.isLt
    change w.toNat / 2 ^ 0 % 2 ^ 32 * 2 ^ 0 = w.toNat
    omega

/-- A word as a whole, its lower half cut in two, and the slots of an operation on registers. -/
theorem bitRange_tiles_register :
    let w : Word := 0xDEADBEEF
    let slots : List BitRange := [⟨31, 26⟩, ⟨25, 21⟩, ⟨20, 16⟩, ⟨15, 11⟩, ⟨10, 6⟩, ⟨5, 0⟩]
    (∃ field, w.bitRange 31 0 = .ok field ∧ w.masked? 31 0 = some field ∧
      field.toNat = 0xDEADBEEF) ∧
    (∃ field upper lower, w.bitRange 15 0 = .ok field ∧ w.bitRange 15 (7 + 1) = .ok upper ∧
      w.bitRange 7 0 = .ok lower ∧ field.toNat = upper.toNat * 2 ^ 8 + lower.toNat) ∧
    Tiles 31 0 slots ∧ w.weigh slots = .ok 0xDEADBEEF := by
  intro w slots
  have hslots : Tiles 31 0 slots := by
    apply Tiles.cons (show (25 : Word) < 31 by decide)
    apply Tiles.cons (show (20 : Word) < 25 by decide)
    apply Tiles.cons (show (15 : Word) < 20 by decide)
    apply Tiles.cons (show (10 : Word) < 15 by decide)
    apply Tiles.cons (show (5 : Word) < 10 by decide)
    exact Tiles.last (by decide)
  obtain ⟨-, hexact, hcut, htiles⟩ := bitRange_tiles w
  obtain ⟨field, hfield, hmasked, hvalue⟩ := hexact 31 0 (by decide) (by decide)
  refine ⟨⟨field, hfield, hmasked, hvalue.trans ?_⟩, ?_, hslots, htiles slots hslots⟩
  · decide
  · exact hcut 15 7 0 (by decide) (by decide) (by decide)

end Word

end ReducedMips
