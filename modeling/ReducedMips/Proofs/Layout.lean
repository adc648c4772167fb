import Mathlib.Algebra.GroupWithZero.Nat
import ReducedMips.Instruction.Encoding
/-!
# Layouts

A layout is a list of widths, that of the topmost slot first. A word is split into its fields by a
layout, and values are packed into the slots of a layout. Packing the fields of a word gives the
word back, as far as the slots reach, and splitting packed values cuts each to the width of its
slot.
-/
namespace ReducedMips

namespace Word

/-- The low bits of a word. -/
def cut (w : Word) (width : Nat) : Word := (w.setWidth width).setWidth 32

/-- The fields of a word in the slots of a layout. -/
def split (w : Word) : List Nat → List Word
  | [] => []
  | width :: widths => w.field widths.sum width :: w.split widths

/-- Values put into the slots of a layout, each cut to its slot. -/
def pack : List Nat → List Word → Word
  | width :: widths, value :: values => value.slot widths.sum width ||| pack widths values
  | _, _ => 0

theorem getLsbD_cut (w : Word) {width : Nat} (i : Nat) (h : width ≤ 32) :
    (w.cut width).getLsbD i = (decide (i < width) && w.getLsbD i) := by
  simp only [cut, BitVec.getLsbD_setWidth]
  by_cases hi : i < width
  · simp [hi, show i < 32 by omega]
  · simp [hi]

theorem toNat_cut (w : Word) (width : Nat) : (w.cut width).toNat = w.toNat % 2 ^ width := by
  rw [cut, BitVec.toNat_setWidth, BitVec.toNat_setWidth]
  exact Nat.mod_eq_of_lt (Nat.lt_of_le_of_lt (Nat.mod_le _ _) w.isLt)

theorem cut_of_lt {w : Word} {width : Nat} (hw : w.toNat < 2 ^ width) : w.cut width = w := by
  apply BitVec.eq_of_toNat_eq
  rw [toNat_cut, Nat.mod_eq_of_lt hw]

variable {widths : List Nat} {values : List Word}

theorem getLsbD_pack_of_ge {i : Nat} (h : widths.sum ≤ 32) (hi : widths.sum ≤ i) :
    (pack widths values).getLsbD i = false := by
  induction widths generalizing values with
  | nil => simp [pack]
  | cons width widths ih =>
    rw [List.sum_cons] at h hi
    cases values with
    | nil => simp [pack]
    | cons value values =>
      rw [pack, BitVec.getLsbD_or, getLsbD_slot value i (by omega), ih (by omega) (by omega)]
      simp
      omega

theorem split_congr {w v : Word} (h : widths.sum ≤ 32)
    (hbits : ∀ i < widths.sum, w.getLsbD i = v.getLsbD i) : w.split widths = v.split widths := by
  induction widths with
  | nil => rfl
  | cons width widths ih =>
    rw [List.sum_cons] at h hbits
    have hfield : w.field widths.sum width = v.field widths.sum width := by
      apply BitVec.eq_of_getLsbD_eq
      intro i _
      rw [getLsbD_field w i (by omega), getLsbD_field v i (by omega)]
      by_cases hi : i < width
      · rw [hbits (widths.sum + i) (by omega)]
      · simp [hi]
    rw [split, split, hfield, ih (by omega) fun i hi => hbits i (by omega)]

theorem pack_split (w : Word) (h : widths.sum ≤ 32) :
    pack widths (w.split widths) = w.cut widths.sum := by
  induction widths with
  | nil =>
    apply BitVec.eq_of_getLsbD_eq
    intro i _
    simp [pack, getLsbD_cut w i (Nat.zero_le 32)]
  | cons width widths ih =>
    rw [List.sum_cons] at h
    rw [split, pack, ih (by omega)]
    apply BitVec.eq_of_getLsbD_eq
    intro i _
    rw [BitVec.getLsbD_or, getLsbD_slot _ i (by omega), getLsbD_field w _ (by omega),
      getLsbD_cut w i (by omega), List.sum_cons, getLsbD_cut w i (by omega)]
    -- a bit is in the topmost slot, in the slots below it, or above all of them
    by_cases hlow : i < widths.sum
    · simp [hlow, show i < width + widths.sum by omega, show ¬ widths.sum ≤ i by omega]
    · by_cases hin : i < width + widths.sum
      · simp [hlow, hin, show widths.sum ≤ i by omega, show i < widths.sum + width by omega,
          show i - widths.sum < width by omega]
      · simp [hlow, hin, show ¬ i < widths.sum + width by omega]

/-- No value spills into the slot of another. -/
theorem split_pack (h : widths.sum ≤ 32) (hlength : values.length = widths.length) :
    (pack widths values).split widths = List.zipWith cut values widths := by
  induction widths generalizing values with
  | nil =>
    rw [List.length_eq_zero_iff.1 hlength]
    rfl
  | cons width widths ih =>
    cases values with
    | nil => cases hlength
    | cons value values =>
      rw [List.sum_cons] at h
      have hfield : (pack (width :: widths) (value :: values)).field widths.sum width =
          value.cut width := by
        apply BitVec.eq_of_getLsbD_eq
        intro i _
        rw [pack, getLsbD_field _ i (by omega), BitVec.getLsbD_or, getLsbD_slot _ _ (by omega),
          getLsbD_pack_of_ge (by omega) (Nat.le_add_right _ i), getLsbD_cut _ i (by omega),
          Nat.add_sub_cancel_left]
        by_cases hi : i < width
        · simp [hi]
        · simp [hi]
      have hrest : (pack (width :: widths) (value :: values)).split widths =
          (pack widths values).split widths := by
        apply split_congr (by omega)
        intro i hi
        rw [pack, BitVec.getLsbD_or, getLsbD_slot _ i (by omega)]
        simp [show ¬ widths.sum ≤ i by omega]
      rw [split, hfield, hrest, ih (by omega) (Nat.succ.inj hlength)]
      rfl

end Word

/-- The widths of the slots, the topmost first. HALT has no fields. -/
def Shape.widths : Shape → List Nat
  | .r => [6, 5, 5, 5, 5, 6]
  | .i => [6, 5, 5, 16]
  | .j => [6, 26]
  | .halt => []

theorem Shape.sum_widths {s : Shape} (hs : s ≠ .halt) : s.widths.sum = 32 := by
  cases s with
  | r | i | j => rfl
  | halt => exact absurd rfl hs

namespace Instruction

/-- The fields of an instruction in the order of their slots. -/
def fields : Instruction → List Word
  | .r f => [f.opcode, f.rs, f.rt, f.rd, f.shamt, f.funct]
  | .i f => [f.opcode, f.rs, f.rt, f.imm]
  | .j f => [f.opcode, f.address]
  | .halt => []

variable {i j : Instruction} {s : Shape}

theorem length_fields (i : Instruction) : i.fields.length = i.shape.widths.length := by
  cases i <;> rfl

theorem eq_of_fields (hshape : i.shape = j.shape) (hfields : i.fields = j.fields) : i = j := by
  cases i with
  | r f =>
    cases j with
    | r g =>
      simp only [fields, List.cons.injEq, and_true] at hfields
      exact congrArg r ((RForm.mk.injEq ..).mpr hfields)
    | i | j | halt => cases hshape
  | i f =>
    cases j with
    | i g =>
      simp only [fields, List.cons.injEq, and_true] at hfields
      exact congrArg Instruction.i ((IForm.mk.injEq ..).mpr hfields)
    | r | j | halt => cases hshape
  | j f =>
    cases j with
    | j g =>
      simp only [fields, List.cons.injEq, and_true] at hfields
      exact congrArg Instruction.j ((JForm.mk.injEq ..).mpr hfields)
    | r | i | halt => cases hshape
  | halt =>
    cases j with
    | halt => rfl
    | r | i | j => cases hshape

@[simp] theorem shape_decodeAs (s : Shape) (w : Word) : (decodeAs s w).shape = s := by
  cases s <;> rfl

theorem fields_decodeAs (s : Shape) (w : Word) : (decodeAs s w).fields = w.split s.widths := by
  cases s <;> rfl

theorem encode_eq_pack (hi : i.shape ≠ .halt) : i.encode = .pack i.shape.widths i.fields := by
  cases i with
  | r f => simp [encode, RForm.encode, shape, Shape.widths, fields, Word.pack, BitVec.or_assoc]
  | i f => simp [encode, IForm.encode, shape, Shape.widths, fields, Word.pack, BitVec.or_assoc]
  | j f => simp [encode, JForm.encode, shape, Shape.widths, fields, Word.pack]
  | halt => exact absurd rfl hi

theorem encode_decodeAs (hs : s ≠ .halt) (w : Word) : (decodeAs s w).encode = w := by
  have hsum := Shape.sum_widths hs
  rw [encode_eq_pack (by rwa [shape_decodeAs]), shape_decodeAs, fields_decodeAs,
    Word.pack_split w (Nat.le_of_eq hsum), hsum, Word.cut_of_lt w.isLt]

theorem fields_decodeAs_encode (i : Instruction) :
    (decodeAs i.shape i.encode).fields = List.zipWith Word.cut i.fields i.shape.widths := by
  rw [fields_decodeAs]
  by_cases hi : i.shape = .halt
  · rw [hi]
    exact (List.zipWith_nil_right).symm
  · rw [encode_eq_pack hi, Word.split_pack (Nat.le_of_eq (Shape.sum_widths hi)) i.length_fields]

/-- The bytes of an encoded instruction are split by its layout into its fields, each reduced modulo
the size of its slot. A word that is split by any layout but that of HALT is encoded again as it
was, whether or not its opcode calls for the layout. -/
theorem layouts_round_trip :
    (∀ s : Shape, s ≠ .halt → ∀ b₀ b₁ b₂ b₃ : Byte,
      (decodeAs s (.ofBytes b₀ b₁ b₂ b₃)).encode = .ofBytes b₀ b₁ b₂ b₃) ∧
    ∀ i : Instruction, ∃ b₀ b₁ b₂ b₃ : Byte, i.encode.toBytes = [b₀, b₁, b₂, b₃] ∧
      (decodeAs i.shape (.ofBytes b₀ b₁ b₂ b₃)).shape = i.shape ∧
      (decodeAs i.shape (.ofBytes b₀ b₁ b₂ b₃)).fields.map BitVec.toNat =
        List.zipWith (fun field width => field.toNat % 2 ^ width) i.fields i.shape.widths := by
  constructor
  · intro s hs b₀ b₁ b₂ b₃
    exact encode_decodeAs hs _
  · intro i
    refine ⟨_, _, _, _, rfl, ?_⟩
    rw [Word.ofBytes_toBytes, shape_decodeAs, fields_decodeAs_encode]
    refine ⟨rfl, ?_⟩
    rw [List.map_zipWith]
    exact congrArg (List.zipWith · i.fields i.shape.widths)
      (funext fun field => funext fun width => field.toNat_cut width)

/-- A jump split as an operation on registers, and an operation with wide fields side by side. -/
theorem layouts_round_trip_wide :
    let jump : Word := .ofBytes 0x0B 0xFF 0xFF 0xFF
    let wide : Instruction :=
      .r { opcode := 0, rs := 0xFFFFFFE1, rt := 0x22, rd := 3, shamt := 0x20, funct := 0x61 }
    (decodeAs .r jump).encode = jump ∧
      ∃ b₀ b₁ b₂ b₃ : Byte, wide.encode.toBytes = [b₀, b₁, b₂, b₃] ∧
      (decodeAs .r (.ofBytes b₀ b₁ b₂ b₃)).shape = .r ∧
      (decodeAs .r (.ofBytes b₀ b₁ b₂ b₃)).fields.map BitVec.toNat = [0, 1, 2, 3, 0, 0x21] := by
  intro jump wide
  obtain ⟨hwords, hfields⟩ := layouts_round_trip
  exact ⟨hwords .r (by decide) 0x0B 0xFF 0xFF 0xFF, hfields wide⟩

end Instruction

theorem RForm.encode_decode (w : Word) : (decode w).encode = w :=
  Instruction.encode_decodeAs (s := .r) (by decide) w

theorem IForm.encode_decode (w : Word) : (decode w).encode = w :=
  Instruction.encode_decodeAs (s := .i) (by decide) w

theorem JForm.encode_decode (w : Word) : (decode w).encode = w :=
  Instruction.encode_decodeAs (s := .j) (by decide) w

end ReducedMips
