import ReducedMips.Proofs.Alignment
import ReducedMips.Proofs.LifeCycle
/-!
# Alignment along runs

A run may begin at any byte. Its program counter keeps its residue modulo four until the run
executes a jump, and is a multiple of four from then on. A run that begins at zero never has another
residue, whatever its branches and jumps come round to, and its trap is at a multiple of four too.
-/
namespace ReducedMips.Machine

variable {p : Program} {m : Machine}

theorem after_mod_four {n : Nat} (h : ∀ k < n, ¬ (after p k m).Jumps p) :
    (after p n m).control.pc.toNat % 4 = m.control.pc.toNat % 4 := by
  induction n with
  | zero => rfl
  | succ n ih =>
    rw [after_succ, step_mod_four_of_not_jumps (h n (Nat.lt_succ_self n))]
    exact ih fun k hk => h k (Nat.lt_succ_of_lt hk)

/-- What a jump makes aligned stays so, through later branches and jumps. -/
theorem aligned_after_jump {k n : Nat} (hj : (after p k m).Jumps p) (hk : k < n) :
    (after p n m).control.pc.toNat % 4 = 0 := by
  obtain ⟨rest, rfl⟩ := Nat.exists_eq_add_of_le (Nat.succ_le_of_lt hk)
  rw [after_add, after_succ]
  exact after_aligned rest (step_mod_four_of_jumps hj)

theorem trap_aligned (registers : Registers) (memory : Memory) {n : Nat} {t : Trap}
    (ht : (after p n (start registers memory)).control.trap = some t) : t.pc.toNat % 4 = 0 := by
  have hconsistent := consistent_after p n (m := start registers memory) Control.consistent_start
  rw [hconsistent.located t ht]
  exact after_aligned n rfl

/-- A run keeps its program counter modulo four until it executes a jump, and has a multiple of four
from then on. A run from the beginning has no others, nor has its trap. -/
theorem run_aligned (p : Program) :
    (∀ m n, (∀ k < n, ¬ (after p k m).Jumps p) →
      (after p n m).control.pc.toNat % 4 = m.control.pc.toNat % 4) ∧
    (∀ m k n, (after p k m).Jumps p → k < n → (after p n m).control.pc.toNat % 4 = 0) ∧
    ∀ registers memory n, let final := after p n (start registers memory)
      final.control.pc.toNat % 4 = 0 ∧
      ∀ t, final.control.trap = some t → t.pc.toNat % 4 = 0 :=
  ⟨fun _ _ => after_mod_four, fun _ _ _ => aligned_after_jump, fun registers memory n =>
    ⟨after_aligned n rfl, fun _ => trap_aligned registers memory⟩⟩

/-- A branch at byte three to a jump at byte eleven, which leads out of the program. -/
theorem run_aligned_odd :
    let p : Program := .ofList [0xFC, 0, 0, 0x10, 0x00, 0x00, 0x01, 0, 0, 0, 0,
      0x08, 0x00, 0x00, 0x05]
    let m : Machine := { start .zero (.ofList []) with control := { Control.start with pc := 3 } }
    ((∀ k < 1, ¬ (after p k m).Jumps p) ∧ (after p 1 m).Jumps p ∧ 1 < 3) ∧
    (after p 1 m).control.pc.toNat % 4 = m.control.pc.toNat % 4 ∧
    (after p 3 m).control.pc.toNat % 4 = 0 := by
  intro p m
  have hbefore : ∀ k < 1, ¬ (after p k m).Jumps p := by decide
  have hjump : (after p 1 m).Jumps p := by decide
  have h := run_aligned p
  exact ⟨⟨hbefore, hjump, by decide⟩, h.1 m 1 hbefore, h.2.1 m 1 3 hjump (by decide)⟩

/-- A branch that leads below zero comes round to the last word of the address space. -/
example : after (.ofList [0x10, 0x00, 0xFF, 0xFE]) 2 (start .zero (.ofList [])) =
    { start .zero (.ofList []) with
        control := { pc := 0xFFFFFFFC, state := .halted,
                     trap := some ⟨.segfault, 0xFFFFFFFC⟩, steps := 2 } } := by
  decide

end ReducedMips.Machine
