import ReducedMips.Word
/-!
# The latest write

A place is written by some of the steps of a sequence. It holds what the latest of them wrote, or
what it held at the start.
-/
namespace ReducedMips

/-- The value that the latest write before step `n` wrote, or the initial value where there was no
write. -/
inductive Latest (writes : Nat → Word → Prop) (initial : Word) (n : Nat) : Word → Prop
  | written {k : Nat} {value : Word} (hk : k < n) (hw : writes k value)
      (hlast : ∀ j, k < j → j < n → ∀ v, ¬ writes j v) : Latest writes initial n value
  | initial (hnone : ∀ k, k < n → ∀ v, ¬ writes k v) : Latest writes initial n initial

namespace Latest

variable {writes : Nat → Word → Prop} {initial value : Word} {n : Nat}

theorem succ_of_write (hw : writes n value) : Latest writes initial (n + 1) value :=
  .written (Nat.lt_succ_self n) hw fun _ hj hj' => absurd (Nat.le_of_lt_succ hj') (Nat.not_le.2 hj)

theorem succ_of_no_write (h : Latest writes initial n value) (hn : ∀ v, ¬ writes n v) :
    Latest writes initial (n + 1) value := by
  cases h with
  | written hk hw hlast =>
    refine .written (Nat.lt_succ_of_lt hk) hw fun j hj hj' => ?_
    rcases Nat.lt_succ_iff_lt_or_eq.1 hj' with hlt | rfl
    · exact hlast j hj hlt
    · exact hn
  | initial hnone =>
    refine .initial fun k hk => ?_
    rcases Nat.lt_succ_iff_lt_or_eq.1 hk with hlt | rfl
    · exact hnone k hlt
    · exact hn

theorem zero (writes : Nat → Word → Prop) (initial : Word) : Latest writes initial 0 initial :=
  .initial fun k hk => absurd hk (Nat.not_lt_zero k)

section Place

-- each step writes one value to one place, if anything
variable {α : Type} {write? : Nat → Option (α × Word)} {place : α}

theorem succ_of_none (h : Latest (fun k v => write? k = some (place, v)) initial n value)
    (hw : write? n = none) :
    Latest (fun k v => write? k = some (place, v)) initial (n + 1) value :=
  h.succ_of_no_write fun v hv => by rw [hw] at hv; cases hv

theorem succ_of_some [DecidableEq α]
    (h : Latest (fun k v => write? k = some (place, v)) initial n value)
    {written : α} {value' : Word} (hw : write? n = some (written, value')) :
    Latest (fun k v => write? k = some (place, v)) initial (n + 1)
      (if written = place then value' else value) := by
  by_cases heq : written = place
  · rw [if_pos heq]
    exact .succ_of_write (heq ▸ hw)
  · rw [if_neg heq]
    refine h.succ_of_no_write fun v hv => heq ?_
    rw [hw] at hv
    exact congrArg Prod.fst (Option.some.inj hv)

end Place

end Latest

end ReducedMips
