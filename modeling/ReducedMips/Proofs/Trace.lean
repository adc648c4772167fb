import ReducedMips.Machine.Log
import ReducedMips.Proofs.Alignment
import ReducedMips.Proofs.Listing
/-!
# Traces and listings

A run logs what the listing of its program shows. The machine decodes the word at its program
counter and the listing decodes the words of the program in a row; the two meet because the
program counter of a run stays a multiple of four. What is left over at the end of a program is
never executed.
-/
namespace ReducedMips.Machine

open Instruction

variable {p : Program} {m : Machine} {e : Event}

theorem execute_cases (m : Machine) (w : Word) :
    (∃ effect, m.execute w = .done (decode w) effect) ∨
      (∃ kind, m.execute w = .fault (decode w) kind) ∨
        (m.execute w = .halt ∧ decode w = .halt) := by
  simp only [execute]
  cases decode w with
  | halt => exact .inr (.inr ⟨rfl, rfl⟩)
  | r | i | j =>
    dsimp only
    split
    · exact .inl ⟨_, rfl⟩
    · exact .inr (.inl ⟨_, rfl⟩)

theorem event_execute_cases {w pc : Word} (he : e ∈ (m.execute w).events pc) :
    e = .decoded pc (decode w) ∨ (e = .halted pc ∧ decode w = .halt) ∨
      ∃ kind, e = .trapped { kind, pc } := by
  rcases m.execute_cases w with ⟨_, h⟩ | ⟨kind, h⟩ | ⟨h, hw⟩
  · rw [h] at he
    exact .inl (List.mem_singleton.1 he)
  · rw [h, Outcome.events, List.mem_cons, List.mem_singleton] at he
    exact he.imp_right fun he => .inr ⟨kind, he⟩
  · rw [h] at he
    exact .inr (.inl ⟨List.mem_singleton.1 he, hw⟩)

theorem exists_event_execute (m : Machine) (w pc : Word) :
    ∃ e ∈ (m.execute w).events pc, e.pc = pc ∧ e.level ∈ [.trace, .debug] ∧
      e.message = (decode w).assembly := by
  have htrace : Level.trace ∈ [Level.trace, .debug] := List.mem_cons_self
  have hdebug : Level.debug ∈ [Level.trace, .debug] := List.mem_cons_of_mem _ List.mem_cons_self
  rcases m.execute_cases w with ⟨_, h⟩ | ⟨_, h⟩ | ⟨h, hw⟩
  · rw [h]
    exact ⟨_, List.mem_cons_self, rfl, htrace, rfl⟩
  · rw [h]
    exact ⟨_, List.mem_cons_self, rfl, htrace, rfl⟩
  · rw [h, hw]
    exact ⟨_, List.mem_cons_self, rfl, hdebug, rfl⟩

theorem events_of_running (hr : m.control.state = .running) :
    m.events p = (m.outcome p).events m.control.pc := by
  simp only [events]
  rw [hr]

/-- Only a step that executes a word logs anything but a trap. -/
theorem execute_of_event (he : e ∈ m.events p) (hl : e.level ≠ .warn) :
    m.control.pc.toNat + 4 ≤ p.size ∧
      e ∈ (m.execute (p.wordAt m.control.pc.toNat)).events m.control.pc := by
  cases hs : m.control.state with
  | halted =>
    rw [events_of_halted p (isHalted_iff.2 hs)] at he
    exact absurd he List.not_mem_nil
  | running =>
    rw [events_of_running hs] at he
    by_cases hle : m.control.pc.toNat + 4 ≤ p.size
    · rw [outcome_of_le hle] at he
      exact ⟨hle, he⟩
    · rw [outcome_of_lt (Nat.lt_of_not_le hle)] at he
      rw [List.mem_singleton.1 he] at hl
      exact absurd rfl hl

/-- What the next step does and logs is what the listing shows at its program counter. -/
structure Follows (p : Program) (m : Machine) : Prop where
  /-- A decoded instruction is logged as the text of the word that is executed. -/
  traced : ∀ e ∈ m.events p, e.level = .trace →
    e.pc = m.control.pc ∧ e.pc.toNat % 4 = 0 ∧ e.pc.toNat + 4 ≤ p.size ∧
      ∃ w, p.fetch e.pc = some w ∧ m.outcome p = m.execute w ∧ p.Shows e.pc.toNat w e.message
  halted : ∀ e ∈ m.events p, e.level = .debug →
    e.pc = m.control.pc ∧
      ∃ w, p.fetch e.pc = some w ∧ m.outcome p = m.execute w ∧ p.Shows e.pc.toNat w "halt"
  /-- No word is executed unseen. -/
  logged : m.control.state = .running → ∀ w, p.fetch m.control.pc = some w →
    ∃ e ∈ m.events p, e.pc = m.control.pc ∧ e.level ∈ [.trace, .debug] ∧
      p.Shows m.control.pc.toNat w e.message
  /-- No byte of an incomplete word is fetched. -/
  whole : ∀ address, p.Incomplete address → ∀ w, p.fetch m.control.pc = some w →
    m.control.pc.toNat + 4 ≤ address
  incomplete : m.control.state = .running → p.Incomplete m.control.pc.toNat →
    m.step p = { m with control := m.control.tick.raise .segfault }

theorem follows_of_aligned (ha : m.control.pc.toNat % 4 = 0) : m.Follows p where
  traced := by
    intro e he hl
    obtain ⟨hle, hexecute⟩ := execute_of_event he (by rw [hl]; decide)
    rcases event_execute_cases hexecute with rfl | ⟨rfl, -⟩ | ⟨_, rfl⟩
    · exact ⟨rfl, ha, hle, _, Program.fetch_of_le hle, outcome_of_le hle,
        Program.shows_wordAt ha hle⟩
    · cases hl
    · cases hl
  halted := by
    intro e he hl
    obtain ⟨hle, hexecute⟩ := execute_of_event he (by rw [hl]; decide)
    rcases event_execute_cases hexecute with rfl | ⟨rfl, hhalt⟩ | ⟨_, rfl⟩
    · cases hl
    · have hshows := Program.shows_wordAt ha hle
      rw [hhalt] at hshows
      exact ⟨rfl, _, Program.fetch_of_le hle, outcome_of_le hle, hshows⟩
    · cases hl
  logged := by
    intro hr w hw
    obtain ⟨hle, rfl⟩ := Program.fetch_eq_some_iff.1 hw
    obtain ⟨e, he, hpc, hlevel, hmessage⟩ := m.exists_event_execute _ m.control.pc
    rw [events_of_running hr, outcome_of_le hle]
    refine ⟨e, he, hpc, hlevel, ?_⟩
    rw [hmessage]
    exact Program.shows_wordAt ha hle
  whole := by
    intro address hincomplete w hw
    have hle := (Program.fetch_eq_some_iff.1 hw).1
    have haddress := ((p.incomplete_iff address).1 hincomplete).2
    omega
  incomplete := by
    intro hr hincomplete
    obtain ⟨hrest, haddress⟩ := (p.incomplete_iff _).1 hincomplete
    rw [step_of_running hr, outcome_of_lt (by omega)]
    rfl

theorem log_eq_flatMap (p : Program) (n : Nat) (m : Machine) :
    log p n m = (List.range n).flatMap fun k => (after p k m).events p := by
  induction n generalizing m with
  | zero => rfl
  | succ n ih =>
    rw [log, ih, List.range_succ_eq_map, List.flatMap_cons, List.flatMap_map]
    rfl

/-- Every step of a run logs, and executes, what the listing of the program shows on the line of
the program counter. A line that is marked as incomplete shows what is left over after the whole
words, and a run that comes to it traps. -/
theorem run_follows_listing (p : Program) (registers : Registers) (memory : Memory) :
    let first := start registers memory
    (∀ address, p.Incomplete address ↔ p.size % 4 ≠ 0 ∧ address = 4 * (p.size / 4)) ∧
    ∀ n, log p n first = ((List.range n).flatMap fun k => (after p k first).events p) ∧
      (after p n first).Follows p := by
  intro first
  exact ⟨p.incomplete_iff, fun n => ⟨log_eq_flatMap p n first,
    follows_of_aligned (after_aligned n rfl)⟩⟩

end ReducedMips.Machine
