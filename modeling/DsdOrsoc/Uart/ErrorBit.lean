import DsdOrsoc.Uart.Fifo

/-! The error summary of the receive FIFO. `error_bit` is the disjunction of all sixteen flag slots,
    so it is exact as long as the slots outside the queue are zero. A pop clears the slot that it
    leaves; a pop together with a push does not:

        {push, pop}      01                    11
        fifo[bottom]     <= 0                  kept
        fifo[top]        kept                  <= data_in[2:0]

    The flags of the item that leaves then stay behind, unless the FIFO is full and the new flags go
    to the same slot. -/

namespace DsdOrsoc.Uart
open Schemes

namespace Rfifo

/-- Nothing is pushed and popped at once while the FIFO is empty. -/
def NotOnEmpty (s : Rfifo) (i : FifoIn RecWord) : Prop :=
  i.fifoReset = false → i.push = true → i.pop = true → s.ptrs.count ≠ 0

/-- The item that leaves together with a push has no flags, or the FIFO is full. -/
def LeavesClean (s : Rfifo) (i : FifoIn RecWord) : Prop :=
  i.fifoReset = false → i.push = true → i.pop = true → s.ptrs.count < 16 → s.dataOut.flags = 0

/-- INVARIANT: the flags of the queue are in its slots, and the other slots are zero. -/
structure Exact (s : Rfifo) (q : List RecWord) : Prop where
  ptrs : s.ptrs.Rep q.length
  flags : Ring.Holds s.fifo s.ptrs.bottom (q.map RecWord.flags)
  clear : Ring.Clear s.fifo s.ptrs.bottom q.length 0

variable {s : Rfifo} {i : FifoIn RecWord} {q : List RecWord}

theorem dataOut_flags : s.dataOut.flags = s.fifo s.ptrs.bottom := by
  apply BitVec.eq_of_getLsbD_eq
  intro n hn
  simp only [dataOut, RecWord.flags, BitVec.getLsbD_append, BitVec.getLsbD_extractLsb']
  grind

theorem Exact.errorBit_iff (h : s.Exact q) : s.errorBit = true ↔ ∃ x ∈ q, x.flags ≠ 0 := by
  have hc : Ring.Clear s.fifo s.ptrs.bottom (q.map RecWord.flags).length 0 := by
    rw [List.length_map]
    exact h.clear
  rw [errorBit, decide_eq_true_eq, h.flags.exists_ne_iff hc]
  simp

/-- The slots outside the queue stay zero. -/
theorem Exact.clk_clear (h : s.Exact q) (hr : i.fifoReset = false)
    (hempty : i.push = true → i.pop = true → q ≠ []) (hc : s.LeavesClean i) :
    Ring.Clear (s.clk i).fifo (s.clk i).ptrs.bottom (queueNext q i).length 0 := by
  have hlt : s.ptrs.count < 16 ↔ q.length < 16 := by rw [← h.ptrs.count, BitVec.lt_def]; rfl
  have hpos : 0 < s.ptrs.count ↔ q ≠ [] := by
    rw [← List.length_pos_iff, ← h.ptrs.count, BitVec.lt_def]
    rfl
  rw [queueNext, hr, if_neg Bool.false_ne_true]
  change Ring.Clear (s.fifoNext i) (s.ptrs.clk i).bottom _ _
  rw [h.ptrs.bottom_clk hr hempty]
  unfold fifoNext
  rw [hr, if_neg Bool.false_ne_true]
  cases hpush : i.push <;> cases hpop : i.pop
  · simpa [Queue.next] using h.clear
  · -- a pop alone clears the slot it leaves
    simp only [hpos]
    cases q with
    | nil => simpa [Queue.next] using h.clear
    | cons y q => simpa [Queue.next] using Ring.Clear.pop h.clear
  · simp only [Queue.next, hlt, Bool.false_eq_true, false_and, if_false]
    split
    · rw [List.length_append, List.length_singleton, h.ptrs.top]
      exact h.clear.push _
    · exact h.clear
  · -- a pop with a push leaves the flags of the first item behind
    cases q with
    | nil => exact absurd rfl (hempty hpush hpop)
    | cons y q =>
      have hb : (y :: q).length < 2 ^ 4 → s.fifo s.ptrs.bottom = 0 := by
        intro h16
        rw [← dataOut_flags]
        exact hc hr hpush hpop (hlt.2 h16)
      have := h.clear.turn (Nat.zero_lt_succ _) hb i.dataIn.flags
      rw [← h.ptrs.top] at this
      simpa [Queue.next] using this

/-- STEP. -/
theorem Exact.clk (h : s.Exact q) (hd : s.NotOnEmpty i) (hc : s.LeavesClean i) :
    (s.clk i).Exact (queueNext q i) := by
  have hempty : i.fifoReset = false → i.push = true → i.pop = true → q ≠ [] := by
    intro hr hpush hpop hq
    exact hd hr hpush hpop (h.ptrs.count_eq_zero.2 hq)
  cases hr : i.fifoReset with
  | true =>
    refine ⟨h.ptrs.clk hempty, ?_, ?_⟩ <;> rw [queueNext, hr, if_pos rfl]
    · exact Ring.holds_nil
    · intro k _ _
      simp [Rfifo.clk, fifoNext, hr]
  | false =>
    exact ⟨h.ptrs.clk hempty, clk_flags h.ptrs h.flags hr (hempty hr),
      h.clk_clear hr (hempty hr) hc⟩

end Rfifo

variable (R : Rfifo.machine.Run)

/-- RUN. -/
theorem exact_run (hd : ∀ t, (R.state t).NotOnEmpty (R.input t))
    (hc : ∀ t, (R.state t).LeavesClean (R.input t)) (t : ℕ) :
    (R.state t).Exact (queue R.input t) := by
  induction t with
  | zero =>
    obtain ⟨hptrs, hfifo, -⟩ := R.start
    refine ⟨?_, Ring.holds_nil, ?_⟩
    · rw [hptrs]
      exact FifoPtrs.rep_zero
    · intro k _ _
      rw [hfifo]
  | succ t ih =>
    rw [show R.state (t + 1) = (R.state t).clk (R.input t) from R.next t]
    exact ih.clk (hd t) (hc t)

/-- `error_bit` is the disjunction of the flags in the queue, in every run in which no item with
    flags leaves together with a push. -/
theorem error_bit_exact (hd : ∀ t, (R.state t).NotOnEmpty (R.input t))
    (hc : ∀ t, (R.state t).LeavesClean (R.input t)) (t : ℕ) :
    (R.state t).errorBit = true ↔ ∃ x ∈ queue R.input t, x.flags ≠ 0 :=
  (exact_run R hd hc t).errorBit_iff

/-- A break is pushed in cycle 0 and popped together with a push of a plain byte in cycle
    `t = 1`; with `clean`, a plain byte takes the place of the break. -/
def turnInput (clean : Bool) (t : ℕ) : FifoIn RecWord where
  push := decide (t < 2)
  pop := decide (t = 1)
  fifoReset := false
  resetStatus := false
  dataIn := if t = 0 ∧ clean = false then 0b100 else 0x208

def turnRun (clean : Bool) : Rfifo.machine.Run :=
  .ofInput ⟨⟨0, 0, 0⟩, fun _ => 0, fun _ => 0, false⟩ (turnInput clean) ⟨rfl, rfl, rfl⟩
    fun _ => trivial

theorem turnRun_notOnEmpty (clean : Bool) (t : ℕ) :
    ((turnRun clean).state t).NotOnEmpty ((turnRun clean).input t) := by
  intro _ _ hpop
  obtain rfl : t = 1 := by simpa [turnRun, Machine.Run.ofInput, turnInput] using hpop
  cases clean <;> decide

/-- With plain bytes only, the bit stays clear. -/
theorem error_bit_exact_clean :
    ¬ (((turnRun true).state 2).errorBit = true) ∧ queue (turnRun true).input 2 = [0x208] := by
  refine ⟨fun h => ?_, by decide⟩
  have hclean : ∀ t, ((turnRun true).state t).LeavesClean ((turnRun true).input t) := by
    intro t _ _ hpop _
    obtain rfl : t = 1 := by simpa [turnRun, Machine.Run.ofInput, turnInput] using hpop
    decide
  exact absurd ((error_bit_exact _ (turnRun_notOnEmpty true) hclean 2).1 h) (by decide)

/-- The flags of the break stay behind: the only item in the FIFO has none, and `error_bit` is
    set. -/
theorem error_bit_stale :
    (∀ t, ((turnRun false).state t).NotOnEmpty ((turnRun false).input t)) ∧
    queue (turnRun false).input 1 = [0b100] ∧ queue (turnRun false).input 2 = [0x208] ∧
    RecWord.flags 0x208 = 0 ∧ ((turnRun false).state 2).ptrs.count = 1 ∧
    ((turnRun false).state 2).errorBit = true :=
  ⟨turnRun_notOnEmpty false, by decide, by decide, by decide, by decide, by decide⟩

end DsdOrsoc.Uart
