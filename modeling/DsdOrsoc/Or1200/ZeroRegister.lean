import DsdOrsoc.Or1200.Operands

/-! Register r0 as a source operand. The register file keeps r0 at zero, the comparators of the
    forwarding paths treat it like any other register:

        EX writes r0         ──▶ its result goes to the operand
        last result was r0's ──▶ its copy goes to the operand
        neither              ──▶ the register file, and zero if port A still has the address -/

namespace DsdOrsoc.Or1200
open Schemes

namespace Operands

/-- The operand logic with nothing assumed, SPR and debug writes to the register file included. -/
def unrestricted : Machine Operands OperandsIn where
  start s := s = reset
  legal _ _ := True
  step := clk

variable (s : Operands) (i : OperandsIn)

/-- The instruction in EX writes r0. -/
def ExZero : Prop := s.exRfAddrw = 0 ∧ s.exRfwbOp.we = true

/-- The last result was one of r0. -/
def WbZero : Prop := s.wbRfaddrw = 0 ∧ s.muxregValid = true

/-- What is forwarded for r0 is zero. -/
def ForwardsZero : Prop :=
  (s.ExZero → s.muxout i = 0) ∧ (¬ s.ExZero → s.WbZero → s.muxreg = 0)

/-- If nothing is forwarded for r0, port A of the register file is at r0 or at another zero. -/
def PortZero : Prop := ¬ s.ExZero → ¬ s.WbZero → s.intaddrA = 0 ∨ s.mem s.intaddrA = 0

/-- Operands are not saved and port B belongs to the instruction in ID. -/
structure Ported (s : Operands) : Prop where
  saved : s.savedA = false ∧ s.savedB = false
  portB : rfRdb s.idInsn = true → s.intaddrB = rB s.idInsn ∧ s.idSelImm = selImm s.idInsn

variable {s i}

theorem ported_reset : Ported reset where
  saved := ⟨rfl, rfl⟩
  portB h := by revert h; decide

theorem Ported.clk (h : Ported s) : Ported (s.clk i) where
  saved := by simp [Operands.clk, h.saved, operandLatch_unsaved]
  portB := clk_portB h.portB

/-- A source r0 with data `d` of the register file. -/
theorem forwarded_zero_iff (d : BitVec 32) :
    (if 0 = s.exRfAddrw ∧ s.exRfwbOp.we = true then s.muxout i
      else if 0 = s.wbRfaddrw ∧ s.muxregValid = true then s.muxreg else d) = 0 ↔
    s.ForwardsZero i ∧ (¬ s.ExZero → ¬ s.WbZero → d = 0) := by
  have hex : (0 = s.exRfAddrw ∧ s.exRfwbOp.we = true) ↔ s.ExZero := by rw [ExZero, eq_comm]
  have hwb : (0 = s.wbRfaddrw ∧ s.muxregValid = true) ↔ s.WbZero := by rw [WbZero, eq_comm]
  by_cases h1 : s.ExZero
  · rw [if_pos (hex.2 h1)]
    simp [ForwardsZero, h1]
  · rw [if_neg fun h => h1 (hex.1 h)]
    by_cases h2 : s.WbZero
    · rw [if_pos (hwb.2 h2)]
      simp [ForwardsZero, h1, h2]
    · rw [if_neg fun h => h2 (hwb.1 h)]
      simp [ForwardsZero, h1, h2]

theorem clk_operandA_zero_iff (h : Ported s) (hfz : i.exFreeze = false) (hr : rA s.idInsn = 0) :
    (s.clk i).operandA = 0 ↔ s.ForwardsZero i ∧ s.PortZero := by
  have hop : (s.clk i).operandA = s.muxedA i := by
    simp [clk, h.saved, operandLatch_unsaved, hfz]
  have hport : s.dataA = 0 ↔ s.intaddrA = 0 ∨ s.mem s.intaddrA = 0 := by
    unfold dataA
    split <;> simp_all
  rw [hop, muxedA, hr, forwarded_zero_iff, PortZero, hport]

theorem clk_operandB_zero_iff (h : Ported s) (hfz : i.exFreeze = false)
    (hrd : rfRdb s.idInsn = true) (himm : selImm s.idInsn = false) (hr : rB s.idInsn = 0) :
    (s.clk i).operandB = 0 ↔ s.ForwardsZero i := by
  obtain ⟨haddr, hsel⟩ := h.portB hrd
  have hop : (s.clk i).operandB = s.muxedB i := by
    simp [clk, h.saved, operandLatch_unsaved, hfz]
  have hdata : s.dataB = 0 := by rw [dataB, haddr, hr, if_pos rfl]
  rw [hop, muxedB, hsel, himm, if_neg Bool.false_ne_true, hr, forwarded_zero_iff, hdata]
  simp

end Operands

/-! ### Runs -/

section ZeroRun
open Operands

variable (R : Operands.unrestricted.Run) (t : ℕ)

/-- The sources r0 of an instruction that moves from ID to EX in cycle `t`. -/
def ZeroOperands : Prop :=
  (R.input t).exFreeze = false →
    (rfRda (R.state t).idInsn = true → rA (R.state t).idInsn = 0 →
      (R.state (t + 1)).operandA = 0) ∧
    (rfRdb (R.state t).idInsn = true → selImm (R.state t).idInsn = false →
      rB (R.state t).idInsn = 0 → (R.state (t + 1)).operandB = 0)

/-- Where they come from is zero. -/
def ZeroSources : Prop :=
  (R.input t).exFreeze = false →
    (rfRda (R.state t).idInsn = true → rA (R.state t).idInsn = 0 →
      (R.state t).ForwardsZero (R.input t) ∧ (R.state t).PortZero) ∧
    (rfRdb (R.state t).idInsn = true → selImm (R.state t).idInsn = false →
      rB (R.state t).idInsn = 0 → (R.state t).ForwardsZero (R.input t))

/-- Every instruction that writes r0 leaves EX with the result zero. -/
def ZeroResults : Prop :=
  ∀ t, (R.state t).ExZero → (R.input t).exFreeze = false → (R.state t).muxout (R.input t) = 0

variable {R t}

theorem ported_run : Ported (R.state t) :=
  (R.reachable t).invariant (I := Ported)
    (fun s hs => by rw [show s = reset from hs]; exact ported_reset) fun _ _ hs _ => hs.clk

/-- The copy of the last result and port A, in a run that writes only zeros to r0 and in which no
    SPR read takes the port away. -/
theorem zero_copy_run (hz : ZeroResults R) (hr : ∀ t, (R.state t).ReadHarmless (R.input t)) :
    ∀ t, ((R.state t).WbZero → (R.state t).muxreg = 0) ∧
      (rfRda (R.state t).idInsn = true → (R.state t).intaddrA = rA (R.state t).idInsn)
  | 0 => by
    rw [show R.state 0 = reset from R.start]
    exact ⟨fun _ => rfl, by decide⟩
  | t + 1 => by
    obtain ⟨hcopy, hport⟩ := zero_copy_run hz hr t
    rw [show R.state (t + 1) = (R.state t).clk (R.input t) from R.next t]
    refine ⟨?_, clk_portA hport (hr t)⟩
    cases hfz : (R.input t).exFreeze with
    | true =>
      simp only [WbZero, Operands.clk, hfz, if_true]
      exact hcopy
    | false =>
      simp only [WbZero, Operands.clk, hfz, Bool.false_eq_true, if_false]
      exact fun hwb => hz t hwb hfz

variable (R t)

/-- A source r0 is delivered as zero exactly if the forwarding paths have zero or nothing for r0,
    and for rA, if they have nothing, port A of the register file was not taken by an SPR read of a
    register other than zero. -/
theorem zero_operands_iff : ZeroOperands R t ↔ ZeroSources R t := by
  have hnext : R.state (t + 1) = (R.state t).clk (R.input t) := R.next t
  refine forall_congr' fun hfz => and_congr ?_ ?_
  · refine forall₂_congr fun _ hr => ?_
    rw [hnext]
    exact clk_operandA_zero_iff ported_run hfz hr
  · refine forall₃_congr fun hrd himm hr => ?_
    rw [hnext]
    exact clk_operandB_zero_iff ported_run hfz hrd himm hr

/-- In a run whose instructions write only zeros to r0, every source r0 is zero. -/
theorem zero_operands_of_zero_results (hz : ZeroResults R)
    (hr : ∀ t, (R.state t).ReadHarmless (R.input t)) : ZeroOperands R t := by
  have ⟨hcopy, hport⟩ := zero_copy_run hz hr t
  have hnext : R.state (t + 1) = (R.state t).clk (R.input t) := R.next t
  intro hfz
  have hfw : (R.state t).ForwardsZero (R.input t) := ⟨fun hex => hz t hex hfz, fun _ => hcopy⟩
  rw [hnext]
  refine ⟨fun hrd h0 => (clk_operandA_zero_iff ported_run hfz h0).2 ⟨hfw, fun _ _ => .inl ?_⟩,
    fun hrd himm h0 => (clk_operandB_zero_iff ported_run hfz hrd himm h0).2 hfw⟩
  rw [hport hrd, h0]

end ZeroRun

/-- l.addi r0,r0,7; l.add r1,r0,r0. -/
def zeroProgram : ℕ → Insn
  | 0 => 0x9c000007
  | 1 => 0xe0200000
  | _ => nopFlushed

/-- Both operands of l.add are the result of l.addi, which the register file ignores. -/
theorem zero_forwarded : ∃ R : Operands.unrestricted.Run,
    R.input = freeRunning zeroProgram (fun _ => false) ∧ (R.state 2).idInsn = 0xe0200000 ∧
    (R.input 2).exFreeze = false ∧ (R.state 3).operandA = 7 ∧ (R.state 3).operandB = 7 ∧
    (R.state 3).mem 0 = 0 ∧ ¬ ZeroOperands R 2 := by
  refine ⟨.ofInput Operands.reset _ rfl fun _ => trivial, rfl, by decide, by decide, by decide,
    by decide, by decide, fun h => ?_⟩
  have ha := (h (by decide)).1 (by decide) (by decide)
  revert ha
  decide

end DsdOrsoc.Or1200
