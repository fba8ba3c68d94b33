import DsdOrsoc.Or1200.Control

/-! The integer core: the front end, the stages ID and EX with the ALU, the flag and the carry of
    the status register, and a memory behind the data port.

        port ──▶ genpc, if ──if_insn──▶ ID ──▶ EX: alu, lsu, mult_mac ──▶ register file
                   ▲                            │ flag_we (at any time), cy_we (when EX moves)
                   └──── flag, operand_b ◀── SR ◀┘

    The two halves have been modelled apart and both contain the latches of ID and EX; here they are
    clocked together. `flag_we` is not gated by the freeze, so that a compare that is held in EX has
    already written its flag. -/

namespace DsdOrsoc.Or1200
open Schemes Lanes

/-- The registers; `fe.flag` and `carry` are the bits F and CY of the status register. -/
structure Processor where
  fe : Frontend
  pl : Pipeline
  shrotOp : BitVec 2
  compOp : BitVec 4
  exPc : Word
  carry : Bool
  mem : BitVec 30 → BitVec 32

/-- The input pins: the acknowledges, what the data port drives when it does not answer a load, and
    the outputs of the units that are not modelled. -/
structure ProcessorIn where
  icpuAckI : Bool
  dcpuAck : Bool
  dcpuDat : BitVec 32
  sprsDataout : BitVec 32
  supv : Bool
  epcr : Word

namespace Processor

variable (imem : Word → Insn) (s : Processor) (i : ProcessorIn)

/-- The load/store unit with the operands in EX and the memory. -/
def lsuMem : LsuMem where
  lsu := s.pl.lsu
  exAddrbase := s.pl.ops.operandA
  exAddrofs := s.pl.ops.exSimm
  lsuDatain := s.pl.ops.operandB
  mem := s.mem

/-- The pins of the ALU. -/
def aluIn : AluIn where
  a := s.pl.ops.operandA
  b := s.pl.ops.operandB
  multMacResult := s.pl.multMacResult
  macrcOp := s.pl.exMacrcOp
  aluOp := s.pl.aluOp
  shrotOp := s.shrotOp
  compOp := s.compOp
  cust5Op := s.pl.exInsn.extractLsb' 0 5
  cust5Limm := s.pl.exInsn.extractLsb' 5 6
  carry := s.carry
  flag := s.fe.flag

/-- The pins of the front end; it gets its flag and `operand_b` from the registers behind. -/
def frontendIn : FrontendIn where
  icpuAckI := i.icpuAckI
  lsuStall := s.pl.lsu.lsuStall false i.dcpuAck
  lsuUnstall := i.dcpuAck
  macStall := s.pl.mac.macStallR
  multicycle := multicycle s.pl.ops.idInsn
  flagD := s.fe.flag
  operandBD := s.fe.operandB
  epcr := i.epcr

/-- The pins of ID and EX; a load finds the addressed word on `dcpu_dat_i`. -/
def pipelineIn : PipelineIn where
  ifInsn := s.fe.ifInsn imem (s.frontendIn i)
  ifStall := s.fe.ifStall (s.frontendIn i)
  dcpuAck := i.dcpuAck
  dcpuDat :=
    if i.dcpuAck && !s.pl.lsu.dcpuWe then s.mem (s.lsuMem.dcpuAdr.extractLsb' 2 30) else i.dcpuDat
  aluOther := s.aluIn.result
  sprsDataout := i.sprsDataout
  exPc := s.exPc ++ 0#2
  supv := i.supv

/-- `ex_freeze`, with all the other freezes. -/
def freeze : Bool := s.pl.freeze (s.pipelineIn imem i)

/-- SR[F] after the edge. -/
def flagNext : Bool := if s.aluIn.flagWe then s.aluIn.flagforw else s.fe.flag

/-- `cy_we` of the register file. -/
def cyWe : Bool := s.aluIn.cyWe && !s.freeze imem i && s.pl.ops.rfWeAllow

def reset (m : BitVec 30 → BitVec 32) : Processor where
  fe := .reset
  pl := .reset
  shrotOp := 0
  compOp := 0
  exPc := 0
  carry := false
  mem := m

/-- One rising edge of the clock; the memory takes a store with its acknowledge. -/
def clk : Processor where
  fe :=
    { s.fe.clk imem (s.frontendIn i) with
      flag := s.flagNext
      operandB := (s.pl.clk (s.pipelineIn imem i)).ops.operandB.extractLsb' 2 30 }
  pl := s.pl.clk (s.pipelineIn imem i)
  shrotOp := Operands.exLatch (s.pl.opsIn (s.pipelineIn imem i)) s.shrotOp 0
    (s.pl.ops.idInsn.extractLsb' 6 2)
  compOp := Operands.exLatch (s.pl.opsIn (s.pipelineIn imem i)) s.compOp 0
    (s.pl.ops.idInsn.extractLsb' 21 4)
  exPc := if s.freeze imem i then s.exPc else s.fe.idPc
  carry := if s.cyWe imem i then s.aluIn.cyforw else s.carry
  mem :=
    if i.dcpuAck && s.pl.lsu.dcpuWe then
      write s.mem (s.lsuMem.dcpuAdr.extractLsb' 2 30) s.lsuMem.dcpuSelO s.lsuMem.dcpuDat
    else s.mem

/-- From reset over a program and a data memory. The ports acknowledge, after any time, what they
    have been asked for. -/
def machine (m : BitVec 30 → BitVec 32) : Machine Processor ProcessorIn where
  start s := s = reset m
  legal s i := (i.icpuAckI = true → s.fe.port ≠ none) ∧
    (i.dcpuAck = true → s.pl.lsu.dcpuCycstb false false = true)
  step s i := s.clk imem i

/-! ### The two halves -/

/-- INVARIANT: the latches that both halves have are the same. -/
structure Joined (s : Processor) : Prop where
  idInsn : s.fe.idInsn = s.pl.ops.idInsn
  exInsn : s.fe.exInsn = s.pl.exInsn
  multicycleCnt : s.fe.multicycleCnt = s.pl.multicycleCnt
  operandB : s.fe.operandB = s.pl.ops.operandB.extractLsb' 2 30

variable {imem s i}

theorem Joined.freeze (h : Joined s) : s.fe.freeze (s.frontendIn i) = s.freeze imem i := by
  rw [Frontend.freeze, h.multicycleCnt]
  rfl

/-- STEP. -/
theorem Joined.clk (h : Joined s) : Joined (s.clk imem i) := by
  have hf : s.fe.freeze (s.frontendIn i) = s.freeze imem i := h.freeze
  have hid : (s.clk imem i).fe.idInsn =
      if s.freeze imem i then s.fe.idInsn else s.fe.ifInsn imem (s.frontendIn i) := by
    rw [← hf]
    rfl
  have hex : (s.clk imem i).fe.exInsn = if s.freeze imem i then s.fe.exInsn else s.fe.idInsn := by
    rw [← hf]
    rfl
  have hcnt : (s.clk imem i).fe.multicycleCnt =
      if s.fe.multicycleCnt ≠ 0 then s.fe.multicycleCnt - 1
      else if multicycle s.pl.ops.idInsn ≠ 0 ∧ s.freeze imem i = false then
        multicycle s.pl.ops.idInsn
      else s.fe.multicycleCnt := by
    rw [← hf]
    rfl
  refine ⟨?_, ?_, ?_, rfl⟩
  · rw [hid, h.idInsn]
    exact Pipeline.clk_idInsn.symm
  · rw [hex, h.idInsn, h.exInsn]
    exact Pipeline.clk_exInsn.symm
  · rw [hcnt, h.multicycleCnt]
    exact Pipeline.clk_multicycleCnt.symm

/-- The result of the ALU reaches the write-back multiplexer. -/
theorem aluDataout_eq : s.pl.aluDataout (s.pipelineIn imem i) = s.aluIn.result := by
  unfold Pipeline.aluDataout
  split
  · next h => simp [AluIn.result, aluIn, h, aluopMovhi]
  · split
    · next h => rcases h with h | h | h <;>
        simp [AluIn.result, aluIn, h, aluopMovhi, aluopDiv, aluopDivu, aluopMul]
    · rfl

/-- Without a compare in EX the flag is kept. -/
theorem clk_flag (h : s.pl.aluOp ≠ 13) : (s.clk imem i).fe.flag = s.fe.flag :=
  if_neg fun hwe => h (of_decide_eq_true hwe)

end Processor

/-! ### The front end -/

/-- A bubble or a word of the program. -/
def FromMem (imem : Word → Insn) (w : Insn) : Prop := isVoid w = true ∨ ∃ a, w = imem a

namespace Frontend

/-- INVARIANT: the words of the front end are those of the program, with their branches decoded. -/
structure Carried (imem : Word → Insn) (s : Frontend) : Prop where
  saved : FromMem imem s.insnSaved
  id : FromMem imem s.idInsn
  ex : FromMem imem s.exInsn
  idOp : s.idBranchOp = branchOp s.idInsn
  exOp : s.exBranchOp = branchOp s.exInsn

variable {imem : Word → Insn} {s : Frontend} {i : FrontendIn}

theorem carried_reset : Carried imem reset := by
  refine ⟨.inl ?_, .inl ?_, .inl ?_, rfl, rfl⟩ <;> exact isVoid_nopFlushed

theorem Carried.ifInsn (h : Carried imem s) : FromMem imem (s.ifInsn imem i) := by
  unfold Frontend.ifInsn
  split_ifs
  · exact .inl isVoid_nopFlushed
  · exact h.saved
  · exact .inr ⟨_, rfl⟩
  · exact .inl isVoid_nopMissing

/-- STEP. -/
theorem Carried.clk (h : Carried imem s) : Carried imem (s.clk imem i) := by
  have hif := h.ifInsn (i := i)
  refine ⟨?_, ?_, ?_, ?_, ?_⟩ <;> simp only [Frontend.clk]
  · split_ifs
    · exact .inr ⟨_, rfl⟩
    · exact .inl isVoid_nopFlushed
    · exact h.saved
  · split_ifs
    · exact h.id
    · exact hif
  · split_ifs
    · exact h.ex
    · exact h.id
  · split_ifs
    · exact h.idOp
    · rfl
  · split_ifs
    · exact h.exOp
    · exact h.idOp

/-- Without a branch in EX the front end does not look at the flag. -/
theorem clk_flag_irrelevant {b x : Bool} {y : Word} (hb : b = s.flag ∨ s.exBranchOp = .nop) :
    ({ s with flag := b }).clk imem { i with flagD := x, operandBD := y } =
      { s.clk imem i with
        flag := if s.freeze i then b else x
        operandB := if s.freeze i then s.operandB else y } := by
  rcases hb with rfl | hb
  · rfl
  · have hpc : ({ s with flag := b }).pc { i with flagD := x, operandBD := y } = s.pc i := by
      simp only [pc, hb]
      rfl
    have htk : ({ s with flag := b }).exBranchTaken = s.exBranchTaken := by
      simp only [exBranchTaken, hb]
    have hno : ({ s with flag := b }).noMoreDslot = s.noMoreDslot := by
      simp only [noMoreDslot, htk]
    have hif : ({ s with flag := b }).ifInsn imem { i with flagD := x, operandBD := y } =
        s.ifInsn imem i := by
      simp only [Frontend.ifInsn, hno]
      rfl
    have hadr : ({ s with flag := b }).icpuAdrO { i with flagD := x, operandBD := y } =
        s.icpuAdrO i := by
      simp only [icpuAdrO, hno, hpc]
      rfl
    have hport : ({ s with flag := b }).portNext { i with flagD := x, operandBD := y } =
        s.portNext i := by
      simp only [portNext, hadr]
      rfl
    simp only [Frontend.clk, hpc, hno, hif, hadr, hport]
    rfl

end Frontend

end DsdOrsoc.Or1200
