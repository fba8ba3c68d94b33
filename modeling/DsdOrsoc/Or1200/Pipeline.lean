import DsdOrsoc.Or1200.Lsu
import DsdOrsoc.Or1200.MultMac

/-! The stages ID and EX: the operand logic, the load/store unit, the multiply unit, the EX latches
    of `or1200_ctrl` and `or1200_freeze`. Exceptions, flushes and debug stalls are tied off, so that
    `id_freeze`, `ex_freeze` and `wb_freeze` are one signal and the pipeline moves as a whole:

        IF ──if_insn──▶ ID ──▶ EX ──▶ register file
             if_stall          │ load/store   : until dcpu_ack_i
                               │ multicycle   : multicycle_cnt
                               │ mac_stall    : l.macrc behind l.mac, divider

    An acknowledge of the data port overrides the stall of the fetch, and no other one. -/

namespace DsdOrsoc.Or1200
open Schemes

/-! ### Decoding -/

/-- `multicycle`. -/
def multicycle (insn : Insn) : BitVec 3 :=
  if opcode insn = 0b101101 then 1                          -- l.mfspr
  else if opcode insn = 0b111000 then
    (if insn.extractLsb' 0 4 = 6 then 3                     -- l.mul
     else if insn.extractLsb' 0 4 = 9 then 2                -- l.div
     else if insn.extractLsb' 0 4 = 10 then 2               -- l.divu
     else if insn.extractLsb' 0 4 = 11 then 3               -- l.mulu
     else 0)
  else if opcode insn = 0b101100 then 3                     -- l.muli
  else 0

/-- `alu_op`. -/
def aluOp (insn : Insn) : BitVec 4 :=
  if opcode insn = 0b000110 then aluopMovhi                 -- l.movhi, l.macrc
  else if opcode insn = 0b100111 then 0                     -- l.addi
  else if opcode insn = 0b101000 then 1                     -- l.addic
  else if opcode insn = 0b101001 then 3                     -- l.andi
  else if opcode insn = 0b101010 then 4                     -- l.ori
  else if opcode insn = 0b101011 then 5                     -- l.xori
  else if opcode insn = 0b101100 then aluopMul              -- l.muli
  else if opcode insn = 0b101110 then 8                     -- shifts by an immediate
  else if opcode insn ∈ [0b101111, 0b111001] then 13        -- l.sfxx, l.sfxxi
  else if opcode insn = 0b111000 then insn.extractLsb' 0 4
  else aluopNop

/-- An instruction on two registers with operation `op`. -/
def isAlu (op : BitVec 4) (insn : Insn) : Bool :=
  decide (opcode insn = 0b111000) && decide (insn.extractLsb' 0 4 = op)

theorem aluOp_of_isAlu {op : BitVec 4} {insn : Insn} (h : isAlu op insn = true) :
    aluOp insn = op := by
  simp only [isAlu, Bool.and_eq_true, decide_eq_true_eq] at h
  simp [aluOp, h.1, h.2]

/-- l.div and l.divu. -/
def isDiv (insn : Insn) : Bool :=
  decide (aluOp insn = aluopDiv) || decide (aluOp insn = aluopDivu)

/-- `id_mac_op`. -/
def macOp (insn : Insn) : BitVec 3 :=
  if opcode insn = 0b010011 then macopMac                   -- l.maci
  else if opcode insn = 0b110001 then insn.extractLsb' 0 3  -- l.mac, l.msb
  else macopNop

/-- `id_macrc_op`. -/
def isMacrc (insn : Insn) : Bool := decide (opcode insn = 0b000110) && insn.getLsbD 16

theorem opcode_of_branch {insn : Insn} (h : branchOp insn ≠ .nop) :
    opcode insn ∈ [0b000000, 0b000001, 0b010010, 0b010001, 0b000011, 0b000100, 0b001001] := by
  by_contra hm
  simp only [List.mem_cons, List.not_mem_nil, or_false, not_or] at hm
  exact h (by simp only [branchOp, hm, if_false])

theorem aluOp_of_branch {insn : Insn} (h : branchOp insn ≠ .nop) : aluOp insn = aluopNop := by
  have hm := opcode_of_branch h
  simp only [List.mem_cons, List.not_mem_nil, or_false] at hm
  rcases hm with h | h | h | h | h | h | h <;> simp [aluOp, h]

theorem lsuOp_of_branch {insn : Insn} (h : branchOp insn ≠ .nop) : lsuOp insn = .nop := by
  have hm := opcode_of_branch h
  simp only [List.mem_cons, List.not_mem_nil, or_false] at hm
  rcases hm with h | h | h | h | h | h | h <;> simp [lsuOp, h]

/-! ### Registers and pins -/

structure Pipeline where
  ops : Operands
  lsu : Lsu
  mac : MultMac
  multicycleCnt : BitVec 3
  exInsn : Insn
  aluOp : BitVec 4
  exMacOp : BitVec 3
  exMacrcOp : Bool

/-- The input pins: the instruction in IF and its stall, the data port, and what the units that are
    not modelled put out: the other results of the ALU, the special-purpose registers, `ex_pc`. -/
structure PipelineIn where
  ifInsn : Insn
  ifStall : Bool
  dcpuAck : Bool
  dcpuDat : BitVec 32
  aluOther : BitVec 32
  sprsDataout : BitVec 32
  exPc : BitVec 32
  supv : Bool

namespace Pipeline

def reset : Pipeline where
  ops := .reset
  lsu := .reset
  mac := .reset
  multicycleCnt := 0
  exInsn := nopFlushed
  aluOp := aluopNop
  exMacOp := macopNop
  exMacrcOp := false

variable (s : Pipeline) (i : PipelineIn)

def dcpuCycstb : Bool := s.lsu.dcpuCycstb false i.dcpuAck

def lsuStall : Bool := s.lsu.lsuStall false i.dcpuAck

/-- `id_freeze`, `ex_freeze` and `wb_freeze`; `lsu_unstall` is the acknowledge. -/
def freeze : Bool :=
  s.lsuStall i || (!i.dcpuAck && i.ifStall) || decide (s.multicycleCnt ≠ 0) || s.mac.macStallR

/-- `mult_mac_result`. -/
def multMacResult : BitVec 32 := s.mac.result s.aluOp s.ops.operandA s.ops.operandB

/-- `alu_dataout`, as far as the multiply unit has part in it. -/
def aluDataout : BitVec 32 :=
  if s.aluOp = aluopMovhi then
    (if s.exMacrcOp then s.multMacResult else s.ops.operandB <<< 16)
  else if s.aluOp = aluopDiv ∨ s.aluOp = aluopDivu ∨ s.aluOp = aluopMul then s.multMacResult
  else i.aluOther

/-- The pins of the operand logic. -/
def opsIn : OperandsIn where
  ifInsn := i.ifInsn
  idFreeze := s.freeze i
  abortEx := false
  abortMvspr := false
  flushpipe := false
  aluDataout := s.aluDataout i
  lsuDataout := mem2reg s.lsu.exLsuOp (s.lsu.dcpuAdrR.setWidth 2) i.dcpuDat
  sprsDataout := i.sprsDataout
  exPc := i.exPc
  supv := i.supv
  duRead := false
  duWrite := false
  duAddr := 0
  duDat := 0

/-- The pins of the multiply unit; the group number of its registers is 5. -/
def macIn : MultMacIn where
  exFreeze := s.freeze i
  idMacrcOp := isMacrc s.ops.idInsn
  macrcOp := s.exMacrcOp
  a := s.ops.operandA
  b := s.ops.operandB
  macOp := s.exMacOp
  aluOp := s.aluOp
  sprCs := s.ops.sprCs (s.opsIn i) 5
  sprWrite := s.ops.sprWe (s.opsIn i)
  sprAddr := s.ops.sprAddr (s.opsIn i)
  sprDatI := s.ops.sprDat (s.opsIn i)

/-- One rising edge of the clock. -/
def clk : Pipeline where
  ops := s.ops.clk (s.opsIn i)
  lsu := s.lsu.clk (s.opsIn i) (lsuOp s.ops.idInsn) (s.ops.muxedA (s.opsIn i)) (simm s.ops.idInsn)
  mac := s.mac.clk (s.macIn i)
  multicycleCnt :=
    if s.multicycleCnt ≠ 0 then s.multicycleCnt - 1
    else if multicycle s.ops.idInsn ≠ 0 ∧ s.freeze i = false then multicycle s.ops.idInsn
    else s.multicycleCnt
  exInsn := Operands.exLatch (s.opsIn i) s.exInsn nopFlushed s.ops.idInsn
  aluOp := Operands.exLatch (s.opsIn i) s.aluOp aluopNop (Or1200.aluOp s.ops.idInsn)
  exMacOp := Operands.exLatch (s.opsIn i) s.exMacOp macopNop (macOp s.ops.idInsn)
  exMacrcOp := Operands.exLatch (s.opsIn i) s.exMacrcOp false (isMacrc s.ops.idInsn)

/-- The two stages under any instructions, fetch stalls and data port. -/
def machine : Machine Pipeline PipelineIn where
  start s := s = reset
  legal _ _ := True
  step := clk

/-! ### The latches of EX -/

variable {s i}

theorem opsIn_exFreeze : (s.opsIn i).exFreeze = s.freeze i := Bool.or_false _

theorem macIn_exFreeze : (s.macIn i).exFreeze = s.freeze i := rfl

theorem sprWe_opsIn : s.ops.sprWe (s.opsIn i) = s.ops.sprWrite := by
  have h : s.ops.sprWe (s.opsIn i) = (s.ops.sprWrite && true && true) := rfl
  rw [h, Bool.and_true, Bool.and_true]

/-- Without flushes and aborts an EX latch is a register with an enable. -/
theorem exLatch_opsIn {α : Type} (old clear new : α) :
    Operands.exLatch (s.opsIn i) old clear new = if s.freeze i then old else new := by
  have h : Operands.exLatch (s.opsIn i) old clear new =
      if (!(s.opsIn i).exFreeze && s.freeze i) || false then clear
      else if !(s.opsIn i).exFreeze then new else old := rfl
  rw [h, opsIn_exFreeze]
  cases s.freeze i <;> rfl

theorem not_frozen (hf : s.freeze i = false) :
    s.multicycleCnt = 0 ∧ s.mac.macStallR = false := by
  simp only [freeze, Bool.or_eq_false_iff, decide_eq_false_iff_not, not_not] at hf
  exact ⟨hf.1.2, hf.2⟩

theorem clk_exInsn : (s.clk i).exInsn = if s.freeze i then s.exInsn else s.ops.idInsn :=
  exLatch_opsIn _ _ _

theorem clk_idInsn : (s.clk i).ops.idInsn = if s.freeze i then s.ops.idInsn else i.ifInsn := rfl

/-- A frozen pipeline keeps the operands in EX. -/
theorem clk_operands (hf : s.freeze i = true) :
    (s.clk i).ops.operandA = s.ops.operandA ∧ (s.clk i).ops.operandB = s.ops.operandB := by
  have hkeep (old muxed : BitVec 32) (saved : Bool) :
      (Operands.operandLatch (s.opsIn i) old muxed saved).1 = old := by
    simp [Operands.operandLatch, opsIn_exFreeze, hf]
  exact ⟨hkeep _ _ _, hkeep _ _ _⟩

/-- INVARIANT: the latches of EX hold the decoded instruction, and the counter runs for a multicycle
    instruction only. -/
structure Decoded (s : Pipeline) : Prop where
  lsuOp : s.lsu.exLsuOp = lsuOp s.exInsn
  aluOp : s.aluOp = Or1200.aluOp s.exInsn
  macOp : s.exMacOp = macOp s.exInsn
  macrcOp : s.exMacrcOp = isMacrc s.exInsn
  rfwbOp : s.ops.exRfwbOp = rfwbOp s.exInsn
  addrw : (Or1200.rfwbOp s.exInsn).we = true → s.ops.exRfAddrw = rfAddrw s.exInsn
  sprWrite : s.ops.sprWrite = decide (opcode s.exInsn = 0b110000)
  allow : s.ops.rfWeAllow = true
  counts : s.multicycleCnt ≠ 0 → multicycle s.exInsn ≠ 0

theorem decoded_reset : Decoded reset := by
  refine ⟨?_, ?_, ?_, ?_, ?_, ?_, ?_, ?_, ?_⟩ <;> decide

/-- A latch that holds a decoded field does so after the edge. -/
theorem latched {α : Type} {f : Insn → α} {old clear : α} (h : old = f s.exInsn) :
    Operands.exLatch (s.opsIn i) old clear (f s.ops.idInsn) = f (s.clk i).exInsn := by
  rw [exLatch_opsIn, clk_exInsn, apply_ite f, h]

theorem clk_exRfAddrw : (s.clk i).ops.exRfAddrw =
    if s.freeze i then s.ops.exRfAddrw else rfAddrw s.ops.idInsn := by
  have h : (s.clk i).ops.exRfAddrw =
      if !(s.opsIn i).exFreeze && s.freeze i then 0
      else if !(s.opsIn i).exFreeze then rfAddrw s.ops.idInsn else s.ops.exRfAddrw := rfl
  rw [h, opsIn_exFreeze]
  cases s.freeze i <;> rfl

theorem clk_rfWeAllow : (s.clk i).ops.rfWeAllow =
    if (s.opsIn i).exFreeze then s.ops.rfWeAllow else true := rfl

theorem clk_multicycleCnt : (s.clk i).multicycleCnt =
    if s.multicycleCnt ≠ 0 then s.multicycleCnt - 1
    else if multicycle s.ops.idInsn ≠ 0 ∧ s.freeze i = false then multicycle s.ops.idInsn
    else s.multicycleCnt := rfl

/-- STEP: a freeze keeps the latches, a move loads them. -/
theorem Decoded.clk (h : Decoded s) (i : PipelineIn) : Decoded (s.clk i) where
  lsuOp := latched h.lsuOp
  aluOp := latched h.aluOp
  macOp := latched h.macOp
  macrcOp := latched h.macrcOp
  rfwbOp := latched h.rfwbOp
  sprWrite := latched (f := fun insn => decide (opcode insn = 0b110000)) h.sprWrite
  addrw hw := by
    rw [clk_exInsn] at hw ⊢
    rw [clk_exRfAddrw]
    split at hw
    · next hf => rw [if_pos hf, if_pos hf, h.addrw hw]
    · next hf => rw [if_neg hf, if_neg hf]
  allow := by rw [clk_rfWeAllow, h.allow, ite_self]
  counts hc := by
    rw [clk_exInsn]
    rw [clk_multicycleCnt] at hc
    cases hf : s.freeze i with
    | true => exact h.counts fun h0 => by simp [h0, hf] at hc
    | false =>
      intro (h0 : multicycle s.ops.idInsn = 0)
      simp [(not_frozen hf).1, h0] at hc

/-! ### The divider -/

/-- INVARIANT of the divider: without a divide in EX it is free. A divide is in the first of its two
    multicycles, or it has been started and is held in EX while the counter runs. -/
structure Divides (s : Pipeline) : Prop where
  free : isDiv s.exInsn = false → s.mac.divCntr = 0 ∧ s.mac.divFree = true
  busy : isDiv s.exInsn = true →
    (s.multicycleCnt = 2 ∧ s.mac.divCntr = 0 ∧ s.mac.divFree = true) ∨
    (s.mac.divFree = false ∧ (s.mac.divCntr ≠ 0 → s.multicycleCnt = 1 ∨ s.mac.macStallR = true))

theorem opcode_of_isDiv {insn : Insn} (h : isDiv insn = true) : opcode insn = 0b111000 := by
  by_contra hop
  rw [isDiv, Or1200.aluOp, if_neg hop] at h
  generalize opcode insn = op at h
  revert op
  decide

theorem multicycle_of_isDiv {insn : Insn} (h : isDiv insn = true) : multicycle insn = 2 := by
  have hop := opcode_of_isDiv h
  have halu : Or1200.aluOp insn = insn.extractLsb' 0 4 := by simp [Or1200.aluOp, hop]
  simp only [isDiv, halu, aluopDiv, aluopDivu, Bool.or_eq_true, decide_eq_true_eq] at h
  rcases h with h | h <;> simp [multicycle, hop, h]

theorem Decoded.aluOpDivDivu (h : Decoded s) : (s.macIn i).aluOpDivDivu = isDiv s.exInsn := by
  simp only [MultMacIn.aluOpDivDivu, MultMacIn.aluOpDiv, isDiv, macIn, h.aluOp]

/-- A divide that leaves EX has been worked off. -/
theorem Divides.done (h : Divides s) (hdiv : isDiv s.exInsn = true) (hf : s.freeze i = false) :
    s.mac.divCntr = 0 ∧ s.mac.divFree = false := by
  obtain ⟨hcnt, hst⟩ := not_frozen hf
  rcases h.busy hdiv with ⟨h2, -, -⟩ | ⟨hfree, hbusy⟩
  · rw [hcnt] at h2
    cases h2
  · refine ⟨?_, hfree⟩
    by_contra hne
    rcases hbusy hne with h1 | h1
    · rw [hcnt] at h1
      cases h1
    · simp [hst] at h1

/-- The divider is free after the instruction in EX has left. -/
theorem Divides.freed (h : Divides s) (hd : Decoded s) (hf : s.freeze i = false) :
    (s.clk i).mac.divCntr = 0 ∧ (s.clk i).mac.divFree = true := by
  have hidle : s.mac.divCntr = 0 ∧ (isDiv s.exInsn && s.mac.divFree) = false := by
    cases hdiv : isDiv s.exInsn with
    | false => exact ⟨(h.free hdiv).1, rfl⟩
    | true => exact ⟨(h.done hdiv hf).1, (h.done hdiv hf).2⟩
  obtain ⟨h1, h2⟩ := MultMac.clk_div_idle hidle.1 (hd.aluOpDivDivu (i := i) ▸ hidle.2)
  exact ⟨h1, h2.trans (by simp [macIn_exFreeze, hf])⟩

/-- STEP. -/
theorem Divides.clk (h : Divides s) (hd : Decoded s) (i : PipelineIn) : Divides (s.clk i) := by
  cases hf : s.freeze i with
  | false =>
    have hins : (s.clk i).exInsn = s.ops.idInsn := by simp [clk_exInsn, hf]
    refine ⟨fun _ => h.freed hd hf, fun hdiv => .inl ⟨?_, h.freed hd hf⟩⟩
    rw [hins] at hdiv
    simp [clk_multicycleCnt, (not_frozen hf).1, multicycle_of_isDiv hdiv, hf]
  | true =>
    have hins : (s.clk i).exInsn = s.exInsn := by simp [clk_exInsn, hf]
    have hop := hd.aluOpDivDivu (i := i)
    refine ⟨fun hdiv => ?_, fun hdiv => .inr ?_⟩ <;> rw [hins] at hdiv
    · obtain ⟨hc, hfree⟩ := h.free hdiv
      obtain ⟨h1, h2⟩ := MultMac.clk_div_idle (i := s.macIn i) hc (by simp [hop, hdiv])
      exact ⟨h1, h2.trans (by simp [hfree])⟩
    · rcases h.busy hdiv with ⟨h2, hc, hfree⟩ | ⟨hfree, hbusy⟩
      · exact ⟨MultMac.clk_div_start hc (hop.trans hdiv) hfree,
          fun _ => .inl (by simp [clk_multicycleCnt, h2])⟩
      · by_cases hc : s.mac.divCntr = 0
        · obtain ⟨h1, h2⟩ := MultMac.clk_div_idle (i := s.macIn i) hc (by simp [hfree])
          exact ⟨h2.trans (by simp [hfree, macIn_exFreeze, hf]), fun hne => absurd h1 hne⟩
        · obtain ⟨h1, h2⟩ := MultMac.clk_div_run (i := s.macIn i) hc
          exact ⟨h1.trans hfree, fun _ => .inr h2⟩

/-- Without a divide in EX the product register takes the products. -/
theorem Divides.takesProduct (h : Divides s) (hd : Decoded s) (hdiv : isDiv s.exInsn = false) :
    s.mac.takesProduct (s.macIn i) = true := by
  obtain ⟨hc, hfree⟩ := h.free hdiv
  simp [MultMac.takesProduct, hc, hd.aluOpDivDivu, hdiv, hfree]

/-- The instruction in EX writes its result when it leaves. -/
theorem Decoded.clk_mem (h : Decoded s) (hf : s.freeze i = false)
    (hw : (Or1200.rfwbOp s.exInsn).we = true) :
    (s.clk i).ops.mem (rfAddrw s.exInsn) =
      if rfAddrw s.exInsn = 0 then 0 else s.ops.muxout (s.opsIn i) := by
  have hex : (s.opsIn i).exFreeze = false := opsIn_exFreeze.trans hf
  have hspr : s.ops.sprWe (s.opsIn i) = false := by
    rw [sprWe_opsIn, h.sprWrite, decide_eq_false_iff_not]
    intro hop
    simp [Or1200.rfwbOp, hop, RfwbOp.we] at hw
  have hwe : s.ops.rfWe (s.opsIn i) = true := by
    simp [Operands.rfWe, hspr, h.rfwbOp, hw, hex, h.allow]
  have hmem : (s.clk i).ops.mem = if s.ops.rfWe (s.opsIn i) then
      Function.update s.ops.mem (s.ops.rfWaddr (s.opsIn i))
        (if s.ops.rfWaddr (s.opsIn i) = 0 then 0 else s.ops.rfWdata (s.opsIn i))
    else s.ops.mem := rfl
  have haddr : s.ops.rfWaddr (s.opsIn i) = rfAddrw s.exInsn := by
    simp [Operands.rfWaddr, hspr, h.addrw hw]
  have hdata : s.ops.rfWdata (s.opsIn i) = s.ops.muxout (s.opsIn i) := by
    simp [Operands.rfWdata, hspr]
  rw [hmem, if_pos hwe, haddr, hdata, Function.update_self]

end Pipeline

/-! ### Runs -/

section Run
open Pipeline

variable (R : Pipeline.machine.Run)

def Frozen (t : ℕ) : Prop := (R.state t).freeze (R.input t) = true

instance Frozen.decidable (t : ℕ) : Decidable (Frozen R t) :=
  inferInstanceAs (Decidable ((R.state t).freeze (R.input t) = true))

/-- An instruction enters EX: the pipeline has moved. -/
def EntersEx (a : ℕ) : Prop := ∃ n, n + 1 = a ∧ ¬ Frozen R n

/-- The instruction that enters EX in cycle `a` leaves it in cycle `b`. -/
structure Passes (a b : ℕ) : Prop where
  enters : EntersEx R a
  le : a ≤ b
  waits : ∀ n, a ≤ n → n < b → Frozen R n
  leaves : ¬ Frozen R b

variable {R} {a b t : ℕ}

theorem pipeline_succ (R : Pipeline.machine.Run) (t : ℕ) :
    R.state (t + 1) = (R.state t).clk (R.input t) := R.next t

theorem Frozen.exInsn (h : Frozen R t) : (R.state (t + 1)).exInsn = (R.state t).exInsn := by
  rw [pipeline_succ, clk_exInsn]
  exact if_pos h

theorem Frozen.operands (h : Frozen R t) :
    (R.state (t + 1)).ops.operandA = (R.state t).ops.operandA ∧
      (R.state (t + 1)).ops.operandB = (R.state t).ops.operandB := by
  rw [pipeline_succ]
  exact clk_operands h

theorem decoded_run (R : Pipeline.machine.Run) (t : ℕ) : Decoded (R.state t) := by
  induction t with
  | zero =>
    rw [show R.state 0 = reset from R.start]
    exact decoded_reset
  | succ t ih =>
    rw [pipeline_succ]
    exact ih.clk _

theorem divides_run (R : Pipeline.machine.Run) (t : ℕ) : Divides (R.state t) := by
  induction t with
  | zero =>
    rw [show R.state 0 = reset from R.start]
    exact ⟨fun _ => ⟨rfl, rfl⟩, fun h => absurd h (by decide)⟩
  | succ t ih =>
    rw [pipeline_succ]
    exact ih.clk (decoded_run R t) _

/-- A frozen instruction stays in EX. -/
theorem stays (hab : a ≤ b) (hw : ∀ n, a ≤ n → n < b → Frozen R n) :
    (R.state b).exInsn = (R.state a).exInsn := by
  induction b, hab using Nat.le_induction with
  | base => rfl
  | succ b hab ih =>
    rw [(hw b hab (by omega)).exInsn]
    exact ih fun n h1 h2 => hw n h1 (by omega)

theorem stays_operands (hab : a ≤ b) (hw : ∀ n, a ≤ n → n < b → Frozen R n) :
    (R.state b).ops.operandA = (R.state a).ops.operandA ∧
      (R.state b).ops.operandB = (R.state a).ops.operandB := by
  induction b, hab using Nat.le_induction with
  | base => exact ⟨rfl, rfl⟩
  | succ b hab ih =>
    rw [(hw b hab (by omega)).operands.1, (hw b hab (by omega)).operands.2]
    exact ih fun n h1 h2 => hw n h1 (by omega)

end Run

end DsdOrsoc.Or1200
