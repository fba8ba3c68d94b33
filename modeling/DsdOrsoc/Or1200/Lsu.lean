import DsdOrsoc.Or1200.Operands

/-! The load/store unit `or1200_lsu` with its aligners. An access is requested as long as a load or
    store is in EX; the acknowledge withdraws the request in its own cycle, and the instruction
    leaves EX in that cycle if nothing else holds it. The effective address comes in two parts:

        ID   low two bits with carry, also for the alignment check
        EX   upper thirty bits -/

namespace DsdOrsoc.Or1200
open Schemes

/-- `OR1200_LSUOP_*`. -/
inductive LsuOp where | nop | lbz | lbs | lhz | lhs | lwz | lws | ld | sd | sb | sh | sw
  deriving DecidableEq

/-- `id_lsu_op`. -/
def lsuOp (insn : Insn) : LsuOp :=
  if opcode insn = 0b100001 then .lwz
  else if opcode insn = 0b100011 then .lbz
  else if opcode insn = 0b100100 then .lbs
  else if opcode insn = 0b100101 then .lhz
  else if opcode insn = 0b100110 then .lhs
  else if opcode insn = 0b110101 then .sw
  else if opcode insn = 0b110110 then .sb
  else if opcode insn = 0b110111 then .sh
  else .nop

/-- Bit 3 of the code: a store. -/
def LsuOp.we (op : LsuOp) : Bool := op ∈ [.sd, .sb, .sh, .sw]

/-- `id_precalc_sum`: the low two bits of the address and their carry. -/
def precalcSum (base ofs : BitVec 32) : BitVec 3 :=
  (base.setWidth 2).setWidth 3 + (ofs.setWidth 2).setWidth 3

/-- The condition of `except_align` for an operation and the low part of its address. -/
def misaligned (op : LsuOp) (low : BitVec 3) : Bool :=
  (op ∈ [.sh, .lhz, .lhs] && low.getLsbD 0) ||
    (op ∈ [.sw, .lwz, .lws] && (low.getLsbD 0 || low.getLsbD 1))

/-- `dcpu_sel_o`. -/
def dcpuSel (op : LsuOp) (low : BitVec 2) : BitVec 4 :=
  if op ∈ [.sb, .lbz, .lbs] then 0b1000 >>> low.toNat
  else if op ∈ [.sh, .lhz, .lhs] ∧ low = 0 then 0b1100
  else if op ∈ [.sh, .lhz, .lhs] ∧ low = 2 then 0b0011
  else if op ∈ [.sw, .lwz, .lws] ∧ low = 0 then 0b1111
  else 0

/-- `or1200_mem2reg`: the addressed bytes are moved to the top and extended. -/
def mem2reg (op : LsuOp) (low : BitVec 2) (memdata : BitVec 32) : BitVec 32 :=
  let aligned := memdata <<< (8 * low.toNat)
  match op with
  | .lbz => (aligned.extractLsb' 24 8).setWidth 32
  | .lbs => (aligned.extractLsb' 24 8).signExtend 32
  | .lhz => (aligned.extractLsb' 16 16).setWidth 32
  | .lhs => (aligned.extractLsb' 16 16).signExtend 32
  | _ => aligned

/-- `or1200_reg2mem`. -/
def reg2mem (op : LsuOp) (low : BitVec 2) (regdata : BitVec 32) : BitVec 32 :=
  let hh : BitVec 8 :=
    if op = .sb ∧ low = 0 then regdata.extractLsb' 0 8
    else if op = .sh ∧ low = 0 then regdata.extractLsb' 8 8 else regdata.extractLsb' 24 8
  let hl : BitVec 8 :=
    if op = .sw ∧ low = 0 then regdata.extractLsb' 16 8 else regdata.extractLsb' 0 8
  let lh : BitVec 8 :=
    if op = .sb ∧ low = 2 then regdata.extractLsb' 0 8 else regdata.extractLsb' 8 8
  hh ++ hl ++ lh ++ regdata.extractLsb' 0 8

/-- The registers of the unit. -/
structure Lsu where
  exLsuOp : LsuOp
  dcpuAdrR : BitVec 3
  exceptAlign : Bool

namespace Lsu

def reset : Lsu where
  exLsuOp := .nop
  dcpuAdrR := 0
  exceptAlign := false

variable (s : Lsu)

/-- `dcpu_adr_o`, from `ex_addrbase` and `ex_addrofs`. -/
def dcpuAdr (base ofs : BitVec 32) : BitVec 32 :=
  (base.extractLsb' 2 30 + ofs.extractLsb' 2 30 + (s.dcpuAdrR.extractLsb' 2 1).setWidth 30) ++
    s.dcpuAdrR.setWidth 2

/-- `dcpu_cycstb_o`: withdrawn by its own acknowledge. -/
def dcpuCycstb (duStall ack : Bool) : Bool :=
  !(duStall || ack || s.exceptAlign) && decide (s.exLsuOp ≠ .nop)

def dcpuWe : Bool := s.exLsuOp.we

/-- `lsu_stall`; behind the unit `dcpu_rty_i` is `~dcpu_ack_i`. -/
def lsuStall (duStall ack : Bool) : Bool := !ack && s.dcpuCycstb duStall ack

/-- One rising edge of the clock, with the operation and the operands of the instruction in ID. -/
def clk (i : OperandsIn) (op : LsuOp) (base ofs : BitVec 32) : Lsu where
  exLsuOp := Operands.exLatch i s.exLsuOp .nop op
  dcpuAdrR := if i.exFreeze then s.dcpuAdrR else precalcSum base ofs
  exceptAlign := Operands.exLatch i s.exceptAlign false (misaligned op (precalcSum base ofs))

variable {s} {i : OperandsIn} {duStall ack : Bool}

/-- A request stalls the pipeline. -/
theorem lsuStall_of_cycstb (h : s.dcpuCycstb duStall ack = true) :
    s.lsuStall duStall ack = true := by
  cases ack with
  | false => simp [lsuStall, h]
  | true => simp [dcpuCycstb] at h

end Lsu

end DsdOrsoc.Or1200
