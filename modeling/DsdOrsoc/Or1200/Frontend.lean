import DsdOrsoc.Schemes.Machine

/-! The instruction delivery of the or1200: `or1200_genpc`, `or1200_if`, the instruction and branch
    latches of `or1200_ctrl` (with `id_pc` of `or1200_except`) and `or1200_freeze`, composed with a
    fetch port. Exceptions, flushes and debug stalls are tied off.

        genpc ──adr, cycstb──▶ port ──ack, dat──▶ if ──if_insn──▶ ID ──▶ EX
          ▲                                        │ saved             │
          └──────────── branch target, no_more_dslot ◀─────────────────┘

    Instruction addresses are word addresses: bits 1 and 0 of `icpu_adr_o` only mark a taken branch
    for the bypass of a flushed pipeline. -/

namespace DsdOrsoc.Or1200
open Schemes

/-- The address of an instruction word: bits 31 to 2. -/
abbrev Word := BitVec 30

abbrev Insn := BitVec 32

/-! ### Decoding -/

/-- `OR1200_BRANCHOP_*`. -/
inductive BranchOp where | nop | j | jr | bf | bnf | rfe
  deriving DecidableEq

def opcode (insn : Insn) : BitVec 6 := insn.extractLsb' 26 6

/-- The decoders look an opcode up in lists. -/
instance decidableOpcodeMem (op : BitVec 6) (ops : List (BitVec 6)) : Decidable (op ∈ ops) :=
  inferInstance

/-- `id_branch_op`. -/
def branchOp (insn : Insn) : BranchOp :=
  if opcode insn = 0b000000 then .j         -- l.j
  else if opcode insn = 0b000001 then .j    -- l.jal
  else if opcode insn = 0b010010 then .jr   -- l.jalr
  else if opcode insn = 0b010001 then .jr   -- l.jr
  else if opcode insn = 0b000011 then .bnf  -- l.bnf
  else if opcode insn = 0b000100 then .bf   -- l.bf
  else if opcode insn = 0b001001 then .rfe  -- l.rfe
  else .nop

/-- `id_lsu_op` is not NOP: a load or a store. -/
def isLsu (insn : Insn) : Bool :=
  opcode insn ∈ [0b100001, 0b100011, 0b100100, 0b100101, 0b100110, 0b110101, 0b110110, 0b110111]

/-- `id_void`: a bubble is an `l.nop` with bit 16 set. -/
def isVoid (insn : Insn) : Bool := decide (opcode insn = 0b000101) && insn.getLsbD 16

theorem opcode_of_isVoid {insn : Insn} (h : isVoid insn = true) : opcode insn = 0b000101 := by
  simp only [isVoid, Bool.and_eq_true, decide_eq_true_eq] at h
  exact h.1

theorem branchOp_of_isVoid {insn : Insn} (h : isVoid insn = true) : branchOp insn = .nop := by
  simp [branchOp, opcode_of_isVoid h]

theorem isLsu_of_isVoid {insn : Insn} (h : isVoid insn = true) : isLsu insn = false := by
  simp [isLsu, opcode_of_isVoid h]

theorem branchOp_of_isLsu {insn : Insn} (h : isLsu insn = true) : branchOp insn = .nop := by
  simp only [isLsu, decide_eq_true_eq, List.mem_cons, List.not_mem_nil, or_false] at h
  rcases h with h | h | h | h | h | h | h | h <;> simp [branchOp, h]

/-- `id_branch_addrtarget`. -/
def branchAddrtarget (insn : Insn) (pc : Word) : Word := (insn.extractLsb' 0 26).signExtend 30 + pc

/-- The bubbles of `or1200_if`: for a flushed word and for a word that has not come yet. -/
def nopFlushed : Insn := 0x14410000

def nopMissing : Insn := 0x14610000

theorem isVoid_nopFlushed : isVoid nopFlushed = true := by decide

theorem isVoid_nopMissing : isVoid nopMissing = true := by decide

/-! ### Registers and pins -/

/-- The registers. `flag` and `operandB` are those of the stages behind, which change when the
    pipeline moves; `icpuAdr` is `icpu_adr_i` and `port` the address that the port has accepted. -/
structure Frontend where
  pcregDefault : Word
  pcregSelect : Bool
  saved : Bool
  insnSaved : Insn
  addrSaved : Word
  idInsn : Insn
  idPc : Word
  idBranchOp : BranchOp
  exInsn : Insn
  exBranchOp : BranchOp
  exBranchAddrtarget : Word
  multicycleCnt : BitVec 3
  flag : Bool
  operandB : Word
  icpuAdr : Word
  port : Option Word

/-- The input pins of one cycle; `flagD` and `operandBD` are loaded when the pipeline moves. -/
structure FrontendIn where
  icpuAckI : Bool
  lsuStall : Bool
  lsuUnstall : Bool
  macStall : Bool
  multicycle : BitVec 3
  flagD : Bool
  operandBD : Word
  epcr : Word

/-- `OR1200_BOOT_ADR`. -/
def bootAdr : Word := 0x40

namespace Frontend

def reset : Frontend where
  pcregDefault := 0x3f
  pcregSelect := true
  saved := false
  insnSaved := nopFlushed
  addrSaved := 0
  idInsn := nopFlushed
  idPc := 0
  idBranchOp := .nop
  exInsn := nopFlushed
  exBranchOp := .nop
  exBranchAddrtarget := 0
  multicycleCnt := 0
  flag := false
  operandB := 0
  icpuAdr := bootAdr
  port := none

variable (mem : Word → Insn) (s : Frontend) (i : FrontendIn)

/-- `pcreg`. -/
def pcreg : Word := if s.pcregSelect then bootAdr else s.pcregDefault

/-- `ex_branch_taken`. -/
def exBranchTaken : Bool :=
  match s.exBranchOp with
  | .nop => false
  | .j => true
  | .jr => true
  | .bf => s.flag
  | .bnf => !s.flag
  | .rfe => true

/-- `pc`. -/
def pc : Word :=
  match s.exBranchOp with
  | .nop => s.pcreg + 1
  | .j => s.exBranchAddrtarget
  | .jr => s.operandB
  | .bf => if s.flag then s.exBranchAddrtarget else s.pcreg + 1
  | .bnf => if s.flag then s.pcreg + 1 else s.exBranchAddrtarget
  | .rfe => i.epcr

def noMoreDslot : Bool :=
  decide (s.exBranchOp ≠ .nop) && !isVoid s.idInsn && s.exBranchTaken ||
    decide (s.exBranchOp = .rfe)

def rfe : Bool := decide (s.idBranchOp = .rfe) || decide (s.exBranchOp = .rfe)

def ifStall : Bool := !i.icpuAckI && !s.saved

/-- `id_freeze`; without exceptions it is also `if_freeze`, `ex_freeze` and `wb_freeze`. -/
def freeze : Bool :=
  i.lsuStall || (!i.lsuUnstall && s.ifStall i) || decide (s.multicycleCnt ≠ 0) || i.macStall

def genpcRefetch : Bool := s.saved && i.icpuAckI

def icpuAdrO : Word :=
  if !s.noMoreDslot && (!i.icpuAckI || s.genpcRefetch i) then s.icpuAdr else s.pc i

def icpuCycstbO : Bool := !(decide (s.idBranchOp ≠ .nop) && i.icpuAckI)

def saveInsn : Bool := i.icpuAckI && s.freeze i && !s.saved

/-- `icpu_dat_i`: the memory word at the accepted address. -/
def icpuDat : Insn := mem (s.port.getD 0)

def ifInsn : Insn :=
  if s.noMoreDslot || s.rfe then nopFlushed
  else if s.saved then s.insnSaved
  else if i.icpuAckI then s.icpuDat mem
  else nopMissing

def ifPc : Word := if s.saved then s.addrSaved else s.icpuAdr

/-- The port: idle or in an acknowledge cycle it accepts the address presented with `cycstb`, and it
    abandons an access when `cycstb` is low. -/
def portNext : Option Word :=
  if !s.icpuCycstbO i then none
  else if s.port = none ∨ i.icpuAckI = true then some (s.icpuAdrO i)
  else s.port

/-- One rising edge of the clock. -/
def clk : Frontend where
  pcregDefault :=
    if s.pcregSelect then bootAdr
    else if s.noMoreDslot || (i.icpuAckI && !s.genpcRefetch i) then s.pc i
    else s.pcregDefault
  pcregSelect := false
  saved := if s.saveInsn i then true else if !s.freeze i then false else s.saved
  insnSaved :=
    if s.saveInsn i then s.icpuDat mem else if !s.freeze i then nopFlushed else s.insnSaved
  addrSaved := if s.saveInsn i then s.icpuAdr else if !s.freeze i then s.icpuAdr else s.addrSaved
  idInsn := if s.freeze i then s.idInsn else s.ifInsn mem i
  idPc := if s.freeze i then s.idPc else s.ifPc
  idBranchOp := if s.freeze i then s.idBranchOp else branchOp (s.ifInsn mem i)
  exInsn := if s.freeze i then s.exInsn else s.idInsn
  exBranchOp := if s.freeze i then s.exBranchOp else s.idBranchOp
  exBranchAddrtarget :=
    if s.freeze i then s.exBranchAddrtarget else branchAddrtarget s.idInsn s.idPc
  multicycleCnt :=
    if s.multicycleCnt ≠ 0 then s.multicycleCnt - 1
    else if i.multicycle ≠ 0 ∧ s.freeze i = false then i.multicycle else s.multicycleCnt
  flag := if s.freeze i then s.flag else i.flagD
  operandB := if s.freeze i then s.operandB else i.operandBD
  icpuAdr := s.icpuAdrO i
  port := s.portNext i

/-- The front end over an instruction memory. The port acknowledges only what it has accepted, and
    the load/store unit ends a stall only while a load or store is in EX. -/
def machine : Machine Frontend FrontendIn where
  start s := s = reset
  legal s i := (i.icpuAckI = true → s.port ≠ none) ∧ (i.lsuUnstall = true → isLsu s.exInsn = true)
  step s i := s.clk mem i

end Frontend

end DsdOrsoc.Or1200
