import DsdOrsoc.Or1200.Pipeline
import DsdOrsoc.Or1200.Privilege

/-! The or1200 with its exceptions: `or1200_genpc`, `or1200_if` and `or1200_freeze` in full, the EX
    latches of `or1200_ctrl` and `or1200_lsu`, and the status register, exception unit and operand
    logic of `Privilege`. The debug unit is inactive.

        genpc ──adr, cycstb──▶ port ──ack, err, dat──▶ if ──▶ ID ──▶ EX ──▶ write-back
          ▲                                                          │
          └── vector ◀── except ◀── error flags, illegal, data errors ┘
                           └──▶ flush of all stages

    An instruction travels with its address and the error flags of its fetch, a bubble with the
    address that is being fetched. -/

namespace DsdOrsoc.Or1200
open Schemes

/-! ### Decoding -/

/-- The error tags of the two ports: TLB miss, page fault, bus error. -/
inductive ErrTag where | te | pe | be
  deriving DecidableEq

/-- The code of an exception type, which is also its place among the vectors. -/
def ExceptType.code : ExceptType → BitVec 4
  | .none => 0x0
  | .buserr => 0x2
  | .dpf => 0x3
  | .ipf => 0x4
  | .tick => 0x5
  | .align => 0x6
  | .illegal => 0x7
  | .int => 0x8
  | .dtlbmiss => 0x9
  | .itlbmiss => 0xa
  | .range => 0xb
  | .syscall => 0xc
  | .float => 0xd
  | .trap => 0xe

/-- The vector of an exception: prefix, type and eight zero bits, as a word address. -/
def vector (eph : Bool) (ty : ExceptType) : Word :=
  ((if eph then 0xF0000#20 else 0x00000#20) ++ ty.code ++ 0#6 : BitVec 30)

/-- The word of a byte address and the byte address of a word. -/
def wordOf (a : BitVec 32) : Word := a.extractLsb' 2 30

def byteAdr (w : Word) : BitVec 32 := w ++ 0#2

theorem wordOf_byteAdr (w : Word) : wordOf (byteAdr w) = w := BitVec.extractLsb'_append_eq_left

/-- `except_illegal`: every opcode that is not listed. -/
def isIllegal (insn : Insn) : Bool :=
  !(opcode insn ∈ [0b000000, 0b000001, 0b000011, 0b000100, 0b000101, 0b000110, 0b001000, 0b001001,
    0b010001, 0b010010, 0b010011, 0b100001, 0b100011, 0b100100, 0b100101, 0b100110, 0b100111,
    0b101000, 0b101001, 0b101010, 0b101011, 0b101100, 0b101101, 0b101110, 0b101111, 0b110000,
    0b110001, 0b110101, 0b110110, 0b110111, 0b111000, 0b111001])

/-- `sig_syscall` and `sig_trap`. -/
def isSyscall (insn : Insn) : Bool := decide (insn.extractLsb' 23 9 = 0b001000000)

def isTrap (insn : Insn) : Bool := decide (insn.extractLsb' 23 9 = 0b001000010)

/-- `flag_we` and `cy_we` of the ALU. -/
def aluFlagWe (op : BitVec 4) : Bool := decide (op = 13)

def aluCyWe (op : BitVec 4) : Bool := decide (op = 0) || decide (op = 1) || decide (op = 2)

/-! ### Registers and pins -/

/-- The registers. `icpuAdr` and `icpuMark` are bits 31 to 2 and bit 0 of `icpu_adr_i`, `port` is
    the address that the port has accepted. -/
structure Core where
  priv : Privilege
  lsu : Lsu
  aluOp : BitVec 4
  exMacOp : BitVec 3
  exceptIllegal : Bool
  sigSyscall : Bool
  sigTrap : Bool
  exBranchAddrtarget : Word
  multicycleCnt : BitVec 3
  flushpipeR : Bool
  pcregDefault : Word
  pcregSelect : Bool
  saved : Bool
  insnSaved : Insn
  addrSaved : Word
  errSaved : FetchFlags
  ifBypassReg : Bool
  icpuAdr : Word
  icpuMark : Bool
  port : Option Word

/-- The pins of the two ports, and what the units that are not modelled put out: results of the ALU
    and of the special-purpose registers, `mac_stall`, interrupts. -/
structure CoreIn where
  icpuAck : Bool
  icpuErr : Bool
  icpuTag : ErrTag
  icpuDat : Insn
  dcpuAck : Bool
  dcpuErr : Bool
  dcpuTag : ErrTag
  dcpuDat : BitVec 32
  macStall : Bool
  aluDataout : BitVec 32
  sprsDataout : BitVec 32
  flagforw : Bool
  cyforw : Bool
  sigInt : Bool
  sigTick : Bool
  sigFp : Bool
  bootAdrSel : Bool

/-- A cycle in which nothing is answered. -/
def CoreIn.quiet : CoreIn where
  icpuAck := false
  icpuErr := false
  icpuTag := .be
  icpuDat := 0
  dcpuAck := false
  dcpuErr := false
  dcpuTag := .be
  dcpuDat := 0
  macStall := false
  aluDataout := 0
  sprsDataout := 0
  flagforw := false
  cyforw := false
  sigInt := false
  sigTick := false
  sigFp := false
  bootAdrSel := false

/-- The fetch port delivers a word. -/
def CoreIn.word (insn : Insn) : CoreIn := { quiet with icpuAck := true, icpuDat := insn }

/-- The fetch of a word fails. -/
def CoreIn.fail (tag : ErrTag) : CoreIn := { quiet with icpuErr := true, icpuTag := tag }

/-- `icpu_rty_i`: the cache answers with an acknowledge or a bus error, the MMU holds it back. -/
def CoreIn.icpuRty (i : CoreIn) : Bool :=
  !i.icpuAck && !(i.icpuErr && decide (i.icpuTag = .be))

/-- The flags of a failed fetch. -/
def CoreIn.fetchErr (i : CoreIn) : FetchFlags where
  ibuserr := i.icpuErr && decide (i.icpuTag = .be)
  itlbmiss := i.icpuErr && decide (i.icpuTag = .te)
  immufault := i.icpuErr && decide (i.icpuTag = .pe)

theorem CoreIn.failed_fetchErr (i : CoreIn) : i.fetchErr.failed = i.icpuErr := by
  cases he : i.icpuErr <;> cases ht : i.icpuTag <;> simp [fetchErr, FetchFlags.failed, he, ht]

theorem CoreIn.fetchErr_of_not_err {i : CoreIn} (h : i.icpuErr = false) : i.fetchErr = .clear := by
  simp [fetchErr, FetchFlags.clear, h]

namespace Core

def reset : Core where
  priv := Privilege.reset
  lsu := .reset
  aluOp := aluopNop
  exMacOp := macopNop
  exceptIllegal := false
  sigSyscall := false
  sigTrap := false
  exBranchAddrtarget := 0
  multicycleCnt := 0
  flushpipeR := false
  pcregDefault := 0x3f
  pcregSelect := true
  saved := false
  insnSaved := nopFlushed
  addrSaved := 0
  errSaved := .clear
  ifBypassReg := false
  icpuAdr := bootAdr
  icpuMark := false
  port := none

variable (s : Core) (i : CoreIn)

/-! ### `or1200_genpc` -/

/-- `sr[F]`; only the EPH bit of the status register is outside of `sr_reg`. -/
def flag : Bool := s.priv.srReg.srReg.getLsbD 9

def sr : Sr := s.priv.srReg.sr i.bootAdrSel

def eph : Bool := (s.sr i).getLsbD 14

def exceptStart : Bool := s.priv.except.exceptStarted

def exBranchTaken : Bool :=
  if s.exceptStart then true
  else match s.priv.exBranchOp with
    | .nop => false
    | .j => true
    | .jr => true
    | .bf => s.flag
    | .bnf => !s.flag
    | .rfe => true

def pcreg : Word := if s.pcregSelect then bootAdr else s.pcregDefault

/-- `pc` without an exception. -/
def branchPc : Word :=
  match s.priv.exBranchOp with
  | .nop => s.pcreg + 1
  | .j => s.exBranchAddrtarget
  | .jr => wordOf s.priv.ops.operandB
  | .bf => if s.flag then s.exBranchAddrtarget else s.pcreg + 1
  | .bnf => if s.flag then s.pcreg + 1 else s.exBranchAddrtarget
  | .rfe => wordOf s.priv.except.epcr

def pc : Word :=
  if s.exceptStart then vector (s.eph i) s.priv.except.exceptType else s.branchPc

def noMoreDslot : Bool :=
  decide (s.priv.exBranchOp ≠ .nop) && !isVoid s.priv.ops.idInsn && s.exBranchTaken ||
    decide (s.priv.exBranchOp = .rfe)

def genpcRefetch : Bool := s.saved && i.icpuAck

def genpcFreeze : Bool := s.flushpipeR

/-- `icpu_adr_o`: bits 31 to 2, and bit 0, which marks a redirected fetch. -/
def icpuAdrO : Word × Bool :=
  if !s.noMoreDslot && !s.exceptStart && (i.icpuRty || s.genpcRefetch i) then
    (s.icpuAdr, s.icpuMark)
  else (s.pc i, s.exBranchTaken)

def icpuCycstbO : Bool :=
  !(s.genpcFreeze || (decide (s.priv.idBranchOp ≠ .nop) && !i.icpuRty))

/-! ### `or1200_if`, the error flags and the stall -/

def ifStall : Bool := !i.icpuErr && !i.icpuAck && !s.saved

def ifPc : Word := if s.saved then s.addrSaved else s.icpuAdr

/-- `except_ibuserr`, `except_itlbmiss` and `except_immufault`. -/
def ifFlags : FetchFlags :=
  if s.noMoreDslot then .clear else if s.saved then s.errSaved else i.fetchErr

/-! ### `or1200_freeze` and the pins of the other units -/

def idFreeze : Bool :=
  s.lsu.lsuStall false i.dcpuAck || (!i.dcpuAck && s.ifStall i) ||
    decide (s.multicycleCnt ≠ 0) || i.macStall

/-- The pins of the exception unit; those of the status register are driven in `Privilege`. -/
def exceptPins : ExceptIn where
  sigIbuserr := (s.ifFlags i).ibuserr
  sigDbuserr := i.dcpuErr && decide (i.dcpuTag = .be)
  sigIllegal := s.exceptIllegal
  sigAlign := s.lsu.exceptAlign
  sigDtlbmiss := i.dcpuErr && decide (i.dcpuTag = .te)
  sigDmmufault := i.dcpuErr && decide (i.dcpuTag = .pe)
  sigInt := i.sigInt
  sigSyscall := s.sigSyscall
  sigTrap := s.sigTrap
  sigItlbmiss := (s.ifFlags i).itlbmiss
  sigImmufault := (s.ifFlags i).immufault
  sigTick := i.sigTick
  sigFp := i.sigFp
  exBranchTaken := s.exBranchTaken
  icpuAck := i.icpuAck
  icpuErr := i.icpuErr
  genpcFreeze := s.genpcFreeze
  idFreeze := s.idFreeze i
  exFreeze := false
  ifStall := s.ifStall i
  ifPc := byteAdr s.ifPc
  lsuAddr := s.lsu.dcpuAdr s.priv.ops.operandA s.priv.ops.exSimm
  dat := 0
  epcrWe := false
  eearWe := false
  esrWe := false
  srWe := false
  toSr := 0
  sr := 0

/-- `ex_freeze` and `wb_freeze`. -/
def exFreeze : Bool := s.idFreeze i || (s.exceptPins i).abortEx

def flagWe : Bool := aluFlagWe s.aluOp && !s.exceptIllegal

def cyWe : Bool := aluCyWe s.aluOp && !s.exFreeze i && s.priv.ops.rfWeAllow

/-- The pins of the pipeline, with the instruction that comes from IF. -/
def privIn (insn : Insn) : PrivilegeIn where
  core :=
    { ifInsn := insn, idFreeze := s.idFreeze i, abortEx := false, abortMvspr := false,
      flushpipe := false, aluDataout := i.aluDataout,
      lsuDataout := mem2reg s.lsu.exLsuOp (s.lsu.dcpuAdrR.setWidth 2) i.dcpuDat,
      sprsDataout := i.sprsDataout, exPc := s.priv.except.exPc, supv := false, duRead := false,
      duWrite := false, duAddr := 0, duDat := 0 }
  pins := s.exceptPins i
  flagWe := s.flagWe
  flagforw := i.flagforw
  cyWe := s.cyWe i
  cyforw := i.cyforw
  bootAdrSel := i.bootAdrSel

/-- The exception that is recognised in this cycle; it does not depend on the word in IF. -/
def recognised : Option Cause := s.priv.recognised (s.privIn i nopFlushed)

/-- `except_flushpipe | extend_flush`. -/
def flushpipe : Bool := s.priv.except.flushpipe (s.priv.exceptIn (s.privIn i nopFlushed))

/-! ### The word in IF -/

def ifFreeze : Bool := s.idFreeze i || s.priv.except.extendFlush

def saveInsn : Bool := (i.icpuAck || i.icpuErr) && s.ifFreeze i && !s.saved

def ifBypass : Bool := if s.icpuMark then false else s.ifBypassReg || s.flushpipe i

def ifInsn : Insn :=
  if s.noMoreDslot || s.priv.idBranchOp = .rfe || s.priv.exBranchOp = .rfe || s.ifBypass i then
    nopFlushed
  else if s.saved then s.insnSaved
  else if i.icpuAck then i.icpuDat
  else nopMissing

/-! ### The clock edge -/

/-- All pins of the pipeline. -/
def pins : PrivilegeIn := s.privIn i (s.ifInsn i)

/-- Freeze and flush of the stages. -/
def stage : OperandsIn := s.priv.opsIn (s.pins i)

/-- The port: idle or in the cycle of an answer it accepts the address presented with `cycstb`, and
    it abandons an access when `cycstb` is low. -/
def portNext : Option Word :=
  if !s.icpuCycstbO i then none
  else if s.port = none ∨ i.icpuAck = true ∨ i.icpuErr = true then some (s.icpuAdrO i).1
  else s.port

/-- One rising edge of the clock. -/
def clk : Core where
  priv := s.priv.clk (s.pins i)
  lsu := s.lsu.clk (s.stage i) (lsuOp s.priv.ops.idInsn) (s.priv.ops.muxedA (s.stage i))
    (simm s.priv.ops.idInsn)
  aluOp := Operands.exLatch (s.stage i) s.aluOp aluopNop (Or1200.aluOp s.priv.ops.idInsn)
  exMacOp := Operands.exLatch (s.stage i) s.exMacOp macopNop (macOp s.priv.ops.idInsn)
  exceptIllegal :=
    Operands.exLatch (s.stage i) s.exceptIllegal false (isIllegal s.priv.ops.idInsn)
  sigSyscall := Operands.exLatch (s.stage i) s.sigSyscall false (isSyscall s.priv.ops.idInsn)
  sigTrap := Operands.exLatch (s.stage i) s.sigTrap false (isTrap s.priv.ops.idInsn)
  exBranchAddrtarget :=
    if s.exFreeze i then s.exBranchAddrtarget
    else branchAddrtarget s.priv.ops.idInsn (wordOf s.priv.except.idPc)
  multicycleCnt :=
    if s.multicycleCnt ≠ 0 then s.multicycleCnt - 1
    else if multicycle s.priv.ops.idInsn ≠ 0 ∧ s.exFreeze i = false then
      multicycle s.priv.ops.idInsn
    else s.multicycleCnt
  flushpipeR :=
    if i.icpuAck || i.icpuErr then s.flushpipe i
    else if !s.flushpipe i then false else s.flushpipeR
  pcregDefault :=
    if s.pcregSelect then bootAdr
    else if s.noMoreDslot || s.exceptStart ||
        (!s.genpcFreeze && !i.icpuRty && !s.genpcRefetch i) then s.pc i
    else s.pcregDefault
  pcregSelect := false
  saved :=
    if s.flushpipe i then false
    else if s.saveInsn i then true else if !s.ifFreeze i then false else s.saved
  insnSaved :=
    if s.flushpipe i then nopFlushed
    else if s.saveInsn i then (if i.icpuErr then nopFlushed else i.icpuDat)
    else if !s.ifFreeze i then nopFlushed else s.insnSaved
  addrSaved :=
    if s.flushpipe i then 0
    else if s.saveInsn i then s.icpuAdr else if !s.ifFreeze i then s.icpuAdr else s.addrSaved
  errSaved :=
    if s.flushpipe i then .clear
    else if s.saveInsn i then i.fetchErr else if !s.ifFreeze i then .clear else s.errSaved
  ifBypassReg := s.ifBypass i
  icpuAdr := (s.icpuAdrO i).1
  icpuMark := (s.icpuAdrO i).2
  port := s.portNext i

/-- What the two ports may do: they answer only what they have been asked for, and the fetch port
    with one of acknowledge and error. -/
structure Legal (s : Core) (i : CoreIn) : Prop where
  fetch : (i.icpuAck || i.icpuErr) = true → s.port ≠ none
  fetchOne : (i.icpuAck && i.icpuErr) = false
  data : (i.dcpuAck || i.dcpuErr) = true → s.lsu.exLsuOp ≠ .nop ∧ s.lsu.exceptAlign = false

variable {s} in
theorem Legal.quiet : Legal s .quiet where
  fetch h := by cases h
  fetchOne := rfl
  data h := by cases h

variable {s} in
theorem Legal.word (h : s.port ≠ none) (insn : Insn) : Legal s (.word insn) where
  fetch _ := h
  fetchOne := rfl
  data h := by cases h

variable {s} in
theorem Legal.fail (h : s.port ≠ none) (tag : ErrTag) : Legal s (.fail tag) where
  fetch _ := h
  fetchOne := rfl
  data h := by cases h

/-- The core from reset. -/
def machine : Machine Core CoreIn where
  start s := s = reset
  legal := Legal
  step := clk

/-! ### What a clock edge does to the stages -/

variable {s i}

theorem flushpipe_eq : s.flushpipe i = ((s.recognised i).isSome || s.priv.except.extendFlush) := rfl

theorem stage_flushpipe : (s.stage i).flushpipe = s.flushpipe i := rfl

theorem stage_exFreeze : (s.stage i).exFreeze = s.exFreeze i := rfl

theorem stage_idFreeze : (s.stage i).idFreeze = s.idFreeze i := rfl

theorem clk_exInsn : (s.clk i).priv.exInsn =
    Operands.exLatch (s.stage i) s.priv.exInsn nopFlushed s.priv.ops.idInsn := rfl

theorem clk_exBranchOp : (s.clk i).priv.exBranchOp =
    Operands.exLatch (s.stage i) s.priv.exBranchOp .nop s.priv.idBranchOp := rfl

theorem clk_idInsn : (s.clk i).priv.ops.idInsn =
    if s.flushpipe i then nopFlushed
    else if s.idFreeze i then s.priv.ops.idInsn else s.ifInsn i := rfl

theorem clk_ifBypassReg : (s.clk i).ifBypassReg = s.ifBypass i := rfl

/-- The exception unit over one edge. -/
theorem transition : s.priv.except.Transition (s.priv.exceptIn (s.pins i)) (s.clk i).priv.except :=
  Except.clk_transition

/-- A latch that holds a decoded field does so after the edge. -/
theorem latched {α : Type} {f : Insn → α} {old : α} (h : old = f s.priv.exInsn) :
    Operands.exLatch (s.stage i) old (f nopFlushed) (f s.priv.ops.idInsn) =
      f (s.clk i).priv.exInsn := by
  rw [clk_exInsn, Operands.exLatch, Operands.exLatch, apply_ite f, apply_ite f, h]

/-! ### Invariant -/

/-- The flush is held and the old fetch has been drained. -/
def Drained (s : Core) : Prop :=
  s.priv.except.state = .flu2 ∨ s.priv.except.state = .flu3 ∨ s.priv.except.state = .flu4

/-- The addresses in the pipeline are those of words. -/
structure Aligned (s : Core) : Prop where
  idPc : byteAdr (wordOf s.priv.except.idPc) = s.priv.except.idPc
  exPc : byteAdr (wordOf s.priv.except.exPc) = s.priv.except.exPc
  wbPc : byteAdr (wordOf s.priv.except.wbPc) = s.priv.except.wbPc
  dlPc : byteAdr (wordOf s.priv.except.dlPc) = s.priv.except.dlPc

theorem aligned_ite {c : Prop} [Decidable c] {a b : BitVec 32} (ha : byteAdr (wordOf a) = a)
    (hb : byteAdr (wordOf b) = b) : byteAdr (wordOf (if c then a else b)) = if c then a else b := by
  split <;> assumption

theorem Aligned.clk (h : Aligned s) : Aligned (s.clk i) where
  idPc := aligned_ite h.idPc (congrArg byteAdr (wordOf_byteAdr _))
  exPc := aligned_ite h.exPc h.idPc
  wbPc := aligned_ite h.wbPc h.exPc
  dlPc := aligned_ite h.dlPc h.wbPc

theorem Aligned.restart (h : Aligned s) (c : Cause) :
    byteAdr (wordOf (s.priv.except.restart c)) = s.priv.except.restart c := by
  have hex := aligned_ite (c := s.priv.except.exDslot = true) h.wbPc h.exPc
  have hid := aligned_ite (c := s.priv.except.exDslot = true) h.wbPc h.idPc
  have hdl := aligned_ite (c := s.priv.except.exDslot = true) h.wbPc
    (aligned_ite (c := s.priv.except.delayed1ExDslot = true) h.dlPc h.exPc)
  have htrap := aligned_ite (c := s.priv.except.exDslot = true) h.wbPc
    (aligned_ite (c := s.priv.except.delayed1ExDslot = true) h.idPc h.exPc)
  cases c <;> first | exact hex | exact hid | exact hdl | exact htrap | exact h.idPc

/-- INVARIANT: the latches of EX are those of one instruction; until the flush of an exception is
    over there are bubbles in ID and EX, and once the old fetch has been drained the port is not
    asked and the vector is the address that is presented. -/
structure Inv (s : Core) : Prop where
  priv : s.priv.Inv
  aligned : s.Aligned
  rfwbOp : s.priv.ops.exRfwbOp = rfwbOp s.priv.exInsn
  aluOp : s.aluOp = Or1200.aluOp s.priv.exInsn
  macOp : s.exMacOp = macOp s.priv.exInsn
  lsuOp : s.lsu.exLsuOp = lsuOp s.priv.exInsn
  illegal : s.exceptIllegal = isIllegal s.priv.exInsn
  align : s.lsu.exceptAlign = true → s.lsu.exLsuOp ≠ .nop
  busy : s.priv.except.state ≠ .idle →
    isVoid s.priv.exInsn = true ∧ isVoid s.priv.ops.idInsn = true
  entry : s.priv.except.extendFlush = true → s.priv.except.exceptType ≠ .none ∧ s.saved = false
  drained : s.Drained → s.flushpipeR = true ∧ s.icpuMark = true
  bypass : s.priv.except.state ≠ .flu1 → s.ifBypassReg = false ∨ s.icpuMark = true

theorem inv_reset : Inv reset where
  priv := Privilege.inv_reset
  aligned := ⟨by decide, by decide, by decide, by decide⟩
  rfwbOp := by decide
  aluOp := by decide
  macOp := by decide
  lsuOp := by decide
  illegal := by decide
  align h := by cases h
  busy h := absurd rfl h
  entry h := by cases h
  drained h := by rcases h with h | h | h <;> cases h
  bypass _ := .inl rfl

theorem pins_legal : Privilege.machine.legal s.priv (s.pins i) := ⟨rfl, rfl⟩

/-- A bubble writes no system register. -/
theorem Inv.sysWe_of_void (h : Inv s) (hv : isVoid s.priv.exInsn = true) (n : BitVec 11) :
    s.priv.sysWe (s.pins i) n = false := by
  rw [Privilege.sysWe, h.priv.sprWe_of_void pins_legal hv, Bool.false_and]

/-- A misaligned access is an access. -/
theorem ne_nop_of_misaligned {op : LsuOp} {low : BitVec 3} (h : misaligned op low = true) :
    op ≠ .nop := by
  rintro rfl
  simp [misaligned] at h

/-- An abort of EX is that of an instruction. -/
theorem Inv.not_void_of_abort (h : Inv s) (hl : Legal s i)
    (ha : (s.exceptPins i).abortEx = true) : isVoid s.priv.exInsn = false := by
  by_contra hv
  have hop := opcode_of_isVoid (by simpa using hv)
  have hlsu : s.lsu.exLsuOp = .nop := by rw [h.lsuOp, Or1200.lsuOp, hop]; rfl
  have hill : s.exceptIllegal = false := by rw [h.illegal, isIllegal, hop]; decide
  have hal : s.lsu.exceptAlign = false := by
    by_contra hc
    exact h.align (by simpa using hc) hlsu
  have herr : i.dcpuErr = false := by
    by_contra hc
    exact (hl.data (by simp [hc])).1 hlsu
  simp [ExceptIn.abortEx, exceptPins, hill, hal, herr] at ha

/-- An abort of EX is recognised, and flushes. -/
theorem Inv.flushpipe_of_abort (h : Inv s) (hl : Legal s i)
    (ha : (s.exceptPins i).abortEx = true) : s.flushpipe i = true := by
  have hidle : s.priv.except.state = .idle := by
    by_contra hst
    cases (h.not_void_of_abort hl ha).symm.trans (h.busy hst).1
  have hrec : (s.recognised i).isSome = true := Except.recognised_of_abort hidle ha
  rw [flushpipe_eq, hrec, Bool.true_or]

/-- Unless it is flushed, the pipeline is held or moves as a whole. -/
theorem Inv.exFreeze_eq (h : Inv s) (hl : Legal s i) (hf : s.flushpipe i = false) :
    s.exFreeze i = s.idFreeze i := by
  have ha : (s.exceptPins i).abortEx = false := by
    by_contra hc
    cases hf.symm.trans (h.flushpipe_of_abort hl (by simpa using hc))
  rw [exFreeze, ha, Bool.or_false]

/-! ### The stages over one edge -/

/-- The stages after a flush. -/
structure Flushed (s' : Core) : Prop where
  exInsn : s'.priv.exInsn = nopFlushed
  idInsn : s'.priv.ops.idInsn = nopFlushed
  exFlags : s'.priv.except.exExceptflags = .clear
  idFlags : s'.priv.except.idExceptflags = .clear
  exDslot : s'.priv.except.exDslot = false
  saved : s'.saved = false

/-- The stages are held. -/
structure Held (s s' : Core) : Prop where
  exInsn : s'.priv.exInsn = s.priv.exInsn
  exBranchOp : s'.priv.exBranchOp = s.priv.exBranchOp
  idInsn : s'.priv.ops.idInsn = s.priv.ops.idInsn
  exPc : s'.priv.except.exPc = s.priv.except.exPc
  idPc : s'.priv.except.idPc = s.priv.except.idPc
  exFlags : s'.priv.except.exExceptflags = s.priv.except.exExceptflags
  idFlags : s'.priv.except.idExceptflags = s.priv.except.idExceptflags
  exDslot : s'.priv.except.exDslot = s.priv.except.exDslot
  delayed : s'.priv.except.delayed1ExDslot = s.priv.except.delayed1ExDslot
  wbPc : s'.priv.except.wbPc = s.priv.except.wbPc
  dlPc : s'.priv.except.dlPc = s.priv.except.dlPc

/-- Every stage takes over from the one before it. -/
structure Moved (s : Core) (i : CoreIn) (s' : Core) : Prop where
  exInsn : s'.priv.exInsn = s.priv.ops.idInsn
  exBranchOp : s'.priv.exBranchOp = s.priv.idBranchOp
  idInsn : s'.priv.ops.idInsn = s.ifInsn i
  exPc : s'.priv.except.exPc = s.priv.except.idPc
  idPc : s'.priv.except.idPc = byteAdr s.ifPc
  exFlags : s'.priv.except.exExceptflags = s.priv.except.idExceptflags
  idFlags : s'.priv.except.idExceptflags = s.ifFlags i
  exDslot : s'.priv.except.exDslot = s.exBranchTaken
  delayed : s'.priv.except.delayed1ExDslot = s.priv.except.exDslot
  wbPc : s'.priv.except.wbPc = s.priv.except.exPc
  dlPc : s'.priv.except.dlPc = s.priv.except.wbPc

/-- What an edge does to the stages. -/
inductive Edge (s : Core) (i : CoreIn) (s' : Core) : Prop
  | flushed (hf : s.flushpipe i = true) (h : Flushed s')
  | held (hf : s.flushpipe i = false) (hz : s.idFreeze i = true) (h : Held s s')
  | moved (hf : s.flushpipe i = false) (hz : s.idFreeze i = false) (h : Moved s i s')

theorem flushed_clk (hf : s.flushpipe i = true) : Flushed (s.clk i) where
  exInsn := by rw [clk_exInsn, Operands.exLatch, stage_flushpipe, hf, Bool.or_true, if_pos rfl]
  idInsn := if_pos hf
  exFlags := if_pos (Bool.or_eq_true_iff.2 (.inl hf))
  idFlags := if_pos hf
  exDslot := if_pos (Bool.or_eq_true_iff.2 (.inl hf))
  saved := if_pos hf

theorem Flushed.void {s' : Core} (h : Flushed s') :
    isVoid s'.priv.exInsn = true ∧ isVoid s'.priv.ops.idInsn = true := by
  rw [h.exInsn, h.idInsn]
  exact ⟨isVoid_nopFlushed, isVoid_nopFlushed⟩

section
variable (hf : s.flushpipe i = false) (hx : s.exFreeze i = s.idFreeze i)
include hf hx

/-- The latches of EX, in the two forms of the source. -/
theorem exLatch_eq {α : Type} (old clear new : α) :
    Operands.exLatch (s.stage i) old clear new = if s.idFreeze i then old else new := by
  rw [Operands.exLatch, stage_flushpipe, stage_exFreeze, stage_idFreeze, hx, hf]
  cases s.idFreeze i <;> rfl

theorem exExcept_eq {α : Type} {b : Bool} (old clear new : α) (hz : s.idFreeze i = b) :
    (if s.flushpipe i || (!s.exFreeze i && s.idFreeze i) then clear
      else if s.exFreeze i then old else new) = if b then old else new := by
  rw [hf, hx, hz]
  cases b <;> rfl

theorem held_clk (hz : s.idFreeze i = true) : Held s (s.clk i) where
  exInsn := by rw [clk_exInsn, exLatch_eq hf hx, hz]; rfl
  exBranchOp := by rw [clk_exBranchOp, exLatch_eq hf hx, hz]; rfl
  idInsn := by rw [clk_idInsn, hf, hz]; rfl
  exPc := if_pos (Bool.or_eq_true_iff.2 (.inr (hx.trans hz)))
  idPc := if_pos (Bool.or_eq_true_iff.2 (.inr hz))
  exFlags := exExcept_eq hf hx _ _ _ hz
  idFlags := (if_neg (ne_true_of_eq_false hf)).trans (if_pos hz)
  exDslot := exExcept_eq hf hx _ _ _ hz
  delayed := (if_neg (ne_true_of_eq_false hf)).trans (if_pos (hx.trans hz))
  wbPc := if_pos (hx.trans hz)
  dlPc := if_pos (hx.trans hz)

theorem moved_clk (hz : s.idFreeze i = false) : Moved s i (s.clk i) where
  exInsn := by rw [clk_exInsn, exLatch_eq hf hx, hz]; rfl
  exBranchOp := by rw [clk_exBranchOp, exLatch_eq hf hx, hz]; rfl
  idInsn := by rw [clk_idInsn, hf, hz]; rfl
  exPc := if_neg (ne_true_of_eq_false (Bool.or_eq_false_iff.2 ⟨hf, hx.trans hz⟩))
  idPc := if_neg (ne_true_of_eq_false (Bool.or_eq_false_iff.2 ⟨hf, hz⟩))
  exFlags := exExcept_eq hf hx _ _ _ hz
  idFlags := (if_neg (ne_true_of_eq_false hf)).trans (if_neg (ne_true_of_eq_false hz))
  exDslot := exExcept_eq hf hx _ _ _ hz
  delayed := (if_neg (ne_true_of_eq_false hf)).trans (if_neg (ne_true_of_eq_false (hx.trans hz)))
  wbPc := if_neg (ne_true_of_eq_false (hx.trans hz))
  dlPc := if_neg (ne_true_of_eq_false (hx.trans hz))

end

/-- STEP: the pipeline is flushed, held, or moves as a whole. -/
theorem Inv.edge (h : Inv s) (hl : Legal s i) : Edge s i (s.clk i) := by
  cases hf : s.flushpipe i with
  | true => exact .flushed hf (flushed_clk hf)
  | false =>
    have hx := h.exFreeze_eq hl hf
    cases hz : s.idFreeze i with
    | true => exact .held hf hz (held_clk hf hx hz)
    | false => exact .moved hf hz (moved_clk hf hx hz)

/-! ### The invariant over one edge -/

/-- A fetch that stalls leaves only a bubble to ID. -/
theorem isVoid_ifInsn_of_stall (hst : s.ifStall i = true) : isVoid (s.ifInsn i) = true := by
  simp only [ifStall, Bool.and_eq_true, Bool.not_eq_true'] at hst
  simp only [ifInsn, hst, Bool.false_eq_true, if_false]
  split <;> decide

theorem Inv.extendFlush_eq (h : Inv s) : s.priv.except.extendFlush =
    decide (s.priv.except.state ≠ .idle ∧ s.priv.except.state ≠ .flu5) := h.priv.holds

theorem Inv.extendFlush_clk (h : Inv s) : (s.clk i).priv.except.extendFlush =
    decide ((s.clk i).priv.except.state ≠ .idle ∧ (s.clk i).priv.except.state ≠ .flu5) :=
  h.priv.holds.clk

theorem Inv.exceptStart_of_extendFlush (h : Inv s) (he : s.priv.except.extendFlush = true) :
    s.exceptStart = true := by
  simp [exceptStart, Except.exceptStarted, he, (h.entry he).1]

/-- Without a flush the unit is not idle only if it waits for the first word of the handler. -/
theorem Inv.flu5_of_clk (h : Inv s) (hf : s.flushpipe i = false)
    (hst : (s.clk i).priv.except.state ≠ .idle) :
    s.priv.except.state = .flu5 ∧ (s.ifStall i = true ∨ s.idFreeze i = true) := by
  rw [flushpipe_eq, h.extendFlush_eq, Bool.or_eq_false_iff, decide_eq_false_iff_not] at hf
  cases transition (s := s) (i := i) with
  | recognise c hr => cases hf.1.symm.trans (Option.isSome_iff_exists.2 ⟨c, hr⟩)
  | rest _ _ new => exact absurd new hst
  | wait hw old => exact ⟨old, hw⟩
  | done _ _ new => exact absurd new hst
  | trap _ new => exact absurd new hst
  | drain _ old => simp [old] at hf
  | drained _ old => simp [old] at hf
  | third old => simp [old] at hf
  | fourth old => simp [old] at hf
  | fifth old => simp [old] at hf

theorem Inv.busy_of_clk (h : Inv s) (hf : s.flushpipe i = false)
    (hst : (s.clk i).priv.except.state ≠ .idle) : s.priv.except.state ≠ .idle := by
  rw [(h.flu5_of_clk hf hst).1]
  decide

/-- Bubbles stay until the flush of an exception is over. -/
theorem Inv.busy_clk (h : Inv s) (hl : Legal s i) (hst : (s.clk i).priv.except.state ≠ .idle) :
    isVoid (s.clk i).priv.exInsn = true ∧ isVoid (s.clk i).priv.ops.idInsn = true := by
  cases h.edge hl with
  | flushed _ hd => exact hd.void
  | held hf _ hd =>
    rw [hd.exInsn, hd.idInsn]
    exact h.busy (h.busy_of_clk hf hst)
  | moved hf hz hm =>
    have hw := (h.flu5_of_clk hf hst).2
    rw [hm.exInsn, hm.idInsn]
    exact ⟨(h.busy (h.busy_of_clk hf hst)).2,
      isVoid_ifInsn_of_stall (hw.resolve_right (by simp [hz]))⟩

/-- While an exception starts, its vector is presented. -/
theorem icpuAdrO_of_exceptStart (h : s.exceptStart = true) :
    s.icpuAdrO i = (vector (s.eph i) s.priv.except.exceptType, true) := by
  simp [icpuAdrO, h, pc, exBranchTaken]

theorem Inv.entry_clk (h : Inv s) (he : (s.clk i).priv.except.extendFlush = true) :
    (s.clk i).priv.except.exceptType ≠ .none ∧ (s.clk i).saved = false := by
  have hf : s.flushpipe i = true := h.priv.holds.flushpipe_of_clk he
  refine ⟨?_, by simp [Core.clk, hf]⟩
  have hx := h.extendFlush_eq
  rw [h.extendFlush_clk, decide_eq_true_eq] at he
  cases transition (s := s) (i := i) with
  | recognise c _ _ _ ty => rw [ty]; exact c.exceptType_ne_none
  | drain _ old _ ty => rw [ty]; exact (h.entry (by simp [hx, old])).1
  | drained _ old _ ty => rw [ty]; exact (h.entry (by simp [hx, old])).1
  | third old _ ty => rw [ty]; exact (h.entry (by simp [hx, old])).1
  | fourth old _ ty => rw [ty]; exact (h.entry (by simp [hx, old])).1
  | rest _ _ new => exact absurd new he.1
  | trap _ new => exact absurd new he.1
  | fifth _ new => exact absurd new he.2
  | wait _ _ new => exact absurd new he.2
  | done _ _ new => exact absurd new he.1

/-- The old fetch is drained when it is answered, or when it has been given up before. -/
theorem Inv.drained_of_clk (h : Inv s) (hd : (s.clk i).Drained) :
    s.priv.except.extendFlush = true ∧ (s.flushpipeR || i.icpuAck || i.icpuErr) = true := by
  have hx := h.extendFlush_eq
  cases transition (s := s) (i := i) with
  | drained ha old =>
    refine ⟨by simp [hx, old], ?_⟩
    change (i.icpuAck || i.icpuErr || s.flushpipeR) = true at ha
    rw [Bool.or_assoc, Bool.or_comm]
    exact ha
  | third old => exact ⟨by simp [hx, old], by simp [(h.drained (.inl old)).1]⟩
  | fourth old => exact ⟨by simp [hx, old], by simp [(h.drained (.inr (.inl old))).1]⟩
  | recognise _ _ _ new => simp [Drained, new] at hd
  | rest _ _ new => simp [Drained, new] at hd
  | drain _ _ new => simp [Drained, new] at hd
  | trap _ new => simp [Drained, new] at hd
  | fifth _ new => simp [Drained, new] at hd
  | wait _ _ new => simp [Drained, new] at hd
  | done _ _ new => simp [Drained, new] at hd

/-- From then on the port is not asked. -/
theorem Inv.drained_clk (h : Inv s) (hd : (s.clk i).Drained) :
    (s.clk i).flushpipeR = true ∧ (s.clk i).icpuMark = true := by
  obtain ⟨hx, hr⟩ := h.drained_of_clk hd
  have hf : s.flushpipe i = true := by rw [flushpipe_eq, hx, Bool.or_true]
  refine ⟨?_, ?_⟩
  · simp only [Core.clk, hf]
    cases ha : i.icpuAck || i.icpuErr <;> simp_all
  · change (s.icpuAdrO i).2 = true
    rw [icpuAdrO_of_exceptStart (h.exceptStart_of_extendFlush hx)]

/-- The bypass is over when the vector has been presented. -/
theorem Inv.ifBypass_eq (h : Inv s) (hst : s.priv.except.state ≠ .flu1)
    (hr : s.recognised i = none) : s.ifBypass i = false := by
  cases hm : s.icpuMark with
  | true => simp [ifBypass, hm]
  | false =>
    have hreg : s.ifBypassReg = false := (h.bypass hst).resolve_right (by simp [hm])
    have hext : s.priv.except.extendFlush = false := by
      by_contra hc
      rw [Bool.not_eq_false, h.extendFlush_eq, decide_eq_true_eq] at hc
      have hd : s.Drained := by
        cases hs : s.priv.except.state <;> simp_all [Drained]
      cases hm.symm.trans (h.drained hd).2
    simp [ifBypass, hm, hreg, flushpipe_eq, hr, hext]

theorem Inv.bypass_clk (h : Inv s) (hst : (s.clk i).priv.except.state ≠ .flu1) :
    (s.clk i).ifBypassReg = false ∨ (s.clk i).icpuMark = true := by
  by_cases h1 : s.priv.except.state = .flu1
  · right
    change (s.icpuAdrO i).2 = true
    rw [icpuAdrO_of_exceptStart (h.exceptStart_of_extendFlush (by simp [h.extendFlush_eq, h1]))]
  · left
    rw [clk_ifBypassReg]
    refine h.ifBypass_eq h1 ?_
    cases hr : s.recognised i with
    | none => rfl
    | some c => exact absurd (Except.clk_recognised hr).1 hst

theorem Inv.align_clk (h : Inv s) (ha : (s.clk i).lsu.exceptAlign = true) :
    (s.clk i).lsu.exLsuOp ≠ .nop := by
  simp only [Core.clk, Lsu.clk, Operands.exLatch] at ha ⊢
  split_ifs at ha ⊢ with h1 h2
  · exact ne_nop_of_misaligned ha
  · exact h.align ha

theorem Inv.clk (h : Inv s) (hl : Legal s i) : Inv (s.clk i) where
  priv := h.priv.clk
  aligned := h.aligned.clk
  rfwbOp := latched h.rfwbOp
  aluOp := latched h.aluOp
  macOp := latched h.macOp
  lsuOp := latched h.lsuOp
  illegal := latched h.illegal
  align := h.align_clk
  busy := h.busy_clk hl
  entry := h.entry_clk
  drained := h.drained_clk
  bypass := h.bypass_clk

/-- RUN: the invariant holds in every reachable state. -/
theorem inv_of_reachable (h : machine.Reachable s) : Inv s :=
  h.invariant (I := Inv) (fun s hs => by rw [show s = reset from hs]; exact inv_reset)
    fun _ _ hs hl => hs.clk hl

/-! ### A pipeline that is not flushed -/

theorem flushpipe_false (hr : s.recognised i = none) (he : s.priv.except.extendFlush = false) :
    s.flushpipe i = false := by
  rw [flushpipe_eq, hr, he]
  rfl

theorem of_flushpipe_false (hf : s.flushpipe i = false) :
    s.recognised i = none ∧ s.priv.except.extendFlush = false := by
  rw [flushpipe_eq, Bool.or_eq_false_iff, Option.isSome_eq_false_iff, Option.isNone_iff_eq_none]
    at hf
  exact hf

theorem not_exceptStart (he : s.priv.except.extendFlush = false) : s.exceptStart = false := by
  rw [exceptStart, Except.exceptStarted, he, Bool.and_false]

theorem exceptStart_of_flushpipe (hf : s.flushpipe i = false) : s.exceptStart = false :=
  not_exceptStart (of_flushpipe_false hf).2

theorem Inv.ne_flu1 (h : Inv s) (hf : s.flushpipe i = false) : s.priv.except.state ≠ .flu1 := by
  intro h1
  have hext := (of_flushpipe_false hf).2
  simp [h.extendFlush_eq, h1] at hext

/-- l.rfe counts as taken, and a branch that is taken as a branch. -/
theorem exBranchTaken_of_rfe (hf : s.flushpipe i = false) (hop : s.priv.exBranchOp = .rfe) :
    s.exBranchTaken = true := by
  rw [exBranchTaken, exceptStart_of_flushpipe hf, hop]
  rfl

theorem exBranchTaken_of_nop (hf : s.flushpipe i = false) (hop : s.priv.exBranchOp = .nop) :
    s.exBranchTaken = false := by
  rw [exBranchTaken, exceptStart_of_flushpipe hf, hop]
  rfl

theorem Inv.clk_extendFlush (h : Inv s) (hf : s.flushpipe i = false) :
    (s.clk i).priv.except.extendFlush = false := by
  by_contra hc
  cases hf.symm.trans (h.priv.holds.flushpipe_of_clk (eq_true_of_ne_false hc))

/-- Without a redirection the word in IF comes from the buffer or from the port. -/
theorem Inv.ifInsn_eq (h : Inv s) (hf : s.flushpipe i = false) (hn : s.noMoreDslot = false)
    (hid : s.priv.idBranchOp ≠ .rfe) : s.ifInsn i =
      if s.saved then s.insnSaved else if i.icpuAck then i.icpuDat else nopMissing := by
  have hex : s.priv.exBranchOp ≠ .rfe := fun hex => by simp [noMoreDslot, hex] at hn
  have hby : s.ifBypass i = false := h.ifBypass_eq (h.ne_flu1 hf) (of_flushpipe_false hf).1
  simp [ifInsn, hn, hex, hid, hby]

theorem clk_saved (hf : s.flushpipe i = false) :
    (s.clk i).saved = (s.idFreeze i && (s.saved || i.icpuAck || i.icpuErr)) := by
  simp only [clk, hf, saveInsn, ifFreeze, (of_flushpipe_false hf).2]
  cases s.idFreeze i <;> cases s.saved <;> cases i.icpuAck <;> cases i.icpuErr <;> rfl

/-- A frozen pipeline keeps the word in the buffer, or fills the buffer with the answer. -/
theorem clk_buffer_kept (hf : s.flushpipe i = false) (hz : s.idFreeze i = true)
    (hs : s.saved = true) : (s.clk i).insnSaved = s.insnSaved ∧
      (s.clk i).addrSaved = s.addrSaved ∧ (s.clk i).errSaved = s.errSaved := by
  simp [clk, hf, saveInsn, ifFreeze, hz, hs]

theorem clk_buffer_filled (hf : s.flushpipe i = false) (hz : s.idFreeze i = true)
    (hs : s.saved = false) (ha : (i.icpuAck || i.icpuErr) = true) :
    (s.clk i).insnSaved = (if i.icpuErr then nopFlushed else i.icpuDat) ∧
      (s.clk i).addrSaved = s.icpuAdr ∧ (s.clk i).errSaved = i.fetchErr := by
  simp [clk, hf, saveInsn, ifFreeze, hz, hs, ha]

/-- Without an answer, or while a word is in the buffer, the same address is asked for. -/
theorem icpuAdrO_kept (hn : s.noMoreDslot = false) (hst : s.exceptStart = false)
    (hr : (i.icpuRty || s.genpcRefetch i) = true) :
    s.icpuAdrO i = (s.icpuAdr, s.icpuMark) := by
  rw [icpuAdrO, hn, hst, hr]
  rfl

/-- The port gives up an access, goes on with it, or accepts the address that is presented. -/
theorem portNext_cases : s.portNext i = none ∨ s.portNext i = some (s.icpuAdrO i).1 ∨
    s.portNext i = s.port ∧ s.flushpipeR = false ∧ i.icpuAck = false ∧ i.icpuErr = false := by
  unfold portNext
  split_ifs with hc ha
  · exact .inl rfl
  · exact .inr (.inl rfl)
  · refine .inr (.inr ⟨rfl, ?_, ?_, ?_⟩)
    · simp only [icpuCycstbO, genpcFreeze] at hc
      cases hr : s.flushpipeR <;> simp_all
    · by_contra hk
      exact ha (.inr (.inl (eq_true_of_ne_false hk)))
    · by_contra hk
      exact ha (.inr (.inr (eq_true_of_ne_false hk)))

theorem portNext_of_frozen (h : s.flushpipeR = true) : s.portNext i = none := by
  simp [portNext, icpuCycstbO, genpcFreeze, h]

theorem run_succ (R : machine.Run) (t : ℕ) : R.state (t + 1) = (R.state t).clk (R.input t) :=
  R.next t

end Core

end DsdOrsoc.Or1200
