import DsdOrsoc.Uart.Fifo
import DsdOrsoc.Uart.Frame

/-! The register file `uart_regs` as far as the receive FIFO has part in it: the registers that the
    bus writes, the strobes `rf_pop` and `tf_push`, the FIFO of the receiver with its push pulse,
    and two of the flags that are kept beside the FIFO by events:

        lsr0r         data ready               set by a push, cleared by the last pop and by a reset
        rda_int_pnd   data-available pending   set when the count reaches the trigger level, cleared
                                               by a read at that level

    Both are set at rises, so an event that is missed is not made up for. -/

namespace DsdOrsoc.Uart
open Schemes

/-- The register accesses and the receiver: `rf_push` is a level, its rising edge pushes. -/
structure RegsIn where
  wbAddrI : BitVec 5
  wbDatI : BitVec 8
  wbWeI : Bool
  wbReI : Bool
  rfPush : Bool
  rfDataIn : RecWord

structure Regs where
  lcr : Lcr
  ier : BitVec 4
  fcr : BitVec 2
  rxReset : Bool
  txReset : Bool
  rfPop : Bool
  tfPush : Bool
  lsrMaskD : Bool
  rf : Rfifo
  rfPushQ : Bool
  lsr0D : Bool
  lsr0R : Bool
  rdaIntD : Bool
  rdaIntPnd : Bool

/-- `trigger_level`. -/
def triggerLevel (fcr : BitVec 2) : BitVec 4 :=
  match fcr with
  | 0b00 => 1
  | 0b01 => 4
  | 0b10 => 8
  | _ => 14

namespace Regs

variable (s : Regs) (i : RegsIn)

def dlab : Bool := s.lcr.getLsbD 7

def rfCount : BitVec 5 := s.rf.ptrs.count

/-- `{1'b0, trigger_level}`. -/
def trigger : BitVec 5 := (triggerLevel s.fcr).setWidth 5

def rfPushPulse : Bool := i.rfPush && !s.rfPushQ

/-- A read of the receive buffer. -/
def fifoRead : Bool := i.wbReI && decide (i.wbAddrI = 0) && !s.dlab

def lsrMaskCondition : Bool := i.wbReI && decide (i.wbAddrI = 5) && !s.dlab

def lsrMask : Bool := s.lsrMaskCondition i && !s.lsrMaskD

/-- The condition that sets the data-ready bit. -/
def lsr0 : Bool := decide (s.rfCount = 0) && s.rfPushPulse i

/-- The level of the data-available interrupt. -/
def rdaInt : Bool := s.ier.getLsbD 0 && decide (s.trigger ≤ s.rfCount)

def rdaIntRise : Bool := s.rdaInt && !s.rdaIntD

/-- The pins of the receive FIFO. -/
@[simps] def rfIn : FifoIn RecWord where
  push := s.rfPushPulse i
  pop := s.rfPop
  fifoReset := s.rxReset
  resetStatus := s.lsrMask i
  dataIn := i.rfDataIn

/-- One rising edge of the clock. -/
def clk : Regs where
  lcr := if i.wbWeI && decide (i.wbAddrI = 3) then i.wbDatI else s.lcr
  ier := if i.wbWeI && decide (i.wbAddrI = 1) && !s.dlab then i.wbDatI.extractLsb' 0 4 else s.ier
  fcr := if i.wbWeI && decide (i.wbAddrI = 2) then i.wbDatI.extractLsb' 6 2 else s.fcr
  rxReset := i.wbWeI && decide (i.wbAddrI = 2) && i.wbDatI.getLsbD 1
  txReset := i.wbWeI && decide (i.wbAddrI = 2) && i.wbDatI.getLsbD 2
  -- the strobe lasts for one cycle, also if the read goes on
  rfPop := !s.rfPop && s.fifoRead i
  tfPush := i.wbWeI && decide (i.wbAddrI = 0) && !s.dlab
  lsrMaskD := s.lsrMaskCondition i
  rf := s.rf.clk (s.rfIn i)
  rfPushQ := i.rfPush
  lsr0D := s.lsr0 i
  lsr0R :=
    if (decide (s.rfCount = 1) && s.rfPop && !s.rfPushPulse i) || s.rxReset then false
    else s.lsr0R || (s.lsr0 i && !s.lsr0D)
  rdaIntD := s.rdaInt
  rdaIntPnd :=
    if decide (s.rfCount = s.trigger) && s.fifoRead i then false
    else if s.rdaIntRise then true
    else s.rdaIntPnd && s.ier.getLsbD 0

/-- The registers after reset, with any FIFO RAM. -/
structure Reset : Prop where
  lcr : s.lcr = 0b00000011
  ier : s.ier = 0
  fcr : s.fcr = 0b11
  strobes : s.rxReset = false ∧ s.txReset = false ∧ s.rfPop = false ∧ s.tfPush = false ∧
    s.lsrMaskD = false
  fifo : s.rf.ptrs = ⟨0, 0, 0⟩ ∧ s.rf.fifo = (fun _ => 0) ∧ s.rf.overrun = false
  rfPushQ : s.rfPushQ = false
  lsr0 : s.lsr0D = false ∧ s.lsr0R = false
  rda : s.rdaIntD = false ∧ s.rdaIntPnd = false

def init : Regs where
  lcr := 0b00000011
  ier := 0
  fcr := 0b11
  rxReset := false
  txReset := false
  rfPop := false
  tfPush := false
  lsrMaskD := false
  rf := ⟨⟨0, 0, 0⟩, fun _ => 0, fun _ => 0, false⟩
  rfPushQ := false
  lsr0D := false
  lsr0R := false
  rdaIntD := false
  rdaIntPnd := false

theorem reset_init : init.Reset where
  lcr := rfl
  ier := rfl
  fcr := rfl
  strobes := ⟨rfl, rfl, rfl, rfl, rfl⟩
  fifo := ⟨rfl, rfl, rfl⟩
  rfPushQ := rfl
  lsr0 := ⟨rfl, rfl⟩
  rda := ⟨rfl, rfl⟩

/-- From reset, with any register accesses and any received bytes. -/
def machine : Machine Regs RegsIn where
  start := Reset
  legal _ _ := True
  step := clk

/-! ### The count -/

variable {s i}

theorem clk_rfCount : (s.clk i).rfCount = (s.rf.ptrs.clk (s.rfIn i)).count := rfl

theorem clk_rfCount_of_reset (hr : s.rxReset = true) : (s.clk i).rfCount = 0 := by
  rw [clk_rfCount, FifoPtrs.clk, rfIn_fifoReset, hr, if_pos rfl]

/-- Without a reset the count follows the strobes. -/
theorem clk_rfCount_eq (hr : s.rxReset = false) :
    (s.clk i).rfCount =
      match s.rfPushPulse i, s.rfPop with
      | true, false => if s.rfCount < 16 then s.rfCount + 1 else s.rfCount
      | false, true => if 0 < s.rfCount then s.rfCount - 1 else s.rfCount
      | _, _ => s.rfCount := by
  rw [clk_rfCount, FifoPtrs.clk, rfIn_fifoReset, hr, if_neg Bool.false_ne_true, rfIn_push,
    rfIn_pop]
  cases s.rfPushPulse i <;> cases s.rfPop
  · rfl
  · exact apply_ite FifoPtrs.count _ _ _
  · exact apply_ite FifoPtrs.count _ _ _
  · rfl

end Regs

end DsdOrsoc.Uart
