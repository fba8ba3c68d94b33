import DsdOrsoc.Or1200.Frontend

/-! Operands of the or1200: the register file `or1200_rf` (generic RAM), the write-back multiplexer
    `or1200_wbmux`, the operand multiplexers `or1200_operandmuxes` and the part of `or1200_ctrl` and
    `or1200_sprs` that drives them. An operand comes from one of three places:

        EX result (muxout)  ──▶ if the instruction in EX writes the register
        last result (muxreg) ──▶ if the instruction before it has written the register
        register file       ──▶ otherwise, at the address latched together with id_insn

    The register file has no third read port: an SPR access to the GPR window borrows port A and
    does not give the address back. -/

namespace DsdOrsoc.Or1200
open Schemes

/-- The number of a general purpose register. -/
abbrev Gpr := BitVec 5

/-! ### Decoding -/

/-- `OR1200_RFWBOP_*`: whether a result is written back, and which one. -/
inductive RfwbOp where | nop | alu | lsu | sprs | lr
  deriving DecidableEq

/-- `rfwb_op[0]`. -/
def RfwbOp.we (op : RfwbOp) : Bool := decide (op ≠ .nop)

/-- `rfwb_op`. -/
def rfwbOp (insn : Insn) : RfwbOp :=
  if opcode insn ∈ [0b000001, 0b010010] then .lr                                -- l.jal, l.jalr
  else if opcode insn = 0b101101 then .sprs                                     -- l.mfspr
  else if opcode insn ∈ [0b100001, 0b100011, 0b100100, 0b100101, 0b100110] then .lsu
  else if opcode insn ∈ [0b000110, 0b100111, 0b101000, 0b101001, 0b101010, 0b101011, 0b101100,
    0b101110, 0b111000] then .alu
  else .nop

/-- `rf_addrw`: jumps with link write r9. -/
def rfAddrw (insn : Insn) : Gpr :=
  if opcode insn ∈ [0b000001, 0b010010] then 9 else insn.extractLsb' 21 5

/-- `rf_addra` and `rf_addrb`. -/
def rA (insn : Insn) : Gpr := insn.extractLsb' 16 5

def rB (insn : Insn) : Gpr := insn.extractLsb' 11 5

/-- `rf_rda`: the instruction has a source register rA; l.maci is the exception to bit 31. -/
def rfRda (insn : Insn) : Bool := insn.getLsbD 31 || decide (opcode insn = 0b010011)

/-- `rf_rdb`: the instruction has a source register rB. -/
def rfRdb (insn : Insn) : Bool := insn.getLsbD 30

/-- `sel_imm`: the instructions without an immediate are listed. -/
def selImm (insn : Insn) : Bool :=
  !(opcode insn ∈ [0b010010, 0b010001, 0b001001, 0b101101, 0b110000, 0b001000, 0b110001, 0b110101,
    0b110110, 0b110111, 0b111000, 0b111001, 0b000101])

/-- `id_simm`. -/
def simm (insn : Insn) : BitVec 32 :=
  if opcode insn ∈ [0b100111, 0b101000, 0b100001, 0b100011, 0b100100, 0b100101, 0b100110, 0b101100,
      0b101011, 0b101111] then
    (insn.extractLsb' 0 16).signExtend 32
  else if opcode insn ∈ [0b010011, 0b110101, 0b110110, 0b110111] then
    -- l.maci and stores have a split immediate
    (insn.extractLsb' 21 5 ++ insn.extractLsb' 0 11 : BitVec 16).signExtend 32
  else if opcode insn = 0b110000 then
    (insn.extractLsb' 21 5 ++ insn.extractLsb' 0 11 : BitVec 16).setWidth 32
  else (insn.extractLsb' 0 16).setWidth 32

/-! ### Registers and pins -/

/-- The registers; `mem` is the RAM of the register file with its two read address registers. -/
structure Operands where
  idInsn : Insn
  idSelImm : Bool
  exSimm : BitVec 32
  exRfwbOp : RfwbOp
  exRfAddrw : Gpr
  sprRead : Bool
  sprWrite : Bool
  muxreg : BitVec 32
  muxregValid : Bool
  wbRfaddrw : Gpr
  mem : Gpr → BitVec 32
  intaddrA : Gpr
  intaddrB : Gpr
  rfWeAllow : Bool
  operandA : BitVec 32
  operandB : BitVec 32
  savedA : Bool
  savedB : Bool

/-- The input pins of one cycle: the instruction in IF, the freeze and flush lines, the results in
    EX, the address of the instruction in EX, and the debug unit. -/
structure OperandsIn where
  ifInsn : Insn
  idFreeze : Bool
  abortEx : Bool
  abortMvspr : Bool
  flushpipe : Bool
  aluDataout : BitVec 32
  lsuDataout : BitVec 32
  sprsDataout : BitVec 32
  exPc : BitVec 32
  supv : Bool
  duRead : Bool
  duWrite : Bool
  duAddr : BitVec 32
  duDat : BitVec 32

/-- `ex_freeze` and `wb_freeze`. -/
def OperandsIn.exFreeze (i : OperandsIn) : Bool := i.idFreeze || i.abortEx

namespace Operands

def reset : Operands where
  idInsn := nopFlushed
  idSelImm := false
  exSimm := 0
  exRfwbOp := .nop
  exRfAddrw := 0
  sprRead := false
  sprWrite := false
  muxreg := 0
  muxregValid := false
  wbRfaddrw := 0
  mem := fun _ => 0
  intaddrA := 0
  intaddrB := 0
  rfWeAllow := true
  operandA := 0
  operandB := 0
  savedA := false
  savedB := false

variable (s : Operands) (i : OperandsIn)

/-- `muxout` of the write-back multiplexer: the result of the instruction in EX. -/
def muxout : BitVec 32 :=
  match s.exRfwbOp with
  | .nop => i.aluDataout
  | .alu => i.aluDataout
  | .lsu => i.lsuDataout
  | .sprs => i.sprsDataout
  | .lr => i.exPc + 8

/-- `spr_addr`. -/
def sprAddr : BitVec 32 :=
  if i.duRead || i.duWrite then i.duAddr else s.operandA ||| (s.exSimm.setWidth 16).setWidth 32

/-- `spr_we`. -/
def sprWe : Bool := i.duWrite || (s.sprWrite && !i.abortMvspr && !(i.duRead || i.duWrite))

/-- `spr_cs` of the unit with group number `g`. -/
def sprCs (g : BitVec 5) : Bool :=
  (i.duRead || i.duWrite || (s.sprRead && !i.abortMvspr) ||
    (s.sprWrite && !i.abortMvspr && i.supv)) && decide ((s.sprAddr i).extractLsb' 11 5 = g)

/-- `spr_valid` of the register file: an SPR access to the GPR window. -/
def sprValid : Bool := s.sprCs i 0 && decide ((s.sprAddr i).extractLsb' 5 6 = 32)

/-- The register number of such an access. -/
def sprGpr : Gpr := (s.sprAddr i).extractLsb' 0 5

/-- Read ports of the register file: asynchronous, with registered addresses. -/
def dataA : BitVec 32 := if s.intaddrA = 0 then 0 else s.mem s.intaddrA

def dataB : BitVec 32 := if s.intaddrB = 0 then 0 else s.mem s.intaddrB

/-- The write port. -/
def rfWe : Bool :=
  ((s.sprValid i && s.sprWe i) || (s.exRfwbOp.we && !i.exFreeze)) && s.rfWeAllow

def rfWaddr : Gpr := if s.sprValid i && s.sprWe i then s.sprGpr i else s.exRfAddrw

/-- `spr_dat_cpu`, the data of a debug write or of l.mtspr. -/
def sprDat : BitVec 32 := if i.duWrite then i.duDat else s.operandB

def rfWdata : BitVec 32 := if s.sprValid i && s.sprWe i then s.sprDat i else s.muxout i

/-- `muxed_a`, selected by `sel_a`. -/
def muxedA : BitVec 32 :=
  if rA s.idInsn = s.exRfAddrw ∧ s.exRfwbOp.we = true then s.muxout i
  else if rA s.idInsn = s.wbRfaddrw ∧ s.muxregValid = true then s.muxreg
  else s.dataA

/-- `muxed_b`, selected by `sel_b`. -/
def muxedB : BitVec 32 :=
  if s.idSelImm then simm s.idInsn
  else if rB s.idInsn = s.exRfAddrw ∧ s.exRfwbOp.we = true then s.muxout i
  else if rB s.idInsn = s.wbRfaddrw ∧ s.muxregValid = true then s.muxreg
  else s.dataB

/-- An EX latch: cleared by a bubble or a flush, loaded when EX moves. -/
def exLatch {α : Type} (old clear new : α) : α :=
  if (!i.exFreeze && i.idFreeze) || i.flushpipe then clear else if !i.exFreeze then new else old

/-- An operand register with its `saved` flag. -/
def operandLatch (old muxed : BitVec 32) (saved : Bool) : BitVec 32 × Bool :=
  if !i.exFreeze && i.idFreeze && !saved then (muxed, true)
  else if !i.exFreeze && !saved then (muxed, saved)
  else if !i.exFreeze && !i.idFreeze then (old, false)
  else (old, saved)

/-- The instruction that is in ID after the edge. -/
def idNext : Insn :=
  if i.flushpipe then nopFlushed else if i.idFreeze then s.idInsn else i.ifInsn

/-- One rising edge of the clock. -/
def clk : Operands where
  idInsn := s.idNext i
  idSelImm := if i.idFreeze then s.idSelImm else selImm i.ifInsn
  exSimm := if i.exFreeze then s.exSimm else simm s.idInsn
  exRfwbOp := exLatch i s.exRfwbOp .nop (rfwbOp s.idInsn)
  exRfAddrw :=
    if !i.exFreeze && i.idFreeze then 0
    else if !i.exFreeze then rfAddrw s.idInsn else s.exRfAddrw
  sprRead := exLatch i s.sprRead false (decide (opcode s.idInsn = 0b101101))
  sprWrite := exLatch i s.sprWrite false (decide (opcode s.idInsn = 0b110000))
  muxreg := if i.exFreeze then s.muxreg else s.muxout i
  muxregValid := if i.exFreeze then s.muxregValid else s.exRfwbOp.we
  wbRfaddrw := if i.exFreeze then s.wbRfaddrw else s.exRfAddrw
  mem :=
    if s.rfWe i then
      Function.update s.mem (s.rfWaddr i) (if s.rfWaddr i = 0 then 0 else s.rfWdata i)
    else s.mem
  intaddrA :=
    if (rfRda i.ifInsn && !i.idFreeze) || (s.sprValid i && !s.sprWe i) then
      (if s.sprValid i && !s.sprWe i then s.sprGpr i else rA i.ifInsn)
    else s.intaddrA
  intaddrB := if rfRdb i.ifInsn && !i.idFreeze then rB i.ifInsn else s.intaddrB
  rfWeAllow := if i.exFreeze then s.rfWeAllow else !i.flushpipe
  operandA := (operandLatch i s.operandA (s.muxedA i) s.savedA).1
  operandB := (operandLatch i s.operandB (s.muxedB i) s.savedB).1
  savedA := (operandLatch i s.operandA (s.muxedA i) s.savedA).2
  savedB := (operandLatch i s.operandB (s.muxedB i) s.savedB).2

/-- The operand logic under any instructions, freezes and flushes; GPRs are written by write-back
    only. -/
def machine : Machine Operands OperandsIn where
  start s := s = reset
  legal s i := (s.sprValid i && s.sprWe i) = false
  step := clk

/-! ### Sequential write-back -/

/-- The results are written to the registers one after another. -/
def writeAll (g : Gpr → BitVec 32) (results : List (Gpr × BitVec 32)) : Gpr → BitVec 32 :=
  results.foldl (fun g w => Function.update g w.1 w.2) g

/-- The result that the instruction in EX leaves behind when it completes in this cycle. -/
def result : List (Gpr × BitVec 32) :=
  if s.exRfwbOp.we && !i.exFreeze then [(s.exRfAddrw, s.muxout i)] else []

/-- An SPR read of the GPR window does no harm if the instruction that is in ID afterwards has no rA
    or exactly the register that is read. -/
def ReadHarmless : Prop :=
  (s.sprValid i && !s.sprWe i) = true → rfRda (s.idNext i) = true → rA (s.idNext i) = s.sprGpr i

/-- INVARIANT: the registers against the architectural ones `g`. -/
structure Forwards (s : Operands) (g : Gpr → BitVec 32) : Prop where
  portA : rfRda s.idInsn = true → s.intaddrA = rA s.idInsn
  portB : rfRdb s.idInsn = true → s.intaddrB = rB s.idInsn ∧ s.idSelImm = selImm s.idInsn
  file : ∀ r, r ≠ 0 → s.mem r = g r
  copy : s.muxregValid = true → g s.wbRfaddrw = s.muxreg
  allow : s.rfWeAllow = false → s.exRfwbOp = .nop
  saved : s.savedA = false ∧ s.savedB = false

variable {s i} {g : Gpr → BitVec 32}

theorem forwards_reset : Forwards reset fun _ => 0 where
  portA h := by revert h; decide
  portB h := by revert h; decide
  file _ _ := rfl
  copy h := by cases h
  allow h := by cases h
  saved := ⟨rfl, rfl⟩

theorem writeAll_result (g : Gpr → BitVec 32) :
    writeAll g (s.result i) =
      if s.exRfwbOp.we && !i.exFreeze then Function.update g s.exRfAddrw (s.muxout i) else g := by
  unfold result
  split <;> rfl

/-! ### One clock edge -/

/-- An instruction that reads a register comes to ID from ID or from IF. -/
theorem idNext_cases {reads : Insn → Bool} (hnop : reads nopFlushed = false)
    (hrd : reads (s.idNext i) = true) :
    (i.idFreeze = true ∧ s.idNext i = s.idInsn) ∨ (i.idFreeze = false ∧ s.idNext i = i.ifInsn) := by
  cases hfl : i.flushpipe with
  | true =>
    rw [idNext, hfl, if_pos rfl, hnop] at hrd
    cases hrd
  | false => cases hfz : i.idFreeze <;> simp [idNext, hfl, hfz]

/-- Port A is addressed together with ID, unless an SPR read takes it away. -/
theorem clk_portA (h : rfRda s.idInsn = true → s.intaddrA = rA s.idInsn) (hr : s.ReadHarmless i)
    (hrd : rfRda (s.idNext i) = true) : (s.clk i).intaddrA = rA (s.idNext i) := by
  cases hspr : s.sprValid i && !s.sprWe i with
  | true => simp [clk, hspr, hr hspr hrd]
  | false =>
    rcases idNext_cases (by decide) hrd with ⟨hfz, hid⟩ | ⟨hfz, hid⟩ <;> rw [hid] at hrd ⊢
    · simp [clk, hspr, hfz, h hrd]
    · simp [clk, hspr, hfz, hrd]

theorem clk_portB (h : rfRdb s.idInsn = true → s.intaddrB = rB s.idInsn ∧
      s.idSelImm = selImm s.idInsn) (hrd : rfRdb (s.idNext i) = true) :
    (s.clk i).intaddrB = rB (s.idNext i) ∧ (s.clk i).idSelImm = selImm (s.idNext i) := by
  rcases idNext_cases (by decide) hrd with ⟨hfz, hid⟩ | ⟨hfz, hid⟩ <;> rw [hid] at hrd ⊢
  · simp [clk, hfz, h hrd]
  · simp [clk, hfz, hrd]

/-- The write port does what sequential write-back does, r0 apart. -/
theorem clk_file (h : Forwards s g) (hw : (s.sprValid i && s.sprWe i) = false) (r : Gpr)
    (hr : r ≠ 0) : (s.clk i).mem r = writeAll g (s.result i) r := by
  rw [writeAll_result]
  cases hwe : s.exRfwbOp.we && !i.exFreeze with
  | false => simp [clk, rfWe, hw, hwe, h.file r hr]
  | true =>
    have hallow : s.rfWeAllow = true := by
      by_contra hn
      simp [h.allow (Bool.eq_false_iff.2 hn), RfwbOp.we] at hwe
    simp only [clk, rfWe, hw, hwe, hallow, rfWaddr, rfWdata, Bool.false_or, Bool.and_true, if_true,
      Bool.false_eq_true, if_false]
    rcases eq_or_ne r s.exRfAddrw with rfl | hne
    · rw [Function.update_self, Function.update_self, if_neg hr]
    · simp [hne, h.file r hr]

/-- The copy of the last result is the value of its register. -/
theorem clk_copy (h : Forwards s g) (hv : (s.clk i).muxregValid = true) :
    writeAll g (s.result i) (s.clk i).wbRfaddrw = (s.clk i).muxreg := by
  rw [writeAll_result]
  cases hfz : i.exFreeze with
  | true =>
    simp only [clk, hfz, if_true] at hv ⊢
    simpa using h.copy hv
  | false =>
    simp only [clk, hfz, Bool.false_eq_true, if_false] at hv ⊢
    simp [hv]

/-- A flush that closes the write port has also emptied EX. -/
theorem clk_allow (h : Forwards s g) (ha : (s.clk i).rfWeAllow = false) :
    (s.clk i).exRfwbOp = .nop := by
  cases hfl : i.flushpipe with
  | true => simp [clk, exLatch, hfl]
  | false =>
    cases hfz : i.exFreeze with
    | true =>
      simp only [clk, hfz, if_true] at ha
      simp [clk, exLatch, hfl, hfz, h.allow ha]
    | false => simp [clk, hfz, hfl] at ha

/-- ID is never frozen while EX moves, so an operand is never saved. -/
theorem operandLatch_unsaved (old muxed : BitVec 32) :
    operandLatch i old muxed false = (if i.exFreeze then old else muxed, false) := by
  cases hid : i.idFreeze <;> cases hab : i.abortEx <;>
    simp [operandLatch, OperandsIn.exFreeze, hid, hab]

/-- STEP: the invariant is kept, with the result of the completing instruction written. -/
theorem Forwards.clk (h : Forwards s g) (hw : (s.sprValid i && s.sprWe i) = false)
    (hr : s.ReadHarmless i) : Forwards (s.clk i) (writeAll g (s.result i)) where
  portA := clk_portA h.portA hr
  portB := clk_portB h.portB
  file := clk_file h hw
  copy := clk_copy h
  allow := clk_allow h
  saved := by simp [Operands.clk, h.saved, operandLatch_unsaved]

/-! ### Operands -/

/-- The two forwarding paths and the register file give the architectural value. -/
theorem forwarded_eq (h : Forwards s g) (hfz : i.exFreeze = false) {r : Gpr} (hr : r ≠ 0) :
    (if r = s.exRfAddrw ∧ s.exRfwbOp.we = true then s.muxout i
      else if r = s.wbRfaddrw ∧ s.muxregValid = true then s.muxreg
      else if r = 0 then 0 else s.mem r) = writeAll g (s.result i) r := by
  rw [writeAll_result, hfz, Bool.not_false, Bool.and_true]
  split
  · next hex =>
    obtain ⟨rfl, hwe⟩ := hex
    simp [hwe]
  · next hex =>
    have hold :
        (if s.exRfwbOp.we then Function.update g s.exRfAddrw (s.muxout i) else g) r = g r := by
      split
      · next hwe => exact Function.update_of_ne (fun he => hex ⟨he, hwe⟩) _ _
      · rfl
    rw [hold]
    split
    · next hwb =>
      obtain ⟨rfl, hv⟩ := hwb
      exact (h.copy hv).symm
    · exact h.file r hr

theorem clk_operandA (h : Forwards s g) (hfz : i.exFreeze = false) (hrd : rfRda s.idInsn = true)
    (hr : rA s.idInsn ≠ 0) : (s.clk i).operandA = writeAll g (s.result i) (rA s.idInsn) := by
  rw [← forwarded_eq h hfz hr]
  simp only [clk, h.saved, operandLatch_unsaved, hfz, muxedA, dataA, h.portA hrd]
  rfl

theorem clk_operandB (h : Forwards s g) (hfz : i.exFreeze = false) (hrd : rfRdb s.idInsn = true)
    (himm : selImm s.idInsn = false) (hr : rB s.idInsn ≠ 0) :
    (s.clk i).operandB = writeAll g (s.result i) (rB s.idInsn) := by
  obtain ⟨haddr, hsel⟩ := h.portB hrd
  rw [← forwarded_eq h hfz hr]
  simp only [clk, h.saved, operandLatch_unsaved, hfz, muxedB, dataB, haddr, hsel, himm]
  rfl

end Operands

/-! ### Runs -/

section Run
open Operands

variable (R : Operands.machine.Run)

/-- The results of the instructions that have completed EX before cycle `t`, in their order. -/
def results : ℕ → List (Gpr × BitVec 32)
  | 0 => []
  | t + 1 => results t ++ (R.state t).result (R.input t)

/-- The registers as sequential write-back has left them. -/
def gprs (t : ℕ) : Gpr → BitVec 32 := writeAll (fun _ => 0) (results R t)

/-- The operands that an instruction gets when it moves from ID to EX in cycle `t`. -/
def OperandsCurrent (t : ℕ) : Prop :=
  (R.input t).exFreeze = false →
    (rfRda (R.state t).idInsn = true → rA (R.state t).idInsn ≠ 0 →
      (R.state (t + 1)).operandA = gprs R (t + 1) (rA (R.state t).idInsn)) ∧
    (rfRdb (R.state t).idInsn = true → selImm (R.state t).idInsn = false →
      rB (R.state t).idInsn ≠ 0 →
      (R.state (t + 1)).operandB = gprs R (t + 1) (rB (R.state t).idInsn))

variable {R}

theorem gprs_succ (t : ℕ) :
    gprs R (t + 1) = writeAll (gprs R t) ((R.state t).result (R.input t)) := by
  simp [gprs, results, writeAll]

/-- RUN: the invariant holds against the sequential registers. -/
theorem forwards_run (hr : ∀ t, (R.state t).ReadHarmless (R.input t)) :
    ∀ t, Forwards (R.state t) (gprs R t)
  | 0 => by
    rw [show R.state 0 = reset from R.start]
    exact forwards_reset
  | t + 1 => by
    rw [gprs_succ, show R.state (t + 1) = (R.state t).clk (R.input t) from R.next t]
    exact (forwards_run hr t).clk (R.legal t) (hr t)

variable (R)

/-- Forwarding is invisible in every run in which no SPR read takes port A away from an instruction
    that needs it. -/
theorem operands_current (hr : ∀ t, (R.state t).ReadHarmless (R.input t)) (t : ℕ) :
    OperandsCurrent R t := by
  intro hfz
  have h := forwards_run hr t
  rw [gprs_succ, show R.state (t + 1) = (R.state t).clk (R.input t) from R.next t]
  exact ⟨clk_operandA h hfz, clk_operandB h hfz⟩

end Run

/-! ### Programs without stalls -/

/-- The debug unit is quiet and nothing stalls, except that l.mfspr may take two cycles. -/
def freeRunning (insn : ℕ → Insn) (two : ℕ → Bool) (t : ℕ) : OperandsIn where
  ifInsn := insn t
  idFreeze := two t
  abortEx := false
  abortMvspr := false
  flushpipe := false
  aluDataout := 7
  lsuDataout := 0
  sprsDataout := 0
  exPc := 0
  supv := true
  duRead := false
  duWrite := false
  duAddr := 0
  duDat := 0

section FreeRunning
open Operands

variable {insn : ℕ → Insn} {two : ℕ → Bool}

/-- An instruction that is never fetched is never in ID. -/
theorem opcode_never {op : BitVec 6} (hop : opcode nopFlushed ≠ op)
    (h : ∀ t, opcode (insn t) ≠ op) :
    ∀ t, opcode (machine.trace reset (freeRunning insn two) t).idInsn ≠ op
  | 0 => hop
  | t + 1 => by
    change opcode (if two t then _ else insn t) ≠ op
    split
    · exact opcode_never hop h t
    · exact h t

/-- Without l.mtspr nothing writes the SPRs. -/
theorem sprWrite_never (h : ∀ t, opcode (insn t) ≠ 0b110000) :
    ∀ t, (machine.trace reset (freeRunning insn two) t).sprWrite = false
  | 0 => rfl
  | t + 1 => by
    change exLatch _ _ false (decide _) = false
    rw [sprWrite_never h t, decide_eq_false (opcode_never (by decide) h t)]
    simp [exLatch]

theorem sprRead_never (h : ∀ t, opcode (insn t) ≠ 0b101101) :
    ∀ t, (machine.trace reset (freeRunning insn two) t).sprRead = false
  | 0 => rfl
  | t + 1 => by
    change exLatch _ _ false (decide _) = false
    rw [sprRead_never h t, decide_eq_false (opcode_never (by decide) h t)]
    simp [exLatch]

theorem freeRunning_legal (h : ∀ t, opcode (insn t) ≠ 0b110000) (t : ℕ) :
    machine.legal (machine.trace reset (freeRunning insn two) t) (freeRunning insn two t) := by
  have hwe :
      (machine.trace reset (freeRunning insn two) t).sprWe (freeRunning insn two t) = false := by
    rw [sprWe, sprWrite_never h t]
    rfl
  change (_ && _) = false
  rw [hwe, Bool.and_false]

theorem freeRunning_harmless (hw : ∀ t, opcode (insn t) ≠ 0b110000)
    (hr : ∀ t, opcode (insn t) ≠ 0b101101) (t : ℕ) :
    (machine.trace reset (freeRunning insn two) t).ReadHarmless (freeRunning insn two t) := by
  intro h
  simp [sprValid, sprCs, freeRunning, sprWrite_never hw t, sprRead_never hr t] at h

end FreeRunning

/-- l.addi r2,r0,7; l.add r4,r2,r2: both operands are forwarded from EX. -/
def addProgram : ℕ → Insn
  | 0 => 0x9c400007
  | 1 => 0xe0821000
  | _ => nopFlushed

theorem addProgram_plain (t : ℕ) :
    opcode (addProgram t) ≠ 0b110000 ∧ opcode (addProgram t) ≠ 0b101101 := by
  match t with
  | 0 => decide
  | 1 => decide
  | _ + 2 => exact (by decide : opcode nopFlushed ≠ 0b110000 ∧ opcode nopFlushed ≠ 0b101101)

theorem operands_current_add : ∃ R : Operands.machine.Run,
    R.input = freeRunning addProgram (fun _ => false) ∧ OperandsCurrent R 2 ∧
    (R.state 3).operandA = 7 ∧ (R.state 3).operandB = 7 := by
  refine ⟨.ofInput Operands.reset _ rfl (freeRunning_legal fun t => (addProgram_plain t).1), rfl,
    ?_, by decide, by decide⟩
  exact operands_current _ (freeRunning_harmless (fun t => (addProgram_plain t).1)
    fun t => (addProgram_plain t).2) 2

/-- l.addi r2,r0,7; l.mfspr r3,r0,0x402; l.add r4,r5,r6. -/
def mfsprProgram : ℕ → Insn
  | 0 => 0x9c400007
  | 1 => 0xb4600402
  | 2 => 0xe0853000
  | _ => nopFlushed

theorem mfsprProgram_plain (t : ℕ) : opcode (mfsprProgram t) ≠ 0b110000 := by
  match t with
  | 0 => decide
  | 1 => decide
  | 2 => decide
  | _ + 3 => exact (by decide : opcode nopFlushed ≠ 0b110000)

/-- l.mfspr reads r2 through the GPR window while l.add waits in ID: l.add gets r2, not r5. -/
theorem mfspr_takes_port : ∃ R : Operands.machine.Run,
    R.input = freeRunning mfsprProgram (fun t => decide (t = 3)) ∧
    (R.state 4).idInsn = 0xe0853000 ∧ (R.input 4).exFreeze = false ∧ gprs R 5 5 = 0 ∧
    (R.state 5).operandA = 7 ∧ ¬ OperandsCurrent R 4 := by
  refine ⟨.ofInput Operands.reset _ rfl (freeRunning_legal mfsprProgram_plain), rfl, by decide,
    by decide, by decide, by decide, fun h => ?_⟩
  have ha := (h (by decide)).1 (by decide) (by decide)
  revert ha
  decide

end DsdOrsoc.Or1200
