import DsdOrsoc.Or1200.Sprs
import DsdOrsoc.Schemes.Machine

/-! User and supervisor mode: the status register, the exception unit and the latches of the
    pipeline that write SPRs or return from an exception. In user mode the chip selects hold back
    every l.mtspr, so there are two ways out of it, and both set the mode of the kernel's choice:

        l.rfe                loads ESR, which a user program cannot write
        except_started       sets SM and clears IEE, TEE, DME, IME while the pipeline is flushed -/

namespace DsdOrsoc.Or1200
open Schemes

/-- The registers. -/
structure Privilege where
  ops : Operands
  exInsn : Insn
  idBranchOp : BranchOp
  exBranchOp : BranchOp
  srReg : SrReg
  except : Except

/-- The pins: those of the pipeline in `core` and of the exception unit in `pins`, apart from the
    ones that the composition drives, and the updates of flag and carry. -/
structure PrivilegeIn where
  core : OperandsIn
  pins : ExceptIn
  flagWe : Bool
  flagforw : Bool
  cyWe : Bool
  cyforw : Bool
  bootAdrSel : Bool

namespace Privilege

def reset : Privilege where
  ops := Operands.reset
  exInsn := nopFlushed
  idBranchOp := .nop
  exBranchOp := .nop
  srReg := ⟨0x8001, false, true⟩
  except :=
    { state := .idle, exceptType := .none, extendFlush := false, epcr := 0, eear := 0,
      esr := 0x8001, idPc := 0, idPcVal := false, idExceptflags := .clear, exPc := 0,
      exPcVal := false, exExceptflags := .clear, exDslot := false, delayed1ExDslot := false,
      delayed2ExDslot := false, wbPc := 0, dlPc := 0, delayedIee := 0, delayedTee := 0 }

variable (s : Privilege) (i : PrivilegeIn)

def sr : Sr := s.srReg.sr i.bootAdrSel

/-- `sr[SM]`. -/
def supv : Bool := (s.sr i).getLsbD 0

/-- The pins of the pipeline before the flush, as the SPR accesses see them. -/
def sprIn : OperandsIn :=
  { i.core with abortEx := i.pins.abortEx, abortMvspr := i.pins.sigIllegal, supv := s.supv i }

def sprWe : Bool := s.ops.sprWe (s.sprIn i)

def sprCs (g : BitVec 5) : Bool := s.ops.sprCs (s.sprIn i) g

/-- The write enable of the system register with number `n`. -/
def sysWe (n : BitVec 11) : Bool :=
  s.sprWe i && (s.sprCs i 0 && decide ((s.ops.sprAddr (s.sprIn i)).extractLsb' 0 11 = n))

/-- l.rfe is in EX. -/
def rfe : Bool := decide (s.exBranchOp = .rfe)

/-- The writers of the status register. -/
def srIn : SrIn where
  started := s.except.exceptStarted
  rfe := s.rfe
  flagWe := i.flagWe
  flagforw := i.flagforw
  cyWe := i.cyWe
  cyforw := i.cyforw
  sprWe := s.sysWe i 17
  dat := s.ops.sprDat (s.sprIn i)

/-- The pins of the exception unit. -/
def exceptIn : ExceptIn :=
  { i.pins with
    idFreeze := i.core.idFreeze
    exFreeze := (s.sprIn i).exFreeze
    dat := s.ops.sprDat (s.sprIn i)
    epcrWe := s.sysWe i 32
    eearWe := s.sysWe i 48
    esrWe := s.sysWe i 64
    srWe := (s.srIn i).we
    toSr := toSr (s.sr i) s.except.esr (s.srIn i)
    sr := s.sr i }

/-- The exception that is recognised in this cycle. -/
def recognised : Option Cause := s.except.recognised (s.exceptIn i)

/-- The pins of the pipeline. -/
def opsIn : OperandsIn := { s.sprIn i with flushpipe := s.except.flushpipe (s.exceptIn i) }

/-- One rising edge of the clock. -/
def clk : Privilege where
  ops := s.ops.clk (s.opsIn i)
  exInsn := Operands.exLatch (s.opsIn i) s.exInsn nopFlushed s.ops.idInsn
  idBranchOp :=
    if (s.opsIn i).flushpipe then .nop
    else if i.core.idFreeze then s.idBranchOp else branchOp i.core.ifInsn
  exBranchOp := Operands.exLatch (s.opsIn i) s.exBranchOp .nop s.idBranchOp
  srReg := s.srReg.clk i.bootAdrSel s.except.esr (s.srIn i)
  except := s.except.clk (s.exceptIn i)

/-- The core from reset, with the debug unit inactive. -/
def machine : Machine Privilege PrivilegeIn where
  start s := s = reset
  legal _ i := i.core.duRead = false ∧ i.core.duWrite = false
  step := clk

/-! ### Invariant -/

/-- INVARIANT: the latches are those of one instruction in ID and one in EX, and an idle exception
    unit does not flush. -/
structure Inv (s : Privilege) : Prop where
  idBranch : s.idBranchOp = branchOp s.ops.idInsn
  exBranch : s.exBranchOp = branchOp s.exInsn
  exRead : s.ops.sprRead = decide (opcode s.exInsn = 0b101101)
  exWrite : s.ops.sprWrite = decide (opcode s.exInsn = 0b110000)
  holds : s.except.Holds
  boot : s.srReg.bitEphSelect = true → s.srReg.srReg.getLsbD 0 = true

variable {s i}

theorem inv_reset : Inv reset :=
  ⟨by decide, by decide, by decide, by decide, rfl, fun _ => by decide⟩

theorem Inv.clk (hs : s.Inv) : (s.clk i).Inv where
  idBranch := by
    change (if (s.opsIn i).flushpipe then _ else _) = branchOp (s.ops.idNext (s.opsIn i))
    rw [Operands.idNext, hs.idBranch]
    split
    · decide
    · exact (apply_ite branchOp _ _ _).symm
  exBranch := by
    simp only [Privilege.clk, Operands.exLatch, hs.exBranch, hs.idBranch]
    split
    · decide
    · exact (apply_ite branchOp _ _ _).symm
  exRead := by
    simp only [Privilege.clk, Operands.clk, Operands.exLatch, hs.exRead]
    split
    · decide
    · split <;> rfl
  exWrite := by
    simp only [Privilege.clk, Operands.clk, Operands.exLatch, hs.exWrite]
    split
    · decide
    · split <;> rfl
  holds := hs.holds.clk
  boot h := by cases h

theorem inv_of_reachable (h : machine.Reachable s) : s.Inv :=
  h.invariant (I := Inv) (fun s hs => by rw [show s = reset from hs]; exact inv_reset)
    fun _ _ hs _ => hs.clk

/-! ### Bubbles in EX -/

theorem Inv.exBranchOp_of_void (hs : s.Inv) (hv : isVoid s.exInsn = true) :
    s.exBranchOp = .nop := by
  rw [hs.exBranch, branchOp_of_isVoid hv]

theorem Inv.sprWe_of_void (hs : s.Inv) (hl : machine.legal s i) (hv : isVoid s.exInsn = true) :
    s.sprWe i = false := by
  have hw : s.ops.sprWrite = false := by simp [hs.exWrite, opcode_of_isVoid hv]
  simp [sprWe, Operands.sprWe, sprIn, hl.2, hw]

/-! ### User mode -/

theorem supv_eq : s.supv i = s.srReg.srReg.getLsbD 0 := by
  simp only [supv, sr, SrReg.sr, BitVec.getLsbD_append, BitVec.getLsbD_extractLsb']
  simp

/-- In user mode a chip select is never given to a write. -/
theorem no_spr_write (hs : s.Inv) (hl : machine.legal s i) (hu : s.supv i = false)
    (g : BitVec 5) : (s.sprWe i && s.sprCs i g) = false := by
  have hexcl : s.ops.sprWrite = true → s.ops.sprRead = false := by
    rw [hs.exRead, hs.exWrite, decide_eq_true_eq, decide_eq_false_iff_not]
    intro h
    rw [h]
    decide
  cases hw : s.ops.sprWrite with
  | false => simp [sprWe, Operands.sprWe, sprIn, hl.2, hw]
  | true => simp [sprCs, Operands.sprCs, sprIn, hl.1, hl.2, hexcl hw, hu]

theorem no_sysWe (hs : s.Inv) (hl : machine.legal s i) (hu : s.supv i = false) (n : BitVec 11) :
    s.sysWe i n = false := by
  rw [sysWe, ← Bool.and_assoc, no_spr_write hs hl hu, Bool.false_and]

theorem not_started (hs : s.Inv) (hidle : s.except.state = .idle) :
    s.except.exceptStarted = false := by
  have hflush : s.except.extendFlush = false := by
    simpa [Except.Holds, hidle] using hs.holds
  rw [Except.exceptStarted, hflush, Bool.and_false]

/-- A user program is running and no exception is under way. -/
structure User (s : Privilege) : Prop where
  idle : s.except.state = .idle
  mode : s.srReg.srReg.getLsbD 0 = false
  saved : s.except.esr.getLsbD 0 = false

/-- The status register after a cycle of user mode: ESR after l.rfe, or new in F and CY only. -/
def OnlyFlags (s : Privilege) (i : PrivilegeIn) (sr' : Sr) : Prop :=
  if s.rfe then sr' = s.except.esr else ∀ n, n ≠ 9 → n ≠ 10 → sr'.getLsbD n = (s.sr i).getLsbD n

theorem User.supv (hu : s.User) : s.supv i = false := supv_eq.trans hu.mode

theorem User.onlyFlags (hu : s.User) (hs : s.Inv) (hl : machine.legal s i) (boot : Bool) :
    s.OnlyFlags i ((s.clk i).srReg.sr boot) := by
  have hsel : s.srReg.bitEphSelect = false := by
    by_contra hn
    have := hs.boot (by simpa using hn)
    rw [hu.mode] at this
    cases this
  have hst : (s.srIn i).started = false := not_started hs hu.idle
  rw [OnlyFlags]
  split
  · next hr => exact clk_sr_rfe hsel hst hr
  · next hr =>
    intro n hf hc
    exact clk_sr_flags hst (by simpa [srIn] using hr) (no_sysWe hs hl hu.supv 17) hf hc

/-- STEP: user mode goes on, with the registers of the exception unit as they are. -/
theorem User.clk (hu : s.User) (hs : s.Inv) (hl : machine.legal s i)
    (hr : s.recognised i = none) :
    (s.clk i).User ∧ (s.clk i).except.epcr = s.except.epcr ∧
      (s.clk i).except.eear = s.except.eear ∧ (s.clk i).except.esr = s.except.esr := by
  obtain ⟨hidle, hepcr, heear, hesr⟩ := Except.clk_idle hu.idle hr (no_sysWe hs hl hu.supv 32)
    (no_sysWe hs hl hu.supv 48) (no_sysWe hs hl hu.supv 64)
  refine ⟨⟨hidle, ?_, ?_⟩, hepcr, heear, hesr⟩
  · have hflags := hu.onlyFlags hs hl i.bootAdrSel
    rw [← supv_eq (i := i)]
    rw [OnlyFlags] at hflags
    split at hflags
    · change ((s.clk i).srReg.sr i.bootAdrSel).getLsbD 0 = false
      rw [hflags]
      exact hu.saved
    · exact (hflags 0 (by decide) (by decide)).trans hu.supv
  · rw [show (s.clk i).except.esr = s.except.esr from hesr]
    exact hu.saved

/-! ### Entry into an exception -/

theorem clk_exInsn_of_recognised (h : (s.recognised i).isSome = true) :
    (s.clk i).exInsn = nopFlushed := by
  have hflush : (s.opsIn i).flushpipe = true := by
    change (s.except.recognised (s.exceptIn i)).isSome = true at h
    simp [opsIn, Except.flushpipe, h]
  simp [clk, Operands.exLatch, hflush]

/-- STEP: a bubble in EX does not leave supervisor mode. -/
theorem clk_entered (hs : s.Inv) (hl : machine.legal s i) (hv : isVoid s.exInsn = true)
    (he : Entered (s.sr i)) (boot : Bool) :
    Entered ((s.clk i).srReg.sr boot) := by
  have hrfe : (s.srIn i).rfe = false := by
    simp [srIn, rfe, hs.exBranchOp_of_void hv]
  have hwe : (s.srIn i).sprWe = false := by
    simp [srIn, sysWe, hs.sprWe_of_void hl hv]
  cases hst : (s.srIn i).started with
  | true => exact clk_sr_started hst
  | false =>
    have hkept : ∀ n, n ≠ 9 → n ≠ 10 →
        ((s.clk i).srReg.sr boot).getLsbD n = (s.sr i).getLsbD n := fun n hf hc =>
      clk_sr_flags hst hrfe hwe hf hc
    obtain ⟨h0, h1, h2, h5, h6⟩ := he
    refine ⟨?_, ?_, ?_, ?_, ?_⟩ <;> rw [hkept _ (by decide) (by decide)] <;> assumption

end Privilege

/-! ### Runs -/

section Run
open Privilege

variable (R : Privilege.machine.Run)

theorem privilege_succ (t : ℕ) : R.state (t + 1) = (R.state t).clk (R.input t) := R.next t

variable {R}

/-- RUN: user mode lasts until an exception is recognised. -/
theorem user_run {t₀ t : ℕ} (hu : (R.state t₀).User) (ht : t₀ ≤ t)
    (hno : ∀ u, t₀ ≤ u → u < t → (R.state u).recognised (R.input u) = none) :
    (R.state t).User ∧ (R.state t).except.epcr = (R.state t₀).except.epcr ∧
      (R.state t).except.eear = (R.state t₀).except.eear ∧
      (R.state t).except.esr = (R.state t₀).except.esr := by
  induction t, ht using Nat.le_induction with
  | base => exact ⟨hu, rfl, rfl, rfl⟩
  | succ t ht ih =>
    obtain ⟨hu', hepcr, heear, hesr⟩ := ih fun u h1 h2 => hno u h1 (by omega)
    have hs := inv_of_reachable (R.reachable t)
    obtain ⟨h0, h1, h2, h3⟩ := hu'.clk hs (R.legal t) (hno t ht (by omega))
    rw [privilege_succ]
    exact ⟨h0, h1.trans hepcr, h2.trans heear, h3.trans hesr⟩

/-- RUN: from the second cycle after its recognition, an exception has entered supervisor mode, and
    stays there while EX is empty. -/
theorem entered_run {t n : ℕ} (hr : ((R.state t).recognised (R.input t)).isSome = true)
    (hn : t + 2 ≤ n) (hv : ∀ m, t < m → m < n → isVoid (R.state m).exInsn = true) :
    Entered ((R.state n).sr (R.input n)) := by
  induction n, hn using Nat.le_induction with
  | base =>
    have hst : ((R.state (t + 1)).srIn (R.input (t + 1))).started = true := by
      rw [privilege_succ]
      exact Except.clk_started hr
    rw [show t + 2 = (t + 1) + 1 from rfl, privilege_succ]
    exact clk_sr_started hst
  | succ n hn ih =>
    rw [privilege_succ]
    exact clk_entered (inv_of_reachable (R.reachable n)) (R.legal n) (hv n (by omega) (by omega))
      (ih fun m h1 h2 => hv m h1 (by omega)) _

variable (R)

/-- A user program cannot raise its privilege. From a state in user mode with a user ESR and an idle
    exception unit, until an exception is recognised, the mode stays, ESR, EPCR and EEAR stay, the
    status register changes in F and CY only or is loaded from ESR by l.rfe, and no unit is written
    through the SPR port. A recognised exception empties EX, and before the first instruction is in
    EX again the core is in supervisor mode with interrupts, tick timer and MMUs off. -/
theorem user_confined :
    (∀ t₀ t, (R.state t₀).except.state = .idle → (R.state t₀).supv (R.input t₀) = false →
      (R.state t₀).except.esr.getLsbD 0 = false → t₀ ≤ t →
      (∀ u, t₀ ≤ u → u < t → (R.state u).recognised (R.input u) = none) →
      (R.state t).supv (R.input t) = false ∧
      (R.state t).except.esr = (R.state t₀).except.esr ∧
      (R.state t).except.epcr = (R.state t₀).except.epcr ∧
      (R.state t).except.eear = (R.state t₀).except.eear ∧
      (∀ g, ((R.state t).sprWe (R.input t) && (R.state t).sprCs (R.input t) g) = false) ∧
      (R.state t).OnlyFlags (R.input t) ((R.state (t + 1)).sr (R.input (t + 1)))) ∧
    (∀ t, ((R.state t).recognised (R.input t)).isSome = true →
      isVoid (R.state (t + 1)).exInsn = true ∧
      ∀ n, t + 2 ≤ n → (∀ m, t < m → m < n → isVoid (R.state m).exInsn = true) →
        Entered ((R.state n).sr (R.input n))) := by
  refine ⟨fun t₀ t hidle hmode hsaved ht hno => ?_, fun t hr => ⟨?_, fun n hn hv => ?_⟩⟩
  · obtain ⟨hu, hepcr, heear, hesr⟩ :=
      user_run ⟨hidle, supv_eq.symm.trans hmode, hsaved⟩ ht hno
    have hs := inv_of_reachable (R.reachable t)
    refine ⟨hu.supv, hesr, hepcr, heear, no_spr_write hs (R.legal t) hu.supv, ?_⟩
    rw [privilege_succ]
    exact hu.onlyFlags hs (R.legal t) _
  · rw [privilege_succ, clk_exInsn_of_recognised hr]
    decide
  · exact entered_run hr hn hv

end Run

/-- l.mtspr r0,r0,ESR; l.rfe: the kernel returns to a user program, which tries l.mtspr r0,r0,SR and
    meets an illegal instruction. -/
def returnInput (t : ℕ) : PrivilegeIn where
  core := freeRunning
    (fun t => if t = 0 then 0xc0000040 else if t = 1 then 0x24000000
      else if t = 5 then 0xc0000011 else nopFlushed)
    (fun _ => false) t
  pins :=
    { sigIbuserr := false, sigDbuserr := false, sigIllegal := decide (t = 9), sigAlign := false,
      sigDtlbmiss := false, sigDmmufault := false, sigInt := false, sigSyscall := false,
      sigTrap := false, sigItlbmiss := false, sigImmufault := false, sigTick := false,
      sigFp := false, exBranchTaken := false, icpuAck := true, icpuErr := false,
      genpcFreeze := false, idFreeze := false, exFreeze := false, ifStall := false, ifPc := 0,
      lsuAddr := 0, dat := 0, epcrWe := false, eearWe := false, esrWe := false, srWe := false,
      toSr := 0, sr := 0 }
  flagWe := false
  flagforw := false
  cyWe := false
  cyforw := false
  bootAdrSel := false

def returnRun : Privilege.machine.Run :=
  .ofInput Privilege.reset returnInput rfl fun _ => ⟨rfl, rfl⟩

/-- The user's l.mtspr passes EX in cycle 7 and selects no unit; in cycle 9 an exception is
    recognised, and in cycle 11 the core is in supervisor mode. -/
theorem user_confined_return :
    (returnRun.state 3).supv (returnRun.input 3) = true ∧
    (returnRun.state 7).exInsn = 0xc0000011 ∧
    (returnRun.state 7).supv (returnRun.input 7) = false ∧
    (∀ g, ((returnRun.state 7).sprWe (returnRun.input 7) &&
      (returnRun.state 7).sprCs (returnRun.input 7) g) = false) ∧
    (returnRun.state 7).OnlyFlags (returnRun.input 7)
      ((returnRun.state 8).sr (returnRun.input 8)) ∧
    ((returnRun.state 9).recognised (returnRun.input 9)).isSome = true ∧
    Entered ((returnRun.state 11).sr (returnRun.input 11)) := by
  have hquiet : ∀ u, 4 ≤ u → u < 7 →
      (returnRun.state u).recognised (returnRun.input u) = none := by
    intro u h1 h2
    interval_cases u <;> decide
  obtain ⟨hmode, -, -, -, hspr, hflags⟩ := (user_confined returnRun).1 4 7 (by decide) (by decide)
    (by decide) (by omega) hquiet
  have hrec : ((returnRun.state 9).recognised (returnRun.input 9)).isSome = true := by decide
  have hvoid : ∀ m, 9 < m → m < 11 → isVoid (returnRun.state m).exInsn = true := by
    intro m h1 h2
    obtain rfl : m = 10 := by omega
    decide
  exact ⟨by decide, by decide, hmode, hspr, hflags, hrec,
    ((user_confined returnRun).2 9 hrec).2 11 le_rfl hvoid⟩

end DsdOrsoc.Or1200
