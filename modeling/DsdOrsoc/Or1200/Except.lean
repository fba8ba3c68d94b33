import Mathlib.Tactic

/-! The exception unit `or1200_except`, with the debug unit inactive. An exception is recognised in
    `IDLE` from the highest trigger; the machine then holds the flush of the pipeline while the
    fetch of the handler starts:

        IDLE ──cause──▶ FLU1 ──fetch answered──▶ FLU2 ──▶ FLU3 ──▶ FLU4 ──▶ FLU5 ──▶ IDLE
                        └────────── extend_flush ───────────────────┘
                                                  └─ trap ─▶ IDLE

    `except_started` lets the status register enter supervisor mode while the flush is held. -/

namespace DsdOrsoc.Or1200

/-- The triggers, in the order of their priority. -/
inductive Cause where
  | itlbmiss | ipf | ibuserr | illegal | align | dtlbmiss | trap | syscall | dpf | dbuserr | range
  | float | int | tick
  deriving DecidableEq

/-- `OR1200_EXCEPT_*`. -/
inductive ExceptType where
  | none | buserr | dpf | ipf | tick | align | illegal | int | dtlbmiss | itlbmiss | range | syscall
  | float | trap
  deriving DecidableEq

/-- `except_type` of a cause. -/
def Cause.exceptType : Cause → ExceptType
  | .itlbmiss => .itlbmiss
  | .ipf => .ipf
  | .ibuserr => .buserr
  | .illegal => .illegal
  | .align => .align
  | .dtlbmiss => .dtlbmiss
  | .trap => .trap
  | .syscall => .syscall
  | .dpf => .dpf
  | .dbuserr => .buserr
  | .range => .range
  | .float => .float
  | .int => .int
  | .tick => .tick

/-- The exceptions that abort the instruction in EX. -/
def Cause.aborts : Cause → Bool
  | .illegal | .align | .dtlbmiss | .dpf | .dbuserr => true
  | _ => false

/-- The exceptions of a failed fetch. -/
def Cause.fetches : Cause → Bool
  | .itlbmiss | .ipf | .ibuserr => true
  | _ => false

theorem Cause.exceptType_ne_none (c : Cause) : c.exceptType ≠ .none := by
  cases c <;> decide

/-- `OR1200_EXCEPTFSM_*`. -/
inductive ExceptState where | idle | flu1 | flu2 | flu3 | flu4 | flu5
  deriving DecidableEq

/-- The exception flags of a fetched instruction: bus error, TLB miss, page fault. -/
structure FetchFlags where
  ibuserr : Bool
  itlbmiss : Bool
  immufault : Bool

def FetchFlags.clear : FetchFlags := ⟨false, false, false⟩

/-- The fetch has failed. -/
def FetchFlags.failed (f : FetchFlags) : Bool := f.ibuserr || f.itlbmiss || f.immufault

/-- The registers of the unit; `esr` is 17 bits wide like the status register. -/
structure Except where
  state : ExceptState
  exceptType : ExceptType
  extendFlush : Bool
  epcr : BitVec 32
  eear : BitVec 32
  esr : BitVec 17
  idPc : BitVec 32
  idPcVal : Bool
  idExceptflags : FetchFlags
  exPc : BitVec 32
  exPcVal : Bool
  exExceptflags : FetchFlags
  exDslot : Bool
  delayed1ExDslot : Bool
  delayed2ExDslot : Bool
  wbPc : BitVec 32
  dlPc : BitVec 32
  delayedIee : BitVec 3
  delayedTee : BitVec 3

/-- The input pins. `sigFp` stands for `sig_fp & fpcsr_fpee`; `sig_range` is tied to zero. -/
structure ExceptIn where
  sigIbuserr : Bool
  sigDbuserr : Bool
  sigIllegal : Bool
  sigAlign : Bool
  sigDtlbmiss : Bool
  sigDmmufault : Bool
  sigInt : Bool
  sigSyscall : Bool
  sigTrap : Bool
  sigItlbmiss : Bool
  sigImmufault : Bool
  sigTick : Bool
  sigFp : Bool
  exBranchTaken : Bool
  icpuAck : Bool
  icpuErr : Bool
  genpcFreeze : Bool
  idFreeze : Bool
  exFreeze : Bool
  ifStall : Bool
  ifPc : BitVec 32
  lsuAddr : BitVec 32
  dat : BitVec 32
  epcrWe : Bool
  eearWe : Bool
  esrWe : Bool
  srWe : Bool
  toSr : BitVec 17
  sr : BitVec 17

/-- `abort_ex`. -/
def ExceptIn.abortEx (i : ExceptIn) : Bool :=
  i.sigDbuserr || i.sigDmmufault || i.sigDtlbmiss || i.sigAlign || i.sigIllegal

namespace Except

variable (s : Except) (i : ExceptIn)

/-- `except_start`, which is also `except_started`. -/
def exceptStarted : Bool := decide (s.exceptType ≠ .none) && s.extendFlush

/-- `int_pending` and `tick_pending`: bit `n` of the status register enables, also in the cycle in
    which it is written, and disables in the cycle in which it is cleared. -/
def pending (sig : Bool) (n : ℕ) (delayed : BitVec 3) : Bool :=
  sig && (i.sr.getLsbD n || (i.srWe && i.toSr.getLsbD n)) && s.idPcVal && delayed.getLsbD 2 &&
    !i.exFreeze && !i.exBranchTaken && !s.exDslot && !(i.srWe && !i.toSr.getLsbD n)

def intPending : Bool := s.pending i i.sigInt 2 s.delayedIee

def tickPending : Bool := s.pending i i.sigTick 1 s.delayedTee

def fpPending : Bool := i.sigFp && !i.exFreeze && !i.exBranchTaken && !s.exDslot

/-- `except_trig`, as the trigger of the highest priority. -/
def exceptTrig : Option Cause :=
  if s.exExceptflags.itlbmiss then some .itlbmiss
  else if s.exExceptflags.immufault then some .ipf
  else if s.exExceptflags.ibuserr then some .ibuserr
  else if i.sigIllegal then some .illegal
  else if i.sigAlign then some .align
  else if i.sigDtlbmiss then some .dtlbmiss
  else if i.sigTrap then some .trap
  else if i.sigSyscall && !i.exFreeze then some .syscall
  else if i.sigDmmufault then some .dpf
  else if i.sigDbuserr then some .dbuserr
  else if s.fpPending i then some .float
  else if s.intPending i then some .int
  else if s.tickPending i then some .tick
  else none

/-- The exception that is recognised in this cycle: `except_flushpipe` with its cause. -/
def recognised : Option Cause := if s.state = .idle then s.exceptTrig i else none

/-- The restart address of a cause. -/
def restart : Cause → BitVec 32
  | .itlbmiss | .ibuserr | .illegal | .align => if s.exDslot then s.wbPc else s.exPc
  | .ipf | .syscall | .range => if s.exDslot then s.wbPc else s.idPc
  | .dtlbmiss | .dpf | .dbuserr =>
    if s.exDslot then s.wbPc else if s.delayed1ExDslot then s.dlPc else s.exPc
  | .trap => if s.exDslot then s.wbPc else if s.delayed1ExDslot then s.idPc else s.exPc
  | .float | .int | .tick => s.idPc

/-- The effective address of a cause; some leave the register alone. -/
def effective : Cause → BitVec 32
  | .itlbmiss | .illegal => s.exPc
  | .ipf => if s.exDslot then s.exPc else s.idPc
  | .ibuserr => if s.exDslot then s.wbPc else s.exPc
  | .align | .dtlbmiss | .dpf | .dbuserr => i.lsuAddr
  | .trap | .syscall | .range | .float | .int | .tick => s.eear

/-- The machine and its three registers. -/
def clkFsm : Except :=
  match s.state with
  | .idle =>
    match s.recognised i with
    | some c =>
      { s with
        state := .flu1, extendFlush := true, exceptType := c.exceptType
        esr := if i.srWe then i.toSr else i.sr
        epcr := s.restart c, eear := s.effective i c }
    | none =>
      { s with
        epcr := if i.epcrWe then i.dat else s.epcr
        eear := if i.eearWe then i.dat else s.eear
        esr := if i.esrWe then i.dat.setWidth 17 ||| 0x8000 else s.esr }
  | .flu1 => if i.icpuAck || i.icpuErr || i.genpcFreeze then { s with state := .flu2 } else s
  | .flu2 =>
    if s.exceptType = .trap then
      { s with state := .idle, extendFlush := false, exceptType := .none }
    else { s with state := .flu3 }
  | .flu3 => { s with state := .flu4 }
  | .flu4 => { s with state := .flu5, extendFlush := false }
  | .flu5 =>
    if !i.ifStall && !i.idFreeze then { s with state := .idle, exceptType := .none } else s

/-- `except_flushpipe | extend_flush`: the flush of all stages. -/
def flushpipe : Bool := (s.recognised i).isSome || s.extendFlush

/-- One rising edge of the clock. -/
def clk : Except :=
  { s.clkFsm i with
    idPc := if s.flushpipe i || i.idFreeze then s.idPc else i.ifPc
    idPcVal := if s.flushpipe i then false else if i.idFreeze then s.idPcVal else true
    idExceptflags :=
      if s.flushpipe i then .clear
      else if i.idFreeze then s.idExceptflags
      else ⟨i.sigIbuserr, i.sigItlbmiss, i.sigImmufault⟩
    exPc := if s.flushpipe i || i.exFreeze then s.exPc else s.idPc
    exPcVal := if s.flushpipe i then false else if i.exFreeze then s.exPcVal else s.idPcVal
    exExceptflags :=
      if s.flushpipe i || (!i.exFreeze && i.idFreeze) then .clear
      else if i.exFreeze then s.exExceptflags else s.idExceptflags
    exDslot :=
      if s.flushpipe i || (!i.exFreeze && i.idFreeze) then false
      else if i.exFreeze then s.exDslot else i.exBranchTaken
    delayed1ExDslot :=
      if s.flushpipe i then false else if i.exFreeze then s.delayed1ExDslot else s.exDslot
    delayed2ExDslot :=
      if s.flushpipe i then false else if i.exFreeze then s.delayed2ExDslot else s.delayed1ExDslot
    wbPc := if i.exFreeze then s.wbPc else s.exPc
    dlPc := if i.exFreeze then s.dlPc else s.wbPc
    delayedIee := if i.sr.getLsbD 2 then s.delayedIee.extractLsb' 0 2 ++ 1#1 else 0
    delayedTee := if i.sr.getLsbD 1 then s.delayedTee.extractLsb' 0 2 ++ 1#1 else 0 }

/-! ### The flush -/

/-- INVARIANT: the flush is held in the four middle states. -/
def Holds (s : Except) : Prop := s.extendFlush = decide (s.state ≠ .idle ∧ s.state ≠ .flu5)

variable {s i}

theorem Holds.clk (h : s.Holds) : (s.clk i).Holds := by
  have hc : (s.clk i).extendFlush = (s.clkFsm i).extendFlush ∧
      (s.clk i).state = (s.clkFsm i).state := ⟨rfl, rfl⟩
  rw [Holds, hc.1, hc.2]
  rw [Holds] at h
  cases hst : s.state with
  | idle => cases hr : s.recognised i <;> simp [clkFsm, hst, hr, h]
  | flu1 => simp only [clkFsm, hst]; split <;> simp [h, hst]
  | flu2 => simp only [clkFsm, hst]; split <;> simp [h, hst]
  | flu3 => simp [clkFsm, hst, h]
  | flu4 => simp [clkFsm, hst]
  | flu5 => simp only [clkFsm, hst]; split <;> simp [h, hst]

/-- The transitions of the machine over one edge. -/
inductive Transition (s : Except) (i : ExceptIn) (s' : Except) : Prop
  | recognise (c : Cause) (hr : s.recognised i = some c) (old : s.state = .idle)
      (new : s'.state = .flu1) (ty : s'.exceptType = c.exceptType)
  | rest (hr : s.recognised i = none) (old : s.state = .idle) (new : s'.state = .idle)
  | drain (ha : (i.icpuAck || i.icpuErr || i.genpcFreeze) = false) (old : s.state = .flu1)
      (new : s'.state = .flu1) (ty : s'.exceptType = s.exceptType)
  | drained (ha : (i.icpuAck || i.icpuErr || i.genpcFreeze) = true) (old : s.state = .flu1)
      (new : s'.state = .flu2) (ty : s'.exceptType = s.exceptType)
  | trap (old : s.state = .flu2) (new : s'.state = .idle)
  | third (old : s.state = .flu2) (new : s'.state = .flu3) (ty : s'.exceptType = s.exceptType)
  | fourth (old : s.state = .flu3) (new : s'.state = .flu4) (ty : s'.exceptType = s.exceptType)
  | fifth (old : s.state = .flu4) (new : s'.state = .flu5)
  | wait (hf : i.ifStall = true ∨ i.idFreeze = true) (old : s.state = .flu5)
      (new : s'.state = .flu5)
  | done (hf : i.ifStall = false ∧ i.idFreeze = false) (old : s.state = .flu5)
      (new : s'.state = .idle)

theorem clk_transition : s.Transition i (s.clk i) := by
  have hc : (s.clk i).exceptType = (s.clkFsm i).exceptType ∧
      (s.clk i).state = (s.clkFsm i).state := ⟨rfl, rfl⟩
  cases hst : s.state with
  | idle =>
    cases hr : s.recognised i with
    | none => exact .rest hr hst (by simp [hc.2, clkFsm, hst, hr])
    | some c =>
      exact .recognise c hr hst (by simp [hc.2, clkFsm, hst, hr]) (by simp [hc.1, clkFsm, hst, hr])
  | flu1 =>
    cases ha : i.icpuAck || i.icpuErr || i.genpcFreeze with
    | false =>
      exact .drain ha hst (by simp [hc.2, clkFsm, hst, ha]) (by simp [hc.1, clkFsm, hst, ha])
    | true =>
      exact .drained ha hst (by simp [hc.2, clkFsm, hst, ha]) (by simp [hc.1, clkFsm, hst, ha])
  | flu2 =>
    by_cases ht : s.exceptType = .trap
    · exact .trap hst (by simp [hc.2, clkFsm, hst, ht])
    · exact .third hst (by simp [hc.2, clkFsm, hst, ht]) (by simp [hc.1, clkFsm, hst, ht])
  | flu3 => exact .fourth hst (by simp [hc.2, clkFsm, hst]) (by simp [hc.1, clkFsm, hst])
  | flu4 => exact .fifth hst (by simp [hc.2, clkFsm, hst])
  | flu5 =>
    cases hf : !i.ifStall && !i.idFreeze with
    | false =>
      refine .wait ?_ hst (by simp [hc.2, clkFsm, hst, hf])
      cases hs : i.ifStall <;> simp_all
    | true => exact .done (by simpa using hf) hst (by simp [hc.2, clkFsm, hst, hf])

/-- A flush that is held has been on in the cycle before. -/
theorem Holds.flushpipe_of_clk (h : s.Holds) (he : (s.clk i).extendFlush = true) :
    s.flushpipe i = true := by
  rw [h.clk, decide_eq_true_eq] at he
  rw [Except.flushpipe, h]
  cases clk_transition (s := s) (i := i) with
  | recognise c hr => simp [hr]
  | rest _ _ new => exact absurd new he.1
  | drain _ old => simp [old]
  | drained _ old => simp [old]
  | trap _ new => exact absurd new he.1
  | third old => simp [old]
  | fourth old => simp [old]
  | fifth old => simp [old]
  | wait _ _ new => exact absurd new he.2
  | done _ _ new => exact absurd new he.1

/-- The first entry of a list that is set. -/
def firstOf {α : Type} : List (Bool × α) → Option α
  | [] => none
  | (b, a) :: l => if b then some a else firstOf l

theorem mem_of_firstOf {α : Type} {l : List (Bool × α)} {a : α} (h : firstOf l = some a) :
    (true, a) ∈ l := by
  induction l with
  | nil => cases h
  | cons p l ih =>
    obtain ⟨b, a'⟩ := p
    cases b with
    | true => cases h; exact .head _
    | false => exact .tail _ (ih h)

theorem isSome_firstOf {α : Type} {l : List (Bool × α)} {a : α} (h : (true, a) ∈ l) :
    (firstOf l).isSome = true := by
  induction l with
  | nil => cases h
  | cons p l ih =>
    obtain ⟨b, a'⟩ := p
    cases b with
    | true => rfl
    | false =>
      cases h with
      | tail _ h => exact ih h

variable (s i) in
/-- The lines of `except_trig` with their causes. -/
def triggers : List (Bool × Cause) :=
  [(s.exExceptflags.itlbmiss, .itlbmiss), (s.exExceptflags.immufault, .ipf),
    (s.exExceptflags.ibuserr, .ibuserr), (i.sigIllegal, .illegal), (i.sigAlign, .align),
    (i.sigDtlbmiss, .dtlbmiss), (i.sigTrap, .trap), (i.sigSyscall && !i.exFreeze, .syscall),
    (i.sigDmmufault, .dpf), (i.sigDbuserr, .dbuserr), (s.fpPending i, .float),
    (s.intPending i, .int), (s.tickPending i, .tick)]

theorem exceptTrig_eq : s.exceptTrig i = firstOf (s.triggers i) := rfl

/-- A line that is set is recognised, or another one is. -/
theorem recognised_of_trigger {c : Cause} (hst : s.state = .idle) (h : (true, c) ∈ s.triggers i) :
    (s.recognised i).isSome = true := by
  rw [recognised, if_pos hst, exceptTrig_eq]
  exact isSome_firstOf h

theorem recognised_of_failed (hst : s.state = .idle) (h : s.exExceptflags.failed = true) :
    (s.recognised i).isSome = true := by
  simp only [FetchFlags.failed, Bool.or_eq_true] at h
  rcases h with (h | h) | h
  · exact recognised_of_trigger (c := .ibuserr) hst (by simp [triggers, h])
  · exact recognised_of_trigger (c := .itlbmiss) hst (by simp [triggers, h])
  · exact recognised_of_trigger (c := .ipf) hst (by simp [triggers, h])

theorem recognised_of_abort (hst : s.state = .idle) (h : i.abortEx = true) :
    (s.recognised i).isSome = true := by
  simp only [ExceptIn.abortEx, Bool.or_eq_true] at h
  rcases h with (((h | h) | h) | h) | h
  · exact recognised_of_trigger (c := .dbuserr) hst (by simp [triggers, h])
  · exact recognised_of_trigger (c := .dpf) hst (by simp [triggers, h])
  · exact recognised_of_trigger (c := .dtlbmiss) hst (by simp [triggers, h])
  · exact recognised_of_trigger (c := .align) hst (by simp [triggers, h])
  · exact recognised_of_trigger (c := .illegal) hst (by simp [triggers, h])

/-- A cause is recognised from its own line. -/
theorem trigger_of_recognised {c : Cause} (h : s.recognised i = some c) :
    (true, c) ∈ s.triggers i := by
  rw [recognised] at h
  split_ifs at h
  exact mem_of_firstOf (exceptTrig_eq.symm.trans h)

theorem abort_of_recognised {c : Cause} (h : s.recognised i = some c) (hc : c.aborts = true) :
    i.abortEx = true := by
  have ht := trigger_of_recognised h
  cases c <;> simp [triggers, Cause.aborts, ExceptIn.abortEx] at ht hc ⊢ <;> simp [← ht]

theorem failed_of_recognised {c : Cause} (h : s.recognised i = some c) (hc : c.fetches = true) :
    s.exExceptflags.failed = true := by
  have ht := trigger_of_recognised h
  cases c <;> simp [triggers, Cause.fetches, FetchFlags.failed] at ht hc ⊢ <;> simp [← ht]

theorem immufault_of_recognised (h : s.recognised i = some .ipf) :
    s.exExceptflags.immufault = true := by
  simpa [triggers] using (trigger_of_recognised h)

/-! ### The restart address -/

theorem restart_of_dslot {c : Cause} (hc : c.aborts = true ∨ c.fetches = true)
    (hd : s.exDslot = true) : s.restart c = s.wbPc := by
  cases c <;> simp [Cause.aborts, Cause.fetches] at hc <;> simp [restart, hd]

theorem restart_of_delayed {c : Cause} (hc : c = .dtlbmiss ∨ c = .dpf ∨ c = .dbuserr)
    (hd : s.exDslot = false) (hd1 : s.delayed1ExDslot = true) : s.restart c = s.dlPc := by
  rcases hc with rfl | rfl | rfl <;> simp [restart, hd, hd1]

theorem restart_of_plain {c : Cause} (hc : c.aborts = true) (hd : s.exDslot = false)
    (hd1 : c = .illegal ∨ c = .align ∨ s.delayed1ExDslot = false) : s.restart c = s.exPc := by
  cases c <;> simp [Cause.aborts] at hc <;> simp_all [restart]

theorem state_of_recognised {c : Cause} (h : s.recognised i = some c) : s.state = .idle := by
  by_contra hn
  simp [recognised, hn] at h

/-- A recognised exception loads the registers. -/
theorem clk_recognised {c : Cause} (h : s.recognised i = some c) :
    (s.clk i).state = .flu1 ∧ (s.clk i).exceptType = c.exceptType ∧
      (s.clk i).epcr = s.restart c ∧ (s.clk i).esr = if i.srWe then i.toSr else i.sr := by
  simp [clk, clkFsm, state_of_recognised h, h]

/-- The cycle after an exception is recognised starts its entry. -/
theorem clk_started (h : (s.recognised i).isSome = true) : (s.clk i).exceptStarted = true := by
  obtain ⟨c, hc⟩ := Option.isSome_iff_exists.1 h
  have hext : (s.clk i).extendFlush = true := by
    simp [clk, clkFsm, state_of_recognised hc, hc]
  simp [exceptStarted, hext, (clk_recognised hc).2.1, c.exceptType_ne_none]

/-- Without an exception and without a write the saved registers stay. -/
theorem clk_kept (hr : s.recognised i = none) (he : i.epcrWe = false) (hes : i.esrWe = false) :
    (s.clk i).epcr = s.epcr ∧ (s.clk i).esr = s.esr := by
  have hc : (s.clk i).epcr = (s.clkFsm i).epcr ∧ (s.clk i).esr = (s.clkFsm i).esr := ⟨rfl, rfl⟩
  rw [hc.1, hc.2]
  cases hst : s.state with
  | idle => simp [clkFsm, hst, hr, he, hes]
  | flu1 => simp only [clkFsm, hst]; split <;> exact ⟨rfl, rfl⟩
  | flu2 => simp only [clkFsm, hst]; split <;> exact ⟨rfl, rfl⟩
  | flu3 => simp [clkFsm, hst]
  | flu4 => simp [clkFsm, hst]
  | flu5 => simp only [clkFsm, hst]; split <;> exact ⟨rfl, rfl⟩

/-- Without an exception an idle unit stays idle and takes writes only. -/
theorem clk_idle (hst : s.state = .idle) (hr : s.recognised i = none) (he : i.epcrWe = false)
    (hea : i.eearWe = false) (hes : i.esrWe = false) :
    (s.clk i).state = .idle ∧ (s.clk i).epcr = s.epcr ∧ (s.clk i).eear = s.eear ∧
      (s.clk i).esr = s.esr := by
  simp [clk, clkFsm, hst, hr, he, hea, hes]

end Except

end DsdOrsoc.Or1200
