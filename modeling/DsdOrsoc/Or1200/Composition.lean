import DsdOrsoc.Or1200.Processor
import DsdOrsoc.Or1200.ZeroRegister

/-! Runs of the core. Each part of the core has its own results about runs. A run of the core is a
    run of the pipeline, of the operand logic and of the load/store unit with its memory; and, if
    the flag is taken over when the pipeline moves, one of the front end. What the parts have been
    shown to do is read off here for the core: the operands that EX is loaded with, and the value
    that the multiply unit has when a multiplication or division leaves. -/

namespace DsdOrsoc.Or1200
open Schemes Lanes Isa

/-! ### The words in the pipeline -/

/-- A bubble or an instruction that does not write r0. -/
def Plain (w : Insn) : Prop := isVoid w = true ∨ ∃ op, decode w = some op ∧ op.dest ≠ some 0

section Plain

variable {w : Insn} {op : Operation}

/-- An instruction is no bubble. -/
theorem not_void_of_decode (h : decode w = some op) : isVoid w = false := by
  by_contra hv
  rw [Bool.not_eq_false] at hv
  obtain ⟨fmt, hfmt, hop⟩ := Option.bind_eq_some_iff.1 h
  rw [opcode_of_isVoid hv] at hfmt
  obtain rfl : Format.nop = fmt := Option.some.inj hfmt
  rw [Format.operation] at hop
  split_ifs at hop with hk
  have h0 : w.getLsbD 16 = false := by
    have hbit : (w.extractLsb' 16 10).getLsbD 0 = false := by rw [hk]; rfl
    simpa using hbit
  rw [isVoid, h0, Bool.and_false] at hv
  cases hv

theorem Plain.spr (h : Plain w) : opcode w ≠ 0b110000 ∧ opcode w ≠ 0b101101 := by
  rcases h with h | ⟨op, h, -⟩
  · rw [opcode_of_isVoid h]
    decide
  · exact (controls h).spr

theorem Plain.mac (h : Plain w) : macOp w = macopNop ∧ isMacrc w = false := by
  rcases h with h | ⟨op, h, -⟩
  · simp [macOp, isMacrc, opcode_of_isVoid h]
  · exact (controls h).mac

theorem dest_of_rfwb (h : op.rfwb.we = true) : ∃ d, op.dest = some d := by
  cases op
  case jump link | jumpReg link => cases link <;> simp_all [RfwbOp.we, Operation.dest]
  all_goals simp_all [RfwbOp.we, Operation.dest]

/-- Only registers other than r0 are written. -/
theorem Plain.addrw (h : Plain w) (hwe : (rfwbOp w).we = true) : rfAddrw w ≠ 0 := by
  rcases h with h | ⟨op, h, h0⟩
  · simp [rfwbOp, RfwbOp.we, opcode_of_isVoid h] at hwe
  · rw [(controls h).rfwb] at hwe
    obtain ⟨d, hd⟩ := dest_of_rfwb hwe
    rw [(controls h).dest d hd]
    rintro rfl
    exact h0 hd

theorem Plain.branchOp (h : Plain w) : branchOp w ≠ .rfe := by
  rcases h with h | ⟨op, h, -⟩
  · rw [branchOp_of_isVoid h]
    decide
  · rw [(controls h).branch]
    cases op
    case branch ofs on => cases on <;> simp
    all_goals simp

theorem lsuOp_of_not_isLsu (h : isLsu w = false) : lsuOp w = .nop := by
  by_contra hne
  rw [isLsu_iff.2 hne] at h
  cases h

/-- A compare is no branch. -/
theorem branchOp_of_compare (h : aluOp w = 13) : Or1200.branchOp w = .nop := by
  by_contra hb
  rw [aluOp_of_branch hb] at h
  exact absurd h (by decide)

end Plain

theorem Isa.Program.plain {imem : Word → Insn} (hp : Isa.Program imem) {w : Insn}
    (h : FromMem imem w) : Plain w := by
  rcases h with h | ⟨a, rfl⟩
  · exact .inl h
  · exact .inr (hp.decodes a)

/-- The front end accepts the programs of the instruction set. -/
theorem Isa.Program.program {imem : Word → Insn} (hp : Isa.Program imem) : Or1200.Program imem where
  noRfe a := (hp.plain (.inr ⟨a, rfl⟩)).branchOp
  slots := hp.slots
  noVoid a := (hp.decodes a).elim fun _ h => not_void_of_decode h.1

/-! ### Runs of the parts -/

namespace Processor

variable {imem : Word → Insn} {m : BitVec 30 → BitVec 32} (R : (machine imem m).Run)

theorem run_zero : R.state 0 = reset m := R.start

theorem run_succ (t : ℕ) : R.state (t + 1) = (R.state t).clk imem (R.input t) := R.next t

theorem joined_run (t : ℕ) : Joined (R.state t) := by
  induction t with
  | zero =>
    rw [run_zero]
    exact ⟨rfl, rfl, rfl, (by decide : (0 : Word) = (0 : BitVec 32).extractLsb' 2 30)⟩
  | succ t ih =>
    rw [run_succ]
    exact ih.clk

theorem carried_run (t : ℕ) : (R.state t).fe.Carried imem := by
  induction t with
  | zero =>
    rw [run_zero]
    exact Frontend.carried_reset
  | succ t ih =>
    have h := ih.clk (i := (R.state t).frontendIn (R.input t))
    rw [run_succ]
    exact ⟨h.saved, h.id, h.ex, h.idOp, h.exOp⟩

theorem idInsn_fromMem (t : ℕ) : FromMem imem (R.state t).pl.ops.idInsn :=
  (joined_run R t).idInsn ▸ (carried_run R t).id

theorem exInsn_fromMem (t : ℕ) : FromMem imem (R.state t).pl.exInsn :=
  (joined_run R t).exInsn ▸ (carried_run R t).ex

theorem pipelineRun_start : Pipeline.machine.start (R.state 0).pl := by
  rw [run_zero]
  rfl

theorem pipelineRun_next (t : ℕ) : (R.state (t + 1)).pl =
    (R.state t).pl.clk ((R.state t).pipelineIn imem (R.input t)) := by
  rw [run_succ]
  rfl

/-- The run of ID and EX. -/
def pipelineRun : Pipeline.machine.Run where
  state t := (R.state t).pl
  input t := (R.state t).pipelineIn imem (R.input t)
  start := pipelineRun_start R
  legal _ := trivial
  next := pipelineRun_next R

theorem decoded (t : ℕ) : (R.state t).pl.Decoded := decoded_run (pipelineRun R) t

/-! ### The front end -/

/-- The flag that the front end has taken over when the pipeline moved last. -/
def heldFlag : ℕ → Bool
  | 0 => false
  | t + 1 => if (R.state t).freeze imem (R.input t) then heldFlag t else (R.state (t + 1)).fe.flag

/-- Only a compare that is held in EX makes a difference. -/
theorem heldFlag_eq (t : ℕ) :
    heldFlag R t = (R.state t).fe.flag ∨ (R.state t).pl.aluOp = 13 := by
  induction t with
  | zero =>
    rw [run_zero]
    exact .inl rfl
  | succ t ih =>
    rw [heldFlag]
    split
    · next hf =>
      have halu : (R.state (t + 1)).pl.aluOp = (R.state t).pl.aluOp := by
        rw [pipelineRun_next]
        exact (Pipeline.exLatch_opsIn _ _ _).trans (if_pos hf)
      rw [halu]
      refine or_iff_not_imp_right.2 fun h13 => ?_
      rw [run_succ, clk_flag h13]
      exact ih.resolve_right h13
    · exact .inl rfl

theorem exBranchOp_of_compare {t : ℕ} (h : (R.state t).pl.aluOp = 13) :
    (R.state t).fe.exBranchOp = .nop := by
  rw [(carried_run R t).exOp, (joined_run R t).exInsn]
  exact branchOp_of_compare ((decoded R t).aluOp ▸ h)

/-- The state of the front end with the flag that it has taken over. -/
def frontend (t : ℕ) : Frontend := { (R.state t).fe with flag := heldFlag R t }

def frontendInput (t : ℕ) : FrontendIn :=
  { (R.state t).frontendIn (R.input t) with
    flagD := (R.state (t + 1)).fe.flag
    operandBD := (R.state (t + 1)).fe.operandB }

theorem frontend_start : (Frontend.machine imem).start (frontend R 0) := by
  rw [frontend, run_zero]
  rfl

theorem frontend_legal (t : ℕ) :
    (Frontend.machine imem).legal (frontend R t) (frontendInput R t) := by
  obtain ⟨hi, hd⟩ := R.legal t
  refine ⟨hi, fun hack => ?_⟩
  have hcyc := hd hack
  change isLsu (R.state t).fe.exInsn = true
  rw [(joined_run R t).exInsn, isLsu_iff, ← (decoded R t).lsuOp]
  intro hnop
  simp [Lsu.dcpuCycstb, hnop] at hcyc

theorem frontend_next (t : ℕ) :
    frontend R (t + 1) = (frontend R t).clk imem (frontendInput R t) := by
  have hf : (R.state t).fe.freeze ((R.state t).frontendIn (R.input t)) =
      (R.state t).freeze imem (R.input t) := (joined_run R t).freeze
  have hb : (if (R.state t).freeze imem (R.input t) then (R.state t).fe.operandB
      else (R.state (t + 1)).fe.operandB) = (R.state (t + 1)).fe.operandB := by
    split
    · next hfz =>
      rw [(joined_run R t).operandB, (joined_run R (t + 1)).operandB, pipelineRun_next,
        (Pipeline.clk_operands hfz).2]
    · rfl
  rw [frontend, frontend, frontendInput, Frontend.clk_flag_irrelevant, hf, hb, heldFlag]
  · rw [run_succ]
    rfl
  · exact (heldFlag_eq R t).imp_right (exBranchOp_of_compare R)

/-- The run of the front end. -/
def frontendRun : (Frontend.machine imem).Run where
  state := frontend R
  input := frontendInput R
  start := frontend_start R
  legal := frontend_legal R
  next := frontend_next R

/-! ### Operands, loads and stores -/

variable {R}

section Words

variable (hp : Isa.Program imem)
include hp

theorem idInsn_plain (t : ℕ) : Plain (R.state t).pl.ops.idInsn := hp.plain (idInsn_fromMem R t)

theorem exInsn_plain (t : ℕ) : Plain (R.state t).pl.exInsn := hp.plain (exInsn_fromMem R t)

/-- There is no access to the special-purpose registers. -/
theorem sprRead_run (t : ℕ) : (R.state t).pl.ops.sprRead = false := by
  induction t with
  | zero =>
    rw [run_zero]
    rfl
  | succ t ih =>
    have hid := decide_eq_false (idInsn_plain hp (R := R) t).spr.2
    rw [pipelineRun_next]
    refine (Pipeline.exLatch_opsIn _ _ _).trans ?_
    rw [ih, hid, ite_self]

theorem sprWrite_run (t : ℕ) : (R.state t).pl.ops.sprWrite = false := by
  rw [(decoded R t).sprWrite]
  exact decide_eq_false (exInsn_plain hp t).spr.1

theorem sprValid_run (t : ℕ) :
    (R.state t).pl.ops.sprValid ((R.state t).pl.opsIn ((R.state t).pipelineIn imem (R.input t))) =
      false := by
  have hr := sprRead_run hp (R := R) t
  have hw := sprWrite_run hp (R := R) t
  simp [Operands.sprValid, Operands.sprCs, Pipeline.opsIn, hr, hw]

theorem operands_legal (t : ℕ) : Operands.machine.legal (R.state t).pl.ops
    ((R.state t).pl.opsIn ((R.state t).pipelineIn imem (R.input t))) := by
  change (_ && _) = false
  rw [sprValid_run hp, Bool.false_and]

theorem operands_harmless (t : ℕ) : (R.state t).pl.ops.ReadHarmless
    ((R.state t).pl.opsIn ((R.state t).pipelineIn imem (R.input t))) := by
  intro h
  rw [sprValid_run hp, Bool.false_and] at h
  cases h

omit hp in
theorem operands_start : Operands.machine.start (R.state 0).pl.ops := by
  rw [run_zero]
  rfl

omit hp in
theorem operands_next (t : ℕ) : (R.state (t + 1)).pl.ops = Operands.machine.step (R.state t).pl.ops
    ((R.state t).pl.opsIn ((R.state t).pipelineIn imem (R.input t))) := by
  rw [pipelineRun_next]
  rfl

variable (R) in
/-- The run of the operand logic. -/
def operandsRun : Operands.machine.Run where
  state t := (R.state t).pl.ops
  input t := (R.state t).pl.opsIn ((R.state t).pipelineIn imem (R.input t))
  start := operands_start
  legal := operands_legal hp
  next := operands_next

theorem forwards (t : ℕ) :
    Operands.Forwards (R.state t).pl.ops (gprs (operandsRun R hp) t) :=
  forwards_run (R := operandsRun R hp) (operands_harmless hp) t

omit hp in
theorem lsuOp_ne (w : Insn) : lsuOp w ≠ .ld ∧ lsuOp w ≠ .sd := by
  unfold lsuOp
  generalize opcode w = op
  revert op
  decide

variable (R) in
/-- The pins of the load/store unit. -/
def lsuMemInput (t : ℕ) : LsuMemIn where
  idLsuOp := lsuOp (R.state t).pl.ops.idInsn
  idAddrbase := (R.state t).pl.ops.muxedA
    ((R.state t).pl.opsIn ((R.state t).pipelineIn imem (R.input t)))
  idAddrofs := simm (R.state t).pl.ops.idInsn
  idData := (R.state t).pl.ops.muxedB
    ((R.state t).pl.opsIn ((R.state t).pipelineIn imem (R.input t)))
  core := (R.state t).pl.opsIn ((R.state t).pipelineIn imem (R.input t))
  duStall := false
  ack := (R.input t).dcpuAck

omit hp in
theorem lsuMem_start : LsuMem.machine.start (R.state 0).lsuMem := by
  rw [run_zero]
  rfl

omit hp in
theorem lsuMem_legal (t : ℕ) :
    LsuMem.machine.legal (R.state t).lsuMem (lsuMemInput R t) :=
  ⟨(lsuOp_ne _).1, (lsuOp_ne _).2, (R.legal t).2⟩

/-- The operand registers load the multiplexed operands. -/
theorem operands_clk (t : ℕ) :
    (R.state (t + 1)).pl.ops.operandA =
        (if (R.state t).freeze imem (R.input t) then (R.state t).pl.ops.operandA
          else (lsuMemInput R t).idAddrbase) ∧
      (R.state (t + 1)).pl.ops.operandB =
        (if (R.state t).freeze imem (R.input t) then (R.state t).pl.ops.operandB
          else (lsuMemInput R t).idData) := by
  obtain ⟨hA, hB⟩ := (forwards hp (R := R) t).saved
  rw [operands_next]
  constructor
  · change (Operands.operandLatch _ _ _ _).1 = _
    rw [hA, Operands.operandLatch_unsaved, Pipeline.opsIn_exFreeze]
    rfl
  · change (Operands.operandLatch _ _ _ _).1 = _
    rw [hB, Operands.operandLatch_unsaved, Pipeline.opsIn_exFreeze]
    rfl

theorem lsuMem_next (t : ℕ) :
    (R.state (t + 1)).lsuMem = (R.state t).lsuMem.clk (lsuMemInput R t) := by
  obtain ⟨hA, hB⟩ := operands_clk hp (R := R) t
  have hex : (lsuMemInput R t).core.exFreeze = (R.state t).freeze imem (R.input t) :=
    Pipeline.opsIn_exFreeze
  have hofs : (R.state (t + 1)).pl.ops.exSimm =
      if (lsuMemInput R t).core.exFreeze then (R.state t).pl.ops.exSimm
      else simm (R.state t).pl.ops.idInsn := by
    rw [operands_next]
    rfl
  rw [lsuMem, LsuMem.clk, hA, hB, hofs, hex, run_succ]
  rfl

variable (R) in
/-- The run of the load/store unit with its memory. -/
def lsuMemRun : LsuMem.machine.Run where
  state t := (R.state t).lsuMem
  input := lsuMemInput R
  start := lsuMem_start
  legal := lsuMem_legal
  next := lsuMem_next hp

/-! ### The multiply unit -/

/-- The multiply unit has no accumulation on its way. -/
theorem macOpR_run (t : ℕ) :
    (R.state t).pl.mac.macOpR1 = 0 ∧ (R.state t).pl.mac.macOpR2 = 0 := by
  induction t with
  | zero =>
    rw [run_zero]
    exact ⟨rfl, rfl⟩
  | succ t ih =>
    rw [pipelineRun_next]
    refine ⟨?_, ih.1⟩
    change (R.state t).pl.exMacOp = 0
    rw [(decoded R t).macOp, (exInsn_plain hp t).mac.1]
    rfl

/-- It only stalls for a divide in EX. -/
theorem isDiv_of_macStall {t : ℕ} (h : (R.state t).pl.mac.macStallR = true) :
    isDiv (R.state t).pl.exInsn = true := by
  cases t with
  | zero =>
    rw [run_zero] at h
    cases h
  | succ t =>
    have hst : (R.state (t + 1)).pl.mac.macStallR =
        (((decide ((R.state t).pl.exMacOp ≠ 0) || decide ((R.state t).pl.mac.macOpR1 ≠ 0) ||
          decide ((R.state t).pl.mac.macOpR2 ≠ 0)) && (isMacrc (R.state t).pl.ops.idInsn ||
            (R.state t).pl.mac.macStallR)) || decide ((R.state t).pl.mac.divCntr ≠ 0)) := by
      rw [pipelineRun_next]
      rfl
    have hop : (R.state t).pl.exMacOp = 0 := by
      rw [(decoded R t).macOp, (exInsn_plain hp t).mac.1]
      rfl
    obtain ⟨h1, h2⟩ := macOpR_run hp (R := R) t
    have hc : (R.state t).pl.mac.divCntr ≠ 0 := by
      rw [hst, hop, h1, h2] at h
      simpa using h
    have hd := divides_run (pipelineRun R) t
    have hdiv : isDiv (R.state t).pl.exInsn = true := by
      by_contra hn
      exact hc (hd.free (Bool.eq_false_iff.2 hn)).1
    -- a divide that has not been worked off stays in EX
    have hf : (R.state t).pl.freeze ((R.state t).pipelineIn imem (R.input t)) = true := by
      by_contra hn
      exact hc (hd.done hdiv (Bool.eq_false_iff.2 hn)).1
    rw [pipelineRun_next, Pipeline.clk_exInsn, if_pos hf]
    exact hdiv

end Words

/-- An instruction that is not the bubble of the reset has entered EX. -/
theorem entered_ex {P : Insn → Bool} (hnop : P nopFlushed = false) {t : ℕ}
    (h : P (R.state t).pl.exInsn = true) :
    ∃ a, a ≤ t ∧ EntersEx (pipelineRun R) a ∧
      ∀ n, a ≤ n → n < t → Frozen (pipelineRun R) n := by
  induction t with
  | zero =>
    rw [run_zero] at h
    exact absurd (hnop.symm.trans h) Bool.false_ne_true
  | succ t ih =>
    by_cases hf : Frozen (pipelineRun R) t
    · have hkeep : (R.state (t + 1)).pl.exInsn = (R.state t).pl.exInsn := hf.exInsn
      obtain ⟨a, hat, ha, hw⟩ := ih (hkeep ▸ h)
      refine ⟨a, by omega, ha, fun n h1 h2 => ?_⟩
      rcases Nat.lt_or_eq_of_le (Nat.le_of_lt_succ h2) with h3 | rfl
      · exact hw n h1 h3
      · exact hf
    · exact ⟨t + 1, le_rfl, ⟨t, rfl, hf⟩, fun n h1 h2 => by omega⟩

theorem isMul_of_aluOp {w : Insn} (h : Or1200.aluOp w = aluopMul) : isMul w = true := by
  unfold Or1200.aluOp at h
  unfold isMul isAlu
  revert h
  generalize opcode w = op
  generalize w.extractLsb' 0 4 = f
  revert op f
  decide

theorem isAlu_of_div {w : Insn} {op : BitVec 4} (hdiv : isDiv w = true)
    (h : Or1200.aluOp w = op) : isAlu op w = true := by
  have hop := Pipeline.opcode_of_isDiv hdiv
  have halu : Or1200.aluOp w = w.extractLsb' 0 4 := by simp [Or1200.aluOp, hop]
  rw [isAlu, decide_eq_true hop, decide_eq_true (halu.symm.trans h)]
  rfl

/-- When a multiplication or division leaves EX the multiply unit has its value. -/
theorem multiplied {t : ℕ} {f : Arith} (hf : (R.state t).freeze imem (R.input t) = false)
    (hm : f.multiplies = true)
    (hop : Or1200.aluOp (R.state t).pl.exInsn = f.aluOp)
    (hdiv : f = .div → (R.state t).pl.ops.operandB ≠ 0)
    (hdivu : f = .divu → (R.state t).pl.ops.operandB ≠ 0 ∧
      Fits (R.state t).pl.ops.operandA (R.state t).pl.ops.operandB) (cy : Bool) :
    (R.state t).pl.multMacResult =
      f.value cy (R.state t).pl.ops.operandA (R.state t).pl.ops.operandB := by
  have halu : (R.state t).pl.aluOp = f.aluOp := (decoded R t).aluOp.trans hop
  have hpass (P : Insn → Bool) (hnop : P nopFlushed = false)
      (hP : P (R.state t).pl.exInsn = true) : ∃ a, Passes (pipelineRun R) a t ∧
        P ((pipelineRun R).state a).exInsn = true ∧
        ((pipelineRun R).state a).ops.operandA = (R.state t).pl.ops.operandA ∧
        ((pipelineRun R).state a).ops.operandB = (R.state t).pl.ops.operandB := by
    obtain ⟨a, hat, ha, hw⟩ := entered_ex hnop hP
    obtain ⟨h1, h2⟩ := stays_operands hat hw
    exact ⟨a, ⟨ha, hat, hw, Bool.eq_false_iff.1 hf⟩, stays hat hw ▸ hP, h1.symm, h2.symm⟩
  cases f
  case mul =>
    obtain ⟨a, hab, hmul, hA, hB⟩ := hpass isMul (by decide) (isMul_of_aluOp hop)
    have hprod := hab.mulProdR (.inl hmul)
    rw [hA, hB] at hprod
    rw [Pipeline.multMacResult, MultMac.result, halu]
    exact (congrArg (BitVec.setWidth 32) hprod).trans (product_low _ _)
  case div =>
    have hd : isDiv (R.state t).pl.exInsn = true := by
      rw [isDiv, hop]
      rfl
    obtain ⟨a, hab, hdv, -⟩ := hpass isDiv (by decide) hd
    have hq : (R.state t).pl.mac.mulProdR.setWidth 32 =
        divQuotient (R.state t).pl.dividend (R.state t).pl.divisor := hab.divQuotient hdv
    have halu' : (R.state t).pl.aluOp = aluopDiv := halu
    simp only [Pipeline.dividend, Pipeline.divisor, halu', decide_true, Bool.true_and] at hq
    rw [Pipeline.multMacResult, MultMac.result, if_pos halu', hq]
    exact signed_quotient (hdiv rfl)
  case divu =>
    have hd : isDiv (R.state t).pl.exInsn = true := by
      rw [isDiv, hop]
      rfl
    obtain ⟨a, hab, hdv, hA, hB⟩ := hpass (isAlu 10) (by decide) (isAlu_of_div hd hop)
    have hq := hab.divu hdv
    rw [hA, hB] at hq
    exact hq.trans (divQuotient_of_fits (hdivu rfl).1 (hdivu rfl).2)
  all_goals cases hm

/-! ### Operands -/

section Operands

theorem idSelImm_run (t : ℕ) :
    (R.state t).pl.ops.idSelImm = selImm (R.state t).pl.ops.idInsn := by
  induction t with
  | zero =>
    rw [run_zero]
    exact (by decide : false = selImm nopFlushed)
  | succ t ih =>
    rw [pipelineRun_next, Pipeline.clk_idInsn, apply_ite selImm, ← ih]
    rfl

variable (hp : Isa.Program imem)
include hp

/-- Nothing is written to r0. -/
theorem not_exZero (t : ℕ) : ¬ (R.state t).pl.ops.ExZero := by
  rintro ⟨h0, hwe⟩
  rw [(decoded R t).rfwbOp] at hwe
  rw [(decoded R t).addrw hwe] at h0
  exact (exInsn_plain hp t).addrw hwe h0

theorem not_wbZero (t : ℕ) : ¬ (R.state t).pl.ops.WbZero := by
  induction t with
  | zero =>
    rw [run_zero]
    exact fun h => Bool.false_ne_true h.2
  | succ t ih =>
    rw [operands_next]
    cases hf : (R.state t).freeze imem (R.input t) with
    | true =>
      have hex : ((R.state t).pl.opsIn ((R.state t).pipelineIn imem (R.input t))).exFreeze = true :=
        Pipeline.opsIn_exFreeze.trans hf
      simpa only [Operands.machine, Operands.WbZero, Operands.clk, hex, if_true] using ih
    | false =>
      have hex :
          ((R.state t).pl.opsIn ((R.state t).pipelineIn imem (R.input t))).exFreeze = false :=
        Pipeline.opsIn_exFreeze.trans hf
      simp only [Operands.machine, Operands.WbZero, Operands.clk, hex, Bool.false_eq_true, if_false]
      exact not_exZero hp t

theorem gprs_zero (t : ℕ) : gprs (operandsRun R hp) t 0 = 0 := by
  induction t with
  | zero => rfl
  | succ t ih =>
    rw [gprs_succ, Operands.writeAll_result]
    split
    · next hwe =>
      rw [Bool.and_eq_true] at hwe
      have h0 : (0 : Gpr) ≠ ((operandsRun R hp).state t).exRfAddrw :=
        fun h0 => not_exZero hp t ⟨h0.symm, hwe.1⟩
      rw [Function.update_of_ne h0, ih]
    · exact ih

/-- An instruction enters EX with the registers that the ones before it have left. -/
theorem operandA_moved {t : ℕ} (hf : (R.state t).freeze imem (R.input t) = false)
    (hrd : rfRda (R.state t).pl.ops.idInsn = true) :
    (R.state (t + 1)).pl.ops.operandA =
      gprs (operandsRun R hp) (t + 1) (rA (R.state t).pl.ops.idInsn) := by
  have hfw := forwards hp (R := R) t
  have hex : ((R.state t).pl.opsIn ((R.state t).pipelineIn imem (R.input t))).exFreeze = false :=
    Pipeline.opsIn_exFreeze.trans hf
  rw [operands_next]
  by_cases hr : rA (R.state t).pl.ops.idInsn = 0
  · rw [hr, gprs_zero]
    refine (Operands.clk_operandA_zero_iff ⟨hfw.saved, hfw.portB⟩ hex hr).2 ⟨⟨?_, ?_⟩, ?_⟩
    · exact fun h => absurd h (not_exZero hp t)
    · exact fun _ h => absurd h (not_wbZero hp t)
    · exact fun _ _ => .inl ((hfw.portA hrd).trans hr)
  · rw [gprs_succ]
    exact Operands.clk_operandA hfw hex hrd hr

theorem operandB_moved {t : ℕ} (hf : (R.state t).freeze imem (R.input t) = false)
    (hrd : rfRdb (R.state t).pl.ops.idInsn = true)
    (himm : selImm (R.state t).pl.ops.idInsn = false) :
    (R.state (t + 1)).pl.ops.operandB =
      gprs (operandsRun R hp) (t + 1) (rB (R.state t).pl.ops.idInsn) := by
  have hfw := forwards hp (R := R) t
  have hex : ((R.state t).pl.opsIn ((R.state t).pipelineIn imem (R.input t))).exFreeze = false :=
    Pipeline.opsIn_exFreeze.trans hf
  rw [operands_next]
  by_cases hr : rB (R.state t).pl.ops.idInsn = 0
  · rw [hr, gprs_zero]
    refine (Operands.clk_operandB_zero_iff ⟨hfw.saved, hfw.portB⟩ hex hrd himm hr).2 ⟨?_, ?_⟩
    · exact fun h => absurd h (not_exZero hp t)
    · exact fun _ h => absurd h (not_wbZero hp t)
  · rw [gprs_succ]
    exact Operands.clk_operandB hfw hex hrd himm hr

theorem operandB_imm {t : ℕ} (hf : (R.state t).freeze imem (R.input t) = false)
    (himm : selImm (R.state t).pl.ops.idInsn = true) :
    (R.state (t + 1)).pl.ops.operandB = simm (R.state t).pl.ops.idInsn := by
  rw [(operands_clk hp t).2, hf]
  change (R.state t).pl.ops.muxedB _ = _
  rw [Operands.muxedB, idSelImm_run, himm, if_pos rfl]

end Operands

end Processor

end DsdOrsoc.Or1200
