import DsdOrsoc.Or1200.Composition

/-! One cycle of the core against one instruction of the set.

        retired n ──▶ Isa.run n     registers, carry, memory, and the flag
                        │           unless a compare in EX has already written it
                        ▼
        EX   a bubble: the front end stands at the program counters of Isa.run n
             the word at its pc: the front end is one instruction ahead

    A frozen cycle keeps this; when the pipeline moves, the instruction in EX has its whole effect
    and the next one is loaded with the operands of the new state. -/

namespace DsdOrsoc.Or1200
open Schemes Lanes Isa

namespace Processor

variable {imem : Word → Insn} {m : BitVec 30 → BitVec 32} {R : (machine imem m).Run}

/-! ### The instruction in EX -/

/-- EX holds the operation `op` with its operands; `A` is the state before it. -/
structure Loaded (s : Processor) (A : State) (op : Operation) : Prop where
  insn : decode s.pl.exInsn = some op
  pc : s.exPc = A.arch.pc
  srcA : ∀ r, op.srcA = some r → s.pl.ops.operandA = A.gpr r
  srcB : ∀ b, op.srcB = some b → s.pl.ops.operandB = b.value A
  exSimm : s.pl.ops.exSimm = simm s.pl.exInsn
  shrotOp : s.shrotOp = s.pl.exInsn.extractLsb' 6 2
  compOp : s.compOp = s.pl.exInsn.extractLsb' 21 4

section Leaves

variable {s : Processor} {i : ProcessorIn} {A : State} {op : Operation}

theorem Loaded.aluOp (h : Loaded s A op) (hd : s.pl.Decoded) : s.pl.aluOp = op.aluOp :=
  hd.aluOp.trans (controls h.insn).alu

/-- The flag after the operation. -/
theorem Loaded.flagNext (h : Loaded s A op) (hd : s.pl.Decoded)
    (hflag : s.pl.aluOp ≠ 13 → s.fe.flag = A.flag) : s.flagNext = op.flag A := by
  have halu := h.aluOp hd
  rw [Processor.flagNext]
  cases hc : op.cond with
  | none =>
    have h13 : s.pl.aluOp ≠ 13 := by
      rw [halu]
      exact op.aluOp_of_cond hc
    have hwe : s.aluIn.flagWe = false := decide_eq_false h13
    rw [hwe, hflag h13]
    cases op with
    | set c => cases hc
    | _ => rfl
  | some c =>
    have hcode := (controls h.insn).cond c hc
    have hcomp : s.aluIn.compOp = (s.pl.exInsn.extractLsb' 21 5).setWidth 4 := by
      refine h.compOp.trans ?_
      apply BitVec.eq_of_getLsbD_eq
      intro j hj
      simp [hj, show j < 5 by omega]
    cases op with
    | set c' a b =>
      obtain rfl : c' = c := Option.some.inj hc
      rw [show s.aluIn.flagWe = true from decide_eq_true halu, if_pos rfl]
      refine (AluIn.flagcomp_eq hcode hcomp).trans ?_
      exact congrArg₂ c'.holds (h.srcA a rfl) (h.srcB b rfl)
    | _ => cases hc

/-- The carry after the operation. -/
theorem Loaded.carry (h : Loaded s A op) (hd : s.pl.Decoded) (hcy : s.carry = A.cy)
    (hf : s.freeze imem i = false) : (s.clk imem i).carry = op.carry A := by
  have halu := h.aluOp hd
  have hwe : s.cyWe imem i = s.aluIn.cyWe := by
    rw [Processor.cyWe, hf, hd.allow, Bool.not_false, Bool.and_true, Bool.and_true]
  have hclk : (s.clk imem i).carry = if s.aluIn.cyWe then s.aluIn.cyforw else s.carry := by
    rw [← hwe]
    rfl
  rw [hclk]
  cases op with
  | arith f d a b =>
    refine (AluIn.carry_arith (i := s.aluIn) (f := f) halu).trans ?_
    change f.carry s.carry s.pl.ops.operandA s.pl.ops.operandB = _
    rw [hcy, h.srcA a rfl, h.srcB b rfl]
    rfl
  | _ =>
    have hno : s.aluIn.cyWe = false := by
      have : s.aluIn.aluOp = _ := halu
      rw [AluIn.cyWe, this]
      rfl
    rw [hno]
    exact hcy

/-- Where the front end goes on is where the operation says. -/
theorem Loaded.target (h : Loaded s A op) (hin : s.pl.exInsn = imem A.arch.pc)
    (hb : s.fe.operandB = s.pl.ops.operandB.extractLsb' 2 30) :
    A.arch.next imem ⟨A.flag, s.fe.operandB⟩ = (op.exec A).arch := by
  have hc := controls h.insn
  have hbr := hc.branch
  rw [hin] at hbr
  have htgt : A.arch.target? imem ⟨A.flag, s.fe.operandB⟩ = op.target? A := by
    rw [Arch.target?, hbr, branchAddrtarget, ← hin]
    cases op with
    | jump ofs link => rw [← hc.disp ofs rfl]; rfl
    | jumpReg b link =>
      rw [hb, h.srcB _ rfl]
      rfl
    | branch ofs on =>
      rw [← hc.disp ofs rfl]
      cases on <;> cases hfl : A.flag <;> simp [Operation.target?, hfl]
    | _ => rfl
  rw [Arch.next, htgt]
  rfl

/-- What the instruction in EX leaves behind in the registers. -/
theorem Loaded.result_eq (h : Loaded s A op) (hd : s.pl.Decoded) (hf : s.freeze imem i = false) :
    s.pl.ops.result (s.pl.opsIn (s.pipelineIn imem i)) =
      op.dest.toList.map fun d => (d, s.pl.ops.muxout (s.pl.opsIn (s.pipelineIn imem i))) := by
  have hwb : s.pl.ops.exRfwbOp = op.rfwb := hd.rfwbOp.trans (controls h.insn).rfwb
  have hex : (s.pl.opsIn (s.pipelineIn imem i)).exFreeze = false :=
    Pipeline.opsIn_exFreeze.trans hf
  rw [Operands.result, hwb, hex, Bool.not_false, Bool.and_true]
  cases hdst : op.dest with
  | none =>
    have hwe : op.rfwb.we = false := by
      by_contra hne
      obtain ⟨d, hd⟩ := dest_of_rfwb (Bool.eq_true_of_not_eq_false hne)
      rw [hdst] at hd
      cases hd
    rw [hwe]
    rfl
  | some d =>
    have hwe : (Or1200.rfwbOp s.pl.exInsn).we = true := by
      rw [(controls h.insn).rfwb]
      cases op
      case jump link | jumpReg link => cases link <;> first | rfl | cases hdst
      all_goals first | rfl | cases hdst
    rw [hd.addrw hwe, (controls h.insn).dest d hdst, ← (controls h.insn).rfwb, hwe]
    rfl

/-- The result of an operation of the ALU. -/
theorem Loaded.aluDataout (h : Loaded s A op) (hd : s.pl.Decoded) (hcy : s.carry = A.cy)
    (hflag : s.pl.aluOp ≠ 13 → s.fe.flag = A.flag) (hwb : op.rfwb = .alu)
    (hmul : ∀ f, op.fn = some f → f.multiplies = true → s.pl.multMacResult =
      f.value s.carry s.pl.ops.operandA s.pl.ops.operandB) :
    op.result A = op.dest.map fun d => (d, s.aluIn.result) := by
  have halu : s.aluIn.aluOp = op.aluOp := h.aluOp hd
  have hc := controls h.insn
  cases op
  case movhi d k =>
    have hmacrc : s.aluIn.macrcOp = false := hd.macrcOp.trans hc.mac.2
    have hb : s.aluIn.b = k.setWidth 32 := h.srcB _ rfl
    have hres : s.aluIn.result = k ++ 0#16 := by
      have h1 : s.aluIn.result = s.aluIn.b <<< 16 := by
        rw [AluIn.result, halu, hmacrc]
        rfl
      rw [h1, hb]
      apply BitVec.eq_of_getLsbD_eq
      intro j hj
      simp only [BitVec.getLsbD_shiftLeft, BitVec.getLsbD_setWidth, BitVec.getLsbD_append]
      grind
    rw [hres]
    rfl
  case arith f d a b =>
    have hsh : f.aluOp = 8 → Arith.ofShift s.aluIn.shrotOp = f := by
      intro h8
      refine Eq.trans ?_ (hc.shift f rfl h8)
      exact congrArg Arith.ofShift h.shrotOp
    have hres := AluIn.result_arith (i := s.aluIn) halu hsh (hmul f rfl)
    have ha : s.aluIn.a = A.gpr a := h.srcA a rfl
    have hb : s.aluIn.b = b.value A := h.srcB b rfl
    have hcy' : s.aluIn.carry = A.cy := hcy
    rw [hres, ha, hb, hcy']
    rfl
  case cmov d a b =>
    have ha : s.aluIn.a = A.gpr a := h.srcA a rfl
    have hb : s.aluIn.b = A.gpr b := h.srcB _ rfl
    have h13 : s.pl.aluOp ≠ 13 := by
      have : s.pl.aluOp = 14 := halu
      rw [this]
      decide
    have hfl : s.aluIn.flag = A.flag := hflag h13
    have hres : s.aluIn.result = if s.aluIn.flag then s.aluIn.a else s.aluIn.b := by
      rw [AluIn.result, halu]
      rfl
    rw [hres, ha, hb, hfl]
    rfl
  case ff1 d a =>
    have ha : s.aluIn.a = A.gpr a := h.srcA a rfl
    have hres : s.aluIn.result = s.aluIn.ff1 := by
      rw [AluIn.result, halu]
      rfl
    rw [hres, AluIn.ff1_eq, ha]
    rfl
  case jump link | jumpReg link => cases link <;> cases hwb
  all_goals cases hwb

/-- The return address of a jump with link. -/
theorem link_eq (x : Word) : (x ++ 0#2 : BitVec 32) + 8 = (x + 2) ++ 0#2 := by
  apply BitVec.eq_of_toNat_eq
  have h2 : (2 : Word).toNat = 2 := rfl
  have h8 : (8 : BitVec 32).toNat = 8 := rfl
  rw [BitVec.toNat_add, toNat_append_add, toNat_append_add, BitVec.toNat_add, h2, h8]
  simp only [BitVec.toNat_ofNat]
  omega

end Leaves

section Access

variable (hp : Isa.Program imem) {t : ℕ} {A : State} {op : Operation}
include hp

/-- The load/store unit has the access of the instruction in EX. -/
theorem holdsAccess (hl : isLsu (R.state t).pl.exInsn = true) :
    HoldsAccess (R.state t).lsuMem ⟨lsuOp (R.state t).pl.exInsn, (R.state t).pl.ops.operandA,
      (R.state t).pl.ops.exSimm, (R.state t).pl.ops.operandB⟩ := by
  have hop := (decoded R t).lsuOp
  have hex := holdsEx_run (lsuMemRun R hp) t
  cases hx : accessInEx (lsuMemRun R hp) t with
  | none =>
    rw [hx] at hex
    have hnop : (R.state t).pl.lsu.exLsuOp = .nop := hex.1
    exact absurd (hop.symm.trans hnop) (isLsu_iff.1 hl)
  | some x =>
    rw [hx] at hex
    have hx' : x = ⟨lsuOp (R.state t).pl.exInsn, (R.state t).pl.ops.operandA,
        (R.state t).pl.ops.exSimm, (R.state t).pl.ops.operandB⟩ := by
      obtain ⟨o, b, f, d⟩ := x
      obtain ⟨h1, h2, h3, h4, -⟩ := hex
      rw [MemAccess.mk.injEq]
      exact ⟨h1.symm.trans hop, h2.symm, h3.symm, h4.symm⟩
    exact hx' ▸ hex

omit hp in
/-- A load or store leaves EX with its acknowledge. -/
theorem ack_of_leaves (hl : isLsu (R.state t).pl.exInsn = true)
    (hal : (R.state t).pl.lsu.exceptAlign = false)
    (hf : (R.state t).freeze imem (R.input t) = false) : (R.input t).dcpuAck = true := by
  by_contra hack
  have hst := (decoded R t).frozen_of_no_ack (i := (R.state t).pipelineIn imem (R.input t)) hal hl
    (Bool.eq_false_iff.2 hack)
  exact Bool.false_ne_true (hf.symm.trans hst)

omit hp in
/-- Without a load or store in EX the data port is silent. -/
theorem not_ack (hl : isLsu (R.state t).pl.exInsn = false) : (R.input t).dcpuAck = false := by
  by_contra hack
  have hcyc := (R.legal t).2 (Bool.eq_true_of_not_eq_false hack)
  simp [Lsu.dcpuCycstb, (decoded R t).lsuOp, lsuOp_of_not_isLsu hl] at hcyc

omit hp in
theorem mem_kept (hack : (R.input t).dcpuAck = false) :
    (R.state (t + 1)).mem = (R.state t).mem := by
  rw [run_succ]
  exact if_neg (by rw [hack]; exact Bool.false_ne_true)

omit hp in
/-- The access of the operation in EX. -/
theorem Loaded.access (h : Loaded (R.state t) A op) {x : MemAccess} (hx : op.access? A = some x) :
    isLsu (R.state t).pl.exInsn = true ∧ x.op = lsuOp (R.state t).pl.exInsn ∧
      x.base = (R.state t).pl.ops.operandA ∧ x.ofs = (R.state t).pl.ops.exSimm ∧
      (x.op.we = true → x.data = (R.state t).pl.ops.operandB) := by
  have hc := controls h.insn
  cases op with
  | load o d a k =>
    obtain rfl := Option.some.inj hx
    refine ⟨(hc.stores _ rfl).1, hc.lsu.symm, (h.srcA a rfl).symm, ?_, fun hwe => ?_⟩
    · rw [h.exSimm]
      exact (hc.ofs k rfl).symm
    · have hno := (hc.stores _ rfl).2
      rw [hc.lsu] at hno
      exact absurd (hno.symm.trans hwe) Bool.false_ne_true
  | store o a b k =>
    obtain rfl := Option.some.inj hx
    refine ⟨(hc.stores _ rfl).1, hc.lsu.symm, (h.srcA a rfl).symm, ?_, fun _ => ?_⟩
    · rw [h.exSimm]
      exact (hc.ofs k rfl).symm
    · exact (h.srcB _ rfl).symm
  | _ => cases hx

/-- The load/store unit has this access, but for the data of a load. -/
theorem Loaded.holds (h : Loaded (R.state t) A op) {x : MemAccess} (hx : op.access? A = some x) :
    ∃ y, HoldsAccess (R.state t).lsuMem y ∧ y.op = x.op ∧ y.adr = x.adr ∧
      ∀ m, y.exec m = x.exec m := by
  obtain ⟨hl, hop, hbase, hofs, hdata⟩ := h.access hx
  refine ⟨_, holdsAccess hp hl, hop.symm, ?_, fun m => ?_⟩
  · rw [MemAccess.adr, MemAccess.adr, hbase, hofs]
  · rw [MemAccess.exec, MemAccess.exec, MemAccess.adr, MemAccess.adr, hbase, hofs, hop]
    cases hwe : x.op.we with
    | false =>
      rw [hop] at hwe
      rw [hwe]
      rfl
    | true => rw [hdata hwe]

/-- A defined access is acknowledged when it leaves EX. -/
theorem Loaded.acked (h : Loaded (R.state t) A op) (hdef : op.Defined A) {x : MemAccess}
    (hx : op.access? A = some x) (hf : (R.state t).freeze imem (R.input t) = false) :
    (R.input t).dcpuAck = true := by
  obtain ⟨y, hy, hop, hadr, -⟩ := h.holds hp hx
  have hal : y.Aligned := by
    rw [MemAccess.Aligned, hadr, hop]
    exact hdef.1 x hx
  refine ack_of_leaves (h.access hx).1 ?_ hf
  rw [← Bool.not_eq_true]
  exact fun hex => hy.exceptAlign.1 hex hal

/-- The memory after the operation. -/
theorem Loaded.mem (h : Loaded (R.state t) A op) (hdef : op.Defined A)
    (hf : (R.state t).freeze imem (R.input t) = false) (hm : bytes (R.state t).mem = A.mem) :
    bytes (R.state (t + 1)).mem = (op.exec A).mem := by
  cases hx : op.access? A with
  | none =>
    have hl : isLsu (R.state t).pl.exInsn = false := by
      rw [← Bool.not_eq_true, isLsu_iff, (controls h.insn).lsu, not_not]
      cases op with
      | load | store => cases hx
      | _ => rfl
    rw [mem_kept (not_ack hl), hm, Operation.exec, hx]
    rfl
  | some x =>
    obtain ⟨y, hy, hop, hadr, hexec⟩ := h.holds hp hx
    have hal : y.Aligned := by
      rw [MemAccess.Aligned, hadr, hop]
      exact hdef.1 x hx
    have hclk := hy.clk_mem (i := lsuMemInput R t) (h.acked hp hdef hx hf) hal
    rw [← lsuMem_next hp] at hclk
    refine hclk.trans ((hexec _).trans ?_)
    rw [Operation.exec, hx]
    exact congrArg x.exec hm

/-- The value of a load. -/
theorem Loaded.value (h : Loaded (R.state t) A op) (hdef : op.Defined A)
    (hf : (R.state t).freeze imem (R.input t) = false) (hm : bytes (R.state t).mem = A.mem)
    {x : MemAccess} (hx : op.access? A = some x) (hld : op.stores = some false) :
    ((R.state t).pl.opsIn ((R.state t).pipelineIn imem (R.input t))).lsuDataout =
      x.value A.mem := by
  obtain ⟨y, hy, hop, hadr, -⟩ := h.holds hp hx
  have hal : y.Aligned := by
    rw [MemAccess.Aligned, hadr, hop]
    exact hdef.1 x hx
  have hwe : y.op.we = false := by
    rw [hop, (h.access hx).2.1]
    exact ((controls h.insn).stores _ hld).2
  have hval := hy.lsuDataout hal hwe
  have hlow : (R.state t).lsuMem.dcpuAdr.extractLsb' 0 2 =
      (R.state t).pl.lsu.dcpuAdrR.setWidth 2 := by
    rw [LsuMem.dcpuAdr, Lsu.dcpuAdr]
    exact BitVec.extractLsb'_append_eq_right
  have hdat : ((R.state t).pipelineIn imem (R.input t)).dcpuDat =
      (R.state t).mem ((R.state t).lsuMem.dcpuAdr.extractLsb' 2 30) := by
    have hno : (R.state t).pl.lsu.dcpuWe = false := (congrArg LsuOp.we hy.op).trans hwe
    rw [pipelineIn, h.acked hp hdef hx hf, hno]
    rfl
  have hout : ((R.state t).pl.opsIn ((R.state t).pipelineIn imem (R.input t))).lsuDataout =
      (R.state t).lsuMem.lsuDataout := by
    rw [LsuMem.lsuDataout, hlow]
    exact congrArg (mem2reg _ _) hdat
  have hm' : bytes (R.state t).lsuMem.mem = A.mem := hm
  rw [hout, hval, hm', MemAccess.value, MemAccess.value, hop, hadr]

end Access

/-! ### Agreement -/

/-- The core agrees with the state `A` of the instruction set; `a` is where the front end stands and
    `g` what the write-back has left in the registers. -/
structure Agrees (imem : Word → Insn) (s : Processor) (a : Arch) (g : Gpr → BitVec 32) (A : State) :
    Prop where
  gpr : g = A.gpr
  carry : s.carry = A.cy
  mem : bytes s.mem = A.mem
  flag : s.pl.aluOp ≠ 13 → s.fe.flag = A.flag
  stage : (isVoid s.pl.exInsn = true ∧ a = A.arch) ∨
    (s.pl.exInsn = imem A.arch.pc ∧ (∃ op, Loaded s A op) ∧
      a = A.arch.next imem ⟨A.flag, s.fe.operandB⟩)

variable (R) in
/-- The number of instructions that have left EX. -/
def retired : ℕ → ℕ
  | 0 => 0
  | t + 1 => retired t +
    if (R.state t).freeze imem (R.input t) || isVoid (R.state t).pl.exInsn then 0 else 1

variable (R) in
/-- Where the front end stands. -/
def archAt (t : ℕ) : Arch := (outcomes (frontendRun R) t).foldl (Arch.next imem) Arch.boot

section Step

variable (hp : Isa.Program imem) {t : ℕ} {A : State} {op : Operation}
include hp

theorem sim (t : ℕ) : (frontend R t).Sim imem (archAt R t) :=
  sim_run (R := frontendRun R) hp.program t

omit hp in
theorem advances_eq : (frontend R t).advances (frontendInput R t) =
    (!(R.state t).freeze imem (R.input t) && !isVoid (R.state t).pl.ops.idInsn) := by
  have hf : (frontend R t).freeze (frontendInput R t) = (R.state t).freeze imem (R.input t) :=
    (joined_run R t).freeze
  have hid : (frontend R t).idInsn = (R.state t).pl.ops.idInsn := (joined_run R t).idInsn
  rw [Frontend.advances, hf, hid]

omit hp in
theorem archAt_kept (h : (frontend R t).advances (frontendInput R t) = false) :
    archAt R (t + 1) = archAt R t := by
  have h' : ((frontendRun R).state t).advances ((frontendRun R).input t) = false := h
  rw [archAt, outcomes, h']
  rfl

omit hp in
theorem archAt_next (h : (frontend R t).advances (frontendInput R t) = true) :
    archAt R (t + 1) = (archAt R t).next imem
      ⟨(R.state (t + 1)).fe.flag, (R.state (t + 1)).fe.operandB⟩ := by
  have h' : ((frontendRun R).state t).advances ((frontendRun R).input t) = true := h
  have hf : (R.state t).freeze imem (R.input t) = false := by
    rw [advances_eq, Bool.and_eq_true, Bool.not_eq_true'] at h
    exact h.1
  have hflag : ((frontendRun R).state (t + 1)).flag = (R.state (t + 1)).fe.flag := by
    change heldFlag R (t + 1) = _
    rw [heldFlag, hf]
    rfl
  rw [archAt, outcomes, h', if_pos rfl, List.foldl_concat, hflag]
  rfl

/-- The result of the operation that leaves EX. -/
theorem Loaded.result (h : Loaded (R.state t) A op) (hdef : op.Defined A)
    (hf : (R.state t).freeze imem (R.input t) = false) (hcy : (R.state t).carry = A.cy)
    (hm : bytes (R.state t).mem = A.mem)
    (hflag : (R.state t).pl.aluOp ≠ 13 → (R.state t).fe.flag = A.flag) :
    op.result A = op.dest.map fun d => (d, (R.state t).pl.ops.muxout
      ((R.state t).pl.opsIn ((R.state t).pipelineIn imem (R.input t)))) := by
  have hd := decoded R t
  have hwb : (R.state t).pl.ops.exRfwbOp = op.rfwb := hd.rfwbOp.trans (controls h.insn).rfwb
  -- the multiply unit has worked out its operations
  have hmul : ∀ f, op.fn = some f → f.multiplies = true → (R.state t).pl.multMacResult =
      f.value (R.state t).carry (R.state t).pl.ops.operandA (R.state t).pl.ops.operandB := by
    intro f hfn hm
    cases op with
    | arith f' d a b =>
      obtain rfl : f' = f := Option.some.inj hfn
      refine multiplied hf hm (controls h.insn).alu ?_ ?_ _ <;> rintro rfl <;>
        rw [h.srcB b rfl]
      · exact hdef.2
      · rw [h.srcA a rfl]
        exact hdef.2
    | _ => cases hfn
  have halu : op.rfwb = .alu → op.result A = op.dest.map fun d => (d, (R.state t).pl.ops.muxout
      ((R.state t).pl.opsIn ((R.state t).pipelineIn imem (R.input t)))) := by
    intro hw
    have hout : (R.state t).pl.ops.muxout
        ((R.state t).pl.opsIn ((R.state t).pipelineIn imem (R.input t))) =
          (R.state t).aluIn.result := by
      rw [Operands.muxout, hwb, hw]
      exact aluDataout_eq
    rw [hout]
    exact h.aluDataout hd hcy hflag hw hmul
  have hlr : op.rfwb = .lr → (R.state t).pl.ops.muxout
      ((R.state t).pl.opsIn ((R.state t).pipelineIn imem (R.input t))) = Operation.link A := by
    intro hw
    rw [Operands.muxout, hwb, hw, Operation.link, ← h.pc]
    exact link_eq _
  cases op with
  | jump ofs link | jumpReg b link =>
    cases link with
    | false => rfl
    | true =>
      rw [hlr rfl]
      rfl
  | movhi | arith | cmov | ff1 => exact halu rfl
  | load o d a k =>
    have hval := h.value hp hdef hf hm rfl rfl
    rw [Operands.muxout, hwb]
    exact congrArg (fun v => some (d, v)) hval.symm
  | _ => rfl

/-- The registers after the operation. -/
theorem Loaded.gpr (h : Loaded (R.state t) A op) (hdef : op.Defined A)
    (hf : (R.state t).freeze imem (R.input t) = false) (hcy : (R.state t).carry = A.cy)
    (hm : bytes (R.state t).mem = A.mem)
    (hflag : (R.state t).pl.aluOp ≠ 13 → (R.state t).fe.flag = A.flag)
    (hg : gprs (operandsRun R hp) t = A.gpr) :
    gprs (operandsRun R hp) (t + 1) = (op.exec A).gpr := by
  have hres := h.result_eq (decoded R t) hf
  have h0 : op.dest ≠ some 0 := by
    rcases exInsn_plain hp (R := R) t with hv | ⟨op', hop', h0⟩
    · rw [not_void_of_decode h.insn] at hv
      cases hv
    · cases h.insn.symm.trans hop'
      exact h0
  rw [gprs_succ, hg, Operation.exec, h.result hp hdef hf hcy hm hflag]
  refine (congrArg (Operands.writeAll A.gpr) hres).trans ?_
  cases hd : op.dest with
  | none => rfl
  | some d =>
    have hne : d ≠ 0 := fun hd0 => h0 (hd.trans (congrArg some hd0))
    exact (if_neg hne).symm

omit hp in
/-- The latches of EX beside those of the pipeline. -/
theorem latches_next (t : ℕ) :
    (R.state (t + 1)).shrotOp = (if (R.state t).freeze imem (R.input t) then (R.state t).shrotOp
      else (R.state t).pl.ops.idInsn.extractLsb' 6 2) ∧
    (R.state (t + 1)).compOp = (if (R.state t).freeze imem (R.input t) then (R.state t).compOp
      else (R.state t).pl.ops.idInsn.extractLsb' 21 4) ∧
    (R.state (t + 1)).pl.ops.exSimm = (if (R.state t).freeze imem (R.input t) then
      (R.state t).pl.ops.exSimm else simm (R.state t).pl.ops.idInsn) ∧
    (R.state (t + 1)).pl.exInsn = (if (R.state t).freeze imem (R.input t) then
      (R.state t).pl.exInsn else (R.state t).pl.ops.idInsn) ∧
    (R.state (t + 1)).exPc = (if (R.state t).freeze imem (R.input t) then (R.state t).exPc
      else (R.state t).fe.idPc) := by
  rw [run_succ]
  refine ⟨Pipeline.exLatch_opsIn _ _ _, Pipeline.exLatch_opsIn _ _ _, ?_, Pipeline.clk_exInsn, rfl⟩
  have hex : ((R.state t).pl.opsIn ((R.state t).pipelineIn imem (R.input t))).exFreeze =
      (R.state t).freeze imem (R.input t) := Pipeline.opsIn_exFreeze
  rw [← hex]
  rfl

/-- An instruction enters EX. -/
theorem loaded_moved (hf : (R.state t).freeze imem (R.input t) = false)
    (hop : decode (R.state t).pl.ops.idInsn = some op) (hpc : (R.state t).fe.idPc = A.arch.pc)
    (hg : gprs (operandsRun R hp) (t + 1) = A.gpr) : Loaded (R.state (t + 1)) A op := by
  obtain ⟨h1, h2, h3, h4, h5⟩ := latches_next (R := R) t
  simp only [hf, Bool.false_eq_true, if_false] at h1 h2 h3 h4 h5
  have hc := controls hop
  refine ⟨?_, h5.trans hpc, fun r hr => ?_, fun b hb => ?_, ?_, ?_, ?_⟩
  · rw [h4]
    exact hop
  · obtain ⟨hrd, hra⟩ := hc.srcA r hr
    rw [operandA_moved hp hf hrd, hra, hg]
  · cases b with
    | reg r =>
      obtain ⟨hrd, himm, hrb⟩ := hc.regB r hb
      rw [operandB_moved hp hf hrd himm, hrb, hg]
      rfl
    | imm k =>
      obtain ⟨himm, hk⟩ := hc.immB k hb
      rw [operandB_imm hp hf himm, hk]
      rfl
  · rw [h3, h4]
  · rw [h1, h4]
  · rw [h2, h4]

/-- A frozen instruction stays in EX. -/
theorem Loaded.kept (h : Loaded (R.state t) A op)
    (hf : (R.state t).freeze imem (R.input t) = true) : Loaded (R.state (t + 1)) A op := by
  obtain ⟨h1, h2, h3, h4, h5⟩ := latches_next (R := R) t
  obtain ⟨hA, hB⟩ := operands_clk hp (R := R) t
  simp only [hf, if_true] at h1 h2 h3 h4 h5 hA hB
  refine ⟨?_, h5.trans h.pc, ?_, ?_, ?_, ?_, ?_⟩
  · rw [h4]
    exact h.insn
  · rw [hA]
    exact h.srcA
  · rw [hB]
    exact h.srcB
  · rw [h3, h4]
    exact h.exSimm
  · rw [h1, h4]
    exact h.shrotOp
  · rw [h2, h4]
    exact h.compOp

/-- STEP, frozen: nothing changes, but a compare may write its flag. -/
theorem Agrees.kept (h : Agrees imem (R.state t) (archAt R t) (gprs (operandsRun R hp) t) A)
    (hf : (R.state t).freeze imem (R.input t) = true) :
    Agrees imem (R.state (t + 1)) (archAt R (t + 1)) (gprs (operandsRun R hp) (t + 1)) A := by
  have hadv : (frontend R t).advances (frontendInput R t) = false := by
    rw [advances_eq, hf]
    rfl
  have halu : (R.state (t + 1)).pl.aluOp = (R.state t).pl.aluOp := by
    rw [pipelineRun_next]
    exact (Pipeline.exLatch_opsIn _ _ _).trans (if_pos hf)
  have hins : (R.state (t + 1)).pl.exInsn = (R.state t).pl.exInsn := by
    rw [(latches_next t).2.2.2.1, if_pos hf]
  have hopb : (R.state (t + 1)).fe.operandB = (R.state t).fe.operandB := by
    rw [(joined_run R _).operandB, (joined_run R _).operandB, (operands_clk hp t).2, if_pos hf]
  -- an acknowledge would have let the pipeline move
  have hack : (R.input t).dcpuAck = false := by
    by_contra hne
    have hne := Bool.eq_true_of_not_eq_false hne
    have hl : isLsu (R.state t).pl.exInsn = true := by
      by_contra hno
      rw [not_ack (Bool.eq_false_iff.2 hno)] at hne
      cases hne
    have hst := ((decoded R t).freeze_of_ack
      (i := (R.state t).pipelineIn imem (R.input t)) hl hne).symm.trans hf
    have hdiv := isDiv_of_macStall hp hst
    rw [isLsu, Pipeline.opcode_of_isDiv hdiv] at hl
    exact absurd hl (by decide)
  refine ⟨?_, ?_, ?_, ?_, ?_⟩
  · rw [gprs_succ, Operands.writeAll_result, if_neg, h.gpr]
    have hex : ((operandsRun R hp).input t).exFreeze = true := Pipeline.opsIn_exFreeze.trans hf
    rw [hex, Bool.not_true, Bool.and_false]
    exact Bool.false_ne_true
  · rw [run_succ, ← h.carry]
    refine if_neg ?_
    rw [cyWe, hf, Bool.not_true, Bool.and_false, Bool.false_and]
    exact Bool.false_ne_true
  · rw [mem_kept hack]
    exact h.mem
  · rw [halu]
    intro h13
    rw [run_succ, clk_flag h13]
    exact h.flag h13
  · rw [hins, hopb, archAt_kept hadv]
    rcases h.stage with hv | ⟨h1, ⟨op, h2⟩, h3⟩
    · exact .inl hv
    · exact .inr ⟨h1, ⟨op, h2.kept hp hf⟩, h3⟩

/-- The instruction in EX, if there is one, leaves it: `A'` is the state after it. -/
structure Completed (R : (machine imem m).Run) (hp : Isa.Program imem) (t : ℕ) (A' : State) :
    Prop where
  gpr : gprs (operandsRun R hp) (t + 1) = A'.gpr
  carry : (R.state (t + 1)).carry = A'.cy
  mem : bytes (R.state (t + 1)).mem = A'.mem
  flag : (R.state (t + 1)).fe.flag = A'.flag
  arch : archAt R t = A'.arch

/-- A bubble leaves EX without a trace. -/
theorem Agrees.completed_void (h : Agrees imem (R.state t) (archAt R t)
      (gprs (operandsRun R hp) t) A)
    (hv : isVoid (R.state t).pl.exInsn = true) : Completed R hp t A := by
  have hop := opcode_of_isVoid hv
  have halu : (R.state t).pl.aluOp = aluopNop := by
    rw [(decoded R t).aluOp]
    simp [Or1200.aluOp, hop]
  have hwb : (R.state t).pl.ops.exRfwbOp = .nop := by
    rw [(decoded R t).rfwbOp]
    simp [Or1200.rfwbOp, hop]
  have h13 : (R.state t).pl.aluOp ≠ 13 := by
    rw [halu]
    decide
  have harch : archAt R t = A.arch := by
    rcases h.stage with ⟨-, ha⟩ | ⟨hin, ⟨op, hl⟩, -⟩
    · exact ha
    · rw [not_void_of_decode hl.insn] at hv
      cases hv
  refine ⟨?_, ?_, ?_, ?_, harch⟩
  · have hwe : ((operandsRun R hp).state t).exRfwbOp.we = false := congrArg RfwbOp.we hwb
    rw [gprs_succ, Operands.writeAll_result, hwe, Bool.false_and, if_neg Bool.false_ne_true, h.gpr]
  · rw [run_succ, ← h.carry]
    refine if_neg ?_
    have hcy : (R.state t).aluIn.cyWe = false := by
      have : (R.state t).aluIn.aluOp = aluopNop := halu
      rw [AluIn.cyWe, this]
      rfl
    rw [cyWe, hcy, Bool.false_and, Bool.false_and]
    exact Bool.false_ne_true
  · rw [mem_kept (not_ack (isLsu_of_isVoid hv))]
    exact h.mem
  · rw [run_succ, clk_flag h13]
    exact h.flag h13

/-- An instruction leaves EX with its whole effect. -/
theorem Agrees.completed_insn (h : Agrees imem (R.state t) (archAt R t)
      (gprs (operandsRun R hp) t) A) (hdef : Isa.Defined A imem)
    (hf : (R.state t).freeze imem (R.input t) = false)
    (hv : isVoid (R.state t).pl.exInsn = false) : Completed R hp t (Isa.step A imem) := by
  rcases h.stage with ⟨hv', -⟩ | ⟨hin, ⟨op, hl⟩, ha⟩
  · rw [hv] at hv'
    cases hv'
  have hop : decode (imem A.arch.pc) = some op := hin ▸ hl.insn
  have hd := hdef op hop
  rw [Isa.step_of_decode hop]
  refine ⟨hl.gpr hp hd hf h.carry h.mem h.flag h.gpr, ?_, hl.mem hp hd hf h.mem, ?_, ?_⟩
  · rw [run_succ]
    exact hl.carry (decoded R t) h.carry hf
  · rw [run_succ]
    exact hl.flagNext (decoded R t) h.flag
  · rw [ha]
    exact hl.target hin (joined_run R t).operandB

/-- STEP, moving: the next instruction enters EX. -/
theorem Completed.agrees (h : Completed R hp t A)
    (hf : (R.state t).freeze imem (R.input t) = false) :
    Agrees imem (R.state (t + 1)) (archAt R (t + 1)) (gprs (operandsRun R hp) (t + 1)) A := by
  have hins : (R.state (t + 1)).pl.exInsn = (R.state t).pl.ops.idInsn := by
    rw [(latches_next t).2.2.2.1, hf]
    rfl
  have hid : (frontend R t).idInsn = (R.state t).pl.ops.idInsn := (joined_run R t).idInsn
  refine ⟨h.gpr, h.carry, h.mem, fun _ => h.flag, ?_⟩
  -- ID holds the instruction at the program counter
  have hword (hpc : (frontend R t).idPc = (archAt R t).pc)
      (hw : (frontend R t).idInsn = imem (archAt R t).pc) :
      (R.state (t + 1)).pl.exInsn = imem A.arch.pc ∧ (∃ op, Loaded (R.state (t + 1)) A op) ∧
        archAt R (t + 1) = A.arch.next imem ⟨A.flag, (R.state (t + 1)).fe.operandB⟩ := by
    rw [h.arch] at hpc hw
    obtain ⟨op, hop, -⟩ := hp.decodes A.arch.pc
    have hdec : decode (R.state t).pl.ops.idInsn = some op := by rw [← hid, hw, hop]
    have hadv : (frontend R t).advances (frontendInput R t) = true := by
      rw [advances_eq, hf, not_void_of_decode hdec]
      rfl
    refine ⟨?_, ⟨op, loaded_moved hp hf hdec hpc h.gpr⟩, ?_⟩
    · rw [hins, ← hid, hw]
    · rw [archAt_next hadv, h.arch, h.flag]
  cases (sim hp (R := R) t).stage with
  | empty hvoid =>
    rw [hid] at hvoid
    have hadv : (frontend R t).advances (frontendInput R t) = false := by
      rw [advances_eq, hvoid, Bool.not_true, Bool.and_false]
    refine .inl ⟨hins ▸ hvoid, ?_⟩
    rw [archAt_kept hadv, h.arch]
  | full hpc hw => exact .inr (hword hpc hw)
  | slot hpc hw => exact .inr (hword hpc hw)

/-- RUN: the core agrees with the instruction set after the instructions that have left EX, if all
    of them are defined. -/
theorem agrees_run {t : ℕ} (hdef : ∀ n < retired R t, Isa.Defined (Isa.run imem (bytes m) n) imem) :
    Agrees imem (R.state t) (archAt R t) (gprs (operandsRun R hp) t)
      (Isa.run imem (bytes m) (retired R t)) := by
  induction t with
  | zero =>
    rw [run_zero]
    exact ⟨rfl, rfl, rfl, fun _ => rfl, .inl ⟨isVoid_nopFlushed, rfl⟩⟩
  | succ t ih =>
    rw [retired] at hdef ⊢
    have ih := ih fun n hn => hdef n (by omega)
    cases hf : (R.state t).freeze imem (R.input t) with
    | true => exact ih.kept hp hf
    | false =>
      cases hv : isVoid (R.state t).pl.exInsn with
      | true => exact (ih.completed_void hp hv).agrees hp hf
      | false =>
        have hnext : Isa.run imem (bytes m) (retired R t + 1) =
            Isa.step (Isa.run imem (bytes m) (retired R t)) imem :=
          Function.iterate_succ_apply' _ _ _
        have hc := ih.completed_insn hp (hdef _ (by simp [hf, hv])) hf hv
        rw [← hnext] at hc
        exact hc.agrees hp hf

end Step

end Processor

end DsdOrsoc.Or1200
