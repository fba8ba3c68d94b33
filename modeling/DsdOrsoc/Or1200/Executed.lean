import DsdOrsoc.Or1200.Retirement

/-! Only the words that are executed matter. Behind a jump the front end fetches words that it then
    throws away, and a flash holds words that are never fetched at all; nothing is asked of either.

    For the first instructions of a run of the instruction set the memory is PATCHED: all other
    words become `l.nop`. Over the patched memory all that is known of programs applies. The core is
    then REPLAYED over it with the same inputs, and its registers are the same but for a word in
    `insn_saved` that is going to be thrown away:

        core over imem      s0 ──▶ s1 ──▶ s2 ──▶ ...
                            ║      ║      ║          Twin
        over the patched    s0 ──▶ s1 ──▶ s2 ──▶ ...                                           -/

namespace DsdOrsoc.Or1200
open Schemes Lanes Isa

/-! ### The patched memory -/

section Patched

variable (imem : Word → Insn) (m : BitVec 32 → BitVec 8) (N : ℕ)

/-- A word that is executed by one of the first `N` instructions. -/
def Fetched (a : Word) : Prop := ∃ n < N, (Isa.run imem m n).arch.pc = a

instance (a : Word) : Decidable (Fetched imem m N a) := by
  unfold Fetched
  infer_instance

/-- The words that are executed by the first `N` instructions, with `l.nop` everywhere else. -/
def patched (a : Word) : Insn := if Fetched imem m N a then imem a else 0x15000000

variable {imem m N}

theorem patched_of_lt {n : ℕ} (hn : n < N) :
    patched imem m N (Isa.run imem m n).arch.pc = imem (Isa.run imem m n).arch.pc :=
  if_pos ⟨n, hn, rfl⟩

theorem run_next (n : ℕ) : Isa.run imem m (n + 1) = Isa.step (Isa.run imem m n) imem :=
  Function.iterate_succ_apply' _ _ _

/-- The patched memory runs the same instructions. -/
theorem run_patched : ∀ {n : ℕ}, n ≤ N → Isa.run (patched imem m N) m n = Isa.run imem m n
  | 0, _ => rfl
  | n + 1, hn => by
    rw [run_next, run_next, run_patched (by omega), Isa.step, Isa.step, patched_of_lt (by omega)]

/-- A jump or taken branch is a branch for the front end. -/
theorem branchOp_of_target {w : Insn} {op : Operation} {A : State} {y : Word}
    (hw : decode w = some op) (ht : op.target? A = some y) : branchOp w ≠ .nop := by
  rw [(controls hw).branch]
  cases op with
  | jump | jumpReg => simp [Operation.branchOp]
  | branch ofs on => cases on <;> simp [Operation.branchOp]
  | _ => cases ht

variable (hv : ∀ n < N, Valid (Isa.run imem m n) imem)
include hv

/-- STEP: the instruction after the next one is at `npc`. -/
theorem pc_next {n : ℕ} (hn : n < N) :
    (Isa.run imem m (n + 1)).arch.pc = (Isa.run imem m n).arch.npc := by
  obtain ⟨op, hop, -⟩ := (hv n hn).insn
  rw [run_next, step_of_decode hop]
  rfl

/-- RUN: a branch is no delay slot, so that its own delay slot is the next word. -/
theorem npc_of_branch {n : ℕ} (hn : n < N)
    (hb : branchOp (imem (Isa.run imem m n).arch.pc) ≠ .nop) :
    (Isa.run imem m n).arch.npc = (Isa.run imem m n).arch.pc + 1 := by
  cases n with
  | zero => rfl
  | succ n =>
    obtain ⟨op, hop, -⟩ := (hv n (by omega)).insn
    cases ht : op.target? (Isa.run imem m n) with
    | none =>
      rw [run_next, step_of_decode hop, Operation.exec, ht]
      rfl
    | some y =>
      rw [pc_next hv (by omega)] at hb
      exact absurd ((hv n (by omega)).slot (branchOp_of_target hop ht)) hb

theorem patched_program : Isa.Program (patched imem m N) where
  decodes a := by
    unfold patched
    split
    · next h =>
      obtain ⟨n, hn, rfl⟩ := h
      obtain ⟨op, hop, h0, -⟩ := (hv n hn).insn
      exact ⟨op, hop, h0⟩
    · exact ⟨.nop, rfl, by decide⟩
  slots a hb := by
    unfold patched at hb
    split at hb
    · next h =>
      obtain ⟨n, hn, rfl⟩ := h
      have hslot := (hv n hn).slot hb
      rw [npc_of_branch hv hn hb] at hslot
      unfold patched
      split
      · exact hslot
      · rfl
    · exact absurd rfl hb

theorem patched_defined {n : ℕ} (hn : n < N) :
    Isa.Defined (Isa.run (patched imem m N) m n) (patched imem m N) := by
  intro op hop
  rw [run_patched hn.le, patched_of_lt hn] at hop
  obtain ⟨op', hop', -, hd⟩ := (hv n hn).insn
  cases hop.symm.trans hop'
  rw [run_patched hn.le]
  exact hd

end Patched

namespace Processor

/-! ### Replay -/

/-- The inputs without the acknowledges that nobody has asked for. -/
def masked (s : Processor) (i : ProcessorIn) : ProcessorIn :=
  { i with
    icpuAckI := i.icpuAckI && s.fe.port.isSome
    dcpuAck := i.dcpuAck && s.pl.lsu.dcpuCycstb false false }

/-- The core over another memory with given inputs. -/
def replay (imem : Word → Insn) (m : BitVec 30 → BitVec 32) (input : ℕ → ProcessorIn) :
    ℕ → Processor
  | 0 => .reset m
  | t + 1 => (replay imem m input t).clk imem (masked (replay imem m input t) (input t))

theorem masked_legal (imem : Word → Insn) (m : BitVec 30 → BitVec 32) (s : Processor)
    (i : ProcessorIn) : (machine imem m).legal s (masked s i) := by
  refine ⟨fun h => ?_, fun h => ?_⟩
  · exact Option.isSome_iff_ne_none.1 (Bool.and_eq_true_iff.1 h).2
  · exact (Bool.and_eq_true_iff.1 h).2

def replayRun (imem : Word → Insn) (m : BitVec 30 → BitVec 32) (input : ℕ → ProcessorIn) :
    (machine imem m).Run where
  state := replay imem m input
  input t := masked (replay imem m input t) (input t)
  start := rfl
  legal _ := masked_legal imem m _ _
  next _ := rfl

/-- The same registers, but for `insn_saved`. -/
def withSaved (s : Processor) (w : Insn) : Processor :=
  { s with fe := { s.fe with insnSaved := w } }

/-- INVARIANT: a saved word differs only while it is not going to be used. -/
structure Twin (s s' : Processor) : Prop where
  regs : s' = s.withSaved s'.fe.insnSaved
  word : s.fe.saved = true → s.fe.noMoreDslot = false → s'.fe.insnSaved = s.fe.insnSaved

section Twin

variable {imem imem' : Word → Insn} {s s' : Processor} {i : ProcessorIn}

/-- While EX is frozen with a branch in it, the branch stays taken or not taken. -/
theorem noMoreDslot_clk (hf : s.freeze imem i = true) (hj : Joined s)
    (hcmp : s.pl.aluOp = 13 → s.fe.exBranchOp = .nop) :
    (s.clk imem i).fe.noMoreDslot = s.fe.noMoreDslot := by
  have hfe : s.fe.freeze (s.frontendIn i) = true := hj.freeze.trans hf
  have hid : (s.clk imem i).fe.idInsn = s.fe.idInsn := if_pos hfe
  have hop : (s.clk imem i).fe.exBranchOp = s.fe.exBranchOp := if_pos hfe
  rw [Frontend.noMoreDslot, Frontend.noMoreDslot, hid, hop]
  by_cases h13 : s.pl.aluOp = 13
  · rw [hcmp h13]
    rfl
  · rw [Frontend.exBranchTaken, Frontend.exBranchTaken, hop, clk_flag h13]

/-- The word that enters ID is the same. -/
theorem Twin.ifInsn (h : Twin s s')
    (hdat : s.fe.noMoreDslot = false → s.fe.saved = false → i.icpuAckI = true →
      s.fe.icpuDat imem = s.fe.icpuDat imem') :
    s'.fe.ifInsn imem' (s'.frontendIn i) = s.fe.ifInsn imem (s.frontendIn i) := by
  obtain ⟨hr, hw⟩ := h
  generalize s'.fe.insnSaved = w at hr hw
  subst hr
  change (if s.fe.noMoreDslot || s.fe.rfe then nopFlushed else if s.fe.saved then w
    else if i.icpuAckI then s.fe.icpuDat imem' else nopMissing) = _
  rw [Frontend.ifInsn]
  cases hn : s.fe.noMoreDslot with
  | true => rfl
  | false =>
    cases hs : s.fe.saved with
    | true =>
      rw [hw hs hn]
      rfl
    | false =>
      have hack : (s.frontendIn i).icpuAckI = i.icpuAckI := rfl
      cases ha : i.icpuAckI with
      | true =>
        rw [hdat hn hs ha, hack, ha]
        rfl
      | false =>
        rw [hack, ha]
        rfl

/-- STEP. -/
theorem Twin.clk (h : Twin s s') (hj : Joined s)
    (hcmp : s.pl.aluOp = 13 → s.fe.exBranchOp = .nop)
    (hdat : s.fe.noMoreDslot = false → s.fe.saved = false → i.icpuAckI = true →
      s.fe.icpuDat imem = s.fe.icpuDat imem') :
    Twin (s.clk imem i) (s'.clk imem' i) := by
  have hif := h.ifInsn hdat
  obtain ⟨hr, hw⟩ := h
  generalize s'.fe.insnSaved = w at hr hw
  subst hr
  have hfe : s.fe.freeze (s.frontendIn i) = s.freeze imem i := hj.freeze
  have hpin : (s.withSaved w).pipelineIn imem' i = s.pipelineIn imem i :=
    congrArg (fun x => { s.pipelineIn imem i with ifInsn := x }) hif
  have hfreeze : (s.withSaved w).freeze imem' i = s.freeze imem i := by
    rw [freeze, freeze, hpin]
    rfl
  refine ⟨?_, fun hs hn => ?_⟩
  · simp only [Processor.clk, Frontend.clk, cyWe, hif, hpin, hfreeze]
    rfl
  · change (if s.fe.saveInsn (s.frontendIn i) then s.fe.icpuDat imem'
      else if !s.fe.freeze (s.frontendIn i) then nopFlushed else w) =
        if s.fe.saveInsn (s.frontendIn i) then s.fe.icpuDat imem
        else if !s.fe.freeze (s.frontendIn i) then nopFlushed else s.fe.insnSaved
    have hs' : (if s.fe.saveInsn (s.frontendIn i) then true
      else if !s.fe.freeze (s.frontendIn i) then false else s.fe.saved) = true := hs
    have hack : (s.frontendIn i).icpuAckI = i.icpuAckI := rfl
    rw [Frontend.saveInsn, hfe, hack] at hs' ⊢
    cases hf : s.freeze imem i with
    | false => simp [hf] at hs'
    | true =>
      rw [noMoreDslot_clk hf hj hcmp] at hn
      cases hsv : s.fe.saved with
      | true => simp [hw hsv hn]
      | false =>
        cases ha : i.icpuAckI with
        | false => simp [hf, hsv, ha] at hs'
        | true => simp [hdat hn hsv ha]

theorem Twin.pl (h : Twin s s') : s'.pl = s.pl := by rw [h.regs]; rfl

theorem Twin.port (h : Twin s s') : s'.fe.port = s.fe.port := by rw [h.regs]; rfl

theorem Twin.noMoreDslot (h : Twin s s') : s'.fe.noMoreDslot = s.fe.noMoreDslot := by
  rw [h.regs]; rfl

theorem Twin.saved (h : Twin s s') : s'.fe.saved = s.fe.saved := by rw [h.regs]; rfl

theorem Twin.icpuCycstbO (h : Twin s s') :
    s'.fe.icpuCycstbO (s'.frontendIn i) = s.fe.icpuCycstbO (s.frontendIn i) := by rw [h.regs]; rfl

/-- What the core has asked for is asked for in the replay. -/
theorem Twin.masked {m : BitVec 30 → BitVec 32} (h : Twin s s')
    (hl : (machine imem m).legal s i) : masked s' i = i := by
  have hi : (i.icpuAckI && s'.fe.port.isSome) = i.icpuAckI := by
    rw [h.port]
    cases ha : i.icpuAckI with
    | false => rfl
    | true => rw [Option.isSome_iff_ne_none.2 (hl.1 ha)]; rfl
  have hd : (i.dcpuAck && s'.pl.lsu.dcpuCycstb false false) = i.dcpuAck := by
    rw [h.pl]
    cases ha : i.dcpuAck with
    | false => rfl
    | true => rw [hl.2 ha]; rfl
  rw [Processor.masked, hi, hd]

theorem Twin.freeze (h : Twin s s') (hj : Joined s) (hj' : Joined s') :
    s'.freeze imem' i = s.freeze imem i := by
  rw [← hj.freeze, ← hj'.freeze, h.regs]
  rfl

theorem Twin.shows {A : State} (h : Twin s s') (hs : Shows imem' s' A)
    (hw : imem' A.arch.pc = imem A.arch.pc) : Shows imem s A := by
  obtain ⟨hr, -⟩ := h
  generalize s'.fe.insnSaved = w at hr
  subst hr
  exact ⟨hs.gpr, hs.carry, hs.mem, hs.flag, fun hv => hw ▸ hs.insn hv⟩

end Twin

/-! ### What is fetched over a program -/

section Fetch

variable {imem : Word → Insn} {m : BitVec 30 → BitVec 32} {R : (machine imem m).Run} {t : ℕ}

theorem frontend_noMoreDslot : (frontend R t).noMoreDslot = (R.state t).fe.noMoreDslot := by
  rcases heldFlag_eq R t with h | h
  · rw [frontend, h]
  · have hb := exBranchOp_of_compare R h
    have hb' : (frontend R t).exBranchOp = .nop := hb
    rw [Frontend.noMoreDslot, Frontend.noMoreDslot, hb, hb']
    rfl

variable (hp : Isa.Program imem)
include hp

/-- A word that comes from the port and is used is one of the next two to be executed. -/
theorem port_of_ack (hn : (R.state t).fe.noMoreDslot = false) (hs : (R.state t).fe.saved = false)
    (ha : (R.input t).icpuAckI = true) :
    (R.state t).fe.port = some (archAt R t).pc ∨ (R.state t).fe.port = some (archAt R t).npc := by
  have hport : (frontend R t).port ≠ none := (R.legal t).1 ha
  have hfetch {x y : Word} (h : (frontend R t).Upcoming imem x y) :
      (R.state t).fe.port = some x := by
    rcases h with ⟨-, hx⟩ | ⟨hs', -⟩
    · exact hx.port.resolve_left hport
    · exact absurd (hs.symm.trans hs') Bool.false_ne_true
  have hsim := sim hp (R := R) t
  cases hsim.stage with
  | empty _ _ _ hup => exact .inl (hfetch hup)
  | full _ _ _ hup => exact .inr (hfetch hup)
  | slot _ hinsn htkn =>
    -- behind a taken branch every word is thrown away
    rw [← frontend_noMoreDslot, Frontend.noMoreDslot_eq hsim.exRfe, htkn, hinsn,
      hp.program.noVoid] at hn
    cases hn

/-- The front end stands at an instruction of the run. -/
theorem archAt_run
    (hdef : ∀ n < retired R t, Isa.Defined (Isa.run imem (bytes m) n) imem) :
    ∃ k ≤ retired R t + 1, archAt R t = (Isa.run imem (bytes m) k).arch := by
  rcases (agrees_run hp (R := R) hdef).stage with ⟨-, ha⟩ | ⟨hin, ⟨op, hl⟩, ha⟩
  · exact ⟨retired R t, by omega, ha⟩
  · refine ⟨retired R t + 1, le_rfl, ?_⟩
    rw [ha, hl.target hin (joined_run R t).operandB, run_next, step_of_decode (hin ▸ hl.insn)]

end Fetch

/-! ### The core over any memory -/

section Run

variable {imem : Word → Insn} {m : BitVec 30 → BitVec 32} {R : (machine imem m).Run} {N t : ℕ}
  (hv : ∀ n < N, Valid (Isa.run imem (bytes m) n) imem)
include hv

/-- RUN: as long as the next instructions are valid, the run can be replayed over the patched
    memory. -/
theorem twin_run : ∀ t, (∀ u < t, retired R u + 2 < N) →
    Twin (R.state t) (replay (patched imem (bytes m) N) m R.input t) ∧
      retired (replayRun (patched imem (bytes m) N) m R.input) t = retired R t := by
  intro t
  induction t with
  | zero =>
    intro _
    rw [run_zero]
    exact ⟨⟨rfl, fun _ _ => rfl⟩, rfl⟩
  | succ t ih =>
    intro hu
    obtain ⟨htw, hret⟩ := ih fun u h => hu u (by omega)
    have hN := hu t (by omega)
    have hp := patched_program hv
    set R' := replayRun (patched imem (bytes m) N) m R.input
    have htw' : Twin (R.state t) (R'.state t) := htw
    have hin : R'.input t = R.input t := htw.masked (R.legal t)
    have hdat : (R.state t).fe.noMoreDslot = false → (R.state t).fe.saved = false →
        (R.input t).icpuAckI = true →
        (R.state t).fe.icpuDat imem = (R.state t).fe.icpuDat (patched imem (bytes m) N) := by
      intro hn hs ha
      obtain ⟨k, hk, harch⟩ := archAt_run hp (R := R') (t := t) fun n hn =>
        patched_defined hv (by omega)
      rw [run_patched (by omega)] at harch
      rw [← htw'.noMoreDslot] at hn
      rw [← htw'.saved] at hs
      have hport := port_of_ack hp (R := R') hn hs (by rw [hin]; exact ha)
      rw [harch, htw'.port, ← pc_next hv (by omega)] at hport
      rw [Frontend.icpuDat, Frontend.icpuDat]
      rcases hport with h | h
      · rw [h]
        exact (patched_of_lt (by omega)).symm
      · rw [h]
        exact (patched_of_lt (by omega)).symm
    have hnext : R'.state (t + 1) = (R'.state t).clk (patched imem (bytes m) N) (R.input t) := by
      rw [run_succ, hin]
    refine ⟨?_, ?_⟩
    · change Twin _ (R'.state (t + 1))
      rw [hnext, run_succ]
      exact htw'.clk (joined_run R t) (exBranchOp_of_compare R) hdat
    · rw [retired, retired, hret, hin, htw'.pl, htw'.freeze (joined_run R t) (joined_run R' t)]

/-- A core whose next instructions are valid shows the state of the instruction set. -/
theorem shows_executed (hN : retired R t + 2 < N) :
    Shows imem (R.state t) (Isa.run imem (bytes m) (retired R t)) := by
  obtain ⟨htw, hret⟩ := twin_run hv (R := R) t fun u hu => by
    have hle : retired R u ≤ retired R t := retired_mono hu.le
    omega
  have h := shows (patched_program hv) (R := replayRun (patched imem (bytes m) N) m R.input)
    (t := t) fun n hn => patched_defined hv (by omega)
  rw [hret, run_patched (by omega)] at h
  exact Twin.shows htw h (patched_of_lt (by omega))

/-- PROGRESS: valid instructions leave EX. -/
theorem retires_executed (hi : FetchAnswers R) (hd : DataAnswers R) {n : ℕ} (hn : n + 1 < N) :
    ∃ t, retired R t = n := by
  by_contra hno
  have hlt : ∀ t, retired R t < n := by
    intro t
    by_contra hge
    exact hno (retired_meets (Nat.le_of_not_lt hge))
  set R' := replayRun (patched imem (bytes m) N) m R.input
  have htw : ∀ t, Twin (R.state t) (R'.state t) ∧ retired R' t = retired R t := fun t =>
    twin_run hv t fun u _ => by
      have := hlt u
      omega
  have hin : ∀ t, R'.input t = R.input t := fun t => (htw t).1.masked (R.legal t)
  have hi' : FetchAnswers R' := by
    intro t hport
    rw [(htw t).1.port] at hport
    obtain ⟨u, hu, h⟩ := hi t hport
    refine ⟨u, hu, ?_⟩
    rw [hin, (htw u).1.icpuCycstbO]
    exact h
  have hd' : DataAnswers R' := by
    intro t hreq
    rw [hin, (htw t).1.pl] at hreq
    obtain ⟨u, hu, h⟩ := hd t hreq
    exact ⟨u, hu, by rw [hin]; exact h⟩
  obtain ⟨t, ht⟩ := retires (patched_program hv) hi' hd' n
  have := hlt t
  rw [← (htw t).2, ht] at this
  exact lt_irrefl n this

end Run

section Executes

variable {imem : Word → Insn} {m : BitVec 30 → BitVec 32} (R : (machine imem m).Run)

/-- The core executes the instruction set, if every instruction that is executed is valid: in every
    cycle its registers, carry, memory and, but for a compare that is still in EX, its flag are
    those of the program after the instructions that have left EX, and the instruction in EX is the
    next one. If the two ports answer, every instruction of the program is executed. -/
theorem executes_isa (hv : ∀ n, Valid (Isa.run imem (bytes m) n) imem) :
    (∀ t, Shows imem (R.state t) (Isa.run imem (bytes m) (retired R t))) ∧
      (FetchAnswers R → DataAnswers R → ∀ n, ∃ t, retired R t = n) :=
  ⟨fun _ => shows_executed (fun n _ => hv n) (Nat.lt_succ_self _),
    fun hi hd _ => retires_executed (fun n _ => hv n) hi hd (Nat.lt_succ_self _)⟩

end Executes

/-! Ports that answer at once. -/

def eager (s : Processor) : ProcessorIn where
  icpuAckI := s.fe.port.isSome
  dcpuAck := s.pl.lsu.dcpuCycstb false false
  dcpuDat := 0
  sprsDataout := 0
  supv := true
  epcr := 0

def eagerState (imem : Word → Insn) (m : BitVec 30 → BitVec 32) : ℕ → Processor
  | 0 => .reset m
  | t + 1 => (eagerState imem m t).clk imem (eager (eagerState imem m t))

section Eager

variable {imem : Word → Insn} (m : BitVec 30 → BitVec 32)

theorem eager_legal (s : Processor) : (machine imem m).legal s (eager s) :=
  ⟨fun h => Option.isSome_iff_ne_none.1 h, fun h => h⟩

def eagerRun (imem : Word → Insn) (m : BitVec 30 → BitVec 32) : (machine imem m).Run where
  state := eagerState imem m
  input t := eager (eagerState imem m t)
  start := rfl
  legal _ := eager_legal m _
  next _ := rfl

theorem eagerRun_fetch : FetchAnswers (eagerRun imem m) :=
  fun t h => ⟨t, le_rfl, .inl (Option.isSome_iff_ne_none.2 h)⟩

/-- A request that is answered at once is never seen waiting. -/
theorem eagerRun_data : DataAnswers (eagerRun imem m) := by
  intro t h
  change ((eagerState imem m t).pl.lsu.dcpuCycstb false
    ((eagerState imem m t).pl.lsu.dcpuCycstb false false)) = true at h
  cases hc : (eagerState imem m t).pl.lsu.dcpuCycstb false false with
  | true =>
    rw [hc] at h
    simp [Lsu.dcpuCycstb] at h
  | false =>
    rw [hc, hc] at h
    cases h

end Eager

/-! `l.addi r1,r0,7`, then `l.j 0` with `l.nop` in its delay slot for ever; all other words are
    `l.mfspr`, which is not modelled and not executed. -/

def idleProgram (a : Word) : Insn :=
  if a = bootAdr then 0x9c200007
  else if a = bootAdr + 1 then 0x00000000
  else if a = bootAdr + 2 then 0x15000000
  else 0xb5a00011

/-- The places of that program. -/
def Idle (A : State) : Prop :=
  A.arch = ⟨bootAdr, bootAdr + 1⟩ ∨ A.arch = ⟨bootAdr + 1, bootAdr + 2⟩ ∨
    A.arch = ⟨bootAdr + 2, bootAdr + 1⟩

/-- STEP. -/
theorem Idle.step {A : State} (h : Idle A) :
    Valid A idleProgram ∧ Idle (Isa.step A idleProgram) := by
  rcases h with h | h | h
  · have hop : decode (idleProgram A.arch.pc) = some (.arith .add 1 0 (.imm 7)) := by
      rw [h]
      rfl
    refine ⟨⟨⟨_, hop, by decide, by simp [Operation.access?], trivial⟩, ?_⟩, .inr (.inl ?_)⟩
    · rw [h]
      exact fun hb => absurd rfl hb
    · rw [step_of_decode hop]
      simp only [Operation.exec, Operation.target?, h]
      rfl
  · have hop : decode (idleProgram A.arch.pc) = some (.jump 0 false) := by
      rw [h]
      rfl
    refine ⟨⟨⟨_, hop, by decide, by simp [Operation.access?], trivial⟩, ?_⟩, .inr (.inr ?_)⟩
    · rw [h]
      exact fun _ => rfl
    · rw [step_of_decode hop]
      simp only [Operation.exec, Operation.target?, h]
      rfl
  · have hop : decode (idleProgram A.arch.pc) = some .nop := by
      rw [h]
      rfl
    refine ⟨⟨⟨_, hop, by decide, by simp [Operation.access?], trivial⟩, ?_⟩, .inr (.inl ?_)⟩
    · rw [h]
      exact fun hb => absurd rfl hb
    · rw [step_of_decode hop]
      simp only [Operation.exec, Operation.target?, h]
      rfl

/-- RUN. -/
theorem idle_run (m : BitVec 32 → BitVec 8) (n : ℕ) : Idle (Isa.run idleProgram m n) := by
  induction n with
  | zero => exact .inl rfl
  | succ n ih =>
    rw [run_next]
    exact ih.step.2

/-- At some time the loop has been gone round twice, and r1 is 7. -/
theorem executes_isa_idle : ∃ t, retired (eagerRun idleProgram fun _ => 0) t = 5 ∧
    ((eagerRun idleProgram fun _ => 0).state t).pl.ops.mem 1 = 7 := by
  obtain ⟨hsafe, hlive⟩ := executes_isa (eagerRun idleProgram fun _ => 0) fun n =>
    (idle_run _ n).step.1
  obtain ⟨t, ht⟩ := hlive (eagerRun_fetch _) (eagerRun_data _) 5
  refine ⟨t, ht, ?_⟩
  rw [(hsafe t).gpr 1 (by decide), ht]
  rfl

end Processor

end DsdOrsoc.Or1200
