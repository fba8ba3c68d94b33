import DsdOrsoc.Or1200.Execution

/-! The integer core over a memory of instructions: the step of `Execution` along whole runs, and
    that no instruction waits for ever if the two ports answer. -/

namespace DsdOrsoc.Or1200
open Schemes Lanes Isa

namespace Processor

variable {imem : Word → Insn} {m : BitVec 30 → BitVec 32} {R : (machine imem m).Run}

/-! ### Progress -/

section Progress

variable (R)

/-- The fetch port answers what it has accepted at some time, unless it is abandoned before. -/
def FetchAnswers : Prop :=
  ∀ t, (R.state t).fe.port ≠ none → ∃ u, t ≤ u ∧ ((R.input u).icpuAckI = true ∨
    (R.state u).fe.icpuCycstbO ((R.state u).frontendIn (R.input u)) = false)

/-- The data port answers every request at some time. -/
def DataAnswers : Prop :=
  ∀ t, (R.state t).pl.lsu.dcpuCycstb false (R.input t).dcpuAck = true →
    ∃ u, t < u ∧ (R.input u).dcpuAck = true

variable {R}
variable (hp : Isa.Program imem)
include hp

/-- The stalls of the stages behind end. -/
theorem stallsEnd (hd : DataAnswers R) : StallsEnd (frontendRun R) := by
  intro t
  by_contra hno
  push Not at hno
  have hst : ∀ u, t ≤ u → (R.state u).pl.lsu.lsuStall false (R.input u).dcpuAck = true ∨
      (R.state u).pl.mac.macStallR = true := by
    intro u hu
    refine or_iff_not_imp_left.2 fun hl => ?_
    exact Bool.eq_true_of_not_eq_false (hno u hu (Bool.eq_false_iff.2 hl))
  have hfr : ∀ u, t ≤ u → Frozen (pipelineRun R) u := by
    intro u hu
    change (R.state u).pl.freeze ((R.state u).pipelineIn imem (R.input u)) = true
    rcases hst u hu with h | h
    · have h' : (R.state u).pl.lsuStall ((R.state u).pipelineIn imem (R.input u)) = true := h
      simp [Pipeline.freeze, h']
    · simp [Pipeline.freeze, h]
  have hstay : ∀ u, t ≤ u → (R.state u).pl.exInsn = (R.state t).pl.exInsn := fun u hu =>
    stays (R := pipelineRun R) hu fun n h1 _ => hfr n h1
  cases hl : isLsu (R.state t).pl.exInsn with
  | true =>
    -- a load or store waits for its acknowledge only
    have hlsu : ∀ u, t ≤ u → (R.state u).pl.lsu.lsuStall false (R.input u).dcpuAck = true := by
      intro u hu
      refine (hst u hu).resolve_right fun hm => ?_
      have hdiv := isDiv_of_macStall hp hm
      rw [hstay u hu] at hdiv
      rw [isLsu, Pipeline.opcode_of_isDiv hdiv] at hl
      exact absurd hl (by decide)
    have hreq := hlsu t le_rfl
    rw [Lsu.lsuStall, Bool.and_eq_true] at hreq
    obtain ⟨u, hu, hack⟩ := hd t hreq.2
    have hcon := hlsu u hu.le
    rw [hack] at hcon
    cases hcon
  | false =>
    have hmac : ∀ u, t ≤ u → (R.state u).pl.mac.macStallR = true := by
      intro u hu
      refine (hst u hu).resolve_left fun hs => ?_
      have hnop := lsuOp_of_not_isLsu hl
      rw [← hstay u hu, ← (decoded R u).lsuOp] at hnop
      simp [Lsu.lsuStall, Lsu.dcpuCycstb, hnop] at hs
    -- a divide is worked off after 34 cycles
    have hdiv := isDiv_of_macStall hp (hmac t le_rfl)
    obtain ⟨a, hat, ha, hw⟩ := entered_ex (P := isDiv) (by decide) hdiv
    have hall : ∀ n, a ≤ n → Frozen (pipelineRun R) n := by
      intro n hn
      rcases Nat.lt_or_ge n t with h | h
      · exact hw n hn h
      · exact hfr n h
    have hdiva : isDiv ((pipelineRun R).state a).exInsn = true := stays hat hw ▸ hdiv
    have hwait := divide_waits ha hdiva (j := t + 34) fun n h1 _ => hall n h1
    have hcon := hmac (a + (t + 34) + 1) (by omega)
    have hoff : (R.state (a + (t + 34) + 1)).pl.mac.macStallR = false := hwait.macStallR (by omega)
    rw [hoff] at hcon
    cases hcon

omit hp in
/-- What has been delivered has left EX or is there. -/
theorem delivered_length (t : ℕ) : (delivered (frontendRun R) t).length =
    retired R t + if isVoid (R.state t).pl.exInsn then 0 else 1 := by
  induction t with
  | zero =>
    have hv : isVoid (R.state 0).pl.exInsn = true := by
      rw [run_zero]
      exact isVoid_nopFlushed
    simp [delivered, retired, hv]
  | succ t ih =>
    have hadv : ((frontendRun R).state t).advances ((frontendRun R).input t) =
        (!(R.state t).freeze imem (R.input t) && !isVoid (R.state t).pl.ops.idInsn) := advances_eq
    rw [delivered, hadv, retired, (latches_next t).2.2.2.1]
    cases (R.state t).freeze imem (R.input t) with
    | true => simpa using ih
    | false =>
      cases hi : isVoid (R.state t).pl.ops.idInsn <;> cases hv : isVoid (R.state t).pl.exInsn <;>
        simp [hi, hv] at ih ⊢ <;> omega

omit hp in
theorem retired_mono : Monotone (retired R) :=
  monotone_nat_of_le_succ fun _ => Nat.le_add_right _ _

omit hp in
/-- One instruction leaves EX at a time. -/
theorem retired_meets {n : ℕ} : ∀ {t : ℕ}, n ≤ retired R t → ∃ u, retired R u = n
  | 0, h => ⟨0, (Nat.le_zero.1 h).symm⟩
  | t + 1, h => by
    by_cases ht : n ≤ retired R t
    · exact retired_meets ht
    · refine ⟨t + 1, le_antisymm ?_ h⟩
      rw [retired]
      split <;> omega

/-- PROGRESS: every instruction leaves EX. -/
theorem retires (hi : FetchAnswers R) (hd : DataAnswers R) (n : ℕ) : ∃ t, retired R t = n := by
  obtain ⟨t, ht⟩ := delivered_unbounded (R := frontendRun R) hp.program hi (stallsEnd hp hd) (n + 1)
  rw [delivered_length] at ht
  refine retired_meets (t := t) ?_
  split at ht <;> omega

end Progress

/-! ### Execution -/

/-- What a program sees of the core. -/
structure Shows (imem : Word → Insn) (s : Processor) (A : State) : Prop where
  gpr : ∀ r, r ≠ 0 → s.pl.ops.mem r = A.gpr r
  carry : s.carry = A.cy
  mem : bytes s.mem = A.mem
  flag : s.pl.aluOp ≠ 13 → s.fe.flag = A.flag
  insn : isVoid s.pl.exInsn = false → s.exPc = A.arch.pc ∧ s.pl.exInsn = imem A.arch.pc

/-- A core whose program has been defined so far shows its state. -/
theorem shows (hp : Isa.Program imem) {t : ℕ}
    (hdef : ∀ n < retired R t, Isa.Defined (Isa.run imem (bytes m) n) imem) :
    Shows imem (R.state t) (Isa.run imem (bytes m) (retired R t)) := by
  have h := agrees_run hp (R := R) hdef
  refine ⟨fun r hr => ?_, h.carry, h.mem, h.flag, fun hv => ?_⟩
  · rw [← h.gpr]
    exact (forwards hp t).file r hr
  · rcases h.stage with ⟨hv', -⟩ | ⟨hin, ⟨op, hl⟩, -⟩
    · rw [hv] at hv'
      cases hv'
    · exact ⟨hl.pc, hin⟩

end Processor

end DsdOrsoc.Or1200
