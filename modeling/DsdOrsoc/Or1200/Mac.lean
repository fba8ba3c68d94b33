import DsdOrsoc.Or1200.Pipeline

/-! Multiply-accumulate instructions. The operation of the instruction in EX enters the pipeline of
    the multiply unit in every cycle, whether the instruction leaves EX or not, and its product
    comes through the register that the divider works in:

        EX        t                  : p0, r1 ◀ operands, mac_op
        frozen    t, t+1, ..., u     : one more accumulation for each cycle
        l.div     at t+1 or t+2      : mul_prod_r belongs to the divider in cycle t+3

    A multiply-accumulate instruction that leaves EX in its first cycle, with no divide behind it,
    accumulates once; l.macrc waits for the operations in flight. -/

namespace DsdOrsoc.Or1200
open Schemes

/-! ### The architecture -/

/-- The operations that change the accumulator: l.mac, l.maci and l.msb. -/
def Accumulates (op : BitVec 3) : Prop := op = macopMac ∨ op = macopMsb

instance Accumulates.decidable (op : BitVec 3) : Decidable (Accumulates op) :=
  inferInstanceAs (Decidable (op = macopMac ∨ op = macopMsb))

/-- What an operation adds to the accumulator. -/
def contribution (op : BitVec 3) (p : BitVec 64) : BitVec 64 :=
  if op = macopMac then p else if op = macopMsb then -p else 0

/-- An executed instruction with its operands. -/
structure Retired where
  insn : Insn
  a : BitVec 32
  b : BitVec 32

/-- The accumulator after one more instruction. -/
def accumulate (acc : BitVec 64) (x : Retired) : BitVec 64 :=
  if isMacrc x.insn then 0 else acc + contribution (macOp x.insn) (product x.a x.b)

/-- The sum of all multiply-accumulates since the last clear. -/
def macSum (xs : List Retired) : BitVec 64 := xs.foldl accumulate 0

/-! ### Runs -/

section Run
open Pipeline

variable (R : Pipeline.machine.Run)

/-- The instruction in EX with its operands. -/
def inEx (t : ℕ) : Retired where
  insn := (R.state t).exInsn
  a := (R.state t).ops.operandA
  b := (R.state t).ops.operandB

/-- The instructions that have left EX before cycle `t`, in program order. -/
def retired : ℕ → List Retired
  | 0 => []
  | t + 1 => if Frozen R t then retired t else retired t ++ [inEx R t]

/-- The accumulations are those of the executed instructions, each one three cycles after its
    instruction has left EX. -/
def AddsOnce : Prop :=
  ∀ t op, Accumulates op →
    ((R.state (t + 3)).mac.macOpR3 = op ↔ ¬ Frozen R t ∧ macOp (R.state t).exInsn = op)

/-- Each executed instruction accumulates its own product exactly once, nothing else changes the
    accumulator, and l.macrc returns the sum of the instructions before it and clears it. -/
structure MacExact : Prop where
  once : AddsOnce R
  early : ∀ t < 3, ¬ Accumulates (R.state t).mac.macOpR3
  amount : ∀ t, ¬ Frozen R t → Accumulates (macOp (R.state t).exInsn) →
    (R.state (t + 4)).mac.macR = (R.state (t + 3)).mac.macR +
      contribution (macOp (inEx R t).insn) (product (inEx R t).a (inEx R t).b)
  still : ∀ t, ¬ Accumulates (R.state t).mac.macOpR3 →
    ¬ (isMacrc (R.state t).exInsn = true ∧ ¬ Frozen R t) →
    (R.state (t + 1)).mac.macR = (R.state t).mac.macR
  macrc : ∀ t, ¬ Frozen R t → isMacrc (R.state t).exInsn = true →
    (R.state (t + 1)).mac.macR = 0 ∧
    (R.state (t + 1)).ops.mem (rfAddrw (R.state t).exInsn) =
      if rfAddrw (R.state t).exInsn = 0 then 0 else (macSum (retired R t)).setWidth 32

/-- A multiply-accumulate in EX leaves it in this cycle, no divide is in EX when one has been there
    two cycles before, and MACLO and MACHI are not written. -/
structure MacFlows (t : ℕ) : Prop where
  moves : Accumulates (macOp (R.state t).exInsn) → ¬ Frozen R t
  noDiv : Accumulates (R.state t).mac.macOpR2 → isDiv (R.state t).exInsn = false
  noSpr : (((R.state t).macIn (R.input t)).sprCs &&
    ((R.state t).macIn (R.input t)).sprWrite) = false

end Run

/-! ### One cycle -/

theorem contribution_of_not {op : BitVec 3} (h : ¬ Accumulates op) (p : BitVec 64) :
    contribution op p = 0 := by
  rw [Accumulates, not_or] at h
  rw [contribution, if_neg h.1, if_neg h.2]

theorem not_accumulates_zero : ¬ Accumulates 0 := by
  rintro (h | h) <;> cases h

section Decode

variable {insn : Insn}

theorem opcode_of_accumulates (h : Accumulates (macOp insn)) :
    opcode insn = 0b010011 ∨ opcode insn = 0b110001 := by
  by_contra hn
  rw [not_or] at hn
  rw [macOp, if_neg hn.1, if_neg hn.2] at h
  exact not_accumulates_zero h

theorem macOp_of_isMacrc (h : isMacrc insn = true) : macOp insn = 0 := by
  simp only [isMacrc, Bool.and_eq_true, decide_eq_true_eq] at h
  simp [macOp, h.1, macopNop]

end Decode

namespace MultMac

variable {s : MultMac} {i : MultMacIn}

/-- Without a write to it and without l.macrc, the accumulator takes the product in flight. -/
theorem macNext_eq (hspr : (i.sprCs && i.sprWrite) = false)
    (hrc : (i.macrcOp && !i.exFreeze) = false) :
    s.macNext i = s.macR + contribution s.macOpR3 s.mulProdR := by
  simp only [macNext, MultMacIn.sprMacloWe, MultMacIn.sprMachiWe, hspr, hrc, Bool.false_and,
    Bool.false_eq_true, if_false, contribution]
  split_ifs
  · rfl
  · exact BitVec.sub_eq_add_neg _ _
  · exact (BitVec.add_zero _).symm

/-- An operation in EX sustains the stall of l.macrc. -/
theorem clk_stall (hop : i.macOp ≠ 0) (h : i.idMacrcOp = true ∨ s.macStallR = true) :
    (s.clk i).macStallR = true := by
  have h' : (i.idMacrcOp || s.macStallR) = true := by simpa using h
  simp only [clk, decide_eq_true hop, h', Bool.true_or, Bool.and_true]

theorem macNext_clear (hspr : (i.sprCs && i.sprWrite) = false)
    (hrc : (i.macrcOp && !i.exFreeze) = true) (hr3 : s.macOpR3 = 0) : s.macNext i = 0 := by
  simp [macNext, MultMacIn.sprMacloWe, MultMacIn.sprMachiWe, hspr, hrc, hr3, macopMac, macopMsb]

end MultMac

namespace Pipeline

variable {s : Pipeline} {i : PipelineIn}

theorem clk_mac : (s.clk i).mac = s.mac.clk (s.macIn i) := rfl

/-- The product of a multiply-accumulate is that of its operands. -/
theorem Decoded.clk_p0 (h : Decoded s) (hop : Accumulates (Or1200.macOp s.exInsn)) :
    (s.clk i).mac.p0 = product s.ops.operandA s.ops.operandB := by
  have hdiv : (s.macIn i).aluOpDiv = false := by
    have halu : (s.macIn i).aluOp = Or1200.aluOp s.exInsn := h.aluOp
    rw [MultMacIn.aluOpDiv, halu]
    rcases opcode_of_accumulates hop with hop | hop <;> simp [Or1200.aluOp, hop, aluopNop, aluopDiv]
  rw [clk_mac]
  simp only [MultMac.clk, MultMacIn.x, MultMacIn.y, hdiv, Bool.false_and, Bool.false_eq_true,
    if_false]
  rfl

/-- INVARIANT: when the multiply unit does not stall an l.macrc in EX, nothing is in flight. -/
def Drained (s : Pipeline) : Prop :=
  isMacrc s.exInsn = true → s.mac.macStallR = false →
    s.mac.macOpR1 = 0 ∧ s.mac.macOpR2 = 0 ∧ s.mac.macOpR3 = 0

/-- STEP: l.macrc in ID, or stalled in EX, looks at everything that will be in flight. -/
theorem Drained.clk (h : Drained s) (hd : Decoded s) (i : PipelineIn) : Drained (s.clk i) := by
  intro hrc hst
  have hempty : (isMacrc s.ops.idInsn = true ∨ s.mac.macStallR = true) →
      s.exMacOp = 0 ∧ s.mac.macOpR1 = 0 ∧ s.mac.macOpR2 = 0 := by
    intro hor
    have hlook : (isMacrc s.ops.idInsn || s.mac.macStallR) = true := by simpa using hor
    have hst' : ((decide (s.exMacOp ≠ 0) || decide (s.mac.macOpR1 ≠ 0) ||
        decide (s.mac.macOpR2 ≠ 0)) && (isMacrc s.ops.idInsn || s.mac.macStallR) ||
        decide (s.mac.divCntr ≠ 0)) = false := hst
    simp only [hlook, Bool.and_true, Bool.or_eq_false_iff, decide_eq_false_iff_not, not_not] at hst'
    exact ⟨hst'.1.1.1, hst'.1.1.2, hst'.1.2⟩
  rw [clk_exInsn] at hrc
  suffices h0 : s.exMacOp = 0 ∧ s.mac.macOpR1 = 0 ∧ s.mac.macOpR2 = 0 from h0
  split at hrc
  · cases hs : s.mac.macStallR with
    | true => exact hempty (.inr hs)
    | false =>
      obtain ⟨h1, h2, -⟩ := h hrc hs
      exact ⟨hd.macOp.trans (macOp_of_isMacrc hrc), h1, h2⟩
  · exact hempty (.inl hrc)

end Pipeline

/-! ### All cycles -/

section Correct
open Pipeline

variable {R : Pipeline.machine.Run} {t : ℕ}

theorem drained_run (R : Pipeline.machine.Run) (t : ℕ) : Drained (R.state t) := by
  induction t with
  | zero =>
    rw [show R.state 0 = reset from R.start]
    exact fun _ _ => ⟨rfl, rfl, rfl⟩
  | succ t ih =>
    rw [pipeline_succ]
    exact ih.clk (decoded_run R t) _

theorem macOpR1_succ (R : Pipeline.machine.Run) (t : ℕ) :
    (R.state (t + 1)).mac.macOpR1 = macOp (R.state t).exInsn := by
  rw [pipeline_succ]
  exact (decoded_run R t).macOp

theorem macOpR2_succ (R : Pipeline.machine.Run) (t : ℕ) :
    (R.state (t + 1)).mac.macOpR2 = (R.state t).mac.macOpR1 := by
  rw [pipeline_succ]
  rfl

/-- The operation of the instruction in EX arrives three cycles later. -/
theorem macOpR3_add_three (R : Pipeline.machine.Run) (t : ℕ) :
    (R.state (t + 3)).mac.macOpR3 = macOp (R.state t).exInsn := by
  rw [pipeline_succ R (t + 2)]
  exact (macOpR2_succ R (t + 1)).trans (macOpR1_succ R t)

theorem adds_once_iff (R : Pipeline.machine.Run) :
    AddsOnce R ↔ ∀ t, Accumulates (macOp (R.state t).exInsn) → ¬ Frozen R t := by
  constructor
  · intro h t hop
    exact ((h t _ hop).1 (macOpR3_add_three R t)).1
  · intro h t op hop
    rw [macOpR3_add_three]
    constructor
    · rintro rfl
      exact ⟨h t hop, rfl⟩
    · exact And.right

/-- A multiply-accumulate that is held in EX with l.macrc in ID never leaves: it is itself what the
    multiply unit waits for. -/
theorem held_for_ever (hop : macOp (R.state t).exInsn ≠ 0)
    (hrc : isMacrc (R.state t).ops.idInsn = true) (hf : Frozen R t) {u : ℕ} (hu : t ≤ u) :
    Frozen R u ∧ (R.state u).exInsn = (R.state t).exInsn := by
  have hmac : ∀ u, (R.state u).exInsn = (R.state t).exInsn →
      ((R.state u).macIn (R.input u)).macOp ≠ 0 := by
    intro u hex
    rw [show ((R.state u).macIn (R.input u)).macOp = _ from (decoded_run R u).macOp, hex]
    exact hop
  have hstall : ∀ u, t + 1 ≤ u → (R.state u).exInsn = (R.state t).exInsn ∧
      (R.state u).mac.macStallR = true := by
    intro u hu
    induction u, hu using Nat.le_induction with
    | base =>
      refine ⟨hf.exInsn, ?_⟩
      rw [pipeline_succ]
      exact MultMac.clk_stall (hmac t rfl) (.inl hrc)
    | succ u hu ih =>
      obtain ⟨hex, hst⟩ := ih
      have hfu : Frozen R u := by rw [Frozen, freeze, hst, Bool.or_true]
      refine ⟨hfu.exInsn.trans hex, ?_⟩
      rw [pipeline_succ]
      exact MultMac.clk_stall (hmac u hex) (.inr hst)
  rcases Nat.eq_or_lt_of_le hu with rfl | hu
  · exact ⟨hf, rfl⟩
  · obtain ⟨hex, hst⟩ := hstall u hu
    exact ⟨by rw [Frozen, freeze, hst, Bool.or_true], hex⟩

theorem not_accumulates_early (ht : t < 3) : ¬ Accumulates (R.state t).mac.macOpR3 := by
  have h0 : R.state 0 = reset := R.start
  have hr3 : (R.state t).mac.macOpR3 = 0 := by
    interval_cases t
    · rw [h0]; rfl
    · rw [pipeline_succ, h0]; rfl
    · rw [pipeline_succ, pipeline_succ, h0]; rfl
  rw [hr3]
  exact not_accumulates_zero

section Flows

variable (h : ∀ t, MacFlows R t)
include h

/-- A product in flight reaches the product register. -/
theorem takes_product (hop : Accumulates (R.state t).mac.macOpR2) :
    (R.state (t + 1)).mac.mulProdR = (R.state t).mac.p1 := by
  rw [pipeline_succ]
  exact MultMac.clk_mulProdR
    ((divides_run R t).takesProduct (decoded_run R t) ((h t).noDiv hop))

theorem contribution_r3_succ :
    contribution (R.state (t + 1)).mac.macOpR3 (R.state (t + 1)).mac.mulProdR =
      contribution (R.state t).mac.macOpR2 (R.state t).mac.p1 := by
  rw [show (R.state (t + 1)).mac.macOpR3 = (R.state t).mac.macOpR2 by rw [pipeline_succ]; rfl]
  by_cases hop : Accumulates (R.state t).mac.macOpR2
  · rw [takes_product h hop]
  · rw [contribution_of_not hop, contribution_of_not hop]

omit h in
theorem contribution_r2_succ :
    contribution (R.state (t + 1)).mac.macOpR2 (R.state (t + 1)).mac.p1 =
      contribution (R.state t).mac.macOpR1 (R.state t).mac.p0 := by
  rw [pipeline_succ]
  rfl

omit h in
theorem contribution_r1_succ :
    contribution (R.state (t + 1)).mac.macOpR1 (R.state (t + 1)).mac.p0 =
      contribution (macOp (inEx R t).insn) (product (inEx R t).a (inEx R t).b) := by
  rw [macOpR1_succ]
  by_cases hop : Accumulates (macOp (R.state t).exInsn)
  · rw [pipeline_succ, (decoded_run R t).clk_p0 hop]
    rfl
  · rw [contribution_of_not hop, inEx, contribution_of_not hop]

/-- The accumulator takes the operation that has arrived, unless l.macrc leaves EX. -/
theorem macR_succ (hrc : ¬ (isMacrc (R.state t).exInsn = true ∧ ¬ Frozen R t)) :
    (R.state (t + 1)).mac.macR = (R.state t).mac.macR +
      contribution (R.state t).mac.macOpR3 (R.state t).mac.mulProdR := by
  rw [pipeline_succ]
  refine MultMac.macNext_eq (h t).noSpr ?_
  have hin : ((R.state t).macIn (R.input t)).macrcOp = isMacrc (R.state t).exInsn :=
    (decoded_run R t).macrcOp
  rw [hin, macIn_exFreeze, Bool.eq_false_iff]
  intro hc
  rw [Bool.and_eq_true, Bool.not_eq_true'] at hc
  exact hrc ⟨hc.1, by simpa [Frozen] using hc.2⟩

/-- l.macrc leaves EX when everything has arrived, and clears the accumulator. -/
theorem macrc_clears (hrc : isMacrc (R.state t).exInsn = true) (hf : ¬ Frozen R t) :
    (R.state t).mac.macOpR1 = 0 ∧ (R.state t).mac.macOpR2 = 0 ∧ (R.state t).mac.macOpR3 = 0 ∧
    (R.state (t + 1)).mac.macR = 0 := by
  have hf' : (R.state t).freeze (R.input t) = false := by simpa [Frozen] using hf
  obtain ⟨h1, h2, h3⟩ := drained_run R t hrc (not_frozen hf').2
  refine ⟨h1, h2, h3, ?_⟩
  rw [pipeline_succ]
  refine MultMac.macNext_clear (h t).noSpr ?_ h3
  have hin : ((R.state t).macIn (R.input t)).macrcOp = isMacrc (R.state t).exInsn :=
    (decoded_run R t).macrcOp
  rw [hin, macIn_exFreeze, hrc, hf']
  rfl

/-- INVARIANT: the sum of the executed instructions is the accumulator and what is in flight. -/
theorem macSum_retired (t : ℕ) :
    macSum (retired R t) = (R.state t).mac.macR +
      contribution (R.state t).mac.macOpR3 (R.state t).mac.mulProdR +
      contribution (R.state t).mac.macOpR2 (R.state t).mac.p1 +
      contribution (R.state t).mac.macOpR1 (R.state t).mac.p0 := by
  induction t with
  | zero =>
    rw [show R.state 0 = reset from R.start]
    rfl
  | succ t ih =>
    rw [contribution_r3_succ h, contribution_r2_succ, contribution_r1_succ, retired]
    by_cases hf : Frozen R t
    · -- nothing is executed, and the operation in EX is not a multiply-accumulate
      have hop : ¬ Accumulates (macOp (inEx R t).insn) := fun hop => (h t).moves hop hf
      rw [if_pos hf, ih, macR_succ h fun hc => hc.2 hf, contribution_of_not hop]
      exact (BitVec.add_zero _).symm
    · rw [if_neg hf, macSum, List.foldl_append, List.foldl_cons, List.foldl_nil, ← macSum,
        accumulate]
      by_cases hrc : isMacrc (inEx R t).insn = true
      · obtain ⟨h1, h2, h3, hclear⟩ := macrc_clears h hrc hf
        have hop : ¬ Accumulates (macOp (inEx R t).insn) := by
          rw [show macOp (inEx R t).insn = 0 from macOp_of_isMacrc hrc]
          exact not_accumulates_zero
        rw [if_pos hrc, hclear, h1, h2, contribution_of_not hop,
          contribution_of_not not_accumulates_zero, contribution_of_not not_accumulates_zero]
        rfl
      · rw [if_neg hrc, ih, macR_succ h fun hc => hrc hc.1]

/-- Everything has arrived when l.macrc leaves EX: the accumulator is the sum. -/
theorem macR_of_macrc (hrc : isMacrc (R.state t).exInsn = true) (hf : ¬ Frozen R t) :
    (R.state t).mac.macR = macSum (retired R t) := by
  obtain ⟨h1, h2, h3, -⟩ := macrc_clears h hrc hf
  have h0 : ∀ p, contribution 0 p = 0#64 := contribution_of_not not_accumulates_zero
  rw [macSum_retired h, h1, h2, h3, h0, h0, h0, BitVec.add_zero, BitVec.add_zero, BitVec.add_zero]

theorem macExact_of_flows : MacExact R where
  once := (adds_once_iff R).2 fun t => (h t).moves
  early _ ht := not_accumulates_early ht
  amount t _ hop := by
    have hnot : ¬ (isMacrc (R.state (t + 3)).exInsn = true ∧ ¬ Frozen R (t + 3)) := by
      rintro ⟨hrc, hf⟩
      have h3 := (macrc_clears h hrc hf).2.2.1
      rw [macOpR3_add_three] at h3
      rw [h3] at hop
      exact not_accumulates_zero hop
    rw [macR_succ h hnot, contribution_r3_succ h, contribution_r2_succ, contribution_r1_succ]
  still t hop hrc := by
    rw [macR_succ h hrc, contribution_of_not hop]
    exact BitVec.add_zero _
  macrc t hf hrc := by
    have hd := decoded_run R t
    have hf' : (R.state t).freeze (R.input t) = false := by simpa [Frozen] using hf
    refine ⟨(macrc_clears h hrc hf).2.2.2, ?_⟩
    have hop : opcode (R.state t).exInsn = 0b000110 := by
      simp only [isMacrc, Bool.and_eq_true, decide_eq_true_eq] at hrc
      exact hrc.1
    have hwb : rfwbOp (R.state t).exInsn = .alu := by simp [rfwbOp, hop]
    have halu : (R.state t).aluOp = aluopMovhi := by simp [hd.aluOp, aluOp, hop]
    rw [pipeline_succ, hd.clk_mem hf' (by rw [hwb]; rfl), Operands.muxout, hd.rfwbOp, hwb]
    congr 1
    rw [← macR_of_macrc h hrc hf]
    simp only [opsIn, aluDataout, multMacResult, MultMac.result, halu, hd.macrcOp, hrc, if_true]
    rfl

end Flows

variable (R) in
/-- The accumulations are those of the executed instructions if and only if no multiply-accumulate
    is held in EX; and if moreover no divide comes into the way of a product and the accumulator is
    not written otherwise, products, sums and clears are those of the program. -/
theorem mac_exact_iff :
    (AddsOnce R ↔ ∀ t, Accumulates (macOp (R.state t).exInsn) → ¬ Frozen R t) ∧
    ((∀ t, MacFlows R t) → MacExact R) :=
  ⟨adds_once_iff R, macExact_of_flows⟩

end Correct

/-! ### One l.maci -/

/-- l.addi r1,r0,3, l.maci r1,5 and one more instruction; the fetch may stall in cycle 3, with
    l.maci in EX. -/
def macInput (stall : Bool) (last : Insn) (t : ℕ) : PipelineIn where
  ifInsn :=
    if t = 0 then 0x9C200003
    else if t = 1 then 0x4C010005
    else if t = 2 then last
    else 0x15000000
  ifStall := stall && decide (t = 3)
  dcpuAck := false
  dcpuDat := 0
  aluOther := 3
  sprsDataout := 0
  exPc := 0
  supv := true

def macRun (stall : Bool) (last : Insn) : Pipeline.machine.Run :=
  .ofInput Pipeline.reset (macInput stall last) rfl fun _ => trivial

/-- l.maci r1,5, l.macrc r2, l.div r2,r1,r1 and l.nop. -/
def maciInsn : Insn := 0x4C010005

def macrcInsn : Insn := 0x18410000

def divInsn : Insn := 0xE0410B09

def nopInsn : Insn := 0x15000000

/-- After the last instruction only l.nop comes. -/
theorem macInput_tail (stall : Bool) (last : Insn) {t : ℕ} (ht : 3 ≤ t) :
    ((macRun stall last).input t).ifInsn = nopInsn := by
  have h0 : ¬ t = 0 := by omega
  have h1 : ¬ t = 1 := by omega
  have h2 : ¬ t = 2 := by omega
  simp only [macRun, Machine.Run.ofInput, macInput, h0, h1, h2, if_false]
  rfl

theorem macRun_tail {t : ℕ} (ht : 8 ≤ t) :
    ((macRun false macrcInsn).state t).ops.idInsn = nopInsn ∧
    ((macRun false macrcInsn).state t).exInsn = nopInsn := by
  induction t, ht using Nat.le_induction with
  | base => decide
  | succ t ht ih =>
    rw [pipeline_succ, Pipeline.clk_idInsn, Pipeline.clk_exInsn,
      macInput_tail false macrcInsn (show 3 ≤ t by omega), ih.1, ih.2, ite_self]
    exact ⟨rfl, rfl⟩

theorem macRun_flows (t : ℕ) : MacFlows (macRun false macrcInsn) t := by
  obtain ⟨hspr, hdiv⟩ : opcode ((macRun false macrcInsn).state t).exInsn ≠ 0b110000 ∧
      isDiv ((macRun false macrcInsn).state t).exInsn = false := by
    rcases Nat.lt_or_ge t 8 with ht | ht
    · interval_cases t <;> decide
    · rw [(macRun_tail ht).2]
      decide
  refine ⟨fun hop => ?_, fun _ => hdiv, ?_⟩
  · rcases Nat.lt_or_ge t 8 with ht | ht
    · revert hop
      interval_cases t <;> decide
    · rw [(macRun_tail ht).2] at hop
      exact absurd hop (by decide)
  · have hwe := Pipeline.sprWe_opsIn (s := (macRun false macrcInsn).state t)
      (i := (macRun false macrcInsn).input t)
    rw [(decoded_run _ t).sprWrite, decide_eq_false hspr] at hwe
    exact Bool.and_eq_false_iff.2 (.inr hwe)

/-- Without the stall l.macrc returns the product. -/
theorem mac_exact_iff_macrc :
    MacExact (macRun false macrcInsn) ∧ ((macRun false macrcInsn).state 8).ops.mem 2 = 15 :=
  ⟨(mac_exact_iff _).2 macRun_flows, by decide⟩

/-- Held in EX for one cycle, l.maci accumulates twice. With l.macrc behind it, it is held for ever
    and accumulates in every cycle. A divide behind it puts its own bits in the place of the
    product. -/
theorem mac_not_exact :
    (Passes (macRun true nopInsn) 3 4 ∧ ((macRun true nopInsn).state 3).exInsn = maciInsn ∧
      ((macRun true nopInsn).state 9).mac.macR = 30 ∧ ¬ AddsOnce (macRun true nopInsn)) ∧
    ((∀ t, 3 ≤ t → Frozen (macRun true macrcInsn) t ∧
        ((macRun true macrcInsn).state t).exInsn = maciInsn) ∧
      ((macRun true macrcInsn).state 9).mac.macR = 45) ∧
    (Passes (macRun false divInsn) 3 3 ∧ ((macRun false divInsn).state 3).exInsn = maciInsn ∧
      product (inEx (macRun false divInsn) 3).a (inEx (macRun false divInsn) 3).b = 15 ∧
      ((macRun false divInsn).state 6).mac.macR = 0 ∧
      ((macRun false divInsn).state 7).mac.macR = 12) := by
  refine ⟨⟨⟨⟨2, rfl, by decide⟩, by decide, fun n h1 h2 => ?_, by decide⟩, by decide, by decide,
    fun h => ?_⟩, ⟨fun t ht => ?_, by decide⟩, ⟨⟨2, rfl, by decide⟩, by decide, fun n h1 h2 => ?_,
    by decide⟩, by decide, by decide, by decide, by decide⟩
  · obtain rfl : n = 3 := by omega
    decide
  · exact absurd ((adds_once_iff _).1 h 3 (by decide)) (by decide)
  · obtain ⟨hf, hex⟩ := held_for_ever (R := macRun true macrcInsn) (t := 3) (by decide) (by decide)
      (by decide) ht
    exact ⟨hf, hex.trans (by decide)⟩
  · omega

end DsdOrsoc.Or1200
