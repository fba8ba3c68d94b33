import DsdOrsoc.Or1200.Division

/-! l.mul, l.muli and l.mulu. The multiplier runs freely; an instruction that stays in EX for its
    three multicycles finds its product in the product register when it may leave:

        cycle       a       a+1     a+2     a+3
        multicycle  3       2       1       0
                    x, y ─▶ p0 ───▶ p1 ───▶ mul_prod_r

    The divider, which shares that register, is free as soon as another instruction is in EX. l.mulu
    is given its three cycles by the control unit, but the multiply unit does not know its code and
    puts out the accumulator. -/

namespace DsdOrsoc.Or1200
open Schemes

/-- l.mul and l.muli. -/
def isMul (insn : Insn) : Bool := isAlu 6 insn || decide (opcode insn = 0b101100)

def isMulu (insn : Insn) : Bool := isAlu 11 insn

theorem aluOp_of_isMul {insn : Insn} (h : isMul insn = true) : aluOp insn = aluopMul := by
  rw [isMul, Bool.or_eq_true] at h
  rcases h with h | h
  · exact aluOp_of_isAlu h
  · rw [decide_eq_true_eq] at h
    simp [aluOp, h]

theorem aluOp_of_isMulu {insn : Insn} (h : isMulu insn = true) : aluOp insn = 11 :=
  aluOp_of_isAlu h

/-- A multiplication takes three more cycles. -/
theorem multicycle_of_isMul {insn : Insn} (h : isMul insn = true ∨ isMulu insn = true) :
    multicycle insn = 3 := by
  simp only [isMul, isMulu, isAlu, Bool.or_eq_true, Bool.and_eq_true, decide_eq_true_eq] at h
  rcases h with (⟨hop, hn⟩ | hop) | ⟨hop, hn⟩
  · simp [multicycle, hop, hn]
  · simp [multicycle, hop]
  · simp [multicycle, hop, hn]

/-- The low word of the signed product is that of the unsigned one. -/
theorem product_low (x y : BitVec 32) : (product x y).setWidth 32 = x * y := by
  have hlow (z : BitVec 32) : (z.signExtend 64).setWidth 32 = z := by
    apply BitVec.eq_of_getLsbD_eq
    intro k hk
    rw [BitVec.getLsbD_setWidth, BitVec.getLsbD_signExtend]
    simp [hk, show k < 64 by omega]
  rw [product, BitVec.setWidth_mul _ _ (by omega), hlow, hlow]

section Run
open Pipeline

variable {R : Pipeline.machine.Run} {a b t : ℕ}

/-- EX is held while the counter runs. -/
theorem frozen_of_multicycleCnt (h : (R.state t).multicycleCnt ≠ 0) : Frozen R t := by
  rw [Frozen, freeze, decide_eq_true h, Bool.or_true, Bool.true_or]

/-- An instruction enters EX with its counter loaded. -/
theorem EntersEx.multicycleCnt (ha : EntersEx R a) :
    (R.state a).multicycleCnt = multicycle (R.state a).exInsn := by
  obtain ⟨n, rfl, hn⟩ := ha
  have hf : (R.state n).freeze (R.input n) = false := by simpa [Frozen] using hn
  rw [pipeline_succ, clk_multicycleCnt, clk_exInsn, (not_frozen hf).1, hf]
  simp only [ne_eq, not_true_eq_false, if_false, and_true, Bool.false_eq_true]
  split
  · rfl
  · next h => exact (not_not.1 h).symm

theorem multicycleCnt_next {n : ℕ} (h : (R.state t).multicycleCnt.toNat = n + 1) :
    (R.state (t + 1)).multicycleCnt.toNat = n := by
  have hne : (R.state t).multicycleCnt ≠ 0 := by
    rintro h0
    rw [h0] at h
    cases h
  rw [pipeline_succ, clk_multicycleCnt, if_pos hne]
  have := toNat_sub_one hne
  omega

/-- A multiplication stays in EX for at least three cycles. -/
theorem Passes.three_cycles (h : Passes R a b)
    (hm : multicycle (R.state a).exInsn = 3) : a + 3 ≤ b := by
  have h0 : (R.state a).multicycleCnt.toNat = 2 + 1 := by rw [h.enters.multicycleCnt, hm]; rfl
  have h1 := multicycleCnt_next h0
  have h2 := multicycleCnt_next h1
  have hfr : ∀ t n, (R.state t).multicycleCnt.toNat = n + 1 → b ≠ t := by
    rintro t n hn rfl
    exact h.leaves (frozen_of_multicycleCnt fun h0 => by rw [h0] at hn; cases hn)
  have := h.le
  have := hfr _ _ h0
  have := hfr _ _ h1
  have := hfr _ _ h2
  omega

/-- The stages of the multiplier. -/
theorem mulProdR_of_waits {n : ℕ}
    (hdiv : ∀ m, n ≤ m → m ≤ n + 2 → isDiv (R.state m).exInsn = false) :
    (R.state (n + 3)).mac.mulProdR =
      product (R.state n).ops.operandA (R.state n).ops.operandB := by
  have h3 : (R.state (n + 3)).mac.mulProdR = (R.state (n + 2)).mac.p1 := by
    rw [pipeline_succ]
    exact MultMac.clk_mulProdR ((divides_run R _).takesProduct (decoded_run R _)
      (hdiv _ (by omega) le_rfl))
  have h2 : (R.state (n + 2)).mac.p1 = (R.state (n + 1)).mac.p0 := by
    rw [pipeline_succ]
    rfl
  have h1 : (R.state (n + 1)).mac.p0 = product (R.state n).dividend (R.state n).divisor := by
    rw [pipeline_succ]
    rfl
  have hop : (R.state n).aluOp ≠ aluopDiv := by
    have := hdiv n le_rfl (by omega)
    rw [(decoded_run R n).aluOp]
    rintro h
    simp [isDiv, h] at this
  rw [h3, h2, h1]
  simp [dividend, divisor, hop]

/-- When a multiplication leaves EX the product register holds its product. -/
theorem Passes.mulProdR (h : Passes R a b)
    (hm : isMul (R.state a).exInsn = true ∨ isMulu (R.state a).exInsn = true) :
    (R.state b).mac.mulProdR =
      product (R.state a).ops.operandA (R.state a).ops.operandB := by
  have h3 := h.three_cycles (multicycle_of_isMul hm)
  have hdiv : isDiv (R.state a).exInsn = false := by
    rcases hm with hm | hm
    · rw [isDiv, aluOp_of_isMul hm]
      decide
    · rw [isDiv, aluOp_of_isMulu hm]
      decide
  obtain ⟨n, rfl⟩ : ∃ n, b = n + 3 := ⟨b - 3, by omega⟩
  obtain ⟨hA, hB⟩ := stays_operands (b := n) (by omega) fun m h1 h2 => h.waits m h1 (by omega)
  rw [mulProdR_of_waits, hA, hB]
  intro m h1 h2
  rw [stays (by omega) fun k h4 h5 => h.waits k h4 (by omega), hdiv]

/-- l.mul and l.muli deliver the low word of the product of their own operands, whatever was in EX
    before and however long the pipeline stalls; l.mulu delivers the accumulator. -/
theorem mul_correct_iff (h : Passes R a b)
    (hm : isMul (R.state a).exInsn = true ∨ isMulu (R.state a).exInsn = true) :
    (R.state b).multMacResult = (R.state a).ops.operandA * (R.state a).ops.operandB ↔
      isMul (R.state a).exInsn = true ∨
        (R.state b).mac.macR.setWidth 32 =
          (R.state a).ops.operandA * (R.state a).ops.operandB := by
  have hp := h.mulProdR hm
  have halu : (R.state b).aluOp = aluOp (R.state a).exInsn := by
    rw [(decoded_run R b).aluOp, stays h.le h.waits]
  rcases hm with hm | hm
  · refine iff_of_true ?_ (.inl hm)
    rw [multMacResult, MultMac.result, halu, aluOp_of_isMul hm, if_neg (by decide),
      if_neg (by decide), if_pos rfl, hp, product_low]
  · have hn : isMul (R.state a).exInsn ≠ true := fun h' =>
      absurd ((aluOp_of_isMul h').symm.trans (aluOp_of_isMulu hm)) (by decide)
    rw [multMacResult, MultMac.result, halu, aluOp_of_isMulu hm, if_neg (by decide),
      if_neg (by decide), if_neg (by decide), or_iff_right hn]

/-- l.mul r3,r1,r2 with 7 and -3. -/
theorem mul_correct_iff_negative : Passes (arithRun 0xE0611306 7 (-3)) 4 7 ∧
    ((arithRun 0xE0611306 7 (-3)).state 7).multMacResult = -21 := by
  have h : Passes (arithRun 0xE0611306 7 (-3)) 4 7 := by
    refine ⟨⟨3, rfl, by decide⟩, by decide, fun n h1 h2 => ?_, by decide⟩
    interval_cases n <;> decide
  exact ⟨h, ((mul_correct_iff h (.inl (by decide))).2 (.inl (by decide))).trans (by decide)⟩

/-- l.mulu r3,r1,r2 with 3 and 5 delivers the empty accumulator. -/
theorem mulu_not_multiplied : Passes (arithRun 0xE061130B 3 5) 4 7 ∧
    isMulu ((arithRun 0xE061130B 3 5).state 4).exInsn = true ∧
    ((arithRun 0xE061130B 3 5).state 4).ops.operandA = 3 ∧
    ((arithRun 0xE061130B 3 5).state 4).ops.operandB = 5 ∧
    ((arithRun 0xE061130B 3 5).state 7).multMacResult = 0 := by
  refine ⟨⟨⟨3, rfl, by decide⟩, by decide, fun n h1 h2 => ?_, by decide⟩, by decide, by decide,
    by decide, by decide⟩
  interval_cases n <;> decide

end Run

end DsdOrsoc.Or1200
