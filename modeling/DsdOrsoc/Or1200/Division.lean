import DsdOrsoc.Or1200.Pipeline
import DsdOrsoc.Schemes.Bits
import DsdOrsoc.Schemes.Progress
import DsdOrsoc.Schemes.ShiftSubtract

/-! l.div and l.divu. The divider of `or1200_mult_mac` is the shift-subtract scheme in the product
    register, with one economy: whether the divisor goes is read from the sign of a 32-bit
    difference.

        cycle        a     a+1   a+2   ...   a+33   a+34
        div_cntr     0     32    31          0      0
        multicycle   2     1     0           0      0
        mac_stall    .     .     1           1      0     ─ EX may move

    The sign tells the truth while dividend and divisor are less than 2 ^ 31 apart. Absolute values
    are; a divisor of l.divu above 2 ^ 31 is not, and its quotient starts with a wrong bit. -/

namespace DsdOrsoc.Or1200
open Schemes

/-! ### The shift register -/

/-- The product register when a division starts. -/
def divLoad (x : BitVec 32) : BitVec 64 := 0#31 ++ x ++ 0#1

/-- The product register after one step. -/
def divStep (y : BitVec 32) (p : BitVec 64) : BitVec 64 :=
  if (p.extractLsb' 32 32 - y).getLsbD 31 then p.extractLsb' 0 63 ++ 0#1
  else (p.extractLsb' 32 32 - y).extractLsb' 0 31 ++ p.extractLsb' 0 32 ++ 1#1

/-- The low half of the product register after 32 steps. -/
def divQuotient (x y : BitVec 32) : BitVec 32 := ((divStep y)^[32] (divLoad x)).setWidth 32

/-- The sign of a difference tells the smaller number if the two are not far apart. -/
theorem sub_sign {t y : BitVec 32} :
    ((t - y).getLsbD 31 = true ↔ t.toNat < y.toNat) ↔
      y.toNat ≤ t.toNat + 2 ^ 31 ∧ t.toNat < y.toNat + 2 ^ 31 := by
  have ht := t.isLt
  have hy := y.isLt
  have hm : (t - y).getLsbD 31 = decide (2 ^ 31 ≤ (t - y).toNat) :=
    (BitVec.msb_eq_getLsbD_last _).symm.trans (BitVec.msb_eq_decide _)
  rw [hm, decide_eq_true_eq, BitVec.toNat_sub]
  omega

theorem toNat_high (p : BitVec 64) : (p.extractLsb' 32 32).toNat = p.toNat / 2 ^ 32 := by
  have := p.isLt
  rw [BitVec.extractLsb'_toNat, Nat.shiftRight_eq_div_pow]
  omega

/-- A step whose sign is right is a step of the scheme. -/
theorem divStep_toNat {p : BitVec 64} {y : BitVec 32}
    (hle : y.toNat ≤ p.toNat / 2 ^ 32 + 2 ^ 31) (hlt : p.toNat / 2 ^ 32 < y.toNat + 2 ^ 31) :
    (divStep y p).toNat = divNext 32 y.toNat p.toNat % 2 ^ 64 := by
  have hp := p.isLt
  have hy := y.isLt
  have hsign := sub_sign.2 ⟨toNat_high p ▸ hle, toNat_high p ▸ hlt⟩
  rw [divStep, divNext]
  rw [toNat_high] at hsign
  split_ifs with h1 h2 h2
  · exact absurd (hsign.1 h1) (by omega)
  · rw [toNat_append_add, BitVec.extractLsb'_toNat, Nat.shiftRight_zero, BitVec.toNat_ofNat]
    omega
  · rw [toNat_append_add, toNat_append_add, BitVec.extractLsb'_toNat, BitVec.extractLsb'_toNat,
      Nat.shiftRight_zero, Nat.shiftRight_zero, BitVec.toNat_sub, toNat_high, BitVec.toNat_ofNat]
    omega
  · exact absurd (hsign.2 (by omega)) h1

theorem divLoad_toNat (x : BitVec 32) : (divLoad x).toNat = 2 * x.toNat := by
  have := x.isLt
  rw [divLoad, toNat_append_add, toNat_append_add]
  simp only [BitVec.toNat_ofNat]
  omega

/-- The operands whose quotient is right. -/
def Fits (x y : BitVec 32) : Prop :=
  y.toNat ≤ 2 ^ 31 ∨ (y.toNat = 2 ^ 31 + 1 ∧ 2 ^ 31 ≤ x.toNat)

section Register

variable {x y : BitVec 32} {k : ℕ}

/-- RUN: with such operands every sign is right, and the register is that of the scheme. -/
theorem divStep_iterate (hy : y ≠ 0) (hfit : Fits x y) (hk : k ≤ 32) :
    ((divStep y)^[k] (divLoad x)).toNat = (divNext 32 y.toNat)^[k] (2 * x.toNat) % 2 ^ 64 := by
  have hx := x.isLt
  have hpos : 0 < y.toNat := by
    rw [Nat.pos_iff_ne_zero]
    exact fun h => hy (BitVec.eq_of_toNat_eq h)
  induction k with
  | zero =>
    rw [Function.iterate_zero_apply, Function.iterate_zero_apply, divLoad_toNat]
    omega
  | succ k ih =>
    obtain ⟨n, hn⟩ : ∃ n, 32 = k + n + 1 := ⟨31 - k, by omega⟩
    obtain ⟨q, r, h⟩ := dividing_iterate hx hpos (by omega : k ≤ 32)
    rw [show 32 - k = n + 1 by omega] at h
    specialize ih (by omega)
    rw [Function.iterate_succ_apply', Function.iterate_succ_apply']
    generalize (divNext 32 y.toNat)^[k] (2 * x.toNat) = p at h ih ⊢
    have hlt := h.high_lt
    have hle := h.high_le
    rw [← hn] at hlt hle
    have hdiv : x.toNat / 2 ^ n ≤ x.toNat := Nat.div_le_self _ _
    rw [Nat.mod_eq_of_lt (by omega : p < 2 ^ 64)] at ih
    rw [divStep_toNat, ih]
    · rw [ih]
      rcases hfit with hfit | ⟨hfit, hbig⟩
      · omega
      · -- the remainder is what has come of the dividend, and its first bit is set
        have hhalf : x.toNat / 2 ^ (n + 1) ≤ x.toNat / 2 :=
          Nat.div_le_div_left (Nat.le_self_pow (by omega) 2) two_pos
        have hhigh := h.high_eq (by omega)
        rw [← hn] at hhigh
        have : 2 ^ 31 / 2 ^ n ≤ x.toNat / 2 ^ n := Nat.div_le_div_right hbig
        have : 0 < 2 ^ 31 / 2 ^ n :=
          Nat.div_pos (Nat.pow_le_pow_right two_pos (by omega)) (by positivity)
        omega
    · rw [ih]
      rcases hfit with hfit | ⟨hfit, -⟩ <;> omega

theorem divQuotient_of_fits (hy : y ≠ 0) (hfit : Fits x y) : divQuotient x y = x / y := by
  have hpos : 0 < y.toNat := by
    rw [Nat.pos_iff_ne_zero]
    exact fun h => hy (BitVec.eq_of_toNat_eq h)
  obtain ⟨q, r, h⟩ := dividing_iterate x.isLt hpos (le_refl 32)
  apply BitVec.eq_of_toNat_eq
  rw [divQuotient, BitVec.toNat_setWidth, divStep_iterate hy hfit le_rfl,
    Nat.mod_mod_of_dvd _ (by norm_num), BitVec.toNat_udiv]
  exact h.quotient

/-- The bits of the low half move up. -/
theorem divStep_getLsbD (p : BitVec 64) {j : ℕ} (hj : j < 32) :
    (divStep y p).getLsbD (j + 1) = p.getLsbD j := by
  rw [divStep]
  split
  · refine BitVec.getLsbD_append.trans ?_
    simp [show j < 63 by omega]
  · refine BitVec.getLsbD_append.trans ?_
    rw [if_neg (by omega), Nat.add_sub_cancel, BitVec.getLsbD_append, if_pos hj]
    simp [hj]

theorem divStep_iterate_getLsbD (p : BitVec 64) (hk : k ≤ 32) :
    ((divStep y)^[k] p).getLsbD k = p.getLsbD 0 := by
  induction k with
  | zero => rfl
  | succ k ih =>
    rw [Function.iterate_succ_apply', divStep_getLsbD _ (by omega)]
    exact ih (by omega)

/-- With other operands the first bit of the quotient is set. -/
theorem divQuotient_of_not_fits (hfit : ¬ Fits x y) : divQuotient x y ≠ x / y := by
  have hx := x.isLt
  have hy := y.isLt
  simp only [Fits, not_or, not_and, not_le] at hfit
  have hhigh : ((divLoad x).extractLsb' 32 32).toNat = x.toNat / 2 ^ 31 := by
    rw [toNat_high, divLoad_toNat]
    omega
  have hsign : ((divLoad x).extractLsb' 32 32 - y).getLsbD 31 = false := by
    rw [show ((divLoad x).extractLsb' 32 32 - y).getLsbD 31 = _ from
      (BitVec.msb_eq_getLsbD_last _).symm.trans (BitVec.msb_eq_decide _), BitVec.toNat_sub, hhigh,
      decide_eq_false_iff_not]
    omega
  have hfirst : (divStep y (divLoad x)).getLsbD 0 = true := by
    rw [divStep, hsign]
    exact BitVec.getLsbD_append
  have hbit : (divQuotient x y).getLsbD 31 = true := by
    rw [divQuotient, BitVec.getLsbD_setWidth, Function.iterate_succ_apply,
      divStep_iterate_getLsbD _ (by omega), hfirst]
    rfl
  intro h
  have hle : (x / y).toNat < 2 ^ 31 := by
    rw [BitVec.toNat_udiv, Nat.div_lt_iff_lt_mul (by omega)]
    omega
  rw [h, show (x / y).getLsbD 31 = _ from
    (BitVec.msb_eq_getLsbD_last _).symm.trans (BitVec.msb_eq_decide _), decide_eq_true_eq] at hbit
  omega

/-- The sign of the quotient is put back. -/
theorem signed_quotient {a b : BitVec 32} (hb : b ≠ 0) :
    (if a.getLsbD 31 ^^ b.getLsbD 31 then
        ~~~(divQuotient (if a.getLsbD 31 then ~~~a + 1 else a)
          (if b.getLsbD 31 then ~~~b + 1 else b)) + 1
      else divQuotient (if a.getLsbD 31 then ~~~a + 1 else a)
        (if b.getLsbD 31 then ~~~b + 1 else b)) = BitVec.ofInt 32 (a.toInt.tdiv b.toInt) := by
  have hneg (z : BitVec 32) : ~~~z + 1 = -z := (BitVec.neg_eq_not_add z).symm
  have hmsb (z : BitVec 32) : z.getLsbD 31 = z.msb := (BitVec.msb_eq_getLsbD_last z).symm
  have hsdiv : BitVec.ofInt 32 (a.toInt.tdiv b.toInt) = a.sdiv b := by
    apply BitVec.eq_of_toInt_eq
    rw [BitVec.toInt_sdiv, BitVec.toInt_ofInt]
  have habs : (if b.msb then -b else b) ≠ 0 ∧ (if b.msb then -b else b).toNat ≤ 2 ^ 31 := by
    have hlt := b.isLt
    rw [BitVec.msb_eq_decide]
    split
    · next h =>
      rw [decide_eq_true_eq] at h
      refine ⟨by simpa using hb, ?_⟩
      rw [BitVec.toNat_neg]
      omega
    · next h =>
      rw [decide_eq_true_eq] at h
      exact ⟨hb, by omega⟩
  rw [hsdiv, hmsb, hmsb, hneg, hneg, hneg, divQuotient_of_fits habs.1 (.inl habs.2), BitVec.sdiv_eq]
  cases a.msb <;> cases b.msb <;> rfl

end Register

/-! ### The divider in the pipeline -/

namespace MultMac

variable {s : MultMac} {i : MultMacIn}

theorem clk_divStep (h : s.divCntr ≠ 0) :
    (s.clk i).mulProdR = divStep i.y s.mulProdR ∧ (s.clk i).divCntr = s.divCntr - 1 :=
  ⟨if_pos h, if_pos h⟩

theorem clk_divLoad (h : s.divCntr = 0) (hd : i.aluOpDivDivu = true) (hf : s.divFree = true) :
    (s.clk i).mulProdR = divLoad i.x ∧ (s.clk i).divCntr = 32 := by
  simp [clk, divLoad, h, hd, hf]

/-- A finished quotient is kept while EX is frozen. -/
theorem clk_div_keep (h : s.divCntr = 0) (hf : s.divFree = false) (he : i.exFreeze = true) :
    (s.clk i).mulProdR = s.mulProdR ∧ (s.clk i).divCntr = 0 := by
  simp [clk, h, hf, he]

end MultMac

namespace Pipeline

variable {s : Pipeline} {i : PipelineIn}

/-- What the divider takes for the dividend and the divisor of the instruction in EX. -/
def dividend (s : Pipeline) : BitVec 32 :=
  if decide (s.aluOp = aluopDiv) && s.ops.operandA.getLsbD 31 then ~~~s.ops.operandA + 1
  else s.ops.operandA

def divisor (s : Pipeline) : BitVec 32 :=
  if decide (s.aluOp = aluopDiv) && s.ops.operandB.getLsbD 31 then ~~~s.ops.operandB + 1
  else s.ops.operandB

/-- A frozen instruction keeps them. -/
theorem clk_dividend (hf : s.freeze i = true) :
    (s.clk i).dividend = s.dividend ∧ (s.clk i).divisor = s.divisor := by
  have hop : (s.clk i).aluOp = s.aluOp := (exLatch_opsIn _ _ _).trans (if_pos hf)
  simp only [dividend, divisor, hop, clk_operands hf, and_self]

/-- INVARIANT: the product register of a started division. -/
def Shifted (s : Pipeline) : Prop :=
  s.mac.divFree = false → s.mac.divCntr.toNat ≤ 32 ∧
    s.mac.mulProdR = (divStep s.divisor)^[32 - s.mac.divCntr.toNat] (divLoad s.dividend)

/-- STEP. -/
theorem Shifted.clk (h : Shifted s) (hs : Divides s) (hd : Decoded s) (i : PipelineIn) :
    Shifted (s.clk i) := by
  intro hfree
  cases hf : s.freeze i with
  | false => exact absurd ((hs.freed hd hf).2.symm.trans hfree) (by decide)
  | true =>
    have hins : (s.clk i).exInsn = s.exInsn := by simp [clk_exInsn, hf]
    have hdiv : isDiv s.exInsn = true := by
      by_contra hn
      have := ((hs.clk hd i).free (by rw [hins]; simpa using hn)).2
      exact absurd (this.symm.trans hfree) (by decide)
    obtain ⟨hx, hy⟩ := clk_dividend hf
    rw [hx, hy]
    cases hfr : s.mac.divFree with
    | true =>
      have hc : s.mac.divCntr = 0 := by
        rcases hs.busy hdiv with ⟨-, hc, -⟩ | ⟨hn, -⟩
        · exact hc
        · exact absurd (hn.symm.trans hfr) (by decide)
      obtain ⟨h1, h2⟩ := MultMac.clk_divLoad hc (hd.aluOpDivDivu (i := i) ▸ hdiv) hfr
      have h2' : (s.clk i).mac.divCntr = 32 := h2
      rw [h2']
      exact ⟨le_rfl, h1⟩
    | false =>
      obtain ⟨hle, hreg⟩ := h hfr
      by_cases hc : s.mac.divCntr = 0
      · obtain ⟨h1, h2⟩ := MultMac.clk_div_keep (i := s.macIn i) hc hfr hf
        have h2' : (s.clk i).mac.divCntr = 0 := h2
        rw [hc] at hreg
        rw [h2']
        exact ⟨by decide, h1.trans hreg⟩
      · obtain ⟨h1, h2⟩ := MultMac.clk_divStep (i := s.macIn i) hc
        have h2' : (s.clk i).mac.divCntr = s.mac.divCntr - 1 := h2
        have hsub := toNat_sub_one hc
        rw [h2']
        refine ⟨by omega, ?_⟩
        rw [show 32 - (s.mac.divCntr - 1).toNat = 32 - s.mac.divCntr.toNat + 1 by omega,
          Function.iterate_succ_apply', ← hreg]
        exact h1

end Pipeline

section Run
open Pipeline

variable {R : Pipeline.machine.Run} {a b t : ℕ}

theorem shifted_run (R : Pipeline.machine.Run) (t : ℕ) : Shifted (R.state t) := by
  induction t with
  | zero =>
    rw [show R.state 0 = reset from R.start]
    intro h
    cases h
  | succ t ih =>
    rw [pipeline_succ]
    exact ih.clk (divides_run R t) (decoded_run R t) _

/-- When a divide leaves EX the product register holds its quotient. -/
theorem Passes.divQuotient (h : Passes R a b) (hdiv : isDiv (R.state a).exInsn = true) :
    (R.state b).mac.mulProdR.setWidth 32 =
      Or1200.divQuotient (R.state b).dividend (R.state b).divisor := by
  have hdiv' : isDiv (R.state b).exInsn = true := by rw [stays h.le h.waits, hdiv]
  have hf : (R.state b).freeze (R.input b) = false := by simpa [Frozen] using h.leaves
  obtain ⟨hc, hfree⟩ := (divides_run R b).done hdiv' hf
  rw [(shifted_run R b hfree).2, hc]
  rfl

/-- The registers `j` cycles after a divide has entered EX, while it waits there. -/
structure Waits (s : Pipeline) (j : ℕ) : Prop where
  divFree : s.mac.divFree = false
  divCntr : s.mac.divCntr.toNat = 33 - j
  multicycleCnt : s.multicycleCnt.toNat = 2 - j
  macOpR1 : s.mac.macOpR1 = 0
  macOpR2 : 2 ≤ j → s.mac.macOpR2 = 0
  macStallR : 34 ≤ j → s.mac.macStallR = false

/-- A divide finds the divider free. -/
theorem EntersEx.divide (ha : EntersEx R a) (hdiv : isDiv (R.state a).exInsn = true) :
    (R.state a).multicycleCnt = 2 ∧ (R.state a).mac.divCntr = 0 ∧
      (R.state a).mac.divFree = true := by
  obtain ⟨n, rfl, hn⟩ := ha
  have hfree : (R.state (n + 1)).mac.divFree = true := by
    rw [pipeline_succ]
    exact ((divides_run R n).freed (decoded_run R n) (by simpa [Frozen] using hn)).2
  rcases (divides_run R (n + 1)).busy hdiv with h | ⟨h, -⟩
  · exact h
  · exact absurd (h.symm.trans hfree) (by decide)

theorem exMacOp_of_isDiv (hdiv : isDiv (R.state t).exInsn = true) : (R.state t).exMacOp = 0 := by
  rw [(decoded_run R t).macOp]
  simp [macOp, opcode_of_isDiv hdiv, macopNop]

/-- STEP of the wait. -/
theorem Waits.clk {s : Pipeline} {i : PipelineIn} {j : ℕ} (h : Waits s j) (hf : s.freeze i = true)
    (hop : s.exMacOp = 0) (hj : 1 ≤ j) : Waits (s.clk i) (j + 1) := by
  have hm := h.multicycleCnt
  have hc := h.divCntr
  refine ⟨?_, ?_, ?_, hop, fun _ => h.macOpR1, fun h34 => ?_⟩
  · by_cases h0 : s.mac.divCntr = 0
    · refine (MultMac.clk_div_idle (i := s.macIn i) h0 (by simp [h.divFree])).2.trans ?_
      simp [h.divFree, macIn_exFreeze, hf]
    · exact (MultMac.clk_div_run h0).1.trans h.divFree
  · by_cases h0 : s.mac.divCntr = 0
    · have h0' : (s.clk i).mac.divCntr = 0 := (MultMac.clk_div_keep h0 h.divFree hf).2
      rw [h0, show (0 : BitVec 6).toNat = 0 from rfl] at hc
      rw [h0', show (0 : BitVec 6).toNat = 0 from rfl]
      omega
    · have h1 : (s.clk i).mac.divCntr = s.mac.divCntr - 1 := (MultMac.clk_divStep h0).2
      have := toNat_sub_one h0
      rw [h1]
      omega
  · rw [clk_multicycleCnt]
    by_cases h0 : s.multicycleCnt = 0
    · rw [if_neg (not_not.2 h0), if_neg (by simp [hf]), h0, show (0 : BitVec 3).toNat = 0 from rfl]
      rw [h0, show (0 : BitVec 3).toNat = 0 from rfl] at hm
      omega
    · have := toNat_sub_one h0
      rw [if_pos h0]
      omega
  · have h0 : s.mac.divCntr = 0 := BitVec.eq_of_toNat_eq (by rw [hc]; simp; omega)
    have hst : (s.clk i).mac.macStallR =
        (((decide (s.exMacOp ≠ 0) || decide (s.mac.macOpR1 ≠ 0) || decide (s.mac.macOpR2 ≠ 0)) &&
          (isMacrc s.ops.idInsn || s.mac.macStallR)) || decide (s.mac.divCntr ≠ 0)) := rfl
    rw [hst, hop, h.macOpR1, h.macOpR2 (by omega), h0]
    rfl

/-- RUN: counters and stalls of a divide that is held in EX. -/
theorem divide_waits (ha : EntersEx R a) (hdiv : isDiv (R.state a).exInsn = true) {j : ℕ}
    (hw : ∀ n, a ≤ n → n ≤ a + j → Frozen R n) : Waits (R.state (a + j + 1)) (j + 1) := by
  have hins : ∀ n, a ≤ n → n ≤ a + j → isDiv (R.state n).exInsn = true := fun n h1 h2 => by
    rw [stays h1 fun m h3 h4 => hw m h3 (by omega), hdiv]
  induction j with
  | zero =>
    obtain ⟨hm, hc, hfree⟩ := ha.divide hdiv
    have hop : ((R.state a).macIn (R.input a)).aluOpDivDivu = true := by
      rw [(decoded_run R a).aluOpDivDivu, hdiv]
    rw [pipeline_succ]
    have hc' : (clk (R.state a) (R.input a)).mac.divCntr = 32 :=
      (MultMac.clk_divLoad hc hop hfree).2
    have hm' : (clk (R.state a) (R.input a)).multicycleCnt = 1 := by
      rw [clk_multicycleCnt, hm]
      exact if_pos (by decide)
    exact ⟨MultMac.clk_div_start hc hop hfree, by rw [hc']; decide, by rw [hm']; decide,
      exMacOp_of_isDiv hdiv, by omega, by omega⟩
  | succ j ih =>
    have h := ih (fun n h1 h2 => hw n h1 (by omega)) fun n h1 h2 => hins n h1 (by omega)
    rw [show a + (j + 1) = a + j + 1 by omega, pipeline_succ]
    exact h.clk (hw _ (by omega) (by omega))
      (exMacOp_of_isDiv (hins (a + j + 1) (by omega) (by omega))) (by omega)

/-- Beyond that only the fetch holds a divide back. -/
theorem EntersEx.divide_leaves (ha : EntersEx R a) (hdiv : isDiv (R.state a).exInsn = true)
    {n : ℕ} (hn : a + 34 ≤ n) (hif : (R.input n).ifStall = false) : ∃ b, Passes R a b := by
  have hex : ∃ b, a ≤ b ∧ ¬ Frozen R b := by
    by_contra hall
    push Not at hall
    obtain ⟨j, rfl⟩ : ∃ j, n = a + j + 1 := ⟨n - a - 1, by omega⟩
    have h := divide_waits ha hdiv (j := j) fun n h1 _ => hall n h1
    have hins : isDiv (R.state (a + j + 1)).exInsn = true := by
      rw [stays (by omega) fun m h1 _ => hall m h1, hdiv]
    have hlsu : (R.state (a + j + 1)).lsu.exLsuOp = .nop := by
      rw [(decoded_run R _).lsuOp]
      simp [lsuOp, opcode_of_isDiv hins]
    have hm : (R.state (a + j + 1)).multicycleCnt = 0 :=
      BitVec.eq_of_toNat_eq (by rw [h.multicycleCnt]; simp; omega)
    have hfr : Frozen R (a + j + 1) := hall _ (by omega)
    simp [Frozen, freeze, lsuStall, Lsu.lsuStall, Lsu.dcpuCycstb, hlsu, hif, hm,
      h.macStallR (by omega)] at hfr
  obtain ⟨b, hab, hb, hw⟩ := first_time hex
  exact ⟨b, ha, hab, fun n h1 h2 => not_not.1 (hw n h1 h2), hb⟩

/-- The signed divide: in the first cycle in which it is not frozen the result is the quotient
    rounded towards zero, and it gets there if the fetch does not stall for ever. -/
theorem div_correct (ha : EntersEx R a) (hdiv : isAlu 9 (R.state a).exInsn = true)
    (hb : (R.state a).ops.operandB ≠ 0) :
    (∀ b, Passes R a b → (R.state b).multMacResult =
      BitVec.ofInt 32 ((R.state a).ops.operandA.toInt.tdiv (R.state a).ops.operandB.toInt)) ∧
    ((∃ n, a + 34 ≤ n ∧ (R.input n).ifStall = false) → ∃ b, Passes R a b) := by
  have hop := aluOp_of_isAlu hdiv
  have hd : isDiv (R.state a).exInsn = true := by simp [isDiv, hop, aluopDiv]
  refine ⟨fun b h => ?_, fun hn => hn.elim fun _ hn => ha.divide_leaves hd hn.1 hn.2⟩
  have halu : (R.state b).aluOp = aluopDiv := by
    rw [(decoded_run R b).aluOp, stays h.le h.waits, hop]
    rfl
  have hq := h.divQuotient hd
  obtain ⟨hA, hB⟩ := stays_operands h.le h.waits
  simp only [dividend, divisor, halu, decide_true, Bool.true_and, hA, hB] at hq
  rw [multMacResult, MultMac.result, if_pos halu, hq, hA, hB]
  exact signed_quotient hb

end Run

/-! ### One division -/

/-- l.addi r1, l.addi r2 with the values `x` and `y`, one instruction, then l.nop. -/
def arithInput (insn : Insn) (x y : BitVec 32) (t : ℕ) : PipelineIn where
  ifInsn :=
    if t = 0 then 0x9C200000
    else if t = 1 then 0x9C400000
    else if t = 2 then insn
    else 0x15000000
  ifStall := false
  dcpuAck := false
  dcpuDat := 0
  aluOther := if t = 2 then x else y
  sprsDataout := 0
  exPc := 0
  supv := true

def arithRun (insn : Insn) (x y : BitVec 32) : Pipeline.machine.Run :=
  .ofInput Pipeline.reset (arithInput insn x y) rfl fun _ => trivial

/-- l.div r3,r1,r2 with -7 and 2. -/
theorem div_correct_negative : ∃ b, Passes (arithRun 0xE0611309 (-7) 2) 4 b ∧
    ((arithRun 0xE0611309 (-7) 2).state b).multMacResult = -3 := by
  have h := div_correct (R := arithRun 0xE0611309 (-7) 2) (a := 4) ⟨3, rfl, by decide⟩ (by decide)
    (by decide)
  obtain ⟨b, hb⟩ := h.2 ⟨38, le_rfl, rfl⟩
  exact ⟨b, hb, (h.1 b hb).trans (by decide)⟩

section Unsigned
open Pipeline

variable {R : Pipeline.machine.Run} {a b : ℕ}

/-- l.divu takes its operands as they are. -/
theorem Passes.divu (h : Passes R a b) (hdiv : isAlu 10 (R.state a).exInsn = true) :
    (R.state b).multMacResult =
      Or1200.divQuotient (R.state a).ops.operandA (R.state a).ops.operandB := by
  have hop := aluOp_of_isAlu hdiv
  have hd : isDiv (R.state a).exInsn = true := by simp [isDiv, hop, aluopDivu]
  have halu : (R.state b).aluOp = aluopDivu := by
    rw [(decoded_run R b).aluOp, stays h.le h.waits, hop]
    rfl
  have hq := h.divQuotient hd
  obtain ⟨hA, hB⟩ := stays_operands h.le h.waits
  have hne : decide (aluopDivu = aluopDiv) = false := by decide
  simp only [dividend, divisor, halu, hne, Bool.false_and, Bool.false_eq_true, if_false, hA, hB]
    at hq
  rw [← hq, multMacResult, MultMac.result, halu, if_neg (by decide), if_pos rfl]

/-- The unsigned divide is right exactly for the operands whose comparison the sign can tell. -/
theorem divu_correct_iff (ha : EntersEx R a) (hdiv : isAlu 10 (R.state a).exInsn = true)
    (hb : (R.state a).ops.operandB ≠ 0) :
    (∀ b, Passes R a b →
      ((R.state b).multMacResult.toNat =
          (R.state a).ops.operandA.toNat / (R.state a).ops.operandB.toNat ↔
        (R.state a).ops.operandB.toNat ≤ 2 ^ 31 ∨
          ((R.state a).ops.operandB.toNat = 2 ^ 31 + 1 ∧
            2 ^ 31 ≤ (R.state a).ops.operandA.toNat))) ∧
    ((∃ n, a + 34 ≤ n ∧ (R.input n).ifStall = false) → ∃ b, Passes R a b) := by
  have hd : isDiv (R.state a).exInsn = true := by simp [isDiv, aluOp_of_isAlu hdiv, aluopDivu]
  refine ⟨fun b h => ?_, fun hn => hn.elim fun _ hn => ha.divide_leaves hd hn.1 hn.2⟩
  rw [h.divu hdiv, ← BitVec.toNat_udiv]
  constructor
  · intro heq
    by_contra hfit
    exact divQuotient_of_not_fits hfit (BitVec.eq_of_toNat_eq heq)
  · intro hfit
    rw [divQuotient_of_fits hb hfit]

/-- l.divu r3,r1,r2 with 7 and 2. -/
theorem divu_correct_iff_seven : ∃ b, Passes (arithRun 0xE061130A 7 2) 4 b ∧
    ((arithRun 0xE061130A 7 2).state b).multMacResult.toNat = 3 := by
  have h := divu_correct_iff (R := arithRun 0xE061130A 7 2) (a := 4) ⟨3, rfl, by decide⟩
    (by decide) (by decide)
  obtain ⟨b, hb⟩ := h.2 ⟨38, le_rfl, rfl⟩
  exact ⟨b, hb, ((h.1 b hb).2 (.inl (by decide))).trans (by decide)⟩

/-- One divided by the largest number is 0 and not 2 ^ 32 - 1. -/
theorem divu_large_divisor : ∃ b, Passes (arithRun 0xE061130A 1 0xFFFFFFFF) 4 b ∧
    ((arithRun 0xE061130A 1 0xFFFFFFFF).state 4).ops.operandA = 1 ∧
    ((arithRun 0xE061130A 1 0xFFFFFFFF).state 4).ops.operandB = 0xFFFFFFFF ∧
    ((arithRun 0xE061130A 1 0xFFFFFFFF).state b).multMacResult = 0xFFFFFFFF ∧
    ((arithRun 0xE061130A 1 0xFFFFFFFF).state b).multMacResult.toNat ≠ 1 / 0xFFFFFFFF := by
  obtain ⟨b, hb⟩ := EntersEx.divide_leaves (R := arithRun 0xE061130A 1 0xFFFFFFFF) (a := 4)
    ⟨3, rfl, by decide⟩ (by decide) (n := 38) le_rfl rfl
  have hA : ((arithRun 0xE061130A 1 0xFFFFFFFF).state 4).ops.operandA = 1 := by decide
  have hB : ((arithRun 0xE061130A 1 0xFFFFFFFF).state 4).ops.operandB = 0xFFFFFFFF := by decide
  have hres : ((arithRun 0xE061130A 1 0xFFFFFFFF).state b).multMacResult = 0xFFFFFFFF := by
    rw [hb.divu (by decide), hA, hB]
    decide +kernel
  refine ⟨b, hb, hA, hB, hres, ?_⟩
  rw [hres]
  decide

end Unsigned

end DsdOrsoc.Or1200
