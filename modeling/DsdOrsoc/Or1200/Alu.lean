import DsdOrsoc.Or1200.Isa

/-! The ALU `or1200_alu`. All its units work at once on the operands in EX, and `alu_op` selects:

        adder, with and without carry     flag: a compare only
        shifter and rotator               carry: additions and subtractions
        comparator, on operands whose sign bit is turned for a signed compare
        l.ff1, l.cmov, l.cust5, and what the multiply unit has worked out

    Each unit computes what the instruction set asks for. -/

namespace DsdOrsoc.Or1200
open Isa

/-- The input pins. -/
structure AluIn where
  a : BitVec 32
  b : BitVec 32
  multMacResult : BitVec 32
  macrcOp : Bool
  aluOp : BitVec 4
  shrotOp : BitVec 2
  compOp : BitVec 4
  cust5Op : BitVec 5
  cust5Limm : BitVec 6
  carry : Bool
  flag : Bool

namespace AluIn

variable (i : AluIn)

/-! ### Units -/

/-- `comp_a` and `comp_b`: the sign bit is turned for a signed compare. -/
def turned (x : BitVec 32) : BitVec 32 :=
  BitVec.ofBool (x.getLsbD 31 ^^ i.compOp.getLsbD 3) ++ x.extractLsb' 0 31

def compA : BitVec 32 := i.turned i.a

def compB : BitVec 32 := i.turned i.b

def flagcomp : Bool :=
  if i.compOp.extractLsb' 0 3 = 0 then decide (i.compA = i.compB)
  else if i.compOp.extractLsb' 0 3 = 1 then decide (i.compA ≠ i.compB)
  else if i.compOp.extractLsb' 0 3 = 2 then decide (i.compB < i.compA)
  else if i.compOp.extractLsb' 0 3 = 3 then decide (i.compB ≤ i.compA)
  else if i.compOp.extractLsb' 0 3 = 4 then decide (i.compA < i.compB)
  else if i.compOp.extractLsb' 0 3 = 5 then decide (i.compA ≤ i.compB)
  else false

/-- `{cy_sum, result_sum}` and `{cy_csum, result_csum}`. -/
def sum : BitVec 33 := i.a.setWidth 33 + i.b.setWidth 33

def csum : BitVec 33 := i.a.setWidth 33 + i.b.setWidth 33 + (BitVec.ofBool i.carry).setWidth 33

/-- `shifted_rotated`; the arithmetic shift is the default. -/
def shiftedRotated : BitVec 32 :=
  let n := (i.b.extractLsb' 0 5).toNat
  if i.shrotOp = 0 then i.a <<< n
  else if i.shrotOp = 1 then i.a >>> n
  else if i.shrotOp = 3 then i.a <<< (32 - n) ||| i.a >>> n
  else (if i.a.getLsbD 31 then BitVec.allOnes 32 else 0) <<< (32 - n) ||| i.a >>> n

/-- `result_cust5`: move a byte, set a bit, clear a bit. -/
def resultCust5 : BitVec 32 :=
  let byte := i.b.extractLsb' 0 8
  if i.cust5Op = 1 then
    (if i.cust5Limm.extractLsb' 0 2 = 0 then i.a.extractLsb' 8 24 ++ byte
     else if i.cust5Limm.extractLsb' 0 2 = 1 then
      i.a.extractLsb' 16 16 ++ byte ++ i.a.extractLsb' 0 8
     else if i.cust5Limm.extractLsb' 0 2 = 2 then
      i.a.extractLsb' 24 8 ++ byte ++ i.a.extractLsb' 0 16
     else byte ++ i.a.extractLsb' 0 24)
  else if i.cust5Op = 2 then i.a ||| 1 <<< i.cust5Limm.toNat
  else if i.cust5Op = 3 then i.a &&& (BitVec.allOnes 32 ^^^ 1 <<< i.cust5Limm.toNat)
  else i.a

/-- The chain of conditions of l.ff1. -/
def ff1 : BitVec 32 :=
  (List.range 32).foldr (fun n r => if i.a.getLsbD n then BitVec.ofNat 32 (n + 1) else r) 0

/-! ### Outputs -/

def result : BitVec 32 :=
  if i.aluOp = 15 then i.ff1
  else if i.aluOp = 7 then i.resultCust5
  else if i.aluOp = 8 then i.shiftedRotated
  else if i.aluOp = 0 then i.sum.setWidth 32
  else if i.aluOp = 1 then i.csum.setWidth 32
  else if i.aluOp = 2 then i.a - i.b
  else if i.aluOp = 5 then i.a ^^^ i.b
  else if i.aluOp = 4 then i.a ||| i.b
  else if i.aluOp = 11 then i.b
  else if i.aluOp = aluopMovhi then (if i.macrcOp then i.multMacResult else i.b <<< 16)
  else if i.aluOp = aluopDiv ∨ i.aluOp = aluopDivu ∨ i.aluOp = aluopMul then i.multMacResult
  else if i.aluOp = 14 then (if i.flag then i.a else i.b)
  else i.a &&& i.b

def flagWe : Bool := decide (i.aluOp = 13)

def flagforw : Bool := i.flagcomp

def cyWe : Bool := decide (i.aluOp = 0) || decide (i.aluOp = 1) || decide (i.aluOp = 2)

def cyforw : Bool :=
  if i.aluOp = 0 then i.sum.getLsbD 32
  else if i.aluOp = 1 then i.csum.getLsbD 32
  else if i.aluOp = 2 then decide (i.a < i.b)
  else false

/-! ### Adder -/

variable {i}

theorem toNat_sum : i.sum.toNat = i.a.toNat + i.b.toNat := by
  have ha := i.a.isLt
  have hb := i.b.isLt
  simp only [sum, BitVec.toNat_add, BitVec.toNat_setWidth]
  omega

theorem toNat_csum : i.csum.toNat = i.a.toNat + i.b.toNat + i.carry.toNat := by
  have ha := i.a.isLt
  have hb := i.b.isLt
  have hc : i.carry.toNat ≤ 1 := Bool.toNat_le i.carry
  simp only [csum, BitVec.toNat_add, BitVec.toNat_setWidth, BitVec.toNat_ofBool]
  omega

/-- The carry is the topmost bit of the sum. -/
theorem getLsbD_carry (x : BitVec 33) : x.getLsbD 32 = decide (2 ^ 32 ≤ x.toNat) :=
  (BitVec.msb_eq_getLsbD_last x).symm.trans (BitVec.msb_eq_decide x)

theorem sum_eq : i.sum.setWidth 32 = i.a + i.b := by
  apply BitVec.eq_of_toNat_eq
  rw [BitVec.toNat_setWidth, toNat_sum, BitVec.toNat_add]

theorem csum_eq : i.csum.setWidth 32 = i.a + i.b + BitVec.ofNat 32 i.carry.toNat := by
  apply BitVec.eq_of_toNat_eq
  simp only [BitVec.toNat_setWidth, toNat_csum, BitVec.toNat_add, BitVec.toNat_ofNat]
  omega

/-! ### Comparator -/

/-- What a compare looks at: the number with or without sign. -/
def key (i : AluIn) (x : BitVec 32) : ℤ := if i.compOp.getLsbD 3 then x.toInt else x.toNat

/-- Turning the sign bit keeps the order of the signed numbers. -/
theorem toNat_turned (x : BitVec 32) : ((i.turned x).toNat : ℤ) =
    i.key x + if i.compOp.getLsbD 3 then 2 ^ 31 else 0 := by
  have hx := x.isLt
  have hmsb : x.getLsbD 31 = decide (2 ^ 31 ≤ x.toNat) :=
    (BitVec.msb_eq_getLsbD_last x).symm.trans (BitVec.msb_eq_decide x)
  rw [turned, key, Schemes.toNat_append_add, BitVec.toNat_ofBool, BitVec.extractLsb'_toNat,
    Nat.shiftRight_zero, hmsb, BitVec.toInt_eq_toNat_cond]
  by_cases hs : 2 ^ 31 ≤ x.toNat
  · have hneg : ¬ 2 * x.toNat < 2 ^ 32 := by omega
    rw [decide_eq_true hs, if_neg hneg]
    cases i.compOp.getLsbD 3 <;> simp <;> omega
  · have hpos : 2 * x.toNat < 2 ^ 32 := by omega
    rw [decide_eq_false hs, if_pos hpos]
    cases i.compOp.getLsbD 3 <;> simp <;> omega

theorem turned_lt_iff (x y : BitVec 32) : i.turned x < i.turned y ↔ i.key x < i.key y := by
  have hx := i.toNat_turned x
  have hy := i.toNat_turned y
  rw [BitVec.lt_def]
  omega

theorem turned_le_iff (x y : BitVec 32) : i.turned x ≤ i.turned y ↔ i.key x ≤ i.key y := by
  have hx := i.toNat_turned x
  have hy := i.toNat_turned y
  rw [BitVec.le_def]
  omega

theorem turned_eq_iff (x y : BitVec 32) : i.turned x = i.turned y ↔ x = y := by
  refine ⟨fun h => ?_, fun h => h ▸ rfl⟩
  have hx := i.toNat_turned x
  have hy := i.toNat_turned y
  rw [h] at hx
  have hkey : i.key x = i.key y := by omega
  unfold key at hkey
  split at hkey
  · exact BitVec.eq_of_toInt_eq hkey
  · exact BitVec.eq_of_toNat_eq (by exact_mod_cast hkey)

/-- A condition in the table is the one that the comparator works out. -/
theorem flagcomp_eq {c : BitVec 5} {k : Cond} (hk : Cond.codes.lookup c = some k)
    (hc : i.compOp = c.setWidth 4) : i.flagcomp = k.holds i.a i.b := by
  have hmem := mem_of_lookup hk
  simp only [Cond.codes, List.mem_cons, Prod.mk.injEq, List.not_mem_nil, or_false] at hmem
  simp only [flagcomp, compA, compB, turned_lt_iff, turned_le_iff, turned_eq_iff, ne_eq, key, hc]
  rcases hmem with ⟨rfl, rfl⟩ | ⟨rfl, rfl⟩ | ⟨rfl, rfl⟩ | ⟨rfl, rfl⟩ | ⟨rfl, rfl⟩ | ⟨rfl, rfl⟩ |
    ⟨rfl, rfl⟩ | ⟨rfl, rfl⟩ | ⟨rfl, rfl⟩ | ⟨rfl, rfl⟩ <;> simp [Cond.holds]

/-! ### Shifter -/

theorem rotated_eq (x : BitVec 32) {n : ℕ} (hn : n < 32) :
    x <<< (32 - n) ||| x >>> n = x.rotateRight n := by
  rw [BitVec.rotateRight_eq_rotateRightAux_of_lt hn, BitVec.rotateRightAux, BitVec.or_comm]

/-- Copies of the sign bit are shifted in from above. -/
theorem signed_shift_eq (x : BitVec 32) (n : ℕ) :
    (if x.getLsbD 31 then BitVec.allOnes 32 else 0) <<< (32 - n) ||| x >>> n =
      x.sshiftRight n := by
  apply BitVec.eq_of_getLsbD_eq
  intro j hj
  rw [BitVec.getLsbD_or, BitVec.getLsbD_shiftLeft, BitVec.getLsbD_ushiftRight,
    BitVec.getLsbD_sshiftRight, BitVec.msb_eq_getLsbD_last]
  by_cases hn : n + j < 32
  · simp [hn, hj, show j < 32 - n by omega]
  · have hout : x.getLsbD (n + j) = false := BitVec.getLsbD_of_ge _ _ (by omega)
    have hones : (BitVec.allOnes 32).getLsbD (j - (32 - n)) = true := by
      rw [BitVec.getLsbD_allOnes]
      exact decide_eq_true (by omega)
    have hin : ¬ j < 32 - n := by omega
    have hj' : ¬ 32 ≤ j := by omega
    cases hs : x.getLsbD 31
    · simp [hn, hout]
    · simp only [if_true, hones, hout, hn, hin, hj, hj', decide_true, decide_false,
        Bool.not_false, Bool.and_true, Bool.or_false, if_false]

theorem shiftedRotated_eq (cy : Bool) :
    i.shiftedRotated = (Arith.ofShift i.shrotOp).value cy i.a i.b := by
  have hn : (i.b.extractLsb' 0 5).toNat = i.b.toNat % 32 := by
    rw [BitVec.extractLsb'_toNat, Nat.shiftRight_zero]
  have hlt : i.b.toNat % 32 < 32 := Nat.mod_lt _ (by decide)
  simp only [shiftedRotated, hn, rotated_eq _ hlt, signed_shift_eq]
  rcases Schemes.Lanes.byte_cases i.shrotOp with h | h | h | h <;> rw [h] <;> rfl

/-! ### First one -/

theorem ff1_eq : i.ff1 = firstOne i.a := by
  rw [ff1, firstOne]
  induction List.range 32 with
  | nil => rfl
  | cons n ns ih =>
    rw [List.foldr_cons, List.find?_cons, ih]
    cases i.a.getLsbD n <;> rfl

end AluIn

/-! ### Operations on two operands -/

/-- `alu_op` of an operation. -/
def Isa.Arith.aluOp : Arith → BitVec 4
  | .add => 0
  | .addc => 1
  | .sub => 2
  | .and => 3
  | .or => 4
  | .xor => 5
  | .mul => aluopMul
  | .div => aluopDiv
  | .divu => aluopDivu
  | .sll | .srl | .sra | .ror => 8

/-- The operations of the multiply unit. -/
def Isa.Arith.multiplies (f : Arith) : Bool := f ∈ [.mul, .div, .divu]

namespace AluIn

variable {i : AluIn} {f : Arith}

/-- The ALU puts out the value of the operation, if the multiply unit does so for its own ones. -/
theorem result_arith (h : i.aluOp = f.aluOp) (hs : f.aluOp = 8 → Arith.ofShift i.shrotOp = f)
    (hm : f.multiplies = true → i.multMacResult = f.value i.carry i.a i.b) :
    i.result = f.value i.carry i.a i.b := by
  have hshift : f.aluOp = 8 → i.result = f.value i.carry i.a i.b := by
    intro h8
    rw [← hs h8, ← shiftedRotated_eq i.carry, result, h, h8, if_neg (by decide),
      if_neg (by decide), if_pos rfl]
  rw [result, h]
  cases f
  case add => exact sum_eq
  case addc => exact csum_eq
  case sub | and | or | xor => rfl
  case mul | div | divu => exact hm rfl
  case sll | srl | sra | ror =>
    rw [← hshift rfl, result, h]

/-- And the carry. -/
theorem carry_arith (h : i.aluOp = f.aluOp) :
    (if i.cyWe then i.cyforw else i.carry) = f.carry i.carry i.a i.b := by
  rw [cyWe, cyforw, h]
  cases f
  case add => exact (getLsbD_carry _).trans (by rw [toNat_sum]; rfl)
  case addc => exact (getLsbD_carry _).trans (by rw [toNat_csum]; rfl)
  case sub => exact decide_eq_decide.2 BitVec.lt_def
  all_goals rfl

end AluIn

end DsdOrsoc.Or1200
