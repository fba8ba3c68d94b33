import Mathlib.Tactic

/-! The multiply unit `or1200_mult_mac` with the multiplier `or1200_gmultp2_32x32`. Multiplier,
    divider and accumulator share the product register; the operation of a multiply-accumulate
    travels beside its product, one stage a cycle, whatever the pipeline of the core does:

        a, b ──▶ p0 ──▶ p1 ──▶ mul_prod_r ──▶ mac_r
        mac_op ▶ r1 ──▶ r2 ──▶ r3 ───────────┘
                               ▲
                        div_cntr ≠ 0 : one bit of a quotient each cycle -/

namespace DsdOrsoc.Or1200

/-- The codes of `OR1200_MACOP_*`. -/
def macopNop : BitVec 3 := 0

def macopMac : BitVec 3 := 1

def macopMsb : BitVec 3 := 2

/-- The codes of `OR1200_ALUOP_*` that this unit looks at, and that of the other operations. -/
def aluopNop : BitVec 4 := 4

def aluopMul : BitVec 4 := 6

def aluopDiv : BitVec 4 := 9

def aluopDivu : BitVec 4 := 10

def aluopMovhi : BitVec 4 := 12

/-- The signed product of two operands. -/
def product (x y : BitVec 32) : BitVec 64 := x.signExtend 64 * y.signExtend 64

/-- The registers; `p0` and `p1` are those of the multiplier. -/
structure MultMac where
  p0 : BitVec 64
  p1 : BitVec 64
  mulProdR : BitVec 64
  divFree : Bool
  divCntr : BitVec 6
  macOpR1 : BitVec 3
  macOpR2 : BitVec 3
  macOpR3 : BitVec 3
  macR : BitVec 64
  macStallR : Bool

/-- The input pins. -/
structure MultMacIn where
  exFreeze : Bool
  idMacrcOp : Bool
  macrcOp : Bool
  a : BitVec 32
  b : BitVec 32
  macOp : BitVec 3
  aluOp : BitVec 4
  sprCs : Bool
  sprWrite : Bool
  sprAddr : BitVec 32
  sprDatI : BitVec 32

namespace MultMacIn

variable (i : MultMacIn)

def aluOpDiv : Bool := decide (i.aluOp = aluopDiv)

def aluOpDivDivu : Bool := i.aluOpDiv || decide (i.aluOp = aluopDivu)

/-- The operands of the multiplier: l.div takes absolute values. -/
def x : BitVec 32 := if i.aluOpDiv && i.a.getLsbD 31 then ~~~i.a + 1 else i.a

def y : BitVec 32 := if i.aluOpDiv && i.b.getLsbD 31 then ~~~i.b + 1 else i.b

/-- A write to MACLO or MACHI. -/
def sprMacloWe : Bool := i.sprCs && i.sprWrite && i.sprAddr.getLsbD 0

def sprMachiWe : Bool := i.sprCs && i.sprWrite && !i.sprAddr.getLsbD 0

end MultMacIn

namespace MultMac

def reset : MultMac where
  p0 := 0
  p1 := 0
  mulProdR := 0
  divFree := true
  divCntr := 0
  macOpR1 := 0
  macOpR2 := 0
  macOpR3 := 0
  macR := 0
  macStallR := false

variable (s : MultMac) (i : MultMacIn)

/-- `div_tmp`: the partial remainder minus the divisor. -/
def divTmp : BitVec 32 := s.mulProdR.extractLsb' 32 32 - i.y

/-- `result`, from `alu_op` and the operands. -/
def result (op : BitVec 4) (a b : BitVec 32) : BitVec 32 :=
  if op = aluopDiv then
    (if a.getLsbD 31 ^^ b.getLsbD 31 then ~~~(s.mulProdR.setWidth 32) + 1
     else s.mulProdR.setWidth 32)
  else if op = aluopDivu then s.mulProdR.setWidth 32
  else if op = aluopMul then s.mulProdR.setWidth 32
  else s.macR.setWidth 32

/-- The product register takes the product. -/
def takesProduct : Bool :=
  decide (s.divCntr = 0) && !(i.aluOpDivDivu && s.divFree) && (s.divFree || !i.exFreeze)

/-- `mac_r` after the edge. -/
def macNext : BitVec 64 :=
  if i.sprMacloWe then s.macR.extractLsb' 32 32 ++ i.sprDatI
  else if i.sprMachiWe then i.sprDatI ++ s.macR.extractLsb' 0 32
  else if s.macOpR3 = macopMac then s.macR + s.mulProdR
  else if s.macOpR3 = macopMsb then s.macR - s.mulProdR
  else if i.macrcOp && !i.exFreeze then 0
  else s.macR

/-- One rising edge of the clock. -/
def clk : MultMac where
  p0 := product i.x i.y
  p1 := s.p0
  mulProdR :=
    if s.divCntr ≠ 0 then
      (if (s.divTmp i).getLsbD 31 then s.mulProdR.extractLsb' 0 63 ++ 0#1
       else (s.divTmp i).extractLsb' 0 31 ++ s.mulProdR.extractLsb' 0 32 ++ 1#1)
    else if i.aluOpDivDivu && s.divFree then 0#31 ++ i.x ++ 0#1
    else if s.divFree || !i.exFreeze then s.p1
    else s.mulProdR
  divFree :=
    if s.divCntr ≠ 0 then s.divFree
    else if i.aluOpDivDivu && s.divFree then false
    else if s.divFree || !i.exFreeze then true
    else s.divFree
  divCntr :=
    if s.divCntr ≠ 0 then s.divCntr - 1
    else if i.aluOpDivDivu && s.divFree then 32
    else s.divCntr
  macOpR1 := i.macOp
  macOpR2 := s.macOpR1
  macOpR3 := s.macOpR2
  macR := s.macNext i
  macStallR :=
    ((decide (i.macOp ≠ 0) || decide (s.macOpR1 ≠ 0) || decide (s.macOpR2 ≠ 0)) &&
      (i.idMacrcOp || s.macStallR)) || decide (s.divCntr ≠ 0)

variable {s i}

/-! ### The divider -/

theorem clk_div_run (h : s.divCntr ≠ 0) :
    (s.clk i).divFree = s.divFree ∧ (s.clk i).macStallR = true :=
  ⟨if_pos h, by simp only [clk, decide_eq_true h, Bool.or_true]⟩

theorem clk_div_start (h : s.divCntr = 0) (hd : i.aluOpDivDivu = true) (hf : s.divFree = true) :
    (s.clk i).divFree = false := by
  simp [clk, h, hd, hf]

theorem clk_div_idle (h : s.divCntr = 0) (hd : (i.aluOpDivDivu && s.divFree) = false) :
    (s.clk i).divCntr = 0 ∧ (s.clk i).divFree = (s.divFree || !i.exFreeze) := by
  refine ⟨by simp [clk, h, hd], ?_⟩
  cases hf : s.divFree <;> cases he : i.exFreeze <;> simp_all [clk]

theorem clk_mulProdR (h : s.takesProduct i = true) : (s.clk i).mulProdR = s.p1 := by
  simp only [takesProduct, Bool.and_eq_true, Bool.not_eq_true', decide_eq_true_eq] at h
  obtain ⟨⟨hc, hd⟩, hf⟩ := h
  simp [clk, hc, hd, hf]

end MultMac

end DsdOrsoc.Or1200
