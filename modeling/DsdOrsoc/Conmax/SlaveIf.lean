import DsdOrsoc.Schemes.RoundRobin

/-! The slave interface `wb_conmax_slave_if` of the bus matrix, with the master selection
    `wb_conmax_msel` in it: four round-robin arbiters, one for each priority level, and a register
    `pri_out` with the level that is served. The matrix is instantiated with four levels
    (pri_sel = 2), so the arbiter without levels takes no part.

        next     <= ~wb_cyc_o              the level may change in the cycle after an idle one
        pri_out  <= next ? level of the requests : pri_out
        mast_sel  = grant of arbiter pri_out -/

namespace DsdOrsoc.Conmax
open Schemes

/-- A master port of the matrix, `m0` to `m7`. -/
abbrev Master := BitVec 3

/-- A slave port of the matrix, `s0` to `s15`. -/
abbrev Slave := BitVec 4

/-- A priority level. -/
abbrev Level := BitVec 2

/-- `wb_conmax_arb`: the grant moves when its request is dropped or `next` is asserted. -/
def arbNext (state : Master) (req : Master → Bool) (next : Bool) : Master :=
  if !req state || next then ((RoundRobin.behind state).find? req).getD state else state

theorem arbNext_eq (state : Master) (req : Master → Bool) :
    arbNext state req false = RoundRobin.grant req state := by
  cases h : req state <;> simp [arbNext, RoundRobin.grant, h]

/-- `wb_conmax_pri_dec`: the level of a request, one hot. -/
def priDec (valid : Bool) (priIn : Level) : BitVec 4 :=
  if !valid then 0b0001
  else if priIn = 0 then 0b0001
  else if priIn = 1 then 0b0010
  else if priIn = 2 then 0b0100
  else 0b1000

/-- `wb_conmax_pri_enc`: the highest level that is requested. -/
def priEnc (valid : Master → Bool) (pri : Master → Level) : Level :=
  let tmp := priDec (valid 0) (pri 0) ||| priDec (valid 1) (pri 1) ||| priDec (valid 2) (pri 2) |||
    priDec (valid 3) (pri 3) ||| priDec (valid 4) (pri 4) ||| priDec (valid 5) (pri 5) |||
    priDec (valid 6) (pri 6) ||| priDec (valid 7) (pri 7)
  if tmp.getLsbD 3 then 3 else if tmp.getLsbD 2 then 2 else if tmp.getLsbD 1 then 1 else 0

/-- The level of a master in a configuration register: bits `2m+1` and `2m`. -/
def pri (conf : BitVec 16) (m : Master) : Level := conf.extractLsb' (2 * m.toNat) 2

/-- The request lines of a Wishbone port. -/
@[ext] structure WbReq where
  cyc : Bool
  stb : Bool
  adr : BitVec 32
  dat : BitVec 32
  sel : BitVec 4
  we : Bool
  deriving DecidableEq

/-- The answer lines of a Wishbone port. -/
structure WbAns where
  ack : Bool
  err : Bool
  rty : Bool
  dat : BitVec 32
  deriving DecidableEq

/-- The registers of `wb_conmax_slave_if`; `gnt p` is the state of the arbiter of level `p`. -/
structure SlaveIf where
  gnt : Level → Master
  priOut : Level
  next : Bool
  cycR : Master → Bool

namespace SlaveIf

/-- The registers out of reset: while it lasts, no `cyc` of the matrix is set. -/
def reset : SlaveIf := { gnt := fun _ => 0, priOut := 0, next := true, cycR := fun _ => false }

variable (s : SlaveIf) (conf : BitVec 16) (m : Master → WbReq) (wb : WbAns)

/-- `mast_sel`. -/
def mastSel : Master := s.gnt s.priOut

/-- `wb_cyc_o` to `wb_we_o`: the lines of the selected master, with `cyc` delayed by one cycle. -/
def wbO : WbReq := { m s.mastSel with cyc := (m s.mastSel).cyc && s.cycR s.mastSel }

/-- The answer lines to a master; every master sees the data. -/
def mO (i : Master) : WbAns where
  ack := decide (s.mastSel = i) && wb.ack
  err := decide (s.mastSel = i) && wb.err
  rty := decide (s.mastSel = i) && wb.rty
  dat := wb.dat

/-- The requests of one level. -/
def req (p : Level) (i : Master) : Bool := (m i).cyc && decide (pri conf i = p)

/-- One rising edge of the clock. -/
def clk : SlaveIf where
  gnt p := arbNext (s.gnt p) (req conf m p) false
  priOut := if s.next then priEnc (fun i => (m i).cyc) (pri conf) else s.priOut
  next := !(s.wbO m).cyc
  cycR i := (m i).cyc

end SlaveIf

/-! ### The highest level -/

theorem master_cases (m : Master) :
    m = 0 ∨ m = 1 ∨ m = 2 ∨ m = 3 ∨ m = 4 ∨ m = 5 ∨ m = 6 ∨ m = 7 := by
  revert m
  decide

theorem level_cases (p : Level) : p = 0 ∨ p = 1 ∨ p = 2 ∨ p = 3 := by
  revert p
  decide

/-- A request of level `p > 0` sets bit `p`, and no other level does. -/
theorem priDec_bit (valid : Bool) (priIn p : Level) (hp : p ≠ 0) :
    (priDec valid priIn).getLsbD p.toNat = (valid && decide (priIn = p)) := by
  revert valid priIn p
  decide

section Enc

variable {valid : Master → Bool} {pr : Master → Level}

/-- Some master requests at level `p`. -/
def Asks (valid : Master → Bool) (pr : Master → Level) (p : Level) : Prop :=
  ∃ m, valid m = true ∧ pr m = p

/-- The encoder as a chain of questions, from the highest level down. -/
theorem priEnc_eq (h : ∀ p, Decidable (Asks valid pr p)) :
    priEnc valid pr = if Asks valid pr 3 then 3 else if Asks valid pr 2 then 2
      else if Asks valid pr 1 then 1 else 0 := by
  have hbit : ∀ p : Level, p ≠ 0 →
      ((priDec (valid 0) (pr 0) ||| priDec (valid 1) (pr 1) ||| priDec (valid 2) (pr 2) |||
        priDec (valid 3) (pr 3) ||| priDec (valid 4) (pr 4) ||| priDec (valid 5) (pr 5) |||
        priDec (valid 6) (pr 6) ||| priDec (valid 7) (pr 7)).getLsbD p.toNat = true ↔
      Asks valid pr p) := by
    intro p hp
    simp only [BitVec.getLsbD_or, priDec_bit _ _ p hp, Bool.or_eq_true, Bool.and_eq_true,
      decide_eq_true_eq]
    constructor
    · rintro (((((((h | h) | h) | h) | h) | h) | h) | h) <;> exact ⟨_, h⟩
    · rintro ⟨m, h⟩
      rcases master_cases m with rfl | rfl | rfl | rfl | rfl | rfl | rfl | rfl <;>
        simp only [h, and_self, true_or, or_true]
  have h1 := hbit 1 (by decide)
  have h2 := hbit 2 (by decide)
  have h3 := hbit 3 (by decide)
  simp only [priEnc, ← h1, ← h2, ← h3]
  rfl

/-- The encoder's level is requested if anything is. -/
theorem priEnc_asks {m : Master} (h : valid m = true) : Asks valid pr (priEnc valid pr) := by
  classical
  have hm : Asks valid pr (pr m) := ⟨m, h, rfl⟩
  rw [priEnc_eq inferInstance]
  split_ifs with h3 h2 h1
  · exact h3
  · exact h2
  · exact h1
  · rcases level_cases (pr m) with hp | hp | hp | hp <;> rw [hp] at hm
    · exact hm
    · exact absurd hm h1
    · exact absurd hm h2
    · exact absurd hm h3

/-- No request has a higher level. -/
theorem le_priEnc {m : Master} (h : valid m = true) : pr m ≤ priEnc valid pr := by
  classical
  have hm : Asks valid pr (pr m) := ⟨m, h, rfl⟩
  rw [priEnc_eq inferInstance]
  rcases level_cases (pr m) with hp | hp | hp | hp <;> rw [hp] at hm ⊢ <;> split_ifs <;>
    decide

/-- A configuration register that is clear puts every master at level 0. -/
theorem priEnc_zero : priEnc valid (pri 0) = 0 := by
  have hz : ∀ v i, priDec v (pri 0 i) = 1 := by decide
  simp only [priEnc, hz]
  decide

end Enc

end DsdOrsoc.Conmax
